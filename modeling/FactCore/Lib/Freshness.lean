import Mathlib.Logic.Function.Basic
import Mathlib.Order.Basic

/-!
# Fresh results

Results are computed from each other and carry dates. A result is fresh when it is
there and nothing that it was computed from has a later date.

Results:
1. `fresh_update_self`: a result that is as late as all others is fresh.
2. `Fresh.update_of_not_dependsOn`: a new result leaves those fresh that do not depend
   on it.
-/

variable {κ τ : Type} {dependsOn : κ → κ → Prop} {date : κ → Option τ} {k k' : κ} {t : τ}

/-- The result `k` is there, and no result that it depends on is later. -/
def Fresh [LE τ] (dependsOn : κ → κ → Prop) (date : κ → Option τ) (k : κ) : Prop :=
  ∃ t, date k = some t ∧ ∀ d, dependsOn k d → ∀ t', date d = some t' → t' ≤ t

theorem fresh_update_self [Preorder τ] [DecidableEq κ]
    (h : ∀ d t', date d = some t' → t' ≤ t) :
    Fresh dependsOn (Function.update date k (some t)) k := by
  refine ⟨t, Function.update_self k (some t) date, fun d _ t' ht' => ?_⟩
  rcases Decidable.em (d = k) with rfl | hne
  · rw [Function.update_self] at ht'
    exact le_of_eq (Option.some.inj ht').symm
  · rw [Function.update_of_ne hne] at ht'
    exact h d t' ht'

theorem Fresh.update_of_not_dependsOn [LE τ] [DecidableEq κ] {new : Option τ}
    (h : Fresh dependsOn date k) (hne : k ≠ k') (hfree : ¬ dependsOn k k') :
    Fresh dependsOn (Function.update date k' new) k := by
  obtain ⟨t, ht, hdeps⟩ := h
  refine ⟨t, (Function.update_of_ne hne new date).trans ht, fun d hd t' ht' => ?_⟩
  have hother : d ≠ k' := fun heq => hfree (heq ▸ hd)
  rw [Function.update_of_ne hother] at ht'
  exact hdeps d hd t' ht'
