import Mathlib.Logic.Function.Basic

/-!
# Exclusive ownership

Owners hold cells. The ownership is exclusive when no cell has two owners. It stays
exclusive when owners give cells up, when they are renamed, and when one of them
takes cells that nobody held.

Results:
1. `Exclusive.mono`, `Exclusive.comap`: less ownership, and renamed owners.
2. `Exclusive.transfer`, `Exclusive.take`: an owner that takes free cells.
-/

variable {ω ω' ρ : Type}

/-- No cell is held by two owners. -/
def Exclusive (holds : ω → ρ → Prop) : Prop := ∀ o o' r, holds o r → holds o' r → o = o'

namespace Exclusive

variable {holds holds' : ω → ρ → Prop}

theorem mono (h : Exclusive holds) (hsub : ∀ o r, holds' o r → holds o r) : Exclusive holds' :=
  fun o o' r ho ho' => h o o' r (hsub o r ho) (hsub o' r ho')

/-- Owners can be renamed. -/
theorem comap {f : ω' → ω} (hf : Function.Injective f) {holds' : ω' → ρ → Prop}
    (h : Exclusive holds) (hsub : ∀ o r, holds' o r → holds (f o) r) : Exclusive holds' :=
  fun o o' r ho ho' => hf (h _ _ r (hsub o r ho) (hsub o' r ho'))

/-- Owners are renamed, and one of them takes cells that nobody held. -/
theorem transfer {f : ω' → ω} (hf : Function.Injective f) {holds' : ω' → ρ → Prop} {o₀ : ω'}
    (h : Exclusive holds)
    (hfrom : ∀ o r, holds' o r → holds (f o) r ∨ o = o₀ ∧ ∀ o', ¬ holds o' r) :
    Exclusive holds' := by
  intro o o' r ho ho'
  rcases hfrom o r ho with hold | ⟨heq, hfree⟩ <;> rcases hfrom o' r ho' with hold' | ⟨heq', hfree'⟩
  · exact hf (h _ _ r hold hold')
  · exact absurd hold (hfree' _)
  · exact absurd hold' (hfree _)
  · rw [heq, heq']

/-- One owner takes cells that nobody held. -/
theorem take {o₀ : ω} (h : Exclusive holds) (hothers : ∀ o r, o ≠ o₀ → holds' o r → holds o r)
    (hnew : ∀ r, holds' o₀ r → ∀ o, ¬ holds o r) : Exclusive holds' := by
  have hfrom : ∀ o r, holds' o r → holds (id o) r ∨ o = o₀ ∧ ∀ o', ¬ holds o' r := by
    intro o r ho
    by_cases heq : o = o₀
    · exact .inr ⟨heq, hnew r (heq ▸ ho)⟩
    · exact .inl (hothers o r heq ho)
  exact h.transfer Function.injective_id hfrom

end Exclusive
