import Mathlib.Logic.Basic

/-!
# Loops that an exception stops

A loop takes a state through a list of items. The state says whether an exception is
pending, and then the rest of the list is not visited: what the earlier rounds have
done stays done.

Results:
1. `forEach_invariant`: what every round keeps holds at the end, wherever the loop
   stops.
2. `forEach_establishes`: if every round raises nothing and does its item, and no
   later round undoes it, then the loop raises nothing and does all items.
-/

variable {σ α : Type}

/-- One round for each item, until an exception is pending. -/
def forEach (raised : σ → Bool) (step : σ → α → σ) : σ → List α → σ
  | s, [] => s
  | s, x :: xs => if raised s then s else forEach raised step (step s x) xs

section ForEach
variable {raised : σ → Bool} {step : σ → α → σ} {s : σ} {xs : List α}

theorem forEach_invariant {I : σ → Prop}
    (hstep : ∀ s, ∀ x ∈ xs, raised s = false → I s → I (step s x)) (hs : I s) :
    I (forEach raised step s xs) := by
  induction xs generalizing s with
  | nil => exact hs
  | cons x xs ih =>
    rw [forEach]
    split
    · exact hs
    · next hno =>
      refine ih (fun s y hy => hstep s y (List.mem_cons_of_mem x hy)) ?_
      exact hstep s x List.mem_cons_self (Bool.eq_false_iff.mpr hno) hs

variable (raised step) in
theorem forEach_establishes {I : σ → Prop} {P : α → σ → Prop}
    (hkeeps : ∀ s, ∀ x ∈ xs, ∀ y ∈ xs, I s → P y s → P y (step s x))
    (hstep : ∀ s, ∀ x ∈ xs, I s → I (step s x) ∧ raised (step s x) = false ∧ P x (step s x))
    (hs : I s) (hno : raised s = false) :
    I (forEach raised step s xs) ∧ raised (forEach raised step s xs) = false ∧
      ∀ x ∈ xs, P x (forEach raised step s xs) := by
  induction xs generalizing s with
  | nil => exact ⟨hs, hno, fun x hx => absurd hx List.not_mem_nil⟩
  | cons x xs ih =>
    obtain ⟨hI, hraised, hdone⟩ := hstep s x List.mem_cons_self hs
    rw [forEach, hno, if_neg Bool.false_ne_true]
    obtain ⟨hI', hraised', hall⟩ := ih
      (fun s y hy z hz => hkeeps s y (List.mem_cons_of_mem x hy) z (List.mem_cons_of_mem x hz))
      (fun s y hy => hstep s y (List.mem_cons_of_mem x hy)) hI hraised
    refine ⟨hI', hraised', List.forall_mem_cons.mpr ⟨?_, hall⟩⟩
    -- the later rounds keep what the first one has done
    have hlater : I (forEach raised step (step s x) xs) ∧ P x (forEach raised step (step s x) xs) :=
      forEach_invariant (I := fun s => I s ∧ P x s) (fun s y hy _ h =>
        have hy := List.mem_cons_of_mem x hy
        ⟨(hstep s y hy h.1).1, hkeeps s y hy x List.mem_cons_self h.1 h.2⟩) ⟨hI, hdone⟩
    exact hlater.2

end ForEach
