import Mathlib.Data.List.Basic

/-!
# Three-valued conditions

A condition is true, false or unknown. A conjunction is false as soon as one part is
false, a disjunction true as soon as one part is true; otherwise an unknown part makes
the whole unknown.

Results:
1. `ThreeValued.conj_eq_true`, `ThreeValued.disj_eq_true`: when the whole is true.
-/

namespace ThreeValued

variable {l : List (Option Bool)}

def conj (l : List (Option Bool)) : Option Bool :=
  if some false ∈ l then some false else if none ∈ l then none else some true

def disj (l : List (Option Bool)) : Option Bool :=
  if some true ∈ l then some true else if none ∈ l then none else some false

theorem conj_eq_true : conj l = some true ↔ ∀ x ∈ l, x = some true := by
  unfold conj
  split
  · next hfalse => exact iff_of_false nofun fun h => nomatch h _ hfalse
  · next hfalse =>
    split
    · next hnone => exact iff_of_false nofun fun h => nomatch h _ hnone
    · next hnone =>
      refine iff_of_true rfl fun x hx => ?_
      match x with
      | some true => rfl
      | some false => exact absurd hx hfalse
      | none => exact absurd hx hnone

theorem disj_eq_true : disj l = some true ↔ some true ∈ l := by
  unfold disj
  split
  · next htrue => exact iff_of_true rfl htrue
  · next htrue => split <;> exact iff_of_false nofun htrue

end ThreeValued
