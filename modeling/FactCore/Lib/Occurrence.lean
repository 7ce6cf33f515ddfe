import Mathlib.Data.List.Infix

/-!
# Contiguous occurrences

Where one list stands in another, and what is left of that when the search gives up
after the first position that holds the first element.
-/

variable {α : Type} {a : α} {p w : List α} {i n : ℕ}

/-- The list `p` stands in `w` from position `i` on. -/
def OccursAt (p w : List α) (i : ℕ) : Prop := p <+: w.drop i

instance [DecidableEq α] : Decidable (OccursAt p w i) :=
  inferInstanceAs (Decidable (p <+: w.drop i))

/-- It occurs there, and no position before holds its first element. -/
def OccursFirst (p w : List α) (i : ℕ) : Prop := OccursAt p w i ∧ ∀ j < i, w[j]? ≠ p.head?

theorem occursAt_cons : OccursAt (a :: p) w i ↔ w[i]? = some a ∧ p <+: w.drop (i + 1) := by
  unfold OccursAt
  rcases lt_or_ge i w.length with hi | hi
  · rw [List.drop_eq_getElem_cons hi, List.cons_prefix_cons, List.getElem?_eq_getElem hi,
      Option.some.injEq, eq_comm]
  · rw [List.drop_eq_nil_of_le hi, List.getElem?_eq_none hi]
    exact iff_of_false (by simp) (by simp)

theorem occursAt_nil : OccursAt [] w i := List.nil_prefix

/-- Element by element. -/
theorem occursAt_cons_iff : OccursAt (a :: p) w i ↔ w[i]? = some a ∧ OccursAt p w (i + 1) :=
  occursAt_cons

theorem OccursAt.length_le (h : OccursAt p w i) (hne : p ≠ []) : i + p.length ≤ w.length := by
  have hlen := List.IsPrefix.length_le h
  have hpos := List.length_pos_iff.mpr hne
  rw [List.length_drop] at hlen
  omega

/-- The first position of the first element decides. -/
theorem exists_occursFirst_iff (hi : w[i]? = some a) (hfirst : ∀ j < i, w[j]? ≠ some a)
    (hin : i < n) : (∃ j < n, OccursFirst (a :: p) w j) ↔ p <+: w.drop (i + 1) := by
  constructor
  · rintro ⟨j, -, hoccurs, hnone⟩
    obtain ⟨hj, hrest⟩ := occursAt_cons.mp hoccurs
    obtain rfl : j = i := by
      rcases lt_trichotomy j i with hlt | heq | hgt
      · exact absurd hj (hfirst j hlt)
      · exact heq
      · exact absurd hi (hnone i hgt)
    exact hrest
  · exact fun hrest => ⟨i, hin, occursAt_cons.mpr ⟨hi, hrest⟩, hfirst⟩

/-- `w.index(p)`, `none` where it raises a `ValueError`. -/
def firstOccurrence [DecidableEq α] (p w : List α) : Option ℕ :=
  (List.range (w.length + 1)).find? fun i => decide (OccursAt p w i)

theorem firstOccurrence_eq_some [DecidableEq α] (hi : i ≤ w.length) (h : OccursAt p w i)
    (hfirst : ∀ j < i, ¬OccursAt p w j) : firstOccurrence p w = some i := by
  rw [firstOccurrence, List.find?_range_eq_some]
  refine ⟨by simpa using h, List.mem_range.mpr (Nat.lt_succ_of_le hi), fun j hj => ?_⟩
  simpa using hfirst j hj
