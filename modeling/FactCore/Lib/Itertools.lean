import Mathlib.Data.List.Pairwise
import Mathlib.Data.List.Range

/-!
# Parts of lists

The pairs of a list (`itertools.combinations`), and its parts of equal length
(`more_itertools.chunked`).

Results:
1. `forall_combinationsTwo_iff`, `mem_of_mem_combinationsTwo`: the pairs of a list.
2. `length_partsOf`, `flatten_partsOf`: the parts of a list make it up.
-/

variable {α : Type} {l : List α} {n : Nat}

/-! ## 1. Pairs -/

/-- `itertools.combinations(l, 2)`. -/
def combinationsTwo : List α → List (α × α)
  | [] => []
  | x :: xs => xs.map (fun y => (x, y)) ++ combinationsTwo xs

theorem forall_combinationsTwo_iff {R : α → α → Prop} :
    (∀ p ∈ combinationsTwo l, R p.1 p.2) ↔ l.Pairwise R := by
  induction l with
  | nil => simp [combinationsTwo]
  | cons x xs ih =>
    simp only [combinationsTwo, List.forall_mem_append, List.forall_mem_map, List.pairwise_cons, ih]

theorem mem_of_mem_combinationsTwo {pair : α × α} (h : pair ∈ combinationsTwo l) :
    pair.1 ∈ l ∧ pair.2 ∈ l := by
  induction l with
  | nil => cases h
  | cons x xs ih =>
    rcases List.mem_append.mp h with h | h
    · obtain ⟨y, hy, rfl⟩ := List.mem_map.mp h
      exact ⟨List.mem_cons_self, List.mem_cons_of_mem x hy⟩
    · exact ⟨List.mem_cons_of_mem x (ih h).1, List.mem_cons_of_mem x (ih h).2⟩

/-! ## 2. Parts of equal length -/

/-- The parts of `n` elements; the last one may be shorter. -/
def partsOf (n : Nat) (l : List α) : List (List α) :=
  (List.range ((l.length + n - 1) / n)).map fun i => (l.drop (i * n)).take n

/-- A function that cuts lists into parts of equal length, as `more_itertools.chunked` does. -/
structure Chunker (α : Type) where
  chunked : List α → Nat → List (List α)
  chunked_eq : ∀ l n, 0 < n → chunked l n = partsOf n l

/-- The function itself. -/
def Chunker.exact : Chunker α where
  chunked l n := partsOf n l
  chunked_eq _ _ _ := rfl

theorem length_partsOf : (partsOf n l).length = (l.length + n - 1) / n := by
  rw [partsOf, List.length_map, List.length_range]

/-- The first parts make up the front of the list. -/
theorem flatten_take_parts (n k : Nat) (l : List α) :
    ((List.range k).map fun i => (l.drop (i * n)).take n).flatten = l.take (k * n) := by
  induction k with
  | zero => simp
  | succ k ih =>
    rw [List.range_succ, List.map_append, List.flatten_append, ih, List.map_singleton,
      List.flatten_singleton, Nat.succ_mul, List.take_add]

theorem flatten_partsOf (hn : 0 < n) (l : List α) : (partsOf n l).flatten = l := by
  rw [partsOf, flatten_take_parts]
  refine List.take_of_length_le ?_
  have hdiv := Nat.div_add_mod (l.length + n - 1) n
  have hmod := Nat.mod_lt (l.length + n - 1) hn
  rw [Nat.mul_comm] at hdiv
  omega
