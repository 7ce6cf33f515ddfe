import Mathlib.Order.Nat
import Mathlib.Data.List.Basic

/-!
# Ring buffers

A buffer with a fixed number of cells that are written one after the other. Behind the last
cell it goes on with the first, so that a full buffer loses the oldest entry.

Results:
1. `view_push`: what a new entry does to the entries in order.
2. `view_pushAll`, `index_pushAll`: the cells and the place of the next entry after any
   number of entries.
3. `perm_pushAll`, `take_pushAll`: a full buffer holds the last entries, another one all of them.
-/

/-- The cells and the place of the next entry. -/
structure RingBuffer (α : Type) where
  cells : List α
  index : ℕ
  inRange : index < cells.length

namespace RingBuffer

variable {α : Type}

def push (r : RingBuffer α) (x : α) : RingBuffer α where
  cells := r.cells.set r.index x
  index := (r.index + 1) % r.cells.length
  inRange := by
    rw [List.length_set]
    exact Nat.mod_lt _ (Nat.zero_lt_of_lt r.inRange)

def pushAll (r : RingBuffer α) (xs : List α) : RingBuffer α := xs.foldl push r

/-- The cells, the one that is written next first. -/
def view (r : RingBuffer α) : List α := r.cells.drop r.index ++ r.cells.take r.index

variable {r : RingBuffer α}

theorem length_push (x : α) : (r.push x).cells.length = r.cells.length := List.length_set

theorem length_pushAll (xs : List α) : (r.pushAll xs).cells.length = r.cells.length := by
  induction xs generalizing r with
  | nil => rfl
  | cons x xs ih => exact (ih (r := r.push x)).trans (length_push x)

theorem length_view : r.view.length = r.cells.length := by
  rw [view, List.length_append, List.length_drop, List.length_take]
  have hlt := r.inRange
  omega

theorem perm_view (r : RingBuffer α) : r.cells.Perm r.view := by
  have hperm : (r.cells.take r.index ++ r.cells.drop r.index).Perm r.view := List.perm_append_comm
  rwa [List.take_append_drop] at hperm

/-- The oldest entry makes room for the new one. -/
theorem view_push (x : α) : (r.push x).view = r.view.tail ++ [x] := by
  have hlt := r.inRange
  have hview : r.view.tail ++ [x] = r.cells.drop (r.index + 1) ++ (r.cells.take r.index ++ [x]) := by
    rw [view, List.drop_eq_getElem_cons hlt, List.cons_append, List.tail_cons, List.append_assoc]
  have hcells : (r.push x).cells = (r.cells.take r.index ++ [x]) ++ r.cells.drop (r.index + 1) := by
    show r.cells.set r.index x = _
    rw [List.set_eq_take_append_cons_drop, if_pos hlt, List.append_assoc]
    rfl
  have hlength : (r.cells.take r.index ++ [x]).length = r.index + 1 := by
    rw [List.length_append, List.length_take, Nat.min_eq_left hlt.le]
    rfl
  rw [hview, view, hcells]
  rcases Nat.lt_or_eq_of_le (Nat.succ_le_of_lt hlt) with hnext | hlast
  · have hindex : (r.push x).index = (r.cells.take r.index ++ [x]).length := by
      rw [hlength]
      exact Nat.mod_eq_of_lt hnext
    rw [hindex, List.drop_left, List.take_left]
  · have hindex : (r.push x).index = 0 := by
      show (r.index + 1) % r.cells.length = 0
      rw [← hlast]
      exact Nat.mod_self _
    have hnone : r.cells.drop (r.index + 1) = [] := List.drop_eq_nil_of_le hlast.ge
    rw [hindex, hnone]
    simp

theorem view_pushAll (xs : List α) : (r.pushAll xs).view = (r.view ++ xs).drop xs.length := by
  induction xs generalizing r with
  | nil => simp [pushAll]
  | cons x xs ih =>
    have hne : r.view ≠ [] := by
      rw [← List.length_pos_iff, length_view]
      exact Nat.zero_lt_of_lt r.inRange
    obtain ⟨y, ys, hview⟩ := List.exists_cons_of_ne_nil hne
    have hstep := ih (r := r.push x)
    rw [view_push, hview] at hstep
    refine hstep.trans ?_
    rw [hview]
    simp

theorem index_pushAll (xs : List α) :
    (r.pushAll xs).index = (r.index + xs.length) % r.cells.length := by
  induction xs generalizing r with
  | nil => exact (Nat.mod_eq_of_lt r.inRange).symm
  | cons x xs ih =>
    refine (ih (r := r.push x)).trans ?_
    rw [length_push, push, Nat.mod_add_mod, List.length_cons, Nat.add_assoc, Nat.add_comm 1]

/-- A new buffer. -/
def replicate (n : ℕ) (h : 0 < n) (x : α) : RingBuffer α where
  cells := List.replicate n x
  index := 0
  inRange := by rwa [List.length_replicate]

variable {n : ℕ} {h : 0 < n} {x : α}

theorem view_replicate : (replicate n h x).view = List.replicate n x := List.append_nil _

/-- A full buffer holds the last entries. -/
theorem perm_pushAll (h : 0 < n) (x : α) {xs : List α} (hfull : n ≤ xs.length) :
    ((replicate n h x).pushAll xs).cells.Perm (xs.drop (xs.length - n)) := by
  refine (perm_view _).trans ?_
  rw [view_pushAll, view_replicate, List.drop_append, List.length_replicate,
    List.drop_eq_nil_of_le (by rwa [List.length_replicate]), List.nil_append]

/-- The front of another buffer holds all entries. -/
theorem take_pushAll (h : 0 < n) (x : α) {xs : List α} (hfront : xs.length < n) :
    ((replicate n h x).pushAll xs).cells.take xs.length = xs := by
  have hindex : ((replicate n h x).pushAll xs).index = xs.length := by
    rw [index_pushAll]
    show (0 + xs.length) % (List.replicate n x).length = xs.length
    rw [Nat.zero_add, List.length_replicate, Nat.mod_eq_of_lt hfront]
  have hview := view_pushAll (r := replicate n h x) xs
  rw [view, hindex, view_replicate, List.drop_append_of_le_length
    (by rw [List.length_replicate]; exact hfront.le)] at hview
  refine List.append_inj_right hview ?_
  rw [List.length_drop, List.length_drop, length_pushAll]
  rfl

end RingBuffer
