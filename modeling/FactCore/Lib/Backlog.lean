import Mathlib.Data.List.Basic

/-!
# Queues whose elements refer to each other

An element of a queue has a key, and names keys that have to be settled when its turn
comes. Its turn settles its own key. The queue is in order if every element names only
keys that are settled by then: those that are settled from the start, and those of the
elements before it.

A queue between processes hands out what one sender has put into it in this order, and
what different senders have put into it in any.

Results:
1. `receives_head`: the oldest element can always be received.
2. `InOrder.needs_known`: what an element needs when it is taken.
3. `InOrder.mono`, `InOrder.taken`, `inOrder_concat`: what the operations of a queue do to
   the order.
4. `Known.mono`: what is known about a key is not lost when elements are taken.
-/

namespace Backlog

variable {α κ ς : Type} (key : α → κ) (needs : α → List κ)

/-- A receiver gets the element at the position `i` of the queue. It leaves none behind that its
sender has put in before. -/
structure Receives (sender : α → ς) (queue : List α) (i : Nat) (x : α) : Prop where
  get : queue[i]? = some x
  first : ∀ y ∈ queue.take i, sender y ≠ sender x

/-- The key is settled, or it is the key of an element of the queue. -/
def Known (settled : κ → Prop) (queue : List α) (u : κ) : Prop :=
  settled u ∨ ∃ x ∈ queue, key x = u

/-- Every element names only keys that are settled when its turn comes. -/
def InOrder : (κ → Prop) → List α → Prop
  | _, [] => True
  | settled, x :: queue =>
    (∀ u ∈ needs x, settled u) ∧ InOrder (fun u => settled u ∨ u = key x) queue

variable {key needs} {settled settled' : κ → Prop} {queue queue' : List α} {x : α} {u : κ}

theorem Known.mono (h : Known key settled queue u) (hsettled : ∀ u, settled u → settled' u)
    (hqueue : ∀ x ∈ queue, Known key settled' queue' (key x)) : Known key settled' queue' u := by
  rcases h with h | ⟨x, hx, rfl⟩
  · exact .inl (hsettled u h)
  · exact hqueue x hx

theorem known_nil : Known key settled [] u ↔ settled u := by simp [Known]

theorem InOrder.mono (h : InOrder key needs settled queue) (hsettled : ∀ u, settled u → settled' u) :
    InOrder key needs settled' queue := by
  induction queue generalizing settled settled' with
  | nil => trivial
  | cons x queue ih =>
    exact ⟨fun u hu => hsettled u (h.1 u hu), ih h.2 fun u hu => hu.imp_left (hsettled u)⟩

theorem receives_head {sender : α → ς} : Receives sender (x :: queue) 0 x :=
  ⟨rfl, fun _ h => absurd h List.not_mem_nil⟩

theorem mem_or_mem_eraseIdx {i : Nat} {y : α} (hget : queue[i]? = some x) (hy : y ∈ queue) :
    y = x ∨ y ∈ queue.eraseIdx i := by
  obtain ⟨j, hj⟩ := List.mem_iff_getElem?.mp hy
  rcases Decidable.em (j = i) with rfl | hne
  · exact .inl (Option.some.inj (hj.symm.trans hget))
  · exact .inr (List.mem_eraseIdx_iff_getElem?.mpr ⟨j, hne, hj⟩)

/-- What an element needs is settled, but for the elements that it leaves behind. -/
theorem InOrder.needs_known {i : Nat} (h : InOrder key needs settled queue)
    (hget : queue[i]? = some x) : ∀ u ∈ needs x, Known key settled (queue.take i) u := by
  induction queue generalizing i settled with
  | nil => cases hget
  | cons y queue ih =>
    cases i with
    | zero =>
      obtain rfl : y = x := by simpa using hget
      exact fun u hu => .inl (h.1 u hu)
    | succ i =>
      intro u hu
      rw [List.take_succ_cons]
      rcases ih h.2 (by simpa using hget) u hu with (hsettled | rfl) | ⟨z, hz, rfl⟩
      · exact .inl hsettled
      · exact .inr ⟨y, List.mem_cons_self, rfl⟩
      · exact .inr ⟨z, List.mem_cons_of_mem _ hz, rfl⟩

/-- An element is taken, from wherever it stands. -/
theorem InOrder.taken {i : Nat} (h : InOrder key needs settled queue) (hget : queue[i]? = some x)
    (hsettled : ∀ u, settled u → settled' u) (hx : settled' (key x)) :
    InOrder key needs settled' (queue.eraseIdx i) := by
  induction queue generalizing i settled settled' with
  | nil => cases hget
  | cons y queue ih =>
    cases i with
    | zero =>
      obtain rfl : y = x := by simpa using hget
      refine h.2.mono fun u hu => ?_
      rcases hu with hu | rfl
      · exact hsettled u hu
      · exact hx
    | succ i =>
      exact ⟨fun u hu => hsettled u (h.1 u hu),
        ih h.2 (by simpa using hget) (fun u hu => hu.imp_left (hsettled u)) (.inl hx)⟩

/-- An element is put at the end. -/
theorem inOrder_concat : InOrder key needs settled (queue ++ [x]) ↔
    InOrder key needs settled queue ∧ ∀ u ∈ needs x, Known key settled queue u := by
  induction queue generalizing settled with
  | nil => simp [InOrder, known_nil]
  | cons y queue ih =>
    have hknown : ∀ u, Known key (fun u => settled u ∨ u = key y) queue u ↔
        Known key settled (y :: queue) u := by
      intro u
      simp only [Known, List.exists_mem_cons_iff, or_assoc]
      rw [@eq_comm κ u]
    simp only [List.cons_append, InOrder, ih, hknown, and_assoc]

end Backlog
