import Mathlib.Data.List.Nodup

/-!
# Pairs of neighbours

The matches of a regular expression that reads one fixed element and then one of a set.
When the fixed one is not in the set, every place where two such neighbours stand is a
match, so the matches of a list are those of its parts and those at the seams.
-/

variable {α : Type} [DecidableEq α] {a : α} {p : α → Bool}

/-- `re.finditer` for `a` and an element that `p` accepts: where the matches begin, and their second
elements. -/
def findPairs (a : α) (p : α → Bool) : Nat → List α → List (Nat × α)
  | pos, x :: y :: rest =>
    if x = a ∧ p y = true then (pos, y) :: findPairs a p (pos + 2) rest
    else findPairs a p (pos + 1) (y :: rest)
  | _, _ => []

/-- The match that begins at an element, by what comes next. -/
def pairAt (a : α) (p : α → Bool) (pos : Nat) (x : α) : Option α → List (Nat × α)
  | some y => if x = a ∧ p y = true then [(pos, y)] else []
  | none => []

/-- The matches that begin in a list after which `next` comes. -/
def pairs (a : α) (p : α → Bool) : Nat → List α → Option α → List (Nat × α)
  | _, [], _ => []
  | pos, x :: rest, next => pairAt a p pos x (rest.head?.or next) ++ pairs a p (pos + 1) rest next

theorem pairAt_some (pos : Nat) (x y : α) :
    pairAt a p pos x (some y) = if x = a ∧ p y = true then [(pos, y)] else [] := rfl

theorem findPairs_eq_pairs (h : p a = false) (pos : Nat) (xs : List α) :
    findPairs a p pos xs = pairs a p pos xs none := by
  fun_induction findPairs a p pos xs with
  | case1 pos x y rest hmatch ih =>
    have hne : ¬(y = a ∧ True) := by
      intro hy
      rw [← hy.1, hmatch.2] at h
      cases h
    have hskip : pairAt a p (pos + 1) y (rest.head?.or none) = [] := by
      cases rest with
      | nil => rfl
      | cons z rest => exact if_neg fun hy => hne ⟨hy.1, trivial⟩
    rw [pairs, pairs, hskip, ih, List.head?_cons, Option.some_or, pairAt_some, if_pos hmatch]
    rfl
  | case2 pos x y rest hmatch ih =>
    rw [pairs, ih, List.head?_cons, Option.some_or, pairAt_some, if_neg hmatch]
    rfl
  | case3 xs pos hshort =>
    rcases xs with _ | ⟨x, _ | ⟨y, rest⟩⟩
    · rfl
    · rfl
    · exact absurd rfl (hshort x y rest)

theorem pairs_append (pos : Nat) (xs ys : List α) (next : Option α) :
    pairs a p pos (xs ++ ys) next =
      pairs a p pos xs (ys.head?.or next) ++ pairs a p (pos + xs.length) ys next := by
  induction xs generalizing pos with
  | nil => rfl
  | cons x xs ih =>
    rw [List.cons_append, pairs, pairs, ih, List.head?_append, Option.or_assoc, List.append_assoc,
      List.length_cons, Nat.add_right_comm, Nat.add_assoc]

theorem pairs_of_not_mem {pos : Nat} {xs : List α} (h : a ∉ xs) (next : Option α) :
    pairs a p pos xs next = [] := by
  induction xs generalizing pos with
  | nil => rfl
  | cons x xs ih =>
    rw [List.mem_cons, not_or] at h
    rw [pairs, ih h.2, List.append_nil]
    cases xs.head?.or next with
    | none => rfl
    | some y => exact if_neg fun hy => h.1 hy.1.symm

/-- What comes after a list can add a match at its end. -/
theorem pairs_none_append (pos : Nat) (xs : List α) (next : Option α) :
    ∃ seam, pairs a p pos xs next = pairs a p pos xs none ++ seam := by
  rcases List.eq_nil_or_concat xs with rfl | ⟨ys, y, rfl⟩
  · exact ⟨[], rfl⟩
  · rw [List.concat_eq_append, pairs_append, pairs_append]
    exact ⟨pairs a p (pos + ys.length) [y] next, by simp [pairs, pairAt]⟩

/-- Only the places depend on where the list begins. -/
theorem pairs_add (pos k : Nat) (xs : List α) (next : Option α) :
    pairs a p (pos + k) xs next = (pairs a p pos xs next).map fun e => (e.1 + k, e.2) := by
  induction xs generalizing pos with
  | nil => rfl
  | cons x xs ih =>
    have hat : pairAt a p (pos + k) x (xs.head?.or next) =
        (pairAt a p pos x (xs.head?.or next)).map fun e => (e.1 + k, e.2) := by
      cases xs.head?.or next with
      | none => rfl
      | some y =>
        rw [pairAt_some, pairAt_some]
        split <;> rfl
    rw [pairs, pairs, List.map_append, hat, Nat.add_right_comm, ih]

theorem le_of_mem_pairs {pos : Nat} {xs : List α} {next : Option α} {e : Nat × α}
    (h : e ∈ pairs a p pos xs next) : pos ≤ e.1 := by
  induction xs generalizing pos with
  | nil => cases h
  | cons x xs ih =>
    rw [pairs, List.mem_append] at h
    rcases h with h | h
    · cases hnext : xs.head?.or next with
      | none =>
        rw [hnext] at h
        cases h
      | some y =>
        rw [hnext, pairAt_some] at h
        split at h
        · cases List.mem_singleton.mp h
          exact Nat.le_refl pos
        · cases h
    · exact Nat.le_of_succ_le (ih h)

/-- No two matches begin at one place. -/
theorem nodup_pairs (pos : Nat) (xs : List α) (next : Option α) :
    ((pairs a p pos xs next).map Prod.fst).Nodup := by
  induction xs generalizing pos with
  | nil => exact List.nodup_nil
  | cons x xs ih =>
    rw [pairs]
    cases xs.head?.or next with
    | none => exact ih (pos + 1)
    | some y =>
      rw [pairAt_some]
      split
      · refine List.nodup_cons.mpr ⟨fun h => ?_, ih (pos + 1)⟩
        obtain ⟨e, he, heq⟩ := List.mem_map.mp h
        have hle := le_of_mem_pairs he
        rw [heq] at hle
        exact Nat.not_succ_le_self pos hle
      · exact ih (pos + 1)
