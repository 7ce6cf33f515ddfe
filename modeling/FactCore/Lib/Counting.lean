import FactCore.Lib.Joins
import FactCore.Lib.StableSort
import Mathlib.Algebra.BigOperators.Group.Finset.Basic
import Mathlib.Algebra.BigOperators.Group.Finset.Piecewise
import Mathlib.Algebra.BigOperators.Group.List.Lemmas
import Mathlib.Algebra.Order.BigOperators.Group.Finset
import Mathlib.Algebra.Ring.Nat
import Mathlib.Data.Prod.Lex

/-!
# Counting rows

The aggregates of a query over a join, and the tally of a list: every value once, with its
number of occurrences, the rarest first.

A join has a row for every pair of partners. Summing over its rows is summing over the
partners of every row of the right table, and a row of the left table is counted as often
as it has partners.

Results:
1. `sum_inner`, `countP_inner`: the aggregates of a join, table by table.
2. `sum_card_eq_card_biUnion_iff`: sets that are counted one by one are counted twice
   where they overlap.
3. `isTally_tally`: what the tally of a list is.
-/

namespace Counting

variable {α β κ : Type}

/-! ## 1. Joins -/

/-- The rows of a join, in the order of the right table. -/
theorem inner_perm (on : α → β → Bool) (left : List α) (right : List β) :
    (Joins.inner on left right).Perm
      (right.flatMap fun b => (left.filter fun a => on a b).map fun a => (a, b)) := by
  induction left with
  | nil => simp [Joins.inner]
  | cons a left ih =>
    have hfirst : (right.filter (on a)).map (fun b => (a, b)) =
        right.flatMap fun b => if on a b then [(a, b)] else [] := by
      clear ih
      induction right with
      | nil => rfl
      | cons b right ih => by_cases hon : on a b <;> simp [hon, ih]
    have hsplit : ∀ b, ((a :: left).filter fun a => on a b).map (fun a => (a, b)) =
        (if on a b then [(a, b)] else []) ++ (left.filter fun a => on a b).map fun a => (a, b) := by
      intro b
      by_cases hon : on a b <;> simp [hon]
    have hcons : Joins.inner on (a :: left) right =
        (right.filter (on a)).map (fun b => (a, b)) ++ Joins.inner on left right := rfl
    rw [hcons, hfirst, List.flatMap_congr fun b _ => hsplit b]
    exact (ih.append_left _).trans (List.flatMap_append_perm _ _ _)

/-- A sum over the rows of a join. -/
theorem sum_inner (on : α → β → Bool) (left : List α) (right : List β) (f : α → ℕ) :
    ((Joins.inner on left right).map fun row => f row.1).sum =
      (right.map fun b => ((left.filter fun a => on a b).map f).sum).sum := by
  rw [((inner_perm on left right).map _).sum_eq, List.map_flatMap, List.flatMap_def,
    List.sum_flatten, List.map_map]
  simp only [List.map_map, Function.comp_def]

/-- The number of rows of a join that meet a condition. -/
theorem countP_inner (on : α → β → Bool) (left : List α) (right : List β) (p : α → β → Bool) :
    (Joins.inner on left right).countP (fun row => p row.1 row.2) =
      (right.map fun b => left.countP fun a => p a b && on a b).sum := by
  rw [(inner_perm on left right).countP_eq, List.countP_flatMap]
  simp only [Function.comp_def, List.countP_map, List.countP_filter]

/-! ## 2. Sets that are counted one by one -/

theorem sum_card_eq_card_biUnion_iff [DecidableEq α] (s : Finset β) (t : β → Finset α) :
    ∑ b ∈ s, (t b).card = (s.biUnion t).card ↔ (s : Set β).PairwiseDisjoint t := by
  classical
  constructor
  · induction s using Finset.induction_on with
    | empty => simp
    | insert b s hb ih =>
      intro hsum
      rw [Finset.sum_insert hb, Finset.biUnion_insert] at hsum
      have hle := Finset.card_biUnion_le (s := s) (t := t)
      have hunion := Finset.card_union_add_card_inter (t b) (s.biUnion t)
      -- no element is lost, neither among the others nor between them and `b`
      have hrest : ∑ b ∈ s, (t b).card = (s.biUnion t).card := by omega
      have hinter : t b ∩ s.biUnion t = ∅ := Finset.card_eq_zero.mp (by omega)
      rw [Finset.coe_insert, Set.pairwiseDisjoint_insert_of_notMem (by exact_mod_cast hb)]
      refine ⟨ih hrest, fun c hc => ?_⟩
      exact (Finset.disjoint_iff_inter_eq_empty.mpr hinter).mono_right
        (Finset.subset_biUnion_of_mem t hc)
  · exact fun hdisjoint => (Finset.card_biUnion hdisjoint).symm

/-- The elements of a list without repetition that have a value. -/
theorem count_map_eq_card [DecidableEq α] [DecidableEq κ] {l : List α} (hnodup : l.Nodup) (f : α → κ)
    (k : κ) : (l.map f).count k = (l.toFinset.filter fun a => f a = k).card := by
  rw [List.filter_toFinset, List.toFinset_card_of_nodup (hnodup.filter _), List.count, List.countP_map,
    ← List.countP_eq_length_filter]
  exact List.countP_congr fun a _ => by simp

/-! ## 3. Tallies -/

section Counter
variable [DecidableEq κ] {l : List κ} {k : κ} {n : ℕ}

/-- `Counter(l)`, and the groups of `SELECT key, count(*) ... GROUP BY key`. -/
def counter (l : List κ) : Dict κ ℕ := l.foldl (fun d k => d.set k (d.getD k 0 + 1)) ∅

theorem counter_concat (l : List κ) (k : κ) :
    counter (l ++ [k]) = (counter l).set k ((counter l).getD k 0 + 1) := by
  rw [counter, List.foldl_append]
  rfl

theorem mem_counter : k ∈ counter l ↔ k ∈ l := by
  induction l using List.reverseRecOn with
  | nil => simp [counter]
  | append_singleton l j ih => rw [counter_concat, Dict.mem_set, ih]; simp [or_comm]

theorem getD_counter (l : List κ) (k : κ) : (counter l).getD k 0 = l.count k := by
  induction l using List.reverseRecOn with
  | nil => rfl
  | append_singleton l j ih =>
    rw [counter_concat, Dict.getD, Dict.get?_set, List.count_append, List.count_singleton]
    split
    · next heq =>
      subst heq
      rw [Option.getD_some, ih, if_pos (beq_self_eq_true k)]
    · next hne =>
      rw [if_neg fun heq => hne (eq_of_beq heq).symm, Nat.add_zero]
      exact ih

/-- The number of rows of a group. -/
theorem getD_counter_map (f : α → κ) (rows : List α) (k : κ) :
    (counter (rows.map f)).getD k 0 = rows.countP fun row => decide (f row = k) := by
  rw [getD_counter, List.count, List.countP_map]
  exact List.countP_congr fun row _ => by simp

theorem mem_entries_counter : (k, n) ∈ (counter l).entries ↔ k ∈ l ∧ n = l.count k := by
  rw [Dict.mem_entries_iff, ← mem_counter, ← getD_counter, Dict.getD]
  constructor
  · intro h
    exact ⟨Dict.mem_of_get? h, by rw [h]; rfl⟩
  · rintro ⟨hmem, rfl⟩
    obtain ⟨m, hm⟩ := Dict.mem_iff.mp hmem
    rw [hm]
    rfl

theorem mem_entries_counter_iff :
    (k, n) ∈ (counter l).entries ↔ n = (counter l).getD k 0 ∧ 0 < n := by
  rw [mem_entries_counter, ← List.count_pos_iff, getD_counter]
  constructor
  · rintro ⟨hpos, rfl⟩
    exact ⟨rfl, hpos⟩
  · rintro ⟨rfl, hpos⟩
    exact ⟨hpos, rfl⟩

theorem entries_counter_perm (l : List κ) :
    (counter l).entries.Perm (l.dedup.map fun k => (k, l.count k)) := by
  have hinj : Function.Injective fun k => (k, l.count k) := fun k k' heq => congrArg Prod.fst heq
  refine (List.perm_ext_iff_of_nodup (List.Nodup.of_map _ (counter l).nodup)
    ((List.nodup_dedup l).map hinj)).mpr fun ⟨k, n⟩ => ?_
  rw [mem_entries_counter, List.mem_map]
  simp only [List.mem_dedup, Prod.mk.injEq]
  constructor
  · rintro ⟨hk, rfl⟩
    exact ⟨k, hk, rfl, rfl⟩
  · rintro ⟨k', hk, rfl, rfl⟩
    exact ⟨hk, rfl⟩

end Counter

section Tally
variable [LinearOrder κ] {l : List κ}

/-- `sorted(Counter(l).items(), key=lambda e: (e[1], e[0]))`. -/
def tally (l : List κ) : List (κ × ℕ) := sortByKey (fun e => toLex (e.2, e.1)) (counter l).entries

/-- Every value once, with its number of occurrences, in ascending order. -/
structure IsTally (count : κ → ℕ) (total : ℕ) (stats : List (κ × ℕ)) : Prop where
  mem : ∀ k n, (k, n) ∈ stats ↔ n = count k ∧ 0 < n
  sorted : stats.Pairwise fun e f => toLex (e.2, e.1) < toLex (f.2, f.1)
  sum : (stats.map Prod.snd).sum = total

theorem isTally_tally (l : List κ) : IsTally l.count l.length (tally l) where
  mem k n := by
    rw [tally, mem_sortByKey, mem_entries_counter_iff, getD_counter]
  sorted := by
    have hnodup : (tally l).Nodup :=
      (sortByKey_perm _ _).nodup_iff.mpr (List.Nodup.of_map _ (counter l).nodup)
    refine (pairwise_sortByKey _ _).imp₂ (fun e f hle hne => lt_of_le_of_ne hle fun heq => hne ?_) hnodup
    have hpair := toLex.injective heq
    exact Prod.ext (congrArg Prod.snd hpair) (congrArg Prod.fst hpair)
  sum := by
    rw [tally, ((sortByKey_perm _ _).map _).sum_eq, ((entries_counter_perm l).map _).sum_eq,
      List.map_map]
    exact List.sum_map_count_dedup_eq_length l

theorem IsTally.congr {count count' : κ → ℕ} {total total' : ℕ} {stats : List (κ × ℕ)}
    (h : IsTally count total stats) (hcount : ∀ k, count k = count' k) (htotal : total = total') :
    IsTally count' total' stats := by
  obtain rfl : count = count' := funext hcount
  exact htotal ▸ h

/-- A tally depends on the numbers of occurrences only. -/
theorem IsTally.eq {count : κ → ℕ} {total total' : ℕ} {stats stats' : List (κ × ℕ)}
    (h : IsTally count total stats) (h' : IsTally count total' stats') : stats = stats' := by
  have hperm : stats.Perm stats' := by
    have hnodup : ∀ {stats : List (κ × ℕ)},
        stats.Pairwise (fun e f => toLex (e.2, e.1) < toLex (f.2, f.1)) → stats.Nodup :=
      fun hsorted => hsorted.imp fun {e f} hlt heq => by
        subst heq
        exact lt_irrefl _ hlt
    refine (List.perm_ext_iff_of_nodup (hnodup h.sorted) (hnodup h'.sorted)).mpr fun ⟨k, n⟩ => ?_
    rw [h.mem, h'.mem]
  exact hperm.eq_of_pairwise (fun e f _ _ hlt hgt => absurd hgt (lt_asymm hlt)) h.sorted h'.sorted

end Tally

end Counting
