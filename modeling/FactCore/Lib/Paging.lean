import FactCore.Lib.StableSort
import Mathlib.Logic.Equiv.Basic

/-!
# Pages of a sorted result

A result is shown in pages, and each page is cut out of a sorted list of its own: what has
equal keys may come in another order each time. The pages hold every element exactly once
if and only if there are no equal keys.
-/

variable {α K : Type} [LinearOrder K] {key : α → K} {results l : List α}

/-- The page `k` of size `n`. -/
def page (n k : ℕ) (l : List α) : List α := (l.drop (n * k)).take n

/-- An order of the results that a sort by the key may give. -/
structure Permitted (key : α → K) (results l : List α) : Prop where
  perm : l.Perm results
  sorted : l.Pairwise fun a b => key a ≤ key b

/-- Enough pages of any size hold every element once, whatever the order for each page is. -/
def PagesPartition (key : α → K) (results : List α) : Prop :=
  ∀ n, 0 < n → ∀ orders : ℕ → List α, (∀ k, Permitted key results (orders k)) →
    ∀ m, results.length ≤ n * m →
      ((List.range m).flatMap fun k => page n k (orders k)).Perm results

/-- No two elements have equal keys. -/
def NoTies (key : α → K) (results : List α) : Prop :=
  ∀ a ∈ results, ∀ b ∈ results, key a = key b → a = b

theorem permitted_sortByKey (key : α → K) (results : List α) :
    Permitted key results (sortByKey key results) :=
  ⟨sortByKey_perm key results, pairwise_sortByKey key results⟩

theorem flatMap_page (n m : ℕ) (l : List α) :
    ((List.range m).flatMap fun k => page n k l) = l.take (n * m) := by
  induction m with
  | zero => rw [List.range_zero, List.flatMap_nil, Nat.mul_zero, List.take_zero]
  | succ m ih =>
    rw [List.range_succ, List.flatMap_append, ih, Nat.mul_succ, List.take_add,
      List.flatMap_singleton]
    rfl

/-- Without ties there is one order. -/
theorem Permitted.eq_of_noTies {l' : List α} (hties : NoTies key results)
    (h : Permitted key results l) (h' : Permitted key results l') : l = l' := by
  refine List.Perm.eq_of_pairwise (fun a b ha hb hab hba => ?_) h.sorted h'.sorted
    (h.perm.trans h'.perm.symm)
  exact hties a (h.perm.mem_iff.mp ha) b (h'.perm.mem_iff.mp hb) (le_antisymm hab hba)

theorem pagesPartition_of_noTies (hties : NoTies key results) : PagesPartition key results := by
  intro n _ orders horders m hm
  have hsame : ∀ k, orders k = orders 0 := fun k =>
    (horders k).eq_of_noTies hties (horders 0)
  have hlen : (orders 0).length ≤ n * m := (horders 0).perm.length_eq ▸ hm
  simp only [hsame]
  rw [flatMap_page, List.take_of_length_le hlen]
  exact (horders 0).perm

variable [DecidableEq α] {a b : α}

/-- Elements with equal keys may be swapped. -/
theorem Permitted.swap (hn : results.Nodup) (ha : a ∈ results) (hb : b ∈ results)
    (hkey : key a = key b) (h : Permitted key results l) :
    Permitted key results (l.map (Equiv.swap a b)) := by
  have hswap : ∀ c, key (Equiv.swap a b c) = key c := by
    intro c
    rcases eq_or_ne c a with rfl | hca
    · rw [Equiv.swap_apply_left, hkey]
    · rcases eq_or_ne c b with rfl | hcb
      · rw [Equiv.swap_apply_right, hkey]
      · rw [Equiv.swap_apply_of_ne_of_ne hca hcb]
  have hl : l.Nodup := h.perm.nodup_iff.mpr hn
  constructor
  · refine List.Perm.trans ?_ h.perm
    have hmem : ∀ c ∈ l, Equiv.swap a b c ∈ l := by
      intro c hc
      rcases eq_or_ne c a with rfl | hca
      · rw [Equiv.swap_apply_left]
        exact h.perm.mem_iff.mpr hb
      · rcases eq_or_ne c b with rfl | hcb
        · rw [Equiv.swap_apply_right]
          exact h.perm.mem_iff.mpr ha
        · rwa [Equiv.swap_apply_of_ne_of_ne hca hcb]
    refine (List.perm_ext_iff_of_nodup (hl.map (Equiv.swap a b).injective) hl).mpr fun c => ?_
    constructor
    · intro hc
      obtain ⟨d, hd, rfl⟩ := List.mem_map.mp hc
      exact hmem d hd
    · intro hc
      exact List.mem_map.mpr ⟨_, hmem c hc, Equiv.swap_apply_self a b c⟩
  · rw [List.pairwise_map]
    simpa only [hswap] using h.sorted

omit [DecidableEq α] in
theorem mem_page_one {k : ℕ} (h : a ∈ page 1 k l) : l[k]? = some a := by
  rw [page, Nat.one_mul, List.take_one, Option.mem_toList, List.head?_drop] at h
  exact h

/-- Pages of one element, of which one is cut out of an order with two ties swapped. -/
theorem noTies_of_pagesPartition (hn : results.Nodup) (h : PagesPartition key results) :
    NoTies key results := by
  intro a ha b hb hkey
  by_contra hne
  obtain ⟨i, hi, hget⟩ := List.getElem_of_mem ((mem_sortByKey key).mpr ha)
  have hia : (sortByKey key results)[i]? = some a := List.getElem?_eq_some_iff.mpr ⟨hi, hget⟩
  have hsorted : (sortByKey key results).Nodup := (sortByKey_perm key results).nodup_iff.mpr hn
  let orders := fun k =>
    if k = i then (sortByKey key results).map (Equiv.swap a b) else sortByKey key results
  have horders : ∀ k, Permitted key results (orders k) := by
    intro k
    unfold orders
    split
    · exact (permitted_sortByKey key results).swap hn ha hb hkey
    · exact permitted_sortByKey key results
  have hpages := h 1 Nat.one_pos orders horders results.length (Nat.one_mul _).ge
  obtain ⟨k, -, hk⟩ := List.mem_flatMap.mp (hpages.mem_iff.mpr ha)
  have hka := mem_page_one hk
  unfold orders at hka
  split at hka
  · next heq =>
    rw [heq, List.getElem?_map, hia, Option.map_some, Equiv.swap_apply_left] at hka
    exact hne (Option.some.inj hka).symm
  · next hki =>
    obtain ⟨hlt, hka'⟩ := List.getElem?_eq_some_iff.mp hka
    exact hki (hsorted.getElem_inj_iff.mp (hka'.trans hget.symm))

theorem pagesPartition_iff (hn : results.Nodup) :
    PagesPartition key results ↔ NoTies key results :=
  ⟨noTies_of_pagesPartition hn, pagesPartition_of_noTies⟩
