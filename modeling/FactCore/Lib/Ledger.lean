import Mathlib.Algebra.BigOperators.Group.List.Basic
import Mathlib.Data.Multiset.DershowitzManna
import Mathlib.Tactic.Abel
import FactCore.Lib.Dict

/-!
# Books over the places of a system

A system keeps its items at several places of the same kind: in a list of workers, or
in a dictionary of queues. What is at all of them together is a sum, and a change of
one place changes one summand.

Work is the multiset of what is left to do at all places. A system that replaces, in
every step, one piece of work by finitely many smaller ones comes to an end.

Results:
1. `exists_sum_set`, `Dict.exists_total`: what stays when one place changes;
   `Dict.total_eq_zero`: when there is nothing anywhere.
2. `Splits.wellFounded`: work that is split into smaller work comes to an end.
-/

/-! ## 1. Sums over places -/

section Sums
variable {κ ν α M : Type} [AddCommMonoid M]

/-- The sum over a list without one of its places. -/
theorem exists_sum_set (f : α → M) {l : List α} {i : Nat} {x : α} (h : l[i]? = some x) :
    ∃ rest, (l.map f).sum = f x + rest ∧ ∀ y, ((l.set i y).map f).sum = f y + rest := by
  induction l generalizing i with
  | nil => cases h
  | cons z l ih =>
    cases i with
    | zero =>
      obtain rfl : z = x := by simpa using h
      exact ⟨(l.map f).sum, by simp, fun y => by simp⟩
    | succ i =>
      obtain ⟨rest, hsum, hset⟩ := ih (by simpa using h)
      refine ⟨f z + rest, ?_, fun y => ?_⟩
      · rw [List.map_cons, List.sum_cons, hsum]
        abel
      · rw [List.set_cons_succ, List.map_cons, List.sum_cons, hset]
        abel

namespace Dict
variable [DecidableEq κ]

/-- The sum over the entries of a dictionary. -/
def total (f : κ → ν → M) (d : Dict κ ν) : M := (d.entries.map fun e => f e.1 e.2).sum

theorem sum_replace {f : κ → ν → M} {k : κ} {v : ν} {es : List (κ × ν)}
    (hn : (es.map Prod.fst).Nodup) (h : find k es = some v) :
    ∃ rest, (es.map fun e => f e.1 e.2).sum = f k v + rest ∧
      ∀ w, ((replace k w es).map fun e => f e.1 e.2).sum = f k w + rest := by
  obtain ⟨i, hi⟩ := List.mem_iff_getElem?.mp ((find_eq_some_iff hn).mp h)
  obtain ⟨rest, hsum, hset⟩ := exists_sum_set (fun e : κ × ν => f e.1 e.2) hi
  refine ⟨rest, hsum, fun w => ?_⟩
  -- the keys are distinct, so only the entry at `i` is replaced
  have hreplace : replace k w es = es.set i (k, w) := by
    refine List.ext_getElem? fun j => ?_
    rw [replace, List.getElem?_map, List.getElem?_set]
    by_cases hij : i = j
    · subst hij
      rw [hi, if_pos rfl, if_pos (List.getElem?_eq_some_iff.mp hi).1]
      simp
    · rw [if_neg hij]
      cases hj : es[j]? with
      | none => rfl
      | some e =>
        have hne : e.1 ≠ k := by
          intro heq
          have hlt : i < (es.map Prod.fst).length := by
            rw [List.length_map]
            exact (List.getElem?_eq_some_iff.mp hi).1
          refine hij ((List.getElem?_inj hlt hn).mp ?_)
          rw [List.getElem?_map, List.getElem?_map, hi, hj, Option.map_some, Option.map_some, heq]
        rw [Option.map_some, if_neg hne]
  rw [hreplace]
  exact hset (k, w)

/-- The sum over a dictionary without one of its keys. A key that is missing counts as one with a
value that contributes nothing. -/
theorem exists_total {f : κ → ν → M} {k : κ} {v₀ : ν} (hzero : f k v₀ = 0) (d : Dict κ ν) :
    ∃ rest, d.total f = f k (d.getD k v₀) + rest ∧ ∀ w, (d.set k w).total f = f k w + rest := by
  cases hget : d.get? k with
  | some v =>
    obtain ⟨rest, hsum, hreplace⟩ := sum_replace (f := f) d.nodup hget
    refine ⟨rest, ?_, fun w => ?_⟩
    · rw [getD, hget]
      exact hsum
    · unfold set
      rw [dif_pos (mem_def.mp (mem_of_get? hget))]
      exact hreplace w
  | none =>
    have hnot := get?_eq_none_iff.mp hget
    refine ⟨d.total f, ?_, fun w => ?_⟩
    · rw [getD, hget, Option.getD_none, hzero, zero_add]
    · rw [total, entries_set_of_not_mem w hnot, List.map_append, List.sum_append, add_comm]
      simp [total]

/-- Places that all contribute nothing. -/
theorem total_eq_zero {f : κ → ν → M} {d : Dict κ ν} (v₀ : ν) (h : ∀ k, f k (d.getD k v₀) = 0) :
    d.total f = 0 := by
  refine List.sum_eq_zero fun x hx => ?_
  obtain ⟨⟨k, v⟩, he, rfl⟩ := List.mem_map.mp hx
  have hk := h k
  rwa [getD, mem_entries_iff.mp he] at hk

end Dict

end Sums

/-! ## 2. Work that is split -/

section Work
variable {σ α : Type} [Preorder α]

/-- One piece of the work is replaced by finitely many smaller ones. -/
def Splits (before after : Multiset α) : Prop :=
  ∃ x new rest, before = x ::ₘ rest ∧ after = new + rest ∧ ∀ y ∈ new, y < x

theorem Splits.dershowitzManna {before after : Multiset α} (h : Splits before after) :
    after.IsDershowitzMannaLT before := by
  obtain ⟨x, new, rest, rfl, rfl, hlt⟩ := h
  refine ⟨rest, new, {x}, by simp, add_comm new rest, ?_, fun y hy => ⟨x, by simp, hlt y hy⟩⟩
  rw [← Multiset.singleton_add, add_comm]

/-- A system all of whose steps split its work comes to an end. -/
theorem Splits.wellFounded [WellFoundedLT α] (work : σ → Multiset α) {step : σ → σ → Prop}
    (h : ∀ s s', step s s' → Splits (work s) (work s')) : WellFounded fun s' s => step s s' :=
  Subrelation.wf (fun hstep => (h _ _ hstep).dershowitzManna)
    (InvImage.wf work Multiset.wellFounded_isDershowitzMannaLT)

end Work
