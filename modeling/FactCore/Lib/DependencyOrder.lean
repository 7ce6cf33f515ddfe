import Mathlib.Data.Fintype.Card
import Mathlib.Data.Set.Finite.Basic
import Mathlib.Logic.Relation
import Mathlib.Order.Bounds.Defs
import Mathlib.Order.WellFounded

/-!
# Lists in dependency order

A list is in dependency order when everything that an element depends on stands
behind it. Such a list is worked off from its end.

Results:
1. `DependenciesBehind.transGen`: what an element depends on indirectly stands
   behind it as well.
2. `DependenciesBehind.layer`: elements whose dependencies are in the list can be
   put in front, in any order.
3. `DependenciesBehind.moveToEnd`: an element without dependencies can be moved
   to the end.
4. `DependenciesBehind.filter_append_iff`: elements that occur again further
   behind can be left out.
5. `acyclic_of_rank`: how to exclude cycles.
6. `exists_met`: among finitely many elements without cycles, one depends on none
   of the others.
7. `isLeast_of_saturated`, `mem_of_saturated`: a list in dependency order that
   leaves out no element whose dependencies it holds is the least such set, and
   leaves out nothing if there are no cycles.
-/

namespace DependencyOrder

open Relation

variable {α : Type} {dep : α → α → Prop} {l r : List α} {x p d : α}

/-- Everything that an element of the list depends on stands behind it. -/
def DependenciesBehind (dep : α → α → Prop) : List α → Prop
  | [] => True
  | p :: l => (∀ d, dep p d → d ∈ l) ∧ DependenciesBehind dep l

namespace DependenciesBehind

/-- The list is closed under dependencies. -/
theorem closed (h : DependenciesBehind dep l) (hp : p ∈ l) (hd : dep p d) : d ∈ l := by
  induction l with
  | nil => cases hp
  | cons q l ih =>
    rcases List.mem_cons.mp hp with rfl | hp
    · exact List.mem_cons_of_mem p (h.1 d hd)
    · exact List.mem_cons_of_mem q (ih h.2 hp)

theorem of_append {l' : List α} (h : DependenciesBehind dep (l ++ l')) :
    DependenciesBehind dep l' := by
  induction l with
  | nil => exact h
  | cons q l ih => exact ih h.2

theorem mono {dep' : α → α → Prop} (h : DependenciesBehind dep l) (hle : ∀ p d, dep' p d → dep p d) :
    DependenciesBehind dep' l := by
  induction l with
  | nil => trivial
  | cons p l ih => exact ⟨fun d hd => h.1 d (hle p d hd), ih h.2⟩

/-- Direct and indirect dependencies stand behind. -/
theorem transGen {l' : List α} (h : DependenciesBehind dep (l ++ p :: l')) (hd : TransGen dep p d) :
    d ∈ l' := by
  obtain ⟨hdirect, htl⟩ := h.of_append
  induction hd with
  | single hd => exact hdirect _ hd
  | tail _ hd ih => exact htl.closed ih hd

/-- Elements whose dependencies are in the list can be put in front of it. -/
theorem layer {ps : List α} (h : DependenciesBehind dep l)
    (hps : ∀ p ∈ ps, ∀ d, dep p d → d ∈ l) : DependenciesBehind dep (ps ++ l) := by
  induction ps with
  | nil => exact h
  | cons p ps ih =>
    refine ⟨fun d hd => ?_, ih fun q hq => hps q (List.mem_cons_of_mem p hq)⟩
    exact List.mem_append_right ps (hps p List.mem_cons_self d hd)

theorem append_free (h : DependenciesBehind dep l) (hx : ∀ d, ¬ dep x d) :
    DependenciesBehind dep (l ++ [x]) := by
  induction l with
  | nil => exact ⟨fun d hd => absurd hd (hx d), trivial⟩
  | cons p l ih => exact ⟨fun d hd => List.mem_append_left [x] (h.1 d hd), ih h.2⟩

/-- An element without dependencies can be moved to the end. -/
theorem moveToEnd [DecidableEq α] (h : DependenciesBehind dep l) (hx : ∀ d, ¬ dep x d) :
    DependenciesBehind dep (l.erase x ++ [x]) := by
  induction l with
  | nil => exact ⟨fun d hd => absurd hd (hx d), trivial⟩
  | cons p l ih =>
    rcases eq_or_ne p x with rfl | hne
    · rw [List.erase_cons_head]
      exact h.2.append_free hx
    · rw [List.erase_cons_tail (by simpa using hne)]
      refine ⟨fun d hd => ?_, ih h.2⟩
      rcases eq_or_ne d x with rfl | hdx
      · exact List.mem_append_right _ (List.mem_singleton_self d)
      · exact List.mem_append_left _ ((List.mem_erase_of_ne hdx).mpr (h.1 d hd))

/-- An element that is moved to the end does not disturb the others. -/
theorem moveToEnd_of_ne [DecidableEq α] {l' : List α} (h : DependenciesBehind dep l)
    (hsplit : l.erase x ++ [x] = l' ++ p :: r) (hp : p ≠ x) (hd : dep p d) : d ∈ r := by
  have hothers : DependenciesBehind (fun q e => q ≠ x ∧ dep q e) l := h.mono fun _ _ he => he.2
  have hmoved := hothers.moveToEnd fun _ he => he.1 rfl
  rw [hsplit] at hmoved
  exact hmoved.of_append.1 d ⟨hp, hd⟩

/-- Elements that stand in the rest of the list as well can be taken out of its front. -/
theorem filter_append_iff {h : List α} {P : α → Bool} (hrem : ∀ p ∈ l, P p = false → p ∈ h) :
    DependenciesBehind dep (l.filter P ++ h) ↔ DependenciesBehind dep (l ++ h) := by
  induction l with
  | nil => rfl
  | cons p l ih =>
    have ih := ih fun q hq => hrem q (List.mem_cons_of_mem p hq)
    cases hp : P p with
    | true =>
      rw [List.filter_cons_of_pos hp]
      refine and_congr (forall_congr' fun d => imp_congr_right fun _ => ?_) ih
      show d ∈ l.filter P ++ h ↔ d ∈ l ++ h
      rw [List.mem_append, List.mem_append, List.mem_filter]
      constructor
      · rintro (⟨hd, -⟩ | hd)
        · exact .inl hd
        · exact .inr hd
      · rintro (hd | hd)
        · cases hPd : P d with
          | true => exact .inl ⟨hd, rfl⟩
          | false => exact .inr (hrem d (List.mem_cons_of_mem p hd) hPd)
        · exact .inr hd
    | false =>
      -- the copy of `p` in the rest has the dependencies of `p` behind it
      rw [List.filter_cons_of_neg (by simp [hp]), ih]
      have hmem : p ∈ l ++ h := List.mem_append_right l (hrem p List.mem_cons_self hp)
      exact ⟨fun hl => ⟨fun d hd => hl.closed hmem hd, hl⟩, fun hl => hl.2⟩

end DependenciesBehind

/-- It is enough to look behind each element of the list. -/
theorem dependenciesBehind_of_split
    (h : ∀ front p back, l = front ++ p :: back → ∀ d, dep p d → d ∈ back) :
    DependenciesBehind dep l := by
  induction l with
  | nil => trivial
  | cons p l ih =>
    refine ⟨h [] p l rfl, ih fun front q back heq => ?_⟩
    exact h (p :: front) q back (congrArg (p :: ·) heq)

/-- Dependency order says that direct and indirect dependencies stand behind. -/
theorem dependenciesBehind_iff : DependenciesBehind dep l ↔
    ∀ front p back, l = front ++ p :: back → ∀ d, TransGen dep p d → d ∈ back := by
  constructor
  · rintro h front p back rfl d hd
    exact h.transGen hd
  · exact fun h => dependenciesBehind_of_split fun front p back heq d hd =>
      h front p back heq d (.single hd)

/-- A rank that dependencies decrease excludes cycles. -/
theorem acyclic_of_rank (rank : α → Nat) (h : ∀ p d, dep p d → rank d < rank p) (p : α) :
    ¬ TransGen dep p p := by
  have hless : ∀ {a b}, TransGen dep a b → rank b < rank a := by
    intro a b hab
    induction hab with
    | single hd => exact h _ _ hd
    | tail _ hd ih => exact Nat.lt_trans (h _ _ hd) ih
  exact fun hp => Nat.lt_irrefl _ (hless hp)

/-- Among finitely many elements, if there are no cycles, one depends on none of the others. -/
theorem exists_met (hacyclic : ∀ p, ¬ TransGen dep p p) (hne : l ≠ []) :
    ∃ p ∈ l, ∀ d ∈ l, ¬ dep p d := by
  let below : {p // p ∈ l} → {p // p ∈ l} → Prop := fun a b => TransGen dep b.1 a.1
  have htrans : IsTrans _ below := ⟨fun _ _ _ hab hbc => hbc.trans hab⟩
  have hirrefl : Std.Irrefl below := ⟨fun a ha => hacyclic a.1 ha⟩
  have hfinite : Finite {p // p ∈ l} := List.finite_toSet l
  obtain ⟨q, hq⟩ := List.exists_mem_of_ne_nil l hne
  obtain ⟨⟨p, hp⟩, -, hmin⟩ :=
    (Finite.wellFounded_of_trans_of_irrefl below).has_min Set.univ ⟨⟨q, hq⟩, trivial⟩
  exact ⟨p, hp, fun d hd hdep => hmin ⟨d, hd⟩ trivial (.single hdep)⟩

/-- The list holds every element of `listed` whose dependencies it holds. -/
def Saturated (dep : α → α → Prop) (listed l : List α) : Prop :=
  ∀ p ∈ listed, (∀ d, dep p d → d ∈ l) → p ∈ l

/-- A saturated list in dependency order holds the least set whose listed elements are those with
all their dependencies in the set. -/
theorem isLeast_of_saturated {listed : List α} (horder : DependenciesBehind dep l)
    (hsub : ∀ p ∈ l, p ∈ listed) (hend : Saturated dep listed l) :
    IsLeast {S : Set α | ∀ p ∈ listed, p ∈ S ↔ ∀ d, dep p d → d ∈ S} {p | p ∈ l} := by
  refine ⟨fun p hp => ⟨fun hpl d hd => horder.closed hpl hd, hend p hp⟩, fun S hS => ?_⟩
  -- from the end of the list: each element follows its dependencies into the set
  suffices ∀ q ∈ l, q ∈ S from this
  clear hend
  induction l with
  | nil => exact fun _ hq => absurd hq List.not_mem_nil
  | cons p l ih =>
    have htail := ih horder.2 fun q hq => hsub q (List.mem_cons_of_mem p hq)
    refine List.forall_mem_cons.mpr ⟨(hS p (hsub p List.mem_cons_self)).mpr fun d hd => ?_, htail⟩
    exact htail d (horder.1 d hd)

/-- In a closed list without cycles nothing is left out. -/
theorem mem_of_saturated [DecidableEq α] {listed : List α} (hend : Saturated dep listed l)
    (hclosed : ∀ p ∈ listed, ∀ d, dep p d → d ∈ listed) (hacyclic : ∀ p, ¬ TransGen dep p p)
    (hp : p ∈ listed) : p ∈ l := by
  by_contra hno
  have hrest : listed.filter (fun q => decide (q ∉ l)) ≠ [] :=
    List.ne_nil_of_mem (List.mem_filter.mpr ⟨hp, decide_eq_true hno⟩)
  obtain ⟨q, hq, hfree⟩ := exists_met hacyclic hrest
  obtain ⟨hlisted, hout⟩ := List.mem_filter.mp hq
  refine of_decide_eq_true hout (hend q hlisted fun d hd => ?_)
  by_contra hdl
  exact hfree d (List.mem_filter.mpr ⟨hclosed q hlisted d hd, decide_eq_true hdl⟩) hd

end DependencyOrder
