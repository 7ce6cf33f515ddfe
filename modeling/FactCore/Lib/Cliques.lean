import Mathlib.Data.Finset.Powerset
import Mathlib.Data.Finset.Dedup
import Mathlib.Data.List.Sublists
import Mathlib.Order.Preorder.Finite

/-!
# Maximal cliques

A graph is the list of its edges. Its nodes are their ends, so no node is alone.

Results:
1. `exists_maximalClique`: every edge lies in a maximal clique.
2. `eq_of_mem_clique`: if every edge joins two parts, a clique has one node of each
   part at most.
3. `maximalClique_iff`: a maximal clique by its nodes only.
4. `bruteForce`: the maximal cliques can be found.
-/

namespace Cliques

variable {α : Type} [DecidableEq α]

def Linked (edges : List (α × α)) (x y : α) : Prop := (x, y) ∈ edges ∨ (y, x) ∈ edges

instance (edges : List (α × α)) (x y : α) : Decidable (Linked edges x y) :=
  inferInstanceAs (Decidable ((x, y) ∈ edges ∨ (y, x) ∈ edges))

/-- The ends of the edges. -/
def nodes (edges : List (α × α)) : List α := (edges.flatMap fun edge => [edge.1, edge.2]).dedup

/-- Any two of the nodes are linked. -/
def Clique (edges : List (α × α)) (c : Finset α) : Prop :=
  c ⊆ (nodes edges).toFinset ∧ ∀ x ∈ c, ∀ y ∈ c, x ≠ y → Linked edges x y

instance (edges : List (α × α)) (c : Finset α) : Decidable (Clique edges c) :=
  inferInstanceAs (Decidable (c ⊆ (nodes edges).toFinset ∧
    ∀ x ∈ c, ∀ y ∈ c, x ≠ y → Linked edges x y))

/-- A clique with at least one node that lies in no larger one. -/
def MaximalClique (edges : List (α × α)) (c : Finset α) : Prop :=
  c.Nonempty ∧ Maximal (Clique edges) c

/-- A function that finds the maximal cliques of every graph. -/
structure CliqueFinder (α : Type) [DecidableEq α] where
  findCliques : List (α × α) → List (List α)
  sound : ∀ edges, ∀ c ∈ findCliques edges, c.Nodup ∧ MaximalClique edges c.toFinset
  complete : ∀ edges c, MaximalClique edges c → ∃ l ∈ findCliques edges, l.toFinset = c

section Edges
variable {edges : List (α × α)} {x y : α} {c : Finset α}

theorem mem_nodes_iff : x ∈ nodes edges ↔ ∃ edge ∈ edges, x = edge.1 ∨ x = edge.2 := by
  simp only [nodes, List.mem_dedup, List.mem_flatMap, List.mem_cons, List.not_mem_nil, or_false]

theorem mem_nodes (h : (x, y) ∈ edges) : x ∈ nodes edges ∧ y ∈ nodes edges :=
  ⟨mem_nodes_iff.mpr ⟨_, h, .inl rfl⟩, mem_nodes_iff.mpr ⟨_, h, .inr rfl⟩⟩

/-- Every clique lies in a maximal one. -/
theorem exists_maximal_of_clique (h : Clique edges c) : ∃ d, c ⊆ d ∧ Maximal (Clique edges) d := by
  have hfinite : {d | Clique edges d}.Finite :=
    (nodes edges).toFinset.powerset.finite_toSet.subset fun d hd =>
      Finset.mem_coe.mpr (Finset.mem_powerset.mpr hd.1)
  exact hfinite.exists_le_maximal h

/-- Every edge lies in a maximal clique. -/
theorem exists_maximalClique (h : (x, y) ∈ edges) :
    ∃ c, MaximalClique edges c ∧ x ∈ c ∧ y ∈ c := by
  have hclique : Clique edges {x, y} := by
    constructor
    · intro z hz
      rcases Finset.mem_insert.mp hz with rfl | hz
      · exact List.mem_toFinset.mpr (mem_nodes h).1
      · rw [Finset.mem_singleton.mp hz]
        exact List.mem_toFinset.mpr (mem_nodes h).2
    · intro z hz w hw hne
      rcases Finset.mem_insert.mp hz with hzx | hzy <;>
        rcases Finset.mem_insert.mp hw with hwx | hwy
      · exact absurd (hzx.trans hwx.symm) hne
      · rw [hzx, Finset.mem_singleton.mp hwy]
        exact .inl h
      · rw [Finset.mem_singleton.mp hzy, hwx]
        exact .inr h
      · exact absurd ((Finset.mem_singleton.mp hzy).trans (Finset.mem_singleton.mp hwy).symm) hne
  obtain ⟨c, hsub, hmax⟩ := exists_maximal_of_clique hclique
  have hx : x ∈ c := hsub (Finset.mem_insert_self x {y})
  exact ⟨c, ⟨⟨x, hx⟩, hmax⟩, hx, hsub (Finset.mem_insert_of_mem (Finset.mem_singleton_self y))⟩

/-- Two nodes of a clique are in different parts. -/
theorem eq_of_mem_clique {κ : Type} (part : α → κ) (hpart : ∀ e ∈ edges, part e.1 ≠ part e.2)
    (h : Clique edges c) (hx : x ∈ c) (hy : y ∈ c) (hsame : part x = part y) : x = y := by
  by_contra hne
  rcases h.2 x hx y hy hne with hedge | hedge
  · exact hpart _ hedge hsame
  · exact hpart _ hedge hsame.symm

/-- A clique is maximal exactly if no other node is linked with all of its nodes. -/
theorem maximalClique_iff : MaximalClique edges c ↔ c.Nonempty ∧ Clique edges c ∧
    ∀ x ∈ nodes edges, (∀ y ∈ c, x ≠ y → Linked edges x y) → x ∈ c := by
  refine and_congr_right fun _ => ⟨fun hmax => ⟨hmax.prop, fun x hx hlinked => ?_⟩, fun h => ?_⟩
  · have hclique : Clique edges (insert x c) := by
      refine ⟨Finset.insert_subset (List.mem_toFinset.mpr hx) hmax.prop.1, fun z hz w hw hne => ?_⟩
      rcases Finset.mem_insert.mp hz with hzx | hzc <;>
        rcases Finset.mem_insert.mp hw with hwx | hwc
      · exact absurd (hzx.trans hwx.symm) hne
      · exact hzx ▸ hlinked w hwc (hzx ▸ hne)
      · exact hwx ▸ (hlinked z hzc (hwx ▸ Ne.symm hne)).symm
      · exact hmax.prop.2 z hzc w hwc hne
    exact hmax.le_of_ge hclique (Finset.subset_insert x c) (Finset.mem_insert_self x c)
  · refine ⟨h.1, fun d hd hsub x hx => ?_⟩
    exact h.2 x (List.mem_toFinset.mp (hd.1 hx)) fun y hy hne => hd.2 x hx y (hsub hy) hne

/-- Only the set of edges counts. -/
theorem maximalClique_congr {edges' : List (α × α)} (h : ∀ e, e ∈ edges ↔ e ∈ edges') :
    MaximalClique edges c ↔ MaximalClique edges' c := by
  have hnodes : (nodes edges).toFinset = (nodes edges').toFinset := by
    ext x
    simp only [nodes, List.mem_toFinset, List.mem_dedup, List.mem_flatMap, h]
  have hclique : Clique edges = Clique edges' := by
    funext d
    simp only [Clique, hnodes, Linked, h]
  rw [MaximalClique, MaximalClique, hclique]

/-- If all nodes are a clique, it is the only maximal one. -/
theorem eq_nodes_of_clique (hall : Clique edges (nodes edges).toFinset) (h : MaximalClique edges c) :
    c = (nodes edges).toFinset :=
  h.2.eq_of_le hall h.2.prop.1

end Edges

/-! ## A finder -/

/-- The condition of `maximalClique_iff` on a list of nodes. -/
def isMaximalClique (edges : List (α × α)) (l : List α) : Bool :=
  decide (l ≠ [] ∧ (∀ x ∈ l, ∀ y ∈ l, x ≠ y → Linked edges x y) ∧
    ∀ x ∈ nodes edges, (∀ y ∈ l, x ≠ y → Linked edges x y) → x ∈ l)

theorem isMaximalClique_iff {edges : List (α × α)} {l : List α} (h : ∀ x ∈ l, x ∈ nodes edges) :
    isMaximalClique edges l = true ↔ MaximalClique edges l.toFinset := by
  have hsub : l.toFinset ⊆ (nodes edges).toFinset := fun x hx =>
    List.mem_toFinset.mpr (h x (List.mem_toFinset.mp hx))
  rw [isMaximalClique, decide_eq_true_iff, maximalClique_iff, List.toFinset_nonempty_iff]
  simp only [Clique, hsub, true_and, List.mem_toFinset]

/-- All lists of nodes are tried. -/
def bruteForce : CliqueFinder α where
  findCliques edges := (nodes edges).sublists.filter (isMaximalClique edges)
  sound edges c hc := by
    obtain ⟨hsub, hmax⟩ := List.mem_filter.mp hc
    have hsublist := List.mem_sublists.mp hsub
    exact ⟨hsublist.nodup (List.nodup_dedup _),
      (isMaximalClique_iff fun x hx => hsublist.subset hx).mp hmax⟩
  complete edges c hc := by
    have hsub : ∀ x ∈ (nodes edges).filter (fun x => decide (x ∈ c)), x ∈ nodes edges :=
      fun x hx => (List.mem_filter.mp hx).1
    have heq : ((nodes edges).filter fun x => decide (x ∈ c)).toFinset = c := by
      ext x
      rw [List.mem_toFinset, List.mem_filter, decide_eq_true_iff]
      exact ⟨And.right, fun hx => ⟨List.mem_toFinset.mp (hc.2.prop.1 hx), hx⟩⟩
    refine ⟨_, List.mem_filter.mpr ⟨List.mem_sublists.mpr List.filter_sublist, ?_⟩, heq⟩
    rw [isMaximalClique_iff hsub, heq]
    exact hc

end Cliques
