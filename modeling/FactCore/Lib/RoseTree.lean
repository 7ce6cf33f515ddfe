import Mathlib.Data.List.Perm.Basic
import Mathlib.Data.List.Forall2
import Mathlib.Data.List.Nodup

/-!
# Trees of paths

A rose tree whose siblings have distinct keys is a set of paths. A path is inserted from the top:
it follows the nodes with its keys as long as there are any, and is appended below the last one.

A path ends in a node that is not inner, and all other nodes of it are inner. The key of a node
tells which of both it is. Of the data that is allowed, inner nodes with equal keys are equal.

Results:
1. `PathForest.insertPath`: the trees stay a forest of this kind.
2. `mem_forestPaths_insertPath`: the inserted path is added, and no path is lost.
3. `sameForest_of_paths`: forests with the same paths are the same up to the order of siblings.
-/

/-- A tree with any number of children. -/
inductive RoseTree (α : Type)
  | node (data : α) (children : List (RoseTree α))

namespace RoseTree

variable {α κ : Type}

def data : RoseTree α → α
  | .node data _ => data

def children : RoseTree α → List (RoseTree α)
  | .node _ children => children

@[simp] theorem data_node (d : α) (cs : List (RoseTree α)) : (node d cs).data = d := rfl

@[simp] theorem children_node (d : α) (cs : List (RoseTree α)) : (node d cs).children = cs := rfl

/-- A tree and the trees below its nodes. -/
inductive Within : RoseTree α → RoseTree α → Prop
  | refl (t : RoseTree α) : Within t t
  | child {t c u : RoseTree α} (hc : c ∈ t.children) (h : Within c u) : Within t u

mutual

/-- The paths from a node down to the nodes without children. -/
def leafPaths : RoseTree α → List (List α)
  | .node d cs => if cs.isEmpty then [[d]] else (forestPaths cs).map (d :: ·)

/-- The paths in a list of trees. -/
def forestPaths : List (RoseTree α) → List (List α)
  | [] => []
  | c :: cs => c.leafPaths ++ forestPaths cs

end

theorem mem_forestPaths {cs : List (RoseTree α)} {q : List α} :
    q ∈ forestPaths cs ↔ ∃ c ∈ cs, q ∈ c.leafPaths := by
  induction cs with
  | nil => simp [forestPaths]
  | cons c cs ih => simp [forestPaths, ih]

/-- A tree with a single path. -/
def singlePath (d : α) : List α → RoseTree α
  | [] => .node d []
  | d' :: rest => .node d [singlePath d' rest]

theorem data_singlePath (d : α) (rest : List α) : (singlePath d rest).data = d := by
  cases rest <;> rfl

theorem leafPaths_singlePath (d : α) (rest : List α) : (singlePath d rest).leafPaths = [d :: rest] := by
  induction rest generalizing d with
  | nil => rfl
  | cons d' rest ih => simp [singlePath, leafPaths, forestPaths, ih]

/-- The trees are the same up to the order of siblings. -/
inductive SameTree : RoseTree α → RoseTree α → Prop
  | node {d : α} {cs cs' cs'' : List (RoseTree α)} (hperm : cs'.Perm cs'')
      (h : List.Forall₂ SameTree cs cs'') : SameTree (.node d cs) (.node d cs')

/-- The lists of trees are the same up to their order and that of siblings. -/
def SameForest (f g : List (RoseTree α)) : Prop := ∃ g', g.Perm g' ∧ List.Forall₂ SameTree f g'

theorem sameTree_iff {d : α} {cs cs' : List (RoseTree α)} :
    SameTree (.node d cs) (.node d cs') ↔ SameForest cs cs' := by
  constructor
  · rintro ⟨hperm, h⟩
    exact ⟨_, hperm, h⟩
  · rintro ⟨g', hperm, h⟩
    exact .node hperm h

/-! ## Forests of paths -/

section Keys
variable (key : α → κ) (inner : α → Bool) (ok : α → Prop)

/-- Write a path into a list of trees. -/
def insertPath [DecidableEq κ] : List α → List (RoseTree α) → List (RoseTree α)
  | [], f => f
  | d :: rest, f =>
    if ∃ c ∈ f, key c.data = key d then
      f.map fun c => if key c.data = key d then .node c.data (insertPath rest c.children) else c
    else f ++ [singlePath d rest]

/-- A path: inner nodes, and one at the end that is not. -/
inductive IsPath : List α → Prop
  | leaf (d : α) (hok : ok d) (h : inner d = false) : IsPath [d]
  | step (d : α) (hok : ok d) (h : inner d = true) {rest : List α} (hrest : IsPath rest) :
      IsPath (d :: rest)

/-- A tree of paths: siblings have distinct keys, and the inner nodes are those with children. -/
inductive PathTree : RoseTree α → Prop
  | node {d : α} {cs : List (RoseTree α)} (hok : ok d) (hinner : inner d = true ↔ cs ≠ [])
      (hkeys : (cs.map fun c => key c.data).Nodup) (h : ∀ c ∈ cs, PathTree c) : PathTree (.node d cs)

/-- A list of such trees with distinct keys. -/
structure PathForest (f : List (RoseTree α)) : Prop where
  keys : (f.map fun c => key c.data).Nodup
  trees : ∀ c ∈ f, PathTree key inner ok c

/-- Keys tell inner nodes, and equal keys of inner nodes mean equal nodes. -/
structure LawfulKeys : Prop where
  inner_eq : ∀ d d', key d = key d' → inner d = inner d'
  eq_of_inner : ∀ d d', ok d → ok d' → inner d = true → key d = key d' → d = d'

end Keys

section Paths
variable {key : α → κ} {inner : α → Bool} {ok : α → Prop} {f : List (RoseTree α)} {c : RoseTree α}
  {d : α} {p q : List α}

theorem PathTree.inner_iff (h : PathTree key inner ok c) : inner c.data = true ↔ c.children ≠ [] := by
  cases h with
  | node hok hinner hkeys h => exact hinner

theorem PathTree.forest (h : PathTree key inner ok c) : PathForest key inner ok c.children := by
  cases h with
  | node hok hinner hkeys h => exact ⟨hkeys, h⟩

theorem PathTree.ok_data (h : PathTree key inner ok c) : ok c.data := by
  cases h with
  | node hok hinner hkeys h => exact hok

theorem PathTree.mk (hok : ok d) (hinner : inner d = true ↔ f ≠ []) (h : PathForest key inner ok f) :
    PathTree key inner ok (.node d f) := .node hok hinner h.keys h.trees

theorem PathTree.within {u : RoseTree α} (h : PathTree key inner ok c) (hu : Within c u) :
    PathTree key inner ok u := by
  induction hu with
  | refl t => exact h
  | child hc hu ih => exact ih (h.forest.trees _ hc)

theorem eq_node (c : RoseTree α) : c = .node c.data c.children := by
  cases c
  rfl

/-- The paths of a node that is not inner. -/
theorem leafPaths_of_not_inner (h : PathTree key inner ok c) (hleaf : inner c.data = false) :
    c.leafPaths = [[c.data]] := by
  obtain ⟨d, cs⟩ := c
  have hnil : cs = [] := Classical.byContradiction fun hne =>
    Bool.false_ne_true (hleaf.symm.trans (h.inner_iff.mpr hne))
  rw [hnil]
  rfl

theorem mem_leafPaths_of_inner (h : PathTree key inner ok c) (hinner : inner c.data = true) :
    q ∈ c.leafPaths ↔ ∃ q' ∈ forestPaths c.children, q = c.data :: q' := by
  obtain ⟨d, cs⟩ := c
  have hne : cs ≠ [] := h.inner_iff.mp hinner
  rw [leafPaths, if_neg (by simpa using hne), List.mem_map]
  exact exists_congr fun q' => and_congr_right fun _ => eq_comm

/-- A path of a tree starts with its root. -/
theorem exists_of_mem_leafPaths (hq : q ∈ c.leafPaths) : ∃ q', q = c.data :: q' := by
  obtain ⟨d, cs⟩ := c
  rw [leafPaths] at hq
  split at hq
  · exact ⟨[], List.mem_singleton.mp hq⟩
  · obtain ⟨q', -, rfl⟩ := List.mem_map.mp hq
    exact ⟨q', rfl⟩

/-- Every tree has a path. -/
theorem exists_leafPath (c : RoseTree α) : ∃ q, q ∈ c.leafPaths := by
  match c with
  | .node d [] => exact ⟨_, List.mem_singleton.mpr rfl⟩
  | .node d (c :: cs) =>
    obtain ⟨q, hq⟩ := exists_leafPath c
    refine ⟨d :: q, ?_⟩
    rw [leafPaths]
    exact List.mem_map_of_mem (mem_forestPaths.mpr ⟨c, List.mem_cons_self, hq⟩)

/-- Siblings with one key are one. -/
theorem PathForest.eq_of_key (h : PathForest key inner ok f) {c c' : RoseTree α} (hc : c ∈ f)
    (hc' : c' ∈ f) (hkey : key c.data = key c'.data) : c = c' :=
  List.inj_on_of_nodup_map h.keys hc hc' hkey

/-! ## Insertion -/

theorem pathTree_singlePath {rest : List α} (h : IsPath inner ok (d :: rest)) :
    PathTree key inner ok (singlePath d rest) := by
  induction rest generalizing d with
  | nil =>
    cases h with
    | leaf d hok hleaf => exact .node hok (by simp [hleaf]) List.nodup_nil (by simp)
    | step d hok hinner hrest => cases hrest
  | cons d' rest ih =>
    cases h with
    | step d hok hinner hrest =>
      refine .node hok (by simp [hinner]) (List.nodup_singleton _) fun c hc => ?_
      rw [List.mem_singleton.mp hc]
      exact ih hrest

section Insertion
variable [DecidableEq κ]

theorem insertPath_of_mem {rest : List α} (h : ∃ c ∈ f, key c.data = key d) :
    insertPath key (d :: rest) f = f.map fun c =>
      if key c.data = key d then .node c.data (insertPath key rest c.children) else c := by
  rw [insertPath, if_pos h]

theorem insertPath_of_not_mem {rest : List α} (h : ¬ ∃ c ∈ f, key c.data = key d) :
    insertPath key (d :: rest) f = f ++ [singlePath d rest] := by
  rw [insertPath, if_neg h]

theorem insertPath_ne_nil {rest : List α} : insertPath key (d :: rest) f ≠ [] := by
  by_cases h : ∃ c ∈ f, key c.data = key d
  · rw [insertPath_of_mem h, ne_eq, List.map_eq_nil_iff]
    obtain ⟨c, hc, -⟩ := h
    exact List.ne_nil_of_mem hc
  · rw [insertPath_of_not_mem h]
    exact List.append_ne_nil_of_right_ne_nil f (List.cons_ne_nil _ _)

/-- Keys of siblings stay distinct, and inner nodes are those with children. -/
theorem PathForest.insertPath (hlaw : LawfulKeys key inner ok) (h : PathForest key inner ok f)
    (hp : IsPath inner ok p) : PathForest key inner ok (insertPath key p f) := by
  induction p generalizing f with
  | nil => exact h
  | cons d rest ih =>
    by_cases hmem : ∃ c ∈ f, key c.data = key d
    · rw [insertPath_of_mem hmem]
      constructor
      · rw [List.map_map]
        refine (List.map_congr_left fun c _ => ?_).symm ▸ h.keys
        show key (if key c.data = key d then _ else c).data = key c.data
        split <;> rfl
      · intro c' hc'
        obtain ⟨c, hc, rfl⟩ := List.mem_map.mp hc'
        have htree := h.trees c hc
        split
        · next hkey =>
          have hinner := hlaw.inner_eq _ _ hkey
          cases hp with
          | leaf d hok hleaf =>
            -- the path ends at a node that is there
            exact eq_node c ▸ htree
          | step d hok hd hrest =>
            refine .mk htree.ok_data (iff_of_true (hinner.trans hd) ?_) (ih htree.forest hrest)
            cases hrest <;> exact insertPath_ne_nil
        · exact htree
    · rw [insertPath_of_not_mem hmem]
      constructor
      · rw [List.map_append]
        refine h.keys.append (List.nodup_singleton _) fun k hk hk' => hmem ?_
        obtain ⟨c, hc, rfl⟩ := List.mem_map.mp hk
        have hkey : key c.data = key (singlePath d rest).data := List.mem_singleton.mp hk'
        rw [data_singlePath] at hkey
        exact ⟨c, hc, hkey⟩
      · intro c hc
        rcases List.mem_append.mp hc with hc | hc
        · exact h.trees c hc
        · rw [List.mem_singleton.mp hc]
          exact pathTree_singlePath hp

/-- A path below a node that is there. -/
theorem mem_leafPaths_insertPath {rest : List α} (hlaw : LawfulKeys key inner ok)
    (h : PathTree key inner ok c) (hp : IsPath inner ok (d :: rest)) (hkey : key c.data = key d)
    (hsame : ∀ q ∈ c.leafPaths, q.map key = (d :: rest).map key → q = d :: rest)
    (ih : ∀ q' : List α, IsPath inner ok rest →
      (∀ q ∈ forestPaths c.children, q.map key = rest.map key → q = rest) →
      (q' ∈ forestPaths (insertPath key rest c.children) ↔
        q' ∈ forestPaths c.children ∨ q' = rest)) :
    q ∈ (node c.data (insertPath key rest c.children)).leafPaths ↔
      q ∈ c.leafPaths ∨ q = d :: rest := by
  have hinner := hlaw.inner_eq _ _ hkey
  cases hp with
  | leaf d hok hleaf =>
    have hpaths := leafPaths_of_not_inner h (hinner.trans hleaf)
    have heq : [c.data] = [d] := hsame [c.data] (hpaths ▸ List.mem_singleton.mpr rfl)
      (congrArg (fun k => [k]) hkey)
    show q ∈ (node c.data c.children).leafPaths ↔ _
    rw [← eq_node, hpaths, heq, List.mem_singleton, or_self]
  | step d hok hd hrest =>
    obtain rfl := hlaw.eq_of_inner _ _ h.ok_data hok (hinner.trans hd) hkey
    have hne : insertPath key rest c.children ≠ [] := by
      cases hrest <;> exact insertPath_ne_nil
    have hnew : PathTree key inner ok (node c.data (insertPath key rest c.children)) :=
      .mk h.ok_data (iff_of_true hd hne) (h.forest.insertPath hlaw hrest)
    have hbelow : ∀ q ∈ forestPaths c.children, q.map key = rest.map key → q = rest := by
      intro q hq hkeys
      refine (List.cons.inj (hsame (c.data :: q) ?_ (congrArg (key c.data :: ·) hkeys))).2
      exact (mem_leafPaths_of_inner h hd).mpr ⟨q, hq, rfl⟩
    rw [mem_leafPaths_of_inner hnew hd, mem_leafPaths_of_inner h hd]
    simp only [data_node, children_node, ih _ hrest hbelow]
    constructor
    · rintro ⟨q', hq' | rfl, rfl⟩
      · exact .inl ⟨q', hq', rfl⟩
      · exact .inr rfl
    · rintro (⟨q', hq', rfl⟩ | rfl)
      · exact ⟨q', .inl hq', rfl⟩
      · exact ⟨rest, .inr rfl, rfl⟩

/-- The path is added, and no path is lost. -/
theorem mem_forestPaths_insertPath (hlaw : LawfulKeys key inner ok) (h : PathForest key inner ok f)
    (hp : IsPath inner ok p) (hsame : ∀ q ∈ forestPaths f, q.map key = p.map key → q = p) :
    q ∈ forestPaths (insertPath key p f) ↔ q ∈ forestPaths f ∨ q = p := by
  induction p generalizing f q with
  | nil => cases hp
  | cons d rest ih =>
    by_cases hmem : ∃ c ∈ f, key c.data = key d
    · obtain ⟨c, hc, hkey⟩ := hmem
      have hstep : ∀ q, q ∈ (node c.data (insertPath key rest c.children)).leafPaths ↔
          q ∈ c.leafPaths ∨ q = d :: rest := fun q =>
        mem_leafPaths_insertPath hlaw (h.trees c hc) hp hkey
          (fun q hq => hsame q (mem_forestPaths.mpr ⟨c, hc, hq⟩))
          fun q' hrest hbelow => ih (h.trees c hc).forest hrest hbelow
      rw [insertPath_of_mem ⟨c, hc, hkey⟩, mem_forestPaths, mem_forestPaths]
      constructor
      · rintro ⟨new, hnew, hq⟩
        obtain ⟨c', hc', rfl⟩ := List.mem_map.mp hnew
        split at hq
        · next hkey' =>
          obtain rfl := h.eq_of_key hc' hc (hkey'.trans hkey.symm)
          exact ((hstep q).mp hq).imp_left fun hq => ⟨c', hc', hq⟩
        · exact .inl ⟨c', hc', hq⟩
      · rintro (⟨c', hc', hq⟩ | rfl)
        · refine ⟨_, List.mem_map_of_mem hc', ?_⟩
          split
          · next hkey' =>
            obtain rfl := h.eq_of_key hc' hc (hkey'.trans hkey.symm)
            exact (hstep q).mpr (.inl hq)
          · exact hq
        · refine ⟨_, List.mem_map_of_mem hc, ?_⟩
          rw [if_pos hkey]
          exact (hstep _).mpr (.inr rfl)
    · rw [insertPath_of_not_mem hmem, mem_forestPaths, mem_forestPaths]
      simp only [List.mem_append, List.mem_singleton, or_and_right, exists_or, exists_eq_left,
        leafPaths_singlePath]

end Insertion

/-! ## Forests with the same paths -/

/-- The paths through one tree of a forest. -/
theorem mem_leafPaths_iff (h : PathForest key inner ok f) (hc : c ∈ f) :
    q ∈ c.leafPaths ↔ q ∈ forestPaths f ∧ q.head? = some c.data := by
  constructor
  · intro hq
    obtain ⟨q', rfl⟩ := exists_of_mem_leafPaths hq
    exact ⟨mem_forestPaths.mpr ⟨c, hc, hq⟩, rfl⟩
  · rintro ⟨hq, hhead⟩
    obtain ⟨c', hc', hq⟩ := mem_forestPaths.mp hq
    obtain ⟨q', rfl⟩ := exists_of_mem_leafPaths hq
    obtain rfl := h.eq_of_key hc' hc (congrArg key (Option.some.inj hhead))
    exact hq

/-- A forest without one of its trees. -/
theorem PathForest.tail {cs : List (RoseTree α)} (h : PathForest key inner ok (c :: cs)) :
    PathForest key inner ok cs :=
  ⟨(List.nodup_cons.mp h.keys).2, fun c' hc' => h.trees c' (List.mem_cons_of_mem c hc')⟩

/-- The paths through the other trees. -/
theorem mem_forestPaths_tail {cs : List (RoseTree α)} (h : PathForest key inner ok (c :: cs)) :
    q ∈ forestPaths cs ↔ q ∈ forestPaths (c :: cs) ∧ q.head? ≠ some c.data := by
  rw [forestPaths, List.mem_append]
  constructor
  · intro hq
    refine ⟨.inr hq, fun hhead => ?_⟩
    obtain ⟨c', hc', hq'⟩ := mem_forestPaths.mp hq
    obtain ⟨q', rfl⟩ := exists_of_mem_leafPaths hq'
    refine (List.nodup_cons.mp h.keys).1 (List.mem_map.mpr ⟨c', hc', ?_⟩)
    exact congrArg key (Option.some.inj hhead)
  · rintro ⟨hq | hq, hhead⟩
    · obtain ⟨q', rfl⟩ := exists_of_mem_leafPaths hq
      exact absurd rfl hhead
    · exact hq

theorem PathForest.perm {g : List (RoseTree α)} (h : PathForest key inner ok f) (hperm : f.Perm g) :
    PathForest key inner ok g :=
  ⟨(hperm.map _).nodup_iff.mp h.keys, fun c hc => h.trees c (hperm.mem_iff.mpr hc)⟩

theorem forestPaths_perm {g : List (RoseTree α)} (hperm : f.Perm g) :
    q ∈ forestPaths f ↔ q ∈ forestPaths g := by
  rw [mem_forestPaths, mem_forestPaths]
  exact exists_congr fun c => and_congr_left fun _ => hperm.mem_iff

mutual

/-- Trees with the same root and paths. -/
theorem sameTree_of_paths (c c' : RoseTree α) (h : PathTree key inner ok c)
    (h' : PathTree key inner ok c') (hdata : c.data = c'.data)
    (hpaths : ∀ q, q ∈ c.leafPaths ↔ q ∈ c'.leafPaths) : SameTree c c' := by
  match c, c', hdata with
  | .node d cs, .node _ cs', rfl =>
    rw [sameTree_iff]
    refine sameForest_of_paths cs cs' h.forest h'.forest fun q => ?_
    by_cases hinner : inner d = true
    · have hq := hpaths (d :: q)
      rw [mem_leafPaths_of_inner h hinner, mem_leafPaths_of_inner h' hinner] at hq
      simpa using hq
    · have hnil : cs = [] := Classical.byContradiction fun hne => hinner (h.inner_iff.mpr hne)
      have hnil' : cs' = [] := Classical.byContradiction fun hne => hinner (h'.inner_iff.mpr hne)
      rw [hnil, hnil']

/-- Forests with the same paths are the same up to the order of siblings. -/
theorem sameForest_of_paths (f g : List (RoseTree α)) (h : PathForest key inner ok f)
    (h' : PathForest key inner ok g) (hpaths : ∀ q, q ∈ forestPaths f ↔ q ∈ forestPaths g) :
    SameForest f g := by
  match f with
  | [] =>
    cases g with
    | nil => exact ⟨[], .refl _, .nil⟩
    | cons c' g =>
      obtain ⟨q, hq⟩ := exists_leafPath c'
      cases (hpaths q).mpr (mem_forestPaths.mpr ⟨c', List.mem_cons_self, hq⟩)
  | c :: f =>
    -- the tree of `g` with the same root
    obtain ⟨q, hq⟩ := exists_leafPath c
    obtain ⟨q', rfl⟩ := exists_of_mem_leafPaths hq
    obtain ⟨c', hc', hq'⟩ := mem_forestPaths.mp
      ((hpaths _).mp (mem_forestPaths.mpr ⟨c, List.mem_cons_self, hq⟩))
    obtain ⟨q'', heq⟩ := exists_of_mem_leafPaths hq'
    have hdata := (List.cons.inj heq).1
    obtain ⟨g₁, g₂, rfl⟩ := List.append_of_mem hc'
    have hperm : (g₁ ++ c' :: g₂).Perm (c' :: (g₁ ++ g₂)) := List.perm_middle
    have hg := h'.perm hperm
    have hpaths' : ∀ q, q ∈ forestPaths (c :: f) ↔ q ∈ forestPaths (c' :: (g₁ ++ g₂)) :=
      fun q => (hpaths q).trans (forestPaths_perm hperm)
    have htree : SameTree c c' := by
      refine sameTree_of_paths c c' (h.trees c List.mem_cons_self) (hg.trees c' List.mem_cons_self)
        hdata fun q => ?_
      rw [mem_leafPaths_iff h List.mem_cons_self, mem_leafPaths_iff hg List.mem_cons_self,
        hpaths', hdata]
    have hrest : SameForest f (g₁ ++ g₂) := by
      refine sameForest_of_paths f (g₁ ++ g₂) h.tail hg.tail fun q => ?_
      rw [mem_forestPaths_tail h, mem_forestPaths_tail hg, hpaths', hdata]
    obtain ⟨g', hperm', hsame⟩ := hrest
    exact ⟨c' :: g', hperm.trans (hperm'.cons c'), .cons htree hsame⟩

end

end Paths

end RoseTree
