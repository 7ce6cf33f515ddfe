import FactCore.Lib.Overwrite
import FactCore.Lib.Separator
import FactCore.VirtualFilePath

/-!
# Merging virtual file paths

Copies of one file arrive from several archives, each with its own paths. Under
every root key the paths of the new object replace the old paths with the same
base, the uid chain above the file, and leave the other old paths alone.

As a set of paths a dictionary of virtual file paths is overwritten by root and
base, so what holds of `overwrite` holds of `updateVirtualFilePath`. It holds of
the sets only: the first merge into a root key copies the new list as it is, and
the next one puts it in order of its bases.

Results:
1. `getBaseOfVirtualPath_eq_iff`: two paths have the same base as texts exactly
   when they have the same uid chain.
2. `pathsOf_updateVirtualFilePath`: the merge as a set of paths.
3. `updateVirtualFilePath_laws`: which paths are kept, idempotence, and
   commutation of updates that share no root and base.
-/

namespace FactCore

/-! ## 1. Bases as uid chains -/

/-- The uid chain of a path: its elements without the last one. -/
def uidChain (virtualPath : String) : List Uid := (splitVirtualPath virtualPath).dropLast

/-- What an element of a virtual path looks like. -/
def IsPathElement (element : String) : Prop := element ≠ "" ∧ '|' ∉ element.toList

theorem isPathElement_of_mem_splitVirtualPath {virtualPath element : String}
    (h : element ∈ splitVirtualPath virtualPath) : IsPathElement element := by
  obtain ⟨chars, hchars, rfl⟩ := List.mem_map.mp h
  obtain ⟨hsplit, hne⟩ := List.mem_filter.mp hchars
  refine ⟨fun hempty => of_decide_eq_true hne ?_, ?_⟩
  · rw [← String.toList_ofList (l := chars), hempty]
    rfl
  · rw [String.toList_ofList]
    exact not_mem_of_mem_splitOn hsplit

/-- Splitting undoes joining. -/
theorem splitVirtualPath_joinVirtualPath {elements : List String}
    (h : ∀ e ∈ elements, IsPathElement e) :
    splitVirtualPath (joinVirtualPath elements) = elements := by
  rcases eq_or_ne elements [] with rfl | hne
  · rw [joinVirtualPath, String.intercalate_nil]
    rfl
  · have hsplit : (joinVirtualPath elements).toList.splitOn '|' = elements.map String.toList := by
      rw [joinVirtualPath, String.toList_intercalate]
      refine List.splitOn_intercalate _ (fun l hl => ?_) (by simpa using hne)
      obtain ⟨e, he, rfl⟩ := List.mem_map.mp hl
      exact (h e he).2
    have hkeep : (elements.map String.toList).filter (fun e => decide (e ≠ [])) =
        elements.map String.toList := by
      refine List.filter_eq_self.mpr fun l hl => ?_
      obtain ⟨e, he, rfl⟩ := List.mem_map.mp hl
      exact decide_eq_true fun hnil => (h e he).1 (String.toList_eq_nil_iff.mp hnil)
    rw [splitVirtualPath, hsplit, hkeep, List.map_map]
    exact (List.map_congr_left fun e _ => String.ofList_toList).trans (List.map_id _)

theorem isPathElement_of_mem_uidChain {virtualPath uid : String}
    (h : uid ∈ uidChain virtualPath) : IsPathElement uid :=
  isPathElement_of_mem_splitVirtualPath (List.dropLast_subset _ h)

/-- The text of a base determines the uid chain. -/
theorem splitVirtualPath_getBaseOfVirtualPath (virtualPath : String) :
    splitVirtualPath (getBaseOfVirtualPath virtualPath) = uidChain virtualPath :=
  splitVirtualPath_joinVirtualPath fun _ he => isPathElement_of_mem_uidChain he

theorem getBaseOfVirtualPath_eq_iff {path path' : String} :
    getBaseOfVirtualPath path = getBaseOfVirtualPath path' ↔ uidChain path = uidChain path' := by
  constructor
  · intro h
    rw [← splitVirtualPath_getBaseOfVirtualPath, h, splitVirtualPath_getBaseOfVirtualPath]
  · intro h
    exact congrArg joinVirtualPath h

/-! ## 2. Dictionaries as sets of paths -/

/-- The paths of a dictionary, each with the root key it stands under. -/
def pathsOf (vfp : VirtualFilePath) : Set (Uid × String) := {rp | rp.2 ∈ vfp.getD rp.1 []}

/-- Root key and base of a path. -/
def rootBase (rp : Uid × String) : Uid × List Uid := (rp.1, uidChain rp.2)

theorem mem_image_rootBase {vfp : VirtualFilePath} {root : Uid} {chain : List Uid} :
    (root, chain) ∈ Set.image rootBase (pathsOf vfp) ↔
      ∃ path ∈ vfp.getD root [], uidChain path = chain := by
  constructor
  · rintro ⟨⟨r, path⟩, hpath, heq⟩
    obtain ⟨rfl, rfl⟩ := Prod.mk.inj heq
    exact ⟨path, hpath, rfl⟩
  · rintro ⟨path, hpath, rfl⟩
    exact ⟨(root, path), hpath, rfl⟩

theorem mem_map_getBaseOfVirtualPath {paths : List String} {path : String} :
    getBaseOfVirtualPath path ∈ paths.map getBaseOfVirtualPath ↔
      ∃ other ∈ paths, uidChain other = uidChain path := by
  simp only [List.mem_map, getBaseOfVirtualPath_eq_iff]

/-- Under every root key, the merged paths are the new ones and the old ones with another base. -/
theorem mem_getD_updateVirtualFilePath {new old : VirtualFilePath} {root : Uid} {path : String} :
    path ∈ (updateVirtualFilePath new old).getD root [] ↔
      path ∈ new.getD root [] ∨
        path ∈ old.getD root [] ∧ ¬ ∃ other ∈ new.getD root [], uidChain other = uidChain path := by
  unfold Dict.getD
  rw [get?_updateVirtualFilePath]
  cases hnew : new.get? root with
  | none => simp
  | some paths =>
    cases hold : old.get? root with
    | none => simp
    | some oldPaths =>
      show path ∈ mergeVfpLists oldPaths paths ↔ _
      rw [mem_mergeVfpLists, mem_map_getBaseOfVirtualPath]
      rfl

theorem pathsOf_updateVirtualFilePath (new old : VirtualFilePath) :
    pathsOf (updateVirtualFilePath new old) = overwrite rootBase (pathsOf old) (pathsOf new) := by
  ext ⟨root, path⟩
  rw [mem_overwrite]
  show _ ↔ _ ∨ _ ∧ (root, uidChain path) ∉ _
  rw [mem_image_rootBase]
  exact mem_getD_updateVirtualFilePath

/-! ## 3. The laws of merging -/

/-- The same root keys, and under each the same set of paths. -/
def SamePaths (vfp vfp' : VirtualFilePath) : Prop :=
  (∀ root, root ∈ vfp ↔ root ∈ vfp') ∧
  ∀ root path, path ∈ vfp.getD root [] ↔ path ∈ vfp'.getD root []

theorem samePaths_of_pathsOf_eq {vfp vfp' : VirtualFilePath}
    (hroots : ∀ root, root ∈ vfp ↔ root ∈ vfp') (h : pathsOf vfp = pathsOf vfp') :
    SamePaths vfp vfp' :=
  ⟨hroots, fun root path => Set.ext_iff.mp h (root, path)⟩

theorem updateVirtualFilePath_idem (new old : VirtualFilePath) :
    SamePaths (updateVirtualFilePath new (updateVirtualFilePath new old))
      (updateVirtualFilePath new old) := by
  refine samePaths_of_pathsOf_eq (fun root => ?_) ?_
  · rw [mem_updateVirtualFilePath, mem_updateVirtualFilePath, or_assoc, or_self]
  · rw [pathsOf_updateVirtualFilePath, pathsOf_updateVirtualFilePath, overwrite_idem]

theorem updateVirtualFilePath_comm {new₁ new₂ : VirtualFilePath} (old : VirtualFilePath)
    (h : KeysApart rootBase (pathsOf new₁) (pathsOf new₂)) :
    SamePaths (updateVirtualFilePath new₂ (updateVirtualFilePath new₁ old))
      (updateVirtualFilePath new₁ (updateVirtualFilePath new₂ old)) := by
  refine samePaths_of_pathsOf_eq (fun root => ?_) ?_
  · simp only [mem_updateVirtualFilePath]
    exact or_right_comm
  · simp only [pathsOf_updateVirtualFilePath]
    exact overwrite_comm h

theorem get?_updateVirtualFilePath_of_not_mem {new old : VirtualFilePath} {root : Uid}
    (h : root ∉ new) : (updateVirtualFilePath new old).get? root = old.get? root := by
  rw [get?_updateVirtualFilePath, Dict.get?_eq_none_iff.mpr h]
  rfl

/-- Merging virtual file paths, for all dictionaries:
* under every root key, the paths of `new` and the old ones whose uid chain no new path has;
* a root key of `old` only keeps its list as it is;
* merging the same dictionary twice gives the paths of merging it once;
* two updates without a common root key and base give the same paths in either order. -/
theorem updateVirtualFilePath_laws :
    (∀ new old root path, path ∈ (updateVirtualFilePath new old).getD root [] ↔
      path ∈ new.getD root [] ∨
        path ∈ old.getD root [] ∧ ¬ ∃ other ∈ new.getD root [], uidChain other = uidChain path) ∧
    (∀ new old root, root ∉ new → (updateVirtualFilePath new old).get? root = old.get? root) ∧
    (∀ new old, SamePaths (updateVirtualFilePath new (updateVirtualFilePath new old))
      (updateVirtualFilePath new old)) ∧
    (∀ new₁ new₂ old, (∀ root path path', path ∈ new₁.getD root [] → path' ∈ new₂.getD root [] →
        uidChain path ≠ uidChain path') →
      SamePaths (updateVirtualFilePath new₂ (updateVirtualFilePath new₁ old))
        (updateVirtualFilePath new₁ (updateVirtualFilePath new₂ old))) := by
  refine ⟨fun _ _ _ _ => mem_getD_updateVirtualFilePath,
    fun _ _ _ => get?_updateVirtualFilePath_of_not_mem, updateVirtualFilePath_idem, ?_⟩
  intro new₁ new₂ old hdisjoint
  refine updateVirtualFilePath_comm old ?_
  rintro ⟨root, path⟩ hpath ⟨root', path'⟩ hpath' heq
  obtain ⟨rfl, hchain⟩ := Prod.mk.inj heq
  exact hdisjoint root path path' hpath hpath' hchain

/-- The two lists hold the same paths in different orders: a second merge sorts them by base. -/
example :
    let new : VirtualFilePath := Dict.ofList [("fw", ["fw|a|/x", "fw|b|/y", "fw|a|/z"])]
    (updateVirtualFilePath new (updateVirtualFilePath new ∅)).get? "fw" =
      some ["fw|a|/x", "fw|a|/z", "fw|b|/y"] := by
  decide

end FactCore
