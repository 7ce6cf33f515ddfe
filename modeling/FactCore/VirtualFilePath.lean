import FactCore.Lib.Separator
import FactCore.Objects

/-!
# Virtual file paths

`src/src/helperFunctions/virtual_file_path.py`. A virtual file path is a string
of uids and a last file path, separated by `|`. Its base is everything before
the last element: the paths of one file that were extracted from the same
archive have the same base.

Results:
1. `mem_mergeVfpLists`: merging keeps every new path, and every old path whose
   base does not occur among the new ones.
2. `mem_updateVirtualFilePath`, `get?_updateVirtualFilePath`: the merge of two
   dictionaries of paths, root by root.
3. `updateVirtualFilePath_self_iff`: merging a dictionary into itself changes
   nothing exactly when each of its path lists is grouped by base.
-/

namespace FactCore

/-- `split_virtual_path`: the elements between the separators, without empty ones. -/
def splitVirtualPath (virtualPath : String) : List String :=
  ((virtualPath.toList.splitOn '|').filter fun element => decide (element ≠ [])).map String.ofList

/-- `join_virtual_path`. -/
def joinVirtualPath (elements : List String) : String := "|".intercalate elements

/-- `get_base_of_virtual_path`: the path without its last element. -/
def getBaseOfVirtualPath (virtualPath : String) : String :=
  joinVirtualPath (splitVirtualPath virtualPath).dropLast

/-- `_split_vfp_list_by_base`. -/
def splitVfpListByBase (vfpList : List String) : Dict String (List String) :=
  Dict.groupBy getBaseOfVirtualPath vfpList

/-- `merge_vfp_lists`: the new groups replace the old ones with the same base. -/
def mergeVfpLists (oldVfpList newVfpList : List String) : List String :=
  ((splitVfpListByBase oldVfpList).update (splitVfpListByBase newVfpList)).values.flatten

/-- `update_virtual_file_path`: the paths of `newVfp` merged into `oldVfp`, root by root. -/
def updateVirtualFilePath (newVfp oldVfp : VirtualFilePath) : VirtualFilePath :=
  oldVfp.unionWith mergeVfpLists newVfp

/-- The paths of a list, sorted into groups of equal base. -/
def groupedByBase (vfpList : List String) : List String :=
  (splitVfpListByBase vfpList).values.flatten

theorem splitVirtualPath_eq (virtualPath : String) :
    splitVirtualPath virtualPath = (nonemptyParts '|' virtualPath.toList).map String.ofList := rfl

/-- The elements of a path are the names that the separators leave. -/
theorem splitVirtualPath_eq_iff {virtualPath : String} {elements : List String} :
    splitVirtualPath virtualPath = elements ↔
      Separated '|' virtualPath.toList (elements.map String.toList) := by
  rw [splitVirtualPath_eq, separated_iff]
  constructor
  · rintro rfl
    simp [List.map_map, Function.comp_def]
  · intro h
    rw [h]
    simp [List.map_map, Function.comp_def]

/-! ## 1. Path lists -/

theorem mergeVfpLists_self (l : List String) : mergeVfpLists l l = groupedByBase l := by
  rw [mergeVfpLists, Dict.update_self, groupedByBase]

theorem get?_splitVfpListByBase (l : List String) (base : String) :
    (splitVfpListByBase l).get? base =
      if base ∈ l.map getBaseOfVirtualPath then
        some (l.filter fun path => decide (getBaseOfVirtualPath path = base))
      else none :=
  Dict.get?_groupBy _ _ _

/-- A merged path list holds the new paths and the old ones of other bases. -/
theorem mem_mergeVfpLists {old new : List String} {path : String} :
    path ∈ mergeVfpLists old new ↔
      path ∈ new ∨ (path ∈ old ∧ getBaseOfVirtualPath path ∉ new.map getBaseOfVirtualPath) := by
  simp only [mergeVfpLists, List.mem_flatten, Dict.mem_values_iff, Dict.get?_update,
    get?_splitVfpListByBase]
  constructor
  · rintro ⟨group, ⟨base, hbase⟩, hpath⟩
    rcases Decidable.em (base ∈ new.map getBaseOfVirtualPath) with hnew | hnew
    · rw [if_pos hnew, Option.some_or, Option.some.injEq] at hbase
      rw [← hbase] at hpath
      exact .inl (List.mem_filter.mp hpath).1
    · rw [if_neg hnew, Option.none_or] at hbase
      split at hbase
      · rw [Option.some.injEq] at hbase
        rw [← hbase] at hpath
        obtain ⟨hold, hb⟩ := List.mem_filter.mp hpath
        exact .inr ⟨hold, by rwa [of_decide_eq_true hb]⟩
      · cases hbase
  · rintro (hnew | ⟨hold, hbase⟩)
    · have hb : getBaseOfVirtualPath path ∈ new.map getBaseOfVirtualPath :=
        List.mem_map_of_mem hnew
      exact ⟨_, ⟨getBaseOfVirtualPath path, by rw [if_pos hb, Option.some_or]⟩,
        List.mem_filter.mpr ⟨hnew, by simp⟩⟩
    · have hb : getBaseOfVirtualPath path ∈ old.map getBaseOfVirtualPath :=
        List.mem_map_of_mem hold
      exact ⟨_, ⟨getBaseOfVirtualPath path, by rw [if_neg hbase, if_pos hb, Option.none_or]⟩,
        List.mem_filter.mpr ⟨hold, by simp⟩⟩

theorem mem_mergeVfpLists_of_new {old new : List String} {path : String} (h : path ∈ new) :
    path ∈ mergeVfpLists old new :=
  mem_mergeVfpLists.mpr (.inl h)

/-! ## 2. Dictionaries of paths -/

theorem get?_updateVirtualFilePath (new old : VirtualFilePath) (root : Uid) :
    (updateVirtualFilePath new old).get? root =
      (new.get? root).elim (old.get? root) fun paths =>
        some ((old.get? root).elim paths fun oldPaths => mergeVfpLists oldPaths paths) :=
  Dict.get?_unionWith _ _ _ _

@[simp] theorem mem_updateVirtualFilePath {new old : VirtualFilePath} {root : Uid} :
    root ∈ updateVirtualFilePath new old ↔ root ∈ old ∨ root ∈ new :=
  Dict.mem_unionWith

/-- No path of the new dictionary is lost. -/
theorem exists_get?_updateVirtualFilePath {new old : VirtualFilePath} {root : Uid}
    {paths : List String} (h : new.get? root = some paths) :
    ∃ merged, (updateVirtualFilePath new old).get? root = some merged ∧ paths ⊆ merged := by
  rw [get?_updateVirtualFilePath, h, Option.elim_some]
  refine ⟨_, rfl, ?_⟩
  cases old.get? root with
  | none => exact List.Subset.refl _
  | some oldPaths => exact fun path hpath => mem_mergeVfpLists_of_new hpath

/-- A dictionary of paths survives being merged into itself exactly when its lists are grouped. -/
theorem updateVirtualFilePath_self_iff {vfp : VirtualFilePath} :
    updateVirtualFilePath vfp vfp = vfp ↔
      ∀ root paths, vfp.get? root = some paths → groupedByBase paths = paths := by
  simp only [updateVirtualFilePath, Dict.unionWith_self_iff, mergeVfpLists_self]

example : mergeVfpLists ["fw|/bin/a", "fw|img|/b"] ["fw|/bin/c"] = ["fw|/bin/c", "fw|img|/b"] := by
  decide

end FactCore
