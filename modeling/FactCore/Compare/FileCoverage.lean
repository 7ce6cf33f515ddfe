import Mathlib.Data.List.Dedup
import FactCore.Lib.Dict
import FactCore.Lib.MapM
import FactCore.Objects

/-!
# File coverage

`src/src/plugins/compare/file_coverage/code/file_coverage.py` with
`src/src/helperFunctions/compare_sets.py`: the files of the compared objects are put into three
classes, those that all objects include, those that only one includes, and the rest.

The classes are three set expressions of their own. The rest is a difference of the other two
results, and exists for more than two objects only.

A set is a list without duplicates. Where the code raises an exception the functions here give
`none`. Objects are compared by what is read of them, which agrees with their identity as long
as no uid occurs twice.

Results:
1. `mem_getExclusiveFiles`, `mem_getIntersectionOfFiles`: the files of two of the classes.
2. `coverageOf_classified`: the classes of every object are a partition of its files.
-/

namespace FactCore

/-! ## 1. Sets of files -/

/-- What a comparison reads of a file object. -/
structure ComparedObject where
  uid : Uid
  listOfAllIncludedFiles : List Uid
  filesIncluded : List Uid
  isFirmware : Bool
  deriving DecidableEq, Repr

section Sets
variable {α : Type} [DecidableEq α]

/-- `iter_element_and_rest`. -/
def iterElementAndRest (iterable : List α) : List (α × List α) :=
  iterable.map fun element => (element, iterable.filter fun e => decide (e ≠ element))

/-- `set.difference`. -/
def setDifference (s : List α) (others : List (List α)) : List α :=
  s.filter fun x => decide (∀ other ∈ others, x ∉ other)

/-- `set.intersection`, which needs one set at least. -/
def setIntersection : List (List α) → Option (List α)
  | [] => none
  | s :: others => some (s.filter fun x => decide (∀ other ∈ others, x ∈ other))

end Sets

/-- `_get_included_file_sets`. -/
def getIncludedFileSets (foList : List ComparedObject) : List (List Uid) :=
  foList.map fun fo => fo.listOfAllIncludedFiles.dedup

/-- `_get_exclusive_files`. -/
def getExclusiveFiles (foList : List ComparedObject) : Dict Uid (List Uid) :=
  Dict.ofList ((iterElementAndRest foList).map fun pair =>
    (pair.1.uid, setDifference pair.1.listOfAllIncludedFiles.dedup (getIncludedFileSets pair.2)))

/-- `_get_intersection_of_files`. -/
def getIntersectionOfFiles (foList : List ComparedObject) : Option (List Uid) :=
  setIntersection (getIncludedFileSets foList)

/-- `_get_files_in_more_than_one_but_not_in_all`. -/
def getFilesInMoreThanOneButNotInAll (foList : List ComparedObject) (filesInCommon : List Uid)
    (exclusiveFiles : Dict Uid (List Uid)) : Option (Dict Uid (List Uid)) :=
  (foList.mapM fun fo => (exclusiveFiles.get? fo.uid).map fun exclusive =>
    (fo.uid, setDifference fo.listOfAllIncludedFiles.dedup [filesInCommon, exclusive])).map
      Dict.ofList

/-- The classes of files in the result of `compare_function`. -/
structure Coverage where
  filesInCommon : List Uid
  exclusiveFiles : Dict Uid (List Uid)
  filesInMoreThanOneButNotInAll : Option (Dict Uid (List Uid))

/-- The part of `compare_function` that sorts the files into classes. -/
def coverageOf (foList : List ComparedObject) : Option Coverage := do
  let filesInCommon ← getIntersectionOfFiles foList
  let exclusiveFiles := getExclusiveFiles foList
  if foList.length > 2 then
    let notInAll ← getFilesInMoreThanOneButNotInAll foList filesInCommon exclusiveFiles
    some ⟨filesInCommon, exclusiveFiles, some notInAll⟩
  else some ⟨filesInCommon, exclusiveFiles, none⟩

/-- The exclusive files do not depend on the other classes. -/
theorem exclusiveFiles_of_coverageOf {foList : List ComparedObject} {coverage : Coverage}
    (h : coverageOf foList = some coverage) :
    coverage.exclusiveFiles = getExclusiveFiles foList := by
  unfold coverageOf at h
  obtain ⟨files, -, h⟩ := Option.bind_eq_some_iff.mp h
  split at h
  · obtain ⟨notInAll, -, h⟩ := Option.bind_eq_some_iff.mp h
    obtain rfl := Option.some.inj h
    rfl
  · obtain rfl := Option.some.inj h
    rfl

/-! ## 2. What a partition is -/

/-- No uid occurs twice among the compared objects. -/
def DistinctObjects (foList : List ComparedObject) : Prop :=
  (foList.map ComparedObject.uid).Nodup

instance (foList : List ComparedObject) : Decidable (DistinctObjects foList) :=
  inferInstanceAs (Decidable (foList.map ComparedObject.uid).Nodup)

/-- The file is included in all objects. -/
def InAll (foList : List ComparedObject) (file : Uid) : Prop :=
  ∀ fo ∈ foList, file ∈ fo.listOfAllIncludedFiles

/-- The file is included in this object only. -/
def OnlyIn (foList : List ComparedObject) (fo : ComparedObject) (file : Uid) : Prop :=
  file ∈ fo.listOfAllIncludedFiles ∧
    ∀ other ∈ foList, other ≠ fo → file ∉ other.listOfAllIncludedFiles

/-- The file is included in this object and another one, but not in all. -/
def InSome (foList : List ComparedObject) (fo : ComparedObject) (file : Uid) : Prop :=
  file ∈ fo.listOfAllIncludedFiles ∧
    (∃ other ∈ foList, other ≠ fo ∧ file ∈ other.listOfAllIncludedFiles) ∧ ¬ InAll foList file

/-- The files of an object are the common ones, its exclusive ones and the rest, each once. Two
objects have no rest. -/
structure Classified (foList : List ComparedObject) (coverage : Coverage) (fo : ComparedObject)
    (exclusive rest : List Uid) : Prop where
  exclusiveFiles : coverage.exclusiveFiles.get? fo.uid = some exclusive
  notInAll : coverage.filesInMoreThanOneButNotInAll.map (fun files => files.get? fo.uid) =
    if 2 < foList.length then some (some rest) else none
  union : (coverage.filesInCommon ++ exclusive ++ rest).Perm fo.listOfAllIncludedFiles.dedup
  mem_common : ∀ file, file ∈ coverage.filesInCommon ↔ InAll foList file
  mem_exclusive : ∀ file, file ∈ exclusive ↔ OnlyIn foList fo file
  mem_rest : ∀ file, file ∈ rest ↔ InSome foList fo file
  two : foList.length = 2 → rest = []

/-! ## 3. Members of the classes -/

theorem mem_setDifference {α : Type} [DecidableEq α] {s : List α} {others : List (List α)} {x : α} :
    x ∈ setDifference s others ↔ x ∈ s ∧ ∀ other ∈ others, x ∉ other := by
  rw [setDifference, List.mem_filter, decide_eq_true_iff]

section Members
variable {foList : List ComparedObject} {fo : ComparedObject} {file : Uid}

/-- With distinct uids, what is stored under a uid belongs to its object. -/
theorem get?_ofList_uid {ν : Type} (h : DistinctObjects foList) (hfo : fo ∈ foList)
    (value : ComparedObject → ν) :
    (Dict.ofList (foList.map fun fo => (fo.uid, value fo))).get? fo.uid = some (value fo) := by
  have hkeys : ((foList.map fun fo => (fo.uid, value fo)).map Prod.fst).Nodup := by
    rw [List.map_map]
    exact h
  rw [← Dict.mem_entries_iff, Dict.entries_ofList hkeys]
  exact List.mem_map_of_mem hfo

theorem get?_getExclusiveFiles (h : DistinctObjects foList) (hfo : fo ∈ foList) :
    (getExclusiveFiles foList).get? fo.uid = some (setDifference fo.listOfAllIncludedFiles.dedup
      (getIncludedFileSets (foList.filter fun e => decide (e ≠ fo)))) := by
  rw [getExclusiveFiles, iterElementAndRest, List.map_map]
  exact get?_ofList_uid h hfo fun fo => setDifference fo.listOfAllIncludedFiles.dedup
    (getIncludedFileSets (foList.filter fun e => decide (e ≠ fo)))

/-- The exclusive files of an object. -/
theorem mem_getExclusiveFiles : file ∈ setDifference fo.listOfAllIncludedFiles.dedup
    (getIncludedFileSets (foList.filter fun e => decide (e ≠ fo))) ↔ OnlyIn foList fo file := by
  rw [mem_setDifference, List.mem_dedup, getIncludedFileSets, List.forall_mem_map, OnlyIn]
  simp only [List.mem_filter, decide_eq_true_iff, List.mem_dedup, and_imp]

theorem mem_getIntersectionOfFiles {files : List Uid} (h : getIntersectionOfFiles foList = some files) :
    file ∈ files ↔ InAll foList file := by
  cases foList with
  | nil => cases h
  | cons fo others =>
    obtain rfl := Option.some.inj h
    rw [List.mem_filter, decide_eq_true_iff, List.forall_mem_map, InAll, List.forall_mem_cons,
      List.mem_dedup]
    simp only [List.mem_dedup]

theorem getIntersectionOfFiles_nodup {files : List Uid}
    (h : getIntersectionOfFiles foList = some files) : files.Nodup := by
  cases foList with
  | nil => cases h
  | cons fo others =>
    obtain rfl := Option.some.inj h
    exact (List.nodup_dedup _).filter _

/-! ## 4. The partition -/

/-- The files of the third class. -/
def restOf (foList : List ComparedObject) (filesInCommon : List Uid) (fo : ComparedObject) : List Uid :=
  setDifference fo.listOfAllIncludedFiles.dedup [filesInCommon,
    setDifference fo.listOfAllIncludedFiles.dedup
      (getIncludedFileSets (foList.filter fun e => decide (e ≠ fo)))]

theorem mem_restOf {files : List Uid} (h : getIntersectionOfFiles foList = some files) :
    file ∈ restOf foList files fo ↔ InSome foList fo file := by
  rw [restOf, mem_setDifference, List.mem_dedup, List.forall_mem_cons, List.forall_mem_singleton,
    mem_getIntersectionOfFiles h, mem_getExclusiveFiles, InSome]
  refine and_congr_right fun hfile => and_comm.trans (and_congr_left fun _ => ?_)
  simp only [OnlyIn, hfile, true_and, not_forall, not_not, exists_prop]

/-- With two objects, what the other one includes as well is in both. -/
theorem not_inSome_of_two (h : foList.length = 2) (hfo : fo ∈ foList) :
    ¬ InSome foList fo file := by
  rintro ⟨hfile, ⟨other, hother, hne, hin⟩, hall⟩
  obtain ⟨a, b, rfl⟩ := List.length_eq_two.mp h
  refine hall fun fo' hfo' => ?_
  simp only [List.mem_cons, List.not_mem_nil, or_false] at hfo hother hfo'
  rcases hfo with rfl | rfl <;> rcases hother with rfl | rfl <;> rcases hfo' with rfl | rfl <;>
    first | exact hfile | exact hin | exact absurd rfl hne

/-- The three kinds of files exclude each other. -/
theorem perm_classes {common exclusive rest : List Uid} (hcommon : common.Nodup)
    (hexclusive : exclusive.Nodup) (hrest : rest.Nodup) (hfo : fo ∈ foList)
    (hother : ∃ other ∈ foList, other ≠ fo)
    (mem_common : ∀ file, file ∈ common ↔ InAll foList file)
    (mem_exclusive : ∀ file, file ∈ exclusive ↔ OnlyIn foList fo file)
    (mem_rest : ∀ file, file ∈ rest ↔ InSome foList fo file) :
    (common ++ exclusive ++ rest).Perm fo.listOfAllIncludedFiles.dedup := by
  obtain ⟨other, hother, hne⟩ := hother
  refine (List.perm_ext_iff_of_nodup ?_ (List.nodup_dedup _)).mpr fun file => ?_
  · refine (hcommon.append hexclusive fun file hall honly => ?_).append hrest
      fun file hboth hsome => ?_
    · exact ((mem_exclusive file).mp honly).2 other hother hne ((mem_common file).mp hall other hother)
    · obtain ⟨-, ⟨other', hother', hne', hin⟩, hall⟩ := (mem_rest file).mp hsome
      rcases List.mem_append.mp hboth with hmem | hmem
      · exact hall ((mem_common file).mp hmem)
      · exact ((mem_exclusive file).mp hmem).2 other' hother' hne' hin
  · rw [List.mem_append, List.mem_append, mem_common, mem_exclusive, mem_rest, List.mem_dedup]
    constructor
    · rintro ((hall | honly) | hsome)
      · exact hall fo hfo
      · exact honly.1
      · exact hsome.1
    · intro hfile
      by_cases hall : InAll foList file
      · exact .inl (.inl hall)
      by_cases honly : OnlyIn foList fo file
      · exact .inl (.inr honly)
      refine .inr ⟨hfile, ?_, hall⟩
      by_contra hnone
      exact honly ⟨hfile, fun other hother hne hin => hnone ⟨other, hother, hne, hin⟩⟩

theorem exists_other (hlength : 2 ≤ foList.length) (h : DistinctObjects foList) (hfo : fo ∈ foList) :
    ∃ other ∈ foList, other ≠ fo := by
  by_contra hnone
  have hall : ∀ other ∈ foList, other = fo := fun other hother =>
    Classical.byContradiction fun hne => hnone ⟨other, hother, hne⟩
  match foList, hlength with
  | a :: b :: foList, _ =>
    have ha := hall a List.mem_cons_self
    have hb := hall b (List.mem_cons_of_mem _ List.mem_cons_self)
    have hnodup := (List.nodup_cons.mp h).1
    rw [ha, hb] at hnodup
    exact hnodup List.mem_cons_self

/-- The third classes of all objects, as they are stored. -/
theorem getFilesInMoreThanOneButNotInAll_eq (h : DistinctObjects foList) (files : List Uid) :
    getFilesInMoreThanOneButNotInAll foList files (getExclusiveFiles foList) =
      some (Dict.ofList (foList.map fun fo => (fo.uid, restOf foList files fo))) := by
  unfold getFilesInMoreThanOneButNotInAll
  rw [option_mapM_eq_map (g := fun fo => (fo.uid, restOf foList files fo))]
  · rfl
  · intro fo hfo
    rw [get?_getExclusiveFiles h hfo]
    rfl

/-- The common and the exclusive files with a third class, whatever stores it. -/
theorem classified_of_rest (hlength : 2 ≤ foList.length) (h : DistinctObjects foList)
    (hfo : fo ∈ foList) {files rest : List Uid} (hfiles : getIntersectionOfFiles foList = some files)
    {notInAll : Option (Dict Uid (List Uid))}
    (hget : notInAll.map (fun files => files.get? fo.uid) =
      if 2 < foList.length then some (some rest) else none)
    (hrest : rest.Nodup) (hmem : ∀ file, file ∈ rest ↔ InSome foList fo file)
    (htwo : foList.length = 2 → rest = []) :
    ∃ exclusive, Classified foList ⟨files, getExclusiveFiles foList, notInAll⟩ fo exclusive rest :=
  ⟨_, get?_getExclusiveFiles h hfo, hget,
    perm_classes (getIntersectionOfFiles_nodup hfiles) ((List.nodup_dedup _).filter _) hrest hfo
      (exists_other hlength h hfo) (fun _ => mem_getIntersectionOfFiles hfiles)
      (fun _ => mem_getExclusiveFiles) hmem,
    fun _ => mem_getIntersectionOfFiles hfiles, fun _ => mem_getExclusiveFiles, hmem, htwo⟩

end Members

/-- The files of two or more objects are sorted into classes, which are a partition of the files
of every object. -/
theorem coverageOf_classified {foList : List ComparedObject} (hlength : 2 ≤ foList.length)
    (h : DistinctObjects foList) : ∃ coverage, coverageOf foList = some coverage ∧
      ∀ fo ∈ foList, ∃ exclusive rest, Classified foList coverage fo exclusive rest := by
  obtain ⟨files, hfiles⟩ : ∃ files, getIntersectionOfFiles foList = some files := by
    cases foList with
    | nil => cases hlength
    | cons fo others => exact ⟨_, rfl⟩
  unfold coverageOf
  rw [hfiles]
  by_cases hmore : 2 < foList.length
  · refine ⟨⟨files, getExclusiveFiles foList, some (Dict.ofList
      (foList.map fun fo => (fo.uid, restOf foList files fo)))⟩, ?_, fun fo hfo => ?_⟩
    · simp only [Option.bind_eq_bind, Option.bind_some, gt_iff_lt, hmore, if_true,
        getFilesInMoreThanOneButNotInAll_eq h]
    · have hrest : (restOf foList files fo).Nodup := (List.nodup_dedup _).filter _
      have hget : (some (Dict.ofList (foList.map fun fo => (fo.uid, restOf foList files fo)))).map
          (fun files => files.get? fo.uid) =
            if 2 < foList.length then some (some (restOf foList files fo)) else none := by
        rw [if_pos hmore]
        exact congrArg some (get?_ofList_uid h hfo (restOf foList files))
      obtain ⟨exclusive, hclassified⟩ := classified_of_rest hlength h hfo hfiles hget hrest
        (fun _ => mem_restOf hfiles) fun htwo => absurd htwo (Nat.ne_of_gt hmore)
      exact ⟨exclusive, _, hclassified⟩
  · have htwo : foList.length = 2 := Nat.le_antisymm (Nat.not_lt.mp hmore) hlength
    refine ⟨⟨files, getExclusiveFiles foList, none⟩, ?_, fun fo hfo => ?_⟩
    · simp only [Option.bind_eq_bind, Option.bind_some, gt_iff_lt, hmore, if_false]
    · -- a file of one of two objects is in both or exclusive
      have hnone : ∀ file, file ∈ ([] : List Uid) ↔ InSome foList fo file :=
        fun file => iff_of_false List.not_mem_nil (not_inSome_of_two htwo hfo)
      have hget : (none : Option (Dict Uid (List Uid))).map (fun files => files.get? fo.uid) =
          if 2 < foList.length then some (some []) else none := by
        rw [if_neg hmore]
        rfl
      obtain ⟨exclusive, hclassified⟩ := classified_of_rest hlength h hfo hfiles hget
        List.nodup_nil hnone fun _ => rfl
      exact ⟨exclusive, [], hclassified⟩

end FactCore
