import Mathlib.Data.List.Dedup
import Mathlib.Data.List.Sort
import Mathlib.Data.String.Basic
import FactCore.Lib.Separator
import FactCore.Storage.Histories

/-!
# Comparisons in the database

A comparison is requested by an id, the uids of its objects separated by `;`
(`src/src/helperFunctions/data_conversion.py`). `src/src/compare/compare.py` compares
the objects, and `src/src/storage/db_interface_comparison.py` stores the result under
the id with its uids in order. When a file object is deleted, its comparisons are
deleted with it (`src/src/storage/schema.py`).

What the comparison plugins find is a parameter. Where the code raises an exception the
functions here give `none`: the scheduler catches all of them.

Results:
1. `convertCompareIdToList_normalize`: the uids of an id that was put in order.
2. `objectsExist_iff`: the objects of an id exist, and none is named twice.
3. `calculateCompId_compare`: under which id a result is stored.
4. `addComparisonResult_stores`, `mem_comparison_storageStep`.
-/

namespace FactCore

/-! ## 1. Comparison ids -/

/-- `convert_compare_id_to_list`. -/
def convertCompareIdToList (compareId : String) : List Uid :=
  (compareId.toList.splitOn ';').map String.ofList

/-- `convert_uid_list_to_compare_id`. -/
def convertUidListToCompareId (uidList : List Uid) : String :=
  String.ofList ([';'].intercalate ((uidList.insertionSort (· ≤ ·)).map String.toList))

/-- `normalize_compare_id`. -/
def normalizeCompareId (compareId : String) : String :=
  convertUidListToCompareId (convertCompareIdToList compareId)

theorem convertCompareIdToList_ne_nil (compareId : String) : convertCompareIdToList compareId ≠ [] := by
  unfold convertCompareIdToList
  rw [ne_eq, List.map_eq_nil_iff]
  exact List.splitOn_ne_nil _ _

theorem convertCompareIdToList_convertUidListToCompareId {uidList : List Uid} (hne : uidList ≠ [])
    (h : ∀ u ∈ uidList, ';' ∉ u.toList) :
    convertCompareIdToList (convertUidListToCompareId uidList) =
      uidList.insertionSort (· ≤ ·) := by
  unfold convertCompareIdToList convertUidListToCompareId
  rw [String.toList_ofList, List.splitOn_intercalate, List.map_map]
  · exact (List.map_congr_left fun u _ => String.ofList_toList).trans (List.map_id _)
  · intro l hl
    obtain ⟨u, hu, rfl⟩ := List.mem_map.mp hl
    exact h u ((List.mem_insertionSort _).mp hu)
  · rw [ne_eq, List.map_eq_nil_iff]
    intro hnil
    have hlen := List.length_insertionSort (· ≤ ·) uidList
    rw [hnil] at hlen
    exact hne (List.length_eq_zero_iff.mp hlen.symm)

/-- The uids of an id are put in order. -/
theorem convertCompareIdToList_normalize (compareId : String) :
    convertCompareIdToList (normalizeCompareId compareId) =
      (convertCompareIdToList compareId).insertionSort (· ≤ ·) := by
  refine convertCompareIdToList_convertUidListToCompareId (convertCompareIdToList_ne_nil _) ?_
  intro u hu
  obtain ⟨l, hl, rfl⟩ := List.mem_map.mp hu
  rw [String.toList_ofList]
  exact not_mem_of_mem_splitOn hl

theorem mem_convertCompareIdToList_normalize {compareId : String} {u : Uid} :
    u ∈ convertCompareIdToList (normalizeCompareId compareId) ↔
      u ∈ convertCompareIdToList compareId := by
  rw [convertCompareIdToList_normalize, List.mem_insertionSort]

theorem convertUidListToCompareId_perm {uids uids' : List Uid} (h : uids.Perm uids') :
    convertUidListToCompareId uids = convertUidListToCompareId uids' := by
  have hperm : (uids.insertionSort (· ≤ ·)).Perm (uids'.insertionSort (· ≤ ·)) :=
    (List.perm_insertionSort _ uids).trans (h.trans (List.perm_insertionSort _ uids').symm)
  unfold convertUidListToCompareId
  rw [hperm.eq_of_sortedLE List.sortedLE_insertionSort List.sortedLE_insertionSort]

/-! ## 2. Comparing objects -/

/-- What `compare_objects` gives back: the general section has a dict from uids to values for each
feature. -/
structure ComparisonResult where
  general : Dict String (Dict Uid PyVal)
  plugins : PyVal

/-- What is not modelled of a comparison: the value of a feature of an object, and what the plugins
find at some time, `none` if one of them raises an exception. -/
structure ComparisonEnv where
  content : FileObject → String → PyVal
  executeComparePlugins : Nat → List FileObject → Option PyVal

/-- The features that `_create_general_section_dict` adds for an object. -/
def generalFeatures (fo : FileObject) : List String :=
  (if fo.isFirmware then
      ["device_name", "device_part", "device_class", "vendor", "version", "release_date"]
    else ["firmwares_including_this_file"]) ++
  ["hid", "size", "virtual_file_path", "number_of_files"]

/-- `_add_content_to_general_dict`. -/
def addContentToGeneralDict (env : ComparisonEnv) (fo : FileObject)
    (generalDict : Dict String (Dict Uid PyVal)) (feature : String) :
    Dict String (Dict Uid PyVal) :=
  generalDict.set feature ((generalDict.getD feature ∅).set fo.uid (env.content fo feature))

/-- `_create_general_section_dict`. -/
def createGeneralSectionDict (env : ComparisonEnv) (objectList : List FileObject) :
    Dict String (Dict Uid PyVal) :=
  objectList.foldl (fun general fo =>
    (generalFeatures fo).foldl (addContentToGeneralDict env fo) general) ∅

/-- `Compare.compare` at the time `now`: an object that is not found raises an exception. -/
def compare (env : ComparisonEnv) (now : Nat) (db : Db) (uidList : List Uid) :
    Option ComparisonResult := do
  let foList ← uidList.mapM (getObject db)
  let plugins ← env.executeComparePlugins now foList
  return ⟨createGeneralSectionDict env foList, plugins⟩

/-- `_calculate_comp_id`. -/
def calculateCompId (comparisonResult : ComparisonResult) : String :=
  convertUidListToCompareId (comparisonResult.general.values.flatMap Dict.keys).dedup

/-! ## 3. The tables -/

/-- A row of `comparison`. The clock stands for `time()`. -/
structure ComparisonEntry where
  submissionDate : Nat
  data : ComparisonResult

/-- The database with the tables of the comparisons. `comparedObjects` is the association table
between comparisons and file objects. -/
structure ComparisonDb where
  db : Db
  comparison : Dict String ComparisonEntry
  comparedObjects : List (String × Uid)

/-- `objects_exist`. -/
def objectsExist (db : Db) (compareId : String) : Bool :=
  let uidList := convertCompareIdToList compareId
  decide ((db.fileObjects.keys.filter fun uid => decide (uid ∈ uidList)).length = uidList.length)

/-- `comparison_exists`: the query gives the id back. -/
def ComparisonDb.comparisonExists (s : ComparisonDb) (comparisonId : String) : Bool :=
  decide (comparisonId ∈ s.comparison) && decide (comparisonId ≠ "")

/-- `update_comparison`. -/
def ComparisonDb.updateComparison (s : ComparisonDb) (now : Nat) (comparisonId : String)
    (comparisonResult : ComparisonResult) : Option ComparisonDb :=
  if comparisonId ∈ s.comparison then
    some { s with comparison := s.comparison.set comparisonId ⟨now, comparisonResult⟩ }
  else none

/-- `insert_comparison`: neither a stored id nor a file object that is missing can be added. -/
def ComparisonDb.insertComparison (s : ComparisonDb) (now : Nat) (comparisonId : String)
    (comparisonResult : ComparisonResult) : Option ComparisonDb :=
  let fileObjects := convertCompareIdToList comparisonId
  if comparisonId ∈ s.comparison ∨ ∃ uid ∈ fileObjects, uid ∉ s.db.fileObjects then none
  else some { s with
    comparison := s.comparison.set comparisonId ⟨now, comparisonResult⟩
    comparedObjects := s.comparedObjects ++ fileObjects.map fun uid => (comparisonId, uid) }

/-- `add_comparison_result`: a result whose objects are gone is only logged. -/
def ComparisonDb.addComparisonResult (s : ComparisonDb) (now : Nat)
    (comparisonResult : ComparisonResult) : Option ComparisonDb :=
  let comparisonId := calculateCompId comparisonResult
  if !objectsExist s.db comparisonId then some s
  else if s.comparisonExists comparisonId then
    s.updateComparison now comparisonId comparisonResult
  else s.insertComparison now comparisonId comparisonResult

/-- A call that writes to the other tables. The comparisons of the file objects that it deletes are
deleted with them. -/
def ComparisonDb.storageStep (driver : Driver) (limits : Limits) (s : ComparisonDb)
    (op : StorageOp) : ComparisonDb :=
  let db := FactCore.storageStep driver limits s.db op
  let deleted := (s.comparedObjects.filter fun e =>
    decide (e.2 ∈ s.db.fileObjects ∧ e.2 ∉ db.fileObjects)).map Prod.fst
  { db := db
    comparison := s.comparison.filter fun id => decide (id ∉ deleted)
    comparedObjects := s.comparedObjects.filter fun e => decide (e.1 ∉ deleted) }

/-- The objects of a comparison are those that its id names. -/
def ComparisonDb.Consistent (s : ComparisonDb) : Prop :=
  ∀ id uid, (id, uid) ∈ s.comparedObjects → uid ∈ convertCompareIdToList id

section Comparisons
variable {env : ComparisonEnv} {db : Db} {s : ComparisonDb} {now : Nat} {compareId : String}
  {result : ComparisonResult}

/-! ## 4. Ids of existing objects -/

theorem objectsExist_iff : objectsExist db compareId = true ↔
    (convertCompareIdToList compareId).Nodup ∧
      ∀ u ∈ convertCompareIdToList compareId, u ∈ db.fileObjects := by
  unfold objectsExist
  rw [decide_eq_true_eq]
  have hmem : ∀ u, u ∈ db.fileObjects.keys.filter
      (fun uid => decide (uid ∈ convertCompareIdToList compareId)) ↔
        u ∈ db.fileObjects ∧ u ∈ convertCompareIdToList compareId := by
    intro u
    rw [List.mem_filter, decide_eq_true_eq]
    rfl
  have hn := db.fileObjects.keys_nodup.filter
    fun uid => decide (uid ∈ convertCompareIdToList compareId)
  constructor
  · -- as many rows as names: the names are the rows
    intro hlen
    have hsub := List.subperm_of_subset hn fun u hu => ((hmem u).mp hu).2
    have hperm := hsub.perm_of_length_le hlen.ge
    exact ⟨hperm.nodup_iff.mp hn, fun u hu => ((hmem u).mp (hperm.mem_iff.mpr hu)).1⟩
  · rintro ⟨hnodup, hall⟩
    exact ((List.perm_ext_iff_of_nodup hn hnodup).mpr fun u =>
      (hmem u).trans (and_iff_right_of_imp (hall u))).length_eq

theorem objectsExist_normalize : objectsExist db (normalizeCompareId compareId) =
    objectsExist db compareId := by
  rw [Bool.eq_iff_iff, objectsExist_iff, objectsExist_iff, convertCompareIdToList_normalize,
    (List.perm_insertionSort _ _).nodup_iff]
  simp only [List.mem_insertionSort]

/-! ## 5. The id of a result -/

/-- The object has a value for some feature. -/
def Mentions (general : Dict String (Dict Uid PyVal)) (u : Uid) : Prop :=
  ∃ feature values, general.get? feature = some values ∧ u ∈ values

theorem mentions_addContentToGeneralDict {fo : FileObject}
    {general : Dict String (Dict Uid PyVal)} {feature : String} {u : Uid} :
    Mentions (addContentToGeneralDict env fo general feature) u ↔
      Mentions general u ∨ u = fo.uid := by
  unfold Mentions addContentToGeneralDict
  constructor
  · rintro ⟨feature', values, hvalues, hu⟩
    rcases Dict.get?_set_eq_some.mp hvalues with ⟨rfl, rfl⟩ | ⟨-, hvalues⟩
    · rcases Dict.mem_set.mp hu with rfl | hu
      · exact .inr rfl
      · -- the feature had values before
        unfold Dict.getD at hu
        cases hold : general.get? feature' with
        | none =>
          rw [hold] at hu
          exact absurd hu (Dict.not_mem_empty u)
        | some old =>
          rw [hold] at hu
          exact .inl ⟨feature', old, hold, hu⟩
    · exact .inl ⟨feature', values, hvalues, hu⟩
  · intro h
    rcases eq_or_ne u fo.uid with rfl | hne
    · exact ⟨feature, _, Dict.get?_set_self _ _ _, Dict.mem_set.mpr (.inl rfl)⟩
    · obtain ⟨feature', values, hvalues, hu⟩ := h.resolve_right hne
      rcases eq_or_ne feature' feature with rfl | hf
      · refine ⟨feature', _, Dict.get?_set_self _ _ _, Dict.mem_set.mpr (.inr ?_)⟩
        unfold Dict.getD
        rwa [hvalues]
      · exact ⟨feature', values, (Dict.get?_set_of_ne _ hf).trans hvalues, hu⟩

theorem mentions_addFeatures {fo : FileObject} {features : List String} (hne : features ≠ [])
    {general : Dict String (Dict Uid PyVal)} {u : Uid} :
    Mentions (features.foldl (addContentToGeneralDict env fo) general) u ↔
      Mentions general u ∨ u = fo.uid := by
  induction features generalizing general with
  | nil => exact absurd rfl hne
  | cons feature features ih =>
    rw [List.foldl_cons]
    cases features with
    | nil => exact mentions_addContentToGeneralDict
    | cons feature' features =>
      rw [ih (List.cons_ne_nil _ _), mentions_addContentToGeneralDict, or_assoc, or_self]

/-- The general section has values for the compared objects. -/
theorem mentions_createGeneralSectionDict {objectList : List FileObject} {u : Uid} :
    Mentions (createGeneralSectionDict env objectList) u ↔ u ∈ objectList.map FileObject.uid := by
  have hfold : ∀ general, Mentions (objectList.foldl (fun general fo =>
      (generalFeatures fo).foldl (addContentToGeneralDict env fo) general) general) u ↔
        Mentions general u ∨ u ∈ objectList.map FileObject.uid := by
    induction objectList with
    | nil => simp
    | cons fo objectList ih =>
      intro general
      have hne : generalFeatures fo ≠ [] := List.append_ne_nil_of_right_ne_nil _ (List.cons_ne_nil _ _)
      rw [List.foldl_cons, ih, mentions_addFeatures hne, List.map_cons, List.mem_cons, or_assoc]
  refine (hfold ∅).trans (or_iff_right ?_)
  rintro ⟨feature, values, hvalues, -⟩
  rw [Dict.get?_empty] at hvalues
  cases hvalues

theorem mapM_getObject_uid {uidList : List Uid} {foList : List FileObject}
    (h : uidList.mapM (getObject db) = some foList) : foList.map FileObject.uid = uidList := by
  induction uidList generalizing foList with
  | nil =>
    cases h
    rfl
  | cons uid uidList ih =>
    rw [List.mapM_cons] at h
    cases hload : getObject db uid with
    | none =>
      rw [hload] at h
      cases h
    | some fo =>
      cases hrest : uidList.mapM (getObject db) with
      | none =>
        rw [hload, hrest] at h
        cases h
      | some rest =>
        rw [hload, hrest] at h
        cases h
        rw [List.map_cons, getObject_uid hload, ih hrest]

/-- The result for different objects has their uids in order as id. -/
theorem calculateCompId_compare {uidList : List Uid} (hn : uidList.Nodup)
    (h : compare env now db uidList = some result) :
    calculateCompId result = convertUidListToCompareId uidList := by
  unfold compare at h
  obtain ⟨foList, hload, h⟩ := Option.bind_eq_some_iff.mp h
  obtain ⟨plugins, -, h⟩ := Option.bind_eq_some_iff.mp h
  cases h
  refine convertUidListToCompareId_perm
    ((List.perm_ext_iff_of_nodup (List.nodup_dedup _) hn).mpr fun u => ?_)
  rw [List.mem_dedup, List.mem_flatMap, ← mapM_getObject_uid hload,
    ← mentions_createGeneralSectionDict]
  constructor
  · rintro ⟨values, hvalues, hu⟩
    obtain ⟨feature, hfeature⟩ := Dict.mem_values_iff.mp hvalues
    exact ⟨feature, values, hfeature, hu⟩
  · rintro ⟨feature, values, hfeature, hu⟩
    exact ⟨values, Dict.mem_values_iff.mpr ⟨feature, hfeature⟩, hu⟩

/-! ## 6. Storing a result -/

/-- A result whose objects exist is in the database afterwards, even if writing it raises an
exception. -/
theorem addComparisonResult_stores (hexist : objectsExist s.db compareId = true)
    (h : compare env now s.db (convertCompareIdToList compareId) = some result) :
    normalizeCompareId compareId ∈ ((s.addComparisonResult now result).getD s).comparison := by
  obtain ⟨hn, hall⟩ := objectsExist_iff.mp hexist
  have hid : calculateCompId result = normalizeCompareId compareId := calculateCompId_compare hn h
  unfold ComparisonDb.addComparisonResult
  simp only [hid, objectsExist_normalize, hexist, Bool.not_true, Bool.false_eq_true, if_false]
  rcases Decidable.em (normalizeCompareId compareId ∈ s.comparison) with hmem | hmem
  · split
    · unfold ComparisonDb.updateComparison
      rw [if_pos hmem]
      exact Dict.mem_set.mpr (.inl rfl)
    · -- the comparison is there all the same
      unfold ComparisonDb.insertComparison
      rw [if_pos (.inl hmem)]
      exact hmem
  · have hno : ¬ s.comparisonExists (normalizeCompareId compareId) = true := by
      simp [ComparisonDb.comparisonExists, hmem]
    have hfound : ¬ (normalizeCompareId compareId ∈ s.comparison ∨
        ∃ uid ∈ convertCompareIdToList (normalizeCompareId compareId), uid ∉ s.db.fileObjects) := by
      rintro (hin | ⟨uid, huid, hmissing⟩)
      · exact hmem hin
      · exact hmissing (hall uid (mem_convertCompareIdToList_normalize.mp huid))
    unfold ComparisonDb.insertComparison
    rw [if_neg hno, if_neg hfound]
    exact Dict.mem_set.mpr (.inl rfl)

/-- Storing a result keeps the comparisons that are there, whether it raises or not. -/
theorem addComparisonResult_kept (hcons : s.Consistent) :
    ((s.addComparisonResult now result).getD s).Consistent ∧
      ∀ id ∈ s.comparison, id ∈ ((s.addComparisonResult now result).getD s).comparison := by
  unfold ComparisonDb.addComparisonResult ComparisonDb.updateComparison
    ComparisonDb.insertComparison
  dsimp only
  split
  · exact ⟨hcons, fun _ hid => hid⟩
  · split
    · split
      · exact ⟨hcons, fun id hid => Dict.mem_set.mpr (.inr hid)⟩
      · exact ⟨hcons, fun _ hid => hid⟩
    · split
      · exact ⟨hcons, fun _ hid => hid⟩
      · refine ⟨fun id uid hmem => ?_, fun id hid => Dict.mem_set.mpr (.inr hid)⟩
        rcases List.mem_append.mp hmem with hmem | hmem
        · exact hcons id uid hmem
        · obtain ⟨uid', huid, heq⟩ := List.mem_map.mp hmem
          cases heq
          exact huid

/-! ## 7. Deleting file objects -/

/-- A comparison stays as long as the objects that its id names do. -/
theorem mem_comparison_storageStep {driver : Driver} {limits : Limits} {op : StorageOp}
    {id : String} (hcons : s.Consistent) (hid : id ∈ s.comparison)
    (hkept : ∀ u ∈ convertCompareIdToList id, u ∈ s.db.fileObjects →
      u ∈ (storageStep driver limits s.db op).fileObjects) :
    id ∈ (s.storageStep driver limits op).comparison := by
  refine Dict.mem_filter.mpr ⟨hid, decide_eq_true fun hdel => ?_⟩
  obtain ⟨⟨id', uid⟩, hmem, rfl⟩ := List.mem_map.mp hdel
  rw [List.mem_filter, decide_eq_true_eq] at hmem
  obtain ⟨hpair, hrow, hgone⟩ := hmem
  exact hgone (hkept uid (hcons id' uid hpair) hrow)

theorem ComparisonDb.Consistent.storageStep (h : s.Consistent) (driver : Driver) (limits : Limits)
    (op : StorageOp) : (s.storageStep driver limits op).Consistent :=
  fun id uid hmem => h id uid (List.mem_filter.mp hmem).1

end Comparisons

end FactCore
