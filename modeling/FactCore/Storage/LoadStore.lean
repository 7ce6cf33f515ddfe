import FactCore.Storage.Histories

/-!
# Loading an object and adding it back

Every update of an analysis loads an object and adds it again before each
plugin. The object is rebuilt by `entry_conversion.py` and written by
`update_file_object`, and the two do not agree on every field: the depth is not
loaded, the flag is recomputed from the firmware table, the root firmware is
recomputed from the virtual paths, and path lists are regrouped.

Results:
1. `firmwareRow_firmwareFromEntry`: the meta data of a firmware survive.
2. `addObject_getObject_iff`: exactly when the database is unchanged.
3. `extracted_file_loses_depth`: the rows of extracted files are changed.
-/

namespace FactCore

/-- The virtual paths of a row name roots, none of which is stored. -/
def RootsMissing (db : Db) (entry : FileObjectEntry) : Prop :=
  entry.virtualFilePaths.keys ≠ [] ∧ ∀ root ∈ entry.virtualFilePaths, root ∉ db.fileObjects

/-- What is written back for the row `entry` of `uid` is what is stored. -/
structure WrittenBack (db : Db) (uid : Uid) (entry : FileObjectEntry) : Prop where
  depth : entry.depth = 0
  isFirmware : entry.isFirmware = true ↔ uid ∈ db.firmware
  grouped : ∀ root paths, entry.virtualFilePaths.get? root = some paths →
    groupedByBase paths = paths
  roots : ∀ root ∈ entry.virtualFilePaths, root ∈ db.fileObjects → (root, uid) ∈ db.fwFiles

section LoadStore
variable {driver : Driver} {limits : Limits} {db : Db} {uid : Uid} {entry : FileObjectEntry}
  {fo : FileObject}

/-! ## 1. Meta data -/

theorem firmwareRow_firmwareFromEntry {fw : FirmwareEntry} (h : fw.firmwareTags.Nodup) :
    firmwareRow (firmwareFromEntry fw) fw.releaseDate = fw := by
  have hmap : (fw.firmwareTags.map fun tag => (tag, "secondary")).map Prod.fst =
      fw.firmwareTags := by
    simp [Function.comp_def]
  have hkeys : (firmwareFromEntry fw).tags.keys = fw.firmwareTags := by
    rw [firmwareFromEntry, Dict.keys, Dict.entries_ofList (by rwa [hmap]), hmap]
  simp only [firmwareRow, hkeys]
  rfl

/-- The first session of an update with a loaded object writes the stored meta data: the release date
is loaded as an ISO 8601 text, which the database reads. -/
theorem withFirmware_getObject (ht : db.TagsNodup) (hload : getObject db uid = some fo)
    (hrow : uid ∈ db.fileObjects) : ReadsDate driver fo ∧ ∀ row,
      writtenFirmware driver db fo = .ok row → withFirmware db fo row = db := by
  obtain ⟨entry, -, rfl⟩ := Option.map_eq_some_iff.mp hload
  cases hfw : db.firmware.get? uid with
  | none =>
    refine ⟨fun fw hsome => (by cases hsome), fun row hw => ?_⟩
    obtain rfl := Except.ok.inj hw
    rfl
  | some fw =>
    refine ⟨fun fw' hsome => ?_, fun row hw => ?_⟩
    · obtain rfl := Option.some.inj hsome
      exact ⟨fw.releaseDate, driver.date_iso _⟩
    · have hdate : driver.date (firmwareFromEntry fw).releaseDate = .ok fw.releaseDate :=
        driver.date_iso _
      rw [writtenFirmware_of_stored rfl hrow, hdate] at hw
      obtain rfl := Except.ok.inj hw
      have hset : db.firmware.set uid (firmwareRow (firmwareFromEntry fw) fw.releaseDate) =
          db.firmware := by
        rw [firmwareRow_firmwareFromEntry (ht uid fw hfw), Dict.set_eq_self hfw]
      exact congrArg (fun t => { db with firmware := t }) hset

/-! ## 2. Rows and relations -/

/-- A loaded object misses references exactly if none of its roots is stored. -/
theorem refsMissing_getObject (hk : db.ForeignKeys) (hrow : db.fileObjects.get? uid = some entry)
    (hload : getObject db uid = some fo) : RefsMissing db fo ↔ RootsMissing db entry := by
  obtain ⟨entry', hrow', rfl⟩ := Option.map_eq_some_iff.mp hload
  obtain rfl := Option.some.inj (hrow.symm.trans hrow')
  refine or_iff_left fun h => ?_
  obtain ⟨p, hp⟩ := List.exists_mem_of_ne_nil _ h.1
  exact h.2 p hp (hk.included p uid (Db.mem_getParentUids.mp hp)).1

theorem updatedEntry_getObject_iff (hrow : db.fileObjects.get? uid = some entry)
    (hload : getObject db uid = some fo) :
    updatedEntry fo entry = entry ↔ entry.depth = 0 ∧ (entry.isFirmware = true ↔ uid ∈ db.firmware) ∧
      ∀ root paths, entry.virtualFilePaths.get? root = some paths → groupedByBase paths = paths := by
  have hflag := getObject_isFirmware hload
  obtain ⟨entry', hrow', rfl⟩ := Option.map_eq_some_iff.mp hload
  obtain rfl := Option.some.inj (hrow.symm.trans hrow')
  rw [← updateVirtualFilePath_self_iff, ← hflag, ← Bool.eq_iff_iff]
  constructor
  · intro h
    exact ⟨(congrArg FileObjectEntry.depth h).symm, (congrArg FileObjectEntry.isFirmware h).symm,
      congrArg FileObjectEntry.virtualFilePaths h⟩
  · rintro ⟨hdepth, hfw, hvfp⟩
    exact FileObjectEntry.ext rfl rfl hdepth.symm rfl rfl hvfp hfw.symm

theorem insertPairs_eq_self_iff {table pairs : List (Uid × Uid)} :
    insertPairs table pairs = table ↔ ∀ e ∈ pairs, e ∈ table :=
  ⟨fun h _ he => h ▸ mem_insertPairs.mpr (.inr he), insertPairs_eq_self⟩

/-- Linking a loaded object to its parents and roots changes nothing exactly if it is linked to
each root of its paths. -/
theorem linkParents_getObject_iff (hrow : db.fileObjects.get? uid = some entry)
    (hload : getObject db uid = some fo) :
    linkParents db fo = db ↔
      ∀ root ∈ entry.virtualFilePaths, root ∈ db.fileObjects → (root, uid) ∈ db.fwFiles := by
  obtain ⟨entry', hrow', rfl⟩ := Option.map_eq_some_iff.mp hload
  obtain rfl := Option.some.inj (hrow.symm.trans hrow')
  have hparents : insertPairs db.includedFiles (((db.getParentUids uid).filter
      fun u => decide (u ∈ db.fileObjects)).map fun p => (p, uid)) = db.includedFiles := by
    refine insertPairs_eq_self fun _ he => ?_
    obtain ⟨p, hp, rfl⟩ := List.mem_map.mp he
    exact Db.mem_getParentUids.mp (List.mem_filter.mp hp).1
  have hlink : linkParents db (fileObjectFromEntry db uid entry
      ((db.firmware.get? uid).map firmwareFromEntry)) = db ↔
      insertPairs db.fwFiles ((entry.virtualFilePaths.keys.filter
        fun u => decide (u ∈ db.fileObjects)).map fun r => (r, uid)) = db.fwFiles := by
    simp only [linkParents, fileObjectFromEntry, hparents]
    exact ⟨fun h => congrArg Db.fwFiles h, fun h => by rw [h]⟩
  rw [hlink, insertPairs_eq_self_iff]
  constructor
  · intro h root hroot hstored
    exact h (root, uid) (List.mem_map.mpr ⟨root, List.mem_filter.mpr
      ⟨hroot, decide_eq_true hstored⟩, rfl⟩)
  · intro h e he
    obtain ⟨root, hroot, rfl⟩ := List.mem_map.mp he
    obtain ⟨hroot, hstored⟩ := List.mem_filter.mp hroot
    exact h root hroot (of_decide_eq_true hstored)

end LoadStore

/-- Adding back a loaded object leaves the database unchanged exactly if none of the roots of its
paths is stored (the call fails then), or all that is written is what is stored. -/
theorem addObject_getObject_iff {driver : Driver} {limits : Limits} {db : Db} {uid : Uid}
    {entry : FileObjectEntry} (h : Reachable driver limits db)
    (hrow : db.fileObjects.get? uid = some entry) :
    (∀ fo, getObject db uid = some fo → (addObject driver db fo).db = db) ↔
      RootsMissing db entry ∨ WrittenBack db uid entry := by
  obtain ⟨fo, hload⟩ : ∃ fo, getObject db uid = some fo := ⟨_, by rw [getObject, hrow]; rfl⟩
  simp only [hload, Option.some.injEq, forall_eq']
  obtain ⟨hdate, hfw⟩ := @withFirmware_getObject driver _ _ _ h.tagsNodup hload
    (Dict.mem_of_get? hrow)
  have hentry := updatedEntry_getObject_iff hrow hload
  have hlink := linkParents_getObject_iff hrow hload
  obtain rfl := getObject_uid hload
  rw [← refsMissing_getObject h.foreignKeys hrow hload]
  rcases addObject_stored_cases driver hrow with ⟨hyes, hno, -⟩ | ⟨-, fw, e, hfirm, herr, -⟩ |
    ⟨row, hw, -, ⟨hmiss, e, -, hr⟩ | ⟨hmiss, hr⟩⟩
  · exact absurd ((getObject_isFirmware hload).mp hyes) hno
  · obtain ⟨date, hok⟩ := hdate fw hfirm
    rw [herr] at hok
    cases hok
  · rw [hr]
    exact iff_of_true (hfw row hw) (.inl hmiss)
  · rw [hr, hfw row hw, or_iff_right hmiss]
    constructor
    · intro heq
      have hset : db.fileObjects.set fo.uid (updatedEntry fo entry) = db.fileObjects :=
        congrArg Db.fileObjects heq
      have hsame := Option.some.inj ((Dict.set_eq_self_iff.mp hset).symm.trans hrow)
      obtain ⟨hdepth, hflag, hgrouped⟩ := hentry.mp hsame
      rw [hset] at heq
      exact ⟨hdepth, hflag, hgrouped, hlink.mp heq⟩
    · intro hback
      have hsame := hentry.mpr ⟨hback.depth, hback.isFirmware, hback.grouped⟩
      rw [hsame, Dict.set_eq_self hrow]
      exact hlink.mpr hback.roots

/-- The image is uploaded, and its object is loaded and added back once. -/
def updatedUpload : List StorageOp :=
  [.addObject outerImage, .addObject ((getObject (databaseAfter acceptAll pythonLimits
    [.addObject outerImage]) "outer").get (by decide))]

/-- A second update of the image changes nothing. -/
theorem second_update_unchanged :
    (getObject (databaseAfter acceptAll pythonLimits updatedUpload) "outer").map
        (fun fo => (addObject acceptAll
          (databaseAfter acceptAll pythonLimits updatedUpload) fo).db) =
      some (databaseAfter acceptAll pythonLimits updatedUpload) := by
  have hgrouped : ∀ e ∈ [("outer", ["outer"])], groupedByBase e.2 = e.2 := by decide
  have hsame := (@addObject_getObject_iff _ _ _ "outer" _ (reachable_databaseAfter
    acceptAll pythonLimits updatedUpload) rfl).mpr (.inr ⟨rfl, by decide, fun root paths hpaths =>
      hgrouped (root, paths) (Dict.mem_entries_iff.mpr hpaths), by decide⟩)
  obtain ⟨fo, hload⟩ : ∃ fo, getObject (databaseAfter acceptAll pythonLimits
    updatedUpload) "outer" = some fo := ⟨_, rfl⟩
  rw [hload, Option.map_some, hsame fo hload]

/-- Loading an extracted file and adding it back resets its depth. -/
theorem extracted_file_loses_depth :
    ¬ ∀ (db : Db) (uid : Uid) (fo : FileObject), Reachable acceptAll pythonLimits db →
      getObject db uid = some fo → (addObject acceptAll db fo).db = db := by
  intro h
  have hbefore : (uploadedDb.fileObjects.get?
      "inner").map FileObjectEntry.depth = some 1 := by decide
  have hafter : (getObject uploadedDb
      "inner").map (fun fo => ((addObject acceptAll
        uploadedDb fo).db.fileObjects.get?
          "inner").map FileObjectEntry.depth) = some (some 0) := by decide
  obtain ⟨fo, hload, hdepth⟩ := Option.map_eq_some_iff.mp hafter
  rw [h _ "inner" fo (reachable_databaseAfter _ _ _) hload, hbefore] at hdepth
  cases hdepth

end FactCore
