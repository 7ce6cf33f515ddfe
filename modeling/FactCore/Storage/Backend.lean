import FactCore.Storage.EntryConversion

/-!
# The backend's database interface

`src/src/storage/db_interface_base.py` and `db_interface_backend.py`: adding and
updating objects and analysis results. Every write is a session that commits as
a whole or rolls back, so an operation that consists of one session is a function
to `Except`; an operation of several sessions keeps what the earlier ones have
committed when a later one fails, so it returns the database next to the
exception.

What the database driver makes of an analysis row, and of the text of a release date
in an update, is a parameter (`Driver`): it either stores the value or raises.

Results:
1. `addObject_stored_cases`, `addObject_new_cases`: what adding an object does, by
   the state of its row.
2. `addObject_added`: the effect of a successful call on each table.
3. `addObject_failed`: what a call that raises leaves behind.
-/

namespace FactCore

/-- What the database, its driver and Python's tables decide when rows are written. -/
structure Driver where
  /-- What executing the statement for an analysis row raises, `none` when the row is stored. -/
  row : Uid → String → AnalysisEntry → Option PyException
  /-- The date that PostgreSQL reads in the text of an update, or what the statement raises. -/
  date : String → Except PyException Date
  /-- The decimal digits that `strptime` knows. -/
  digits : DecimalTable
  /-- PostgreSQL reads ISO 8601 dates. -/
  date_iso : ∀ d : Date, date d.iso = .ok d

instance : CoeFun Driver fun _ => Uid → String → AnalysisEntry → Option PyException := ⟨Driver.row⟩

/-- A driver that stores every row, and reads a date as `strptime` does. -/
abbrev acceptAll : Driver where
  row _ _ _ := none
  date text := match strptime asciiDigits text with
    | some date => .ok date
    | none => .error (.sqlAlchemyError "invalid input syntax for type date")
  digits := asciiDigits
  date_iso d := by rw [strptime_iso]

/-- The database after an operation, and the exception that left it, if any. -/
structure Outcome where
  db : Db
  raised : Option PyException

/-- Go on with `next` unless an exception was raised. -/
def Outcome.andThen (o : Outcome) (next : Db → Outcome) : Outcome :=
  match o.raised with
  | none => next o.db
  | some _ => o

/-! ## 1. Sessions -/

/-- The text that marks a serialization error. -/
def isSerializationMessage (message : String) : Prop :=
  "not JSON serializable".toList <:+: message.toList

instance (message : String) : Decidable (isSerializationMessage message) :=
  inferInstanceAs (Decidable (_ <:+: _))

/-- The exception that leaves `get_read_write_session` for an exception raised inside. -/
def sessionError : PyException → PyException
  | .sqlAlchemyError message | .dbInterfaceError message =>
    if isSerializationMessage message then .dbSerializationError
    else .dbInterfaceError "Database error when trying to write to the database"
  | .dbSerializationError => .dbInterfaceError "Database error when trying to write to the database"
  | e => e

/-- `get_read_write_session`: commit the work of `body`, or roll back. -/
def readWriteSession (db : Db) (body : Except PyException Db) : Outcome :=
  match body with
  | .ok db' => ⟨db', none⟩
  | .error e => ⟨db, some (sessionError e)⟩

/-- The exceptions that a session turns into a `DbInterfaceError`. -/
def PyException.isSessionError : PyException → Bool
  | .sqlAlchemyError _ => true
  | e => e.isDbInterfaceError

theorem sessionError_isDbInterfaceError (e : PyException) :
    (sessionError e).isDbInterfaceError = e.isSessionError := by
  cases e with
  | sqlAlchemyError m | dbInterfaceError m =>
    by_cases h : isSerializationMessage m <;>
      simp [sessionError, h, PyException.isDbInterfaceError, PyException.isSessionError]
  | _ => rfl

@[simp] theorem readWriteSession_ok (db db' : Db) :
    readWriteSession db (.ok db') = ⟨db', none⟩ := rfl

@[simp] theorem readWriteSession_error (db : Db) (e : PyException) :
    readWriteSession db (.error e) = ⟨db, some (sessionError e)⟩ := rfl

/-! ## 2. Parents and root firmware -/

/-- Append the pairs that are not in an association table yet. -/
def insertPairs (table pairs : List (Uid × Uid)) : List (Uid × Uid) :=
  pairs.foldl (fun t e => if e ∈ t then t else t ++ [e]) table

/-- `_update_entries`: the uids of the list that are in the database. None at all is an error,
unless the list is empty. -/
def updateEntries (db : Db) (uidList : List Uid) (label : String) :
    Except PyException (List Uid) :=
  if uidList ≠ [] ∧ ∀ u ∈ uidList, u ∉ db.fileObjects then
    .error (.dbInterfaceError ("Trying to add object but no " ++ label ++
      " object was found in DB: [" ++ ", ".intercalate (uidList.map fun u => "'" ++ u ++ "'") ++ "]"))
  else .ok (uidList.filter fun u => decide (u ∈ db.fileObjects))

/-- `_update_parents` for the file `uid`. -/
def updateParents (db : Db) (uid : Uid) (rootFwUids parentUids : List Uid) :
    Except PyException Db := do
  let roots ← updateEntries db rootFwUids "root"
  let parents ← updateEntries db parentUids "parent"
  return { db with
    fwFiles := insertPairs db.fwFiles (roots.map fun r => (r, uid))
    includedFiles := insertPairs db.includedFiles (parents.map fun p => (p, uid)) }

/-- None of the root firmware or none of the parents that an object names is stored. -/
def RefsMissing (db : Db) (fo : FileObject) : Prop :=
  (fo.parentFirmwareUids ≠ [] ∧ ∀ u ∈ fo.parentFirmwareUids, u ∉ db.fileObjects) ∨
    (fo.parents ≠ [] ∧ ∀ u ∈ fo.parents, u ∉ db.fileObjects)

instance (db : Db) (fo : FileObject) : Decidable (RefsMissing db fo) :=
  inferInstanceAs (Decidable (_ ∨ _))

/-! ## 3. Analysis rows -/

/-- Store one analysis row: the columns `plugin_version` and `analysis_date` are not nullable. -/
def storeAnalysis (driver : Driver) (db : Db) (uid : Uid) (plugin : String)
    (entry : AnalysisEntry) : Except PyException Db :=
  match entry.pluginVersion, entry.analysisDate with
  | .none, _ => .error (.sqlAlchemyError "null value in column plugin_version")
  | _, .none => .error (.sqlAlchemyError "null value in column analysis_date")
  | _, _ =>
    match driver uid plugin entry with
    | some e => .error e
    | none => .ok { db with analyses := db.analyses.set (uid, plugin) entry }

/-- Store the analysis rows of an object that is inserted. -/
def storeAnalyses (driver : Driver) (uid : Uid) :
    Db → List (String × AnalysisEntry) → Except PyException Db
  | db, [] => .ok db
  | db, (plugin, entry) :: rows => do
    let db' ← storeAnalysis driver db uid plugin entry
    storeAnalyses driver uid db' rows

/-- `analysis_exists`. -/
def analysisExists (db : Db) (uid : Uid) (plugin : String) : Bool :=
  decide ((uid, plugin) ∈ db.analyses)

/-- `get_analysis`. -/
def getAnalysis (db : Db) (uid : Uid) (plugin : String) : Option PyVal :=
  (db.analyses.get? (uid, plugin)).map analysisEntryToDict

/-- The row that `insert_analysis` makes of a result. -/
def analysisRow (analysisDict : PyVal) : AnalysisEntry where
  pluginVersion := analysisDict.getOrNone "plugin_version"
  systemVersion := analysisDict.getOrNone "system_version"
  analysisDate := analysisDict.getOrNone "analysis_date"
  summary := analysisDict.getOrNone "summary"
  tags := analysisDict.getOrNone "tags"
  result := getAnalysisWithoutMeta analysisDict

/-- `insert_analysis`. -/
def insertAnalysis (driver : Driver) (db : Db) (uid : Uid) (plugin : String)
    (analysisDict : PyVal) : Outcome :=
  readWriteSession db <|
    if uid ∉ db.fileObjects then
      .error (.dbInterfaceError ("Could not find file object for analysis update: " ++ uid))
    -- the keys must be there; that their values are not null is left to the database
    else if !(analysisDict.hasKey "plugin_version" && analysisDict.hasKey "analysis_date") then
      .error (.dbInterfaceError ("Analysis data of " ++ plugin ++ " is incomplete"))
    else storeAnalysis driver db uid plugin (analysisRow analysisDict)

/-- `update_analysis`. The column `system_version` keeps its value. -/
def updateAnalysis (driver : Driver) (db : Db) (uid : Uid) (plugin : String)
    (analysisData : PyVal) : Outcome :=
  readWriteSession db <|
    match db.analyses.get? (uid, plugin) with
    | none => .error (.attributeError "'NoneType' object has no attribute 'plugin_version'")
    | some entry =>
      match analysisData.get? "plugin_version", analysisData.get? "analysis_date" with
      | none, _ => .error (.keyError "plugin_version")
      | _, none => .error (.keyError "analysis_date")
      | some version, some date =>
        storeAnalysis driver db uid plugin
          { entry with
            pluginVersion := version
            analysisDate := date
            summary := analysisData.getOrNone "summary"
            tags := analysisData.getOrNone "tags"
            result := getAnalysisWithoutMeta analysisData }

/-- `add_analysis`: a `DbInterfaceError` is logged, everything else is raised. -/
def addAnalysis (driver : Driver) (db : Db) (uid : Uid) (plugin : String) (analysisDict : PyVal) :
    Outcome :=
  let r := if analysisExists db uid plugin then updateAnalysis driver db uid plugin analysisDict
    else insertAnalysis driver db uid plugin analysisDict
  match r.raised with
  | some e => if e.isDbInterfaceError then ⟨r.db, none⟩ else r
  | none => r

/-! ## 4. Objects -/

/-- The flush of a new file object with its analysis rows. `sha256` is not nullable. -/
def flushFileObject (driver : Driver) (db : Db) (fo : FileObject)
    (analyses : List (String × AnalysisEntry)) : Except PyException Db :=
  match fo.sha256 with
  | none => .error (.sqlAlchemyError "null value in column sha256")
  | some sha256 =>
    storeAnalyses driver fo.uid
      { db with fileObjects := db.fileObjects.set fo.uid (createFileObjectEntry fo sha256) } analyses

/-- `insert_file_object`. -/
def insertFileObject (driver : Driver) (db : Db) (fo : FileObject) : Outcome :=
  readWriteSession db do
    let db' ← updateParents db fo.uid fo.parentFirmwareUids fo.parents
    let analyses ← createAnalysisEntries fo
    flushFileObject driver db' fo analyses

/-- `insert_firmware`. The parents and root firmware of the object are not looked at. -/
def insertFirmware (driver : Driver) (db : Db) (fo : FileObject) (fw : FirmwareMeta) : Outcome :=
  readWriteSession db do
    let row ← createFirmwareEntry driver.digits fw
    let analyses ← createAnalysisEntries fo
    flushFileObject driver { db with firmware := db.firmware.set fo.uid row } fo analyses

/-- `insert_object`. -/
def insertObject (driver : Driver) (db : Db) (fo : FileObject) : Outcome :=
  match fo.firmware with
  | some fw => insertFirmware driver db fo fw
  | none => insertFileObject driver db fo

/-- `update_firmware`: `session.get` gives `None` when there is no firmware row. The release date
goes to the database as a text. -/
def updateFirmware (driver : Driver) (db : Db) (uid : Uid) (fw : FirmwareMeta) : Outcome :=
  readWriteSession db <|
    match db.firmware.get? uid with
    | none => .error (.attributeError "'NoneType' object has no attribute 'release_date'")
    | some _ => (driver.date fw.releaseDate).map fun date =>
      { db with firmware := db.firmware.set uid (firmwareRow fw date) }

/-- The row of a stored file after `update_file_object`. -/
def updatedEntry (fo : FileObject) (entry : FileObjectEntry) : FileObjectEntry where
  sha256 := entry.sha256
  fileName := fo.fileName
  depth := fo.depth
  size := fo.size
  comments := fo.comments
  virtualFilePaths := updateVirtualFilePath fo.virtualFilePath entry.virtualFilePaths
  isFirmware := fo.isFirmware

/-- `update_file_object`. -/
def updateFileObject (db : Db) (fo : FileObject) : Outcome :=
  readWriteSession db <|
    match db.fileObjects.get? fo.uid with
    | none => .error (.attributeError "'NoneType' object has no attribute 'file_name'")
    | some entry =>
      updateParents { db with fileObjects := db.fileObjects.set fo.uid (updatedEntry fo entry) }
        fo.uid fo.parentFirmwareUids fo.parents

/-- `update_object`: two sessions for a firmware. -/
def updateObject (driver : Driver) (db : Db) (fo : FileObject) : Outcome :=
  match fo.firmware with
  | some fw => (updateFirmware driver db fo.uid fw).andThen fun db' => updateFileObject db' fo
  | none => updateFileObject db fo

/-- `add_object`. -/
def addObject (driver : Driver) (db : Db) (fo : FileObject) : Outcome :=
  if db.exists? fo.uid then updateObject driver db fo else insertObject driver db fo

/-! ## 5. What a session does -/

section Sessions
variable {driver : Driver} {db db' : Db} {fo : FileObject}

theorem mem_insertPairs {table pairs : List (Uid × Uid)} {e : Uid × Uid} :
    e ∈ insertPairs table pairs ↔ e ∈ table ∨ e ∈ pairs := by
  induction pairs generalizing table with
  | nil => simp [insertPairs]
  | cons f pairs ih =>
    rw [insertPairs, List.foldl_cons]
    have htl := @ih (if f ∈ table then table else table ++ [f])
    refine htl.trans ?_
    rcases Decidable.em (f ∈ table) with hf | hf
    · rw [if_pos hf, List.mem_cons]
      exact ⟨fun h => h.imp_right .inr, by rintro (h | rfl | h) <;> simp [*]⟩
    · rw [if_neg hf, List.mem_append, List.mem_singleton, List.mem_cons, or_assoc]

theorem insertPairs_eq_self {table pairs : List (Uid × Uid)} (h : ∀ e ∈ pairs, e ∈ table) :
    insertPairs table pairs = table := by
  induction pairs with
  | nil => rfl
  | cons f pairs ih =>
    rw [insertPairs, List.foldl_cons, if_pos (h f List.mem_cons_self)]
    exact ih fun e he => h e (List.mem_cons_of_mem _ he)

/-- The association rows that `_update_parents` adds for an object. -/
def linkParents (db : Db) (fo : FileObject) : Db :=
  { db with
    fwFiles := insertPairs db.fwFiles
      ((fo.parentFirmwareUids.filter fun u => decide (u ∈ db.fileObjects)).map fun r => (r, fo.uid))
    includedFiles := insertPairs db.includedFiles
      ((fo.parents.filter fun u => decide (u ∈ db.fileObjects)).map fun p => (p, fo.uid)) }

theorem mem_includedFiles_linkParents {p c : Uid} :
    (p, c) ∈ (linkParents db fo).includedFiles ↔
      (p, c) ∈ db.includedFiles ∨ (c = fo.uid ∧ p ∈ fo.parents ∧ p ∈ db.fileObjects) := by
  simp only [linkParents, mem_insertPairs, List.mem_map, List.mem_filter, decide_eq_true_eq,
    Prod.mk.injEq]
  refine or_congr_right ⟨?_, ?_⟩
  · rintro ⟨q, hq, rfl, rfl⟩
    exact ⟨rfl, hq⟩
  · rintro ⟨rfl, hq⟩
    exact ⟨p, hq, rfl, rfl⟩

theorem mem_fwFiles_linkParents {r f : Uid} :
    (r, f) ∈ (linkParents db fo).fwFiles ↔
      (r, f) ∈ db.fwFiles ∨ (f = fo.uid ∧ r ∈ fo.parentFirmwareUids ∧ r ∈ db.fileObjects) := by
  simp only [linkParents, mem_insertPairs, List.mem_map, List.mem_filter, decide_eq_true_eq,
    Prod.mk.injEq]
  refine or_congr_right ⟨?_, ?_⟩
  · rintro ⟨q, hq, rfl, rfl⟩
    exact ⟨rfl, hq⟩
  · rintro ⟨rfl, hq⟩
    exact ⟨r, hq, rfl, rfl⟩

theorem updateParents_of_refsMissing (h : RefsMissing db fo) :
    ∃ message, updateParents db fo.uid fo.parentFirmwareUids fo.parents =
      .error (.dbInterfaceError message) := by
  unfold updateParents updateEntries
  by_cases hr : fo.parentFirmwareUids ≠ [] ∧ ∀ u ∈ fo.parentFirmwareUids, u ∉ db.fileObjects
  · rw [if_pos hr]
    exact ⟨_, rfl⟩
  · rw [if_neg hr, if_pos (h.resolve_left hr)]
    exact ⟨_, rfl⟩

theorem updateParents_of_not_refsMissing (h : ¬ RefsMissing db fo) :
    updateParents db fo.uid fo.parentFirmwareUids fo.parents = .ok (linkParents db fo) := by
  rw [RefsMissing, not_or] at h
  unfold updateParents updateEntries
  rw [if_neg h.1, if_neg h.2]
  rfl

/-- Whether references are missing depends on the stored uids only. -/
theorem refsMissing_congr (h : ∀ u, u ∈ db'.fileObjects ↔ u ∈ db.fileObjects) :
    RefsMissing db' fo ↔ RefsMissing db fo := by
  simp only [RefsMissing, h]

theorem storeAnalysis_ok {uid : Uid} {plugin : String} {entry : AnalysisEntry}
    (h : storeAnalysis driver db uid plugin entry = .ok db') :
    db' = { db with analyses := db.analyses.set (uid, plugin) entry } := by
  unfold storeAnalysis at h
  split at h
  · cases h
  · cases h
  · -- a complete entry is stored unless the driver rejects it
    split at h
    · cases h
    · exact (Except.ok.inj h).symm

/-- Storing analysis rows of `uid` touches no other table and no other analysis row. -/
theorem storeAnalyses_ok {uid : Uid} {rows : List (String × AnalysisEntry)}
    (h : storeAnalyses driver uid db rows = .ok db') :
    db' = { db with analyses := db'.analyses } ∧
      ∀ k, k ∈ db'.analyses → k ∈ db.analyses ∨ (k.1 = uid ∧ k.2 ∈ rows.map Prod.fst) := by
  induction rows generalizing db with
  | nil =>
    obtain rfl := Except.ok.inj h
    exact ⟨rfl, fun k hk => .inl hk⟩
  | cons row rows ih =>
    obtain ⟨plugin, entry⟩ := row
    cases hs : storeAnalysis driver db uid plugin entry with
    | error e => simp [storeAnalyses, hs, bind, Except.bind] at h
    | ok db1 =>
      simp only [storeAnalyses, hs, bind, Except.bind] at h
      obtain ⟨hdb, hmem⟩ := ih h
      obtain rfl := storeAnalysis_ok hs
      refine ⟨hdb, fun k hk => ?_⟩
      rw [List.map_cons, List.mem_cons]
      rcases hmem k hk with hk | ⟨hk, hrow⟩
      · rcases Dict.mem_set.mp hk with rfl | hk
        · exact .inr ⟨rfl, .inl rfl⟩
        · exact .inl hk
      · exact .inr ⟨hk, .inr hrow⟩

/-- Whether analysis rows can be stored does not depend on the database. -/
theorem storeAnalyses_congr {uid : Uid} {rows : List (String × AnalysisEntry)} {e : PyException} :
    storeAnalyses driver uid db rows = .error e ↔ storeAnalyses driver uid db' rows = .error e := by
  induction rows generalizing db db' with
  | nil => simp [storeAnalyses]
  | cons row rows ih =>
    obtain ⟨plugin, entry⟩ := row
    -- one row fails in both databases or in neither; then the rest is the induction hypothesis
    have hone : ∀ d : Db, (∃ e', storeAnalysis driver d uid plugin entry = .error e') ∨
        storeAnalysis driver d uid plugin entry =
          .ok { d with analyses := d.analyses.set (uid, plugin) entry } := by
      intro d
      cases hs : storeAnalysis driver d uid plugin entry with
      | error e' => exact .inl ⟨e', rfl⟩
      | ok d' => exact .inr (congrArg _ (storeAnalysis_ok hs))
    have hsame : ∀ e', storeAnalysis driver db uid plugin entry = .error e' ↔
        storeAnalysis driver db' uid plugin entry = .error e' := by
      intro e'
      unfold storeAnalysis
      split <;> try rfl
      cases driver uid plugin entry <;> simp
    rcases hone db with ⟨e1, h1⟩ | h1
    · simp [storeAnalyses, h1, (hsame e1).mp h1, bind, Except.bind]
    · rcases hone db' with ⟨e2, h2⟩ | h2
      · rw [(hsame e2).mpr h2] at h1
        cases h1
      · simpa only [storeAnalyses, h1, h2, bind, Except.bind] using ih

end Sessions

/-! ## 6. What `add_object` does -/

section AddObject
variable {driver : Driver} {db db' : Db} {fo : FileObject} {e : PyException}

/-- `row` holds the data of `fo`, its paths merged into those of the row `old` it replaces. -/
structure RowOf (fo : FileObject) (old : Option FileObjectEntry) (row : FileObjectEntry) : Prop where
  fileName : row.fileName = fo.fileName
  depth : row.depth = fo.depth
  size : row.size = fo.size
  comments : row.comments = fo.comments
  isFirmware : row.isFirmware = fo.isFirmware
  virtualFilePaths : row.virtualFilePaths =
    old.elim fo.virtualFilePath fun entry =>
      updateVirtualFilePath fo.virtualFilePath entry.virtualFilePaths

/-- An object is linked to its parents unless it is inserted as a firmware. -/
def Linked (db : Db) (fo : FileObject) : Prop := fo.uid ∈ db.fileObjects ∨ fo.firmware = none

/-- The firmware row that `add_object` writes for an image: an insert reads the release date, an
update leaves that to the database. -/
def writtenFirmware (driver : Driver) (db : Db) (fo : FileObject) :
    Except PyException (Option FirmwareEntry) :=
  match fo.firmware with
  | none => .ok none
  | some fw =>
    if fo.uid ∈ db.fileObjects then
      (driver.date fw.releaseDate).map fun date => some (firmwareRow fw date)
    else (createFirmwareEntry driver.digits fw).map some

/-- The database reads the release date of an image in an update. -/
def ReadsDate (driver : Driver) (fo : FileObject) : Prop :=
  ∀ fw, fo.firmware = some fw → ∃ date, driver.date fw.releaseDate = .ok date

/-- An image that is updated has a firmware row, and the database reads its release date. -/
structure UpdatesFirmware (driver : Driver) (db : Db) (fo : FileObject) : Prop where
  row : fo.isFirmware = true → fo.uid ∈ db.firmware
  date : ReadsDate driver fo

/-- The database with the firmware row of an object, if it gets one. -/
def withFirmware (db : Db) (fo : FileObject) (row : Option FirmwareEntry) : Db :=
  { db with firmware := row.elim db.firmware (db.firmware.set fo.uid) }

/-- The effect of adding `fo` without an exception. -/
structure Added (driver : Driver) (db : Db) (fo : FileObject) (db' : Db) : Prop where
  row : ∃ row, db'.fileObjects = db.fileObjects.set fo.uid row ∧
    RowOf fo (db.fileObjects.get? fo.uid) row
  firmware : ∃ row, writtenFirmware driver db fo = .ok row ∧
    db'.firmware = row.elim db.firmware (db.firmware.set fo.uid)
  included : ∀ p c, (p, c) ∈ db'.includedFiles ↔ (p, c) ∈ db.includedFiles ∨
    (Linked db fo ∧ c = fo.uid ∧ p ∈ fo.parents ∧ p ∈ db.fileObjects)
  fwFiles : ∀ r f, (r, f) ∈ db'.fwFiles ↔ (r, f) ∈ db.fwFiles ∨
    (Linked db fo ∧ f = fo.uid ∧ r ∈ fo.parentFirmwareUids ∧ r ∈ db.fileObjects)
  analyses : ∀ k, k ∈ db'.analyses →
    k ∈ db.analyses ∨ (k.1 = fo.uid ∧ k.2 ∈ fo.processedAnalysis)

theorem rowOf_updatedEntry (fo : FileObject) (entry : FileObjectEntry) :
    RowOf fo (some entry) (updatedEntry fo entry) :=
  ⟨rfl, rfl, rfl, rfl, rfl, rfl⟩

theorem rowOf_createFileObjectEntry (fo : FileObject) (sha256 : String) :
    RowOf fo none (createFileObjectEntry fo sha256) :=
  ⟨rfl, rfl, rfl, rfl, rfl, rfl⟩

theorem writtenFirmware_of_file (hfile : fo.firmware = none) :
    writtenFirmware driver db fo = .ok none := by
  rw [writtenFirmware, hfile]

theorem writtenFirmware_of_new {fw : FirmwareMeta} (hfw : fo.firmware = some fw)
    (hnew : fo.uid ∉ db.fileObjects) :
    writtenFirmware driver db fo = (createFirmwareEntry driver.digits fw).map some := by
  simp only [writtenFirmware, hfw, if_neg hnew]

theorem writtenFirmware_of_stored {fw : FirmwareMeta} (hfw : fo.firmware = some fw)
    (hrow : fo.uid ∈ db.fileObjects) : writtenFirmware driver db fo =
      (driver.date fw.releaseDate).map fun date => some (firmwareRow fw date) := by
  simp only [writtenFirmware, hfw, if_pos hrow]

/-- Exactly the images get a firmware row, made of their meta data. -/
theorem writtenFirmware_ok {row : Option FirmwareEntry}
    (h : writtenFirmware driver db fo = .ok row) :
    (fo.firmware = none ∧ row = none) ∨
      ∃ fw date, fo.firmware = some fw ∧ row = some (firmwareRow fw date) := by
  unfold writtenFirmware at h
  split at h
  · next hfw => exact .inl ⟨hfw, (Except.ok.inj h).symm⟩
  · next fw hfw =>
    refine .inr ?_
    split at h
    · -- an update
      cases hdate : driver.date fw.releaseDate with
      | error e => rw [hdate] at h; cases h
      | ok date =>
        rw [hdate] at h
        exact ⟨fw, date, hfw, (Except.ok.inj h).symm⟩
    · unfold createFirmwareEntry at h
      cases hdate : strptime driver.digits fw.releaseDate with
      | none => rw [hdate] at h; cases h
      | some date =>
        rw [hdate] at h
        exact ⟨fw, date, hfw, (Except.ok.inj h).symm⟩

theorem mem_firmware_withFirmware {row : Option FirmwareEntry} {u : Uid} :
    u ∈ (withFirmware db fo row).firmware ↔ (row.isSome = true ∧ u = fo.uid) ∨ u ∈ db.firmware := by
  cases row with
  | none => simp [withFirmware]
  | some row => simp [withFirmware, Dict.mem_set]

/-- The exception that inserting an object raises because of the object itself. -/
def insertError (driver : Driver) (fo : FileObject) : Option PyException :=
  match writtenFirmware driver Db.empty fo >>= fun _ => createAnalysisEntries fo >>= fun rows =>
      flushFileObject driver Db.empty fo rows with
  | .ok _ => none
  | .error e => some e

theorem flushFileObject_congr {rows : List (String × AnalysisEntry)} :
    flushFileObject driver db fo rows = .error e ↔ flushFileObject driver db' fo rows = .error e := by
  unfold flushFileObject
  cases fo.sha256 with
  | none => exact Iff.rfl
  | some sha256 => exact storeAnalyses_congr

/-- Keys that `f` keeps are kept by mapping a list. -/
theorem map_eq_of_mapM_ok {α β κ ε : Type} {f : α → Except ε β} {key : α → κ} {key' : β → κ}
    (hf : ∀ x y, f x = .ok y → key' y = key x) {xs : List α} {ys : List β}
    (h : xs.mapM f = .ok ys) : ys.map key' = xs.map key := by
  induction xs generalizing ys with
  | nil =>
    obtain rfl := Except.ok.inj h
    rfl
  | cons x xs ih =>
    rw [List.mapM_cons] at h
    cases hx : f x with
    | error e => simp [hx, bind, Except.bind] at h
    | ok y =>
      cases hxs : xs.mapM f with
      | error e => simp [hx, hxs, bind, Except.bind] at h
      | ok ys' =>
        rw [hx, hxs] at h
        obtain rfl := Except.ok.inj h
        rw [List.map_cons, List.map_cons, hf x y hx, ih hxs]

theorem createAnalysisEntries_keys {rows : List (String × AnalysisEntry)}
    (h : createAnalysisEntries fo = .ok rows) : rows.map Prod.fst = fo.processedAnalysis.keys := by
  refine map_eq_of_mapM_ok (fun item row hrow => ?_) h
  cases hentry : createAnalysisEntry item.2 with
  | error e => rw [hentry] at hrow; cases hrow
  | ok entry =>
    rw [hentry] at hrow
    obtain rfl := Except.ok.inj hrow
    rfl

theorem flushFileObject_ok {rows : List (String × AnalysisEntry)}
    (hrows : createAnalysisEntries fo = .ok rows)
    (h : flushFileObject driver db fo rows = .ok db') :
    ∃ sha256, db' = { db with
        fileObjects := db.fileObjects.set fo.uid (createFileObjectEntry fo sha256)
        analyses := db'.analyses } ∧
      ∀ k, k ∈ db'.analyses →
        k ∈ db.analyses ∨ (k.1 = fo.uid ∧ k.2 ∈ fo.processedAnalysis) := by
  unfold flushFileObject at h
  cases hs : fo.sha256 with
  | none => rw [hs] at h; cases h
  | some sha256 =>
    rw [hs] at h
    have hok := storeAnalyses_ok h
    rw [createAnalysisEntries_keys hrows] at hok
    exact ⟨sha256, hok⟩

theorem writtenFirmware_empty (hnew : fo.uid ∉ db.fileObjects) :
    writtenFirmware driver Db.empty fo = writtenFirmware driver db fo := by
  cases hfw : fo.firmware with
  | none => rw [writtenFirmware_of_file hfw, writtenFirmware_of_file hfw]
  | some fw =>
    rw [writtenFirmware_of_new hfw (Dict.not_mem_empty fo.uid), writtenFirmware_of_new hfw hnew]

/-- Inserting fails with `insertError`, or goes through to the flush. `base` is the database that the
row of the object is written to, given its firmware row. -/
theorem insert_cases (driver : Driver) (hnew : fo.uid ∉ db.fileObjects)
    (base : Option FirmwareEntry → Db) :
    (∃ e, insertError driver fo = some e ∧
      (writtenFirmware driver db fo >>= fun row => createAnalysisEntries fo >>= fun rows =>
        flushFileObject driver (base row) fo rows) = .error e) ∨
    (insertError driver fo = none ∧ ∃ row rows db', writtenFirmware driver db fo = .ok row ∧
      createAnalysisEntries fo = .ok rows ∧ flushFileObject driver (base row) fo rows = .ok db') := by
  unfold insertError
  rw [writtenFirmware_empty hnew]
  cases hw : writtenFirmware driver db fo with
  | error e => exact .inl ⟨e, rfl, rfl⟩
  | ok row =>
    cases hc : createAnalysisEntries fo with
    | error e => exact .inl ⟨e, rfl, rfl⟩
    | ok rows =>
      simp only [bind, Except.bind]
      cases hf : flushFileObject driver (base row) fo rows with
      | error e =>
        rw [flushFileObject_congr.mp hf]
        exact .inl ⟨e, rfl, rfl⟩
      | ok db' =>
        cases he : flushFileObject driver Db.empty fo rows with
        | error e =>
          rw [flushFileObject_congr.mp he] at hf
          cases hf
        | ok d => exact .inr ⟨rfl, row, rows, db', rfl, rfl, hf⟩

theorem updateFileObject_of_refsMissing {entry : FileObjectEntry}
    (hrow : db.fileObjects.get? fo.uid = some entry) (h : RefsMissing db fo) :
    ∃ e, e.isDbInterfaceError = true ∧ updateFileObject db fo = ⟨db, some e⟩ := by
  have hmiss : RefsMissing { db with
      fileObjects := db.fileObjects.set fo.uid (updatedEntry fo entry) } fo :=
    (refsMissing_congr fun u => Dict.mem_set_of_mem (Dict.mem_of_get? hrow)).mpr h
  obtain ⟨message, hm⟩ := updateParents_of_refsMissing hmiss
  refine ⟨_, sessionError_isDbInterfaceError (.dbInterfaceError message), ?_⟩
  rw [updateFileObject, hrow]
  exact congrArg (readWriteSession db) hm

theorem updateFileObject_of_not_refsMissing {entry : FileObjectEntry}
    (hrow : db.fileObjects.get? fo.uid = some entry) (h : ¬ RefsMissing db fo) :
    updateFileObject db fo = ⟨linkParents { db with
      fileObjects := db.fileObjects.set fo.uid (updatedEntry fo entry) } fo, none⟩ := by
  have hmiss : ¬ RefsMissing { db with
      fileObjects := db.fileObjects.set fo.uid (updatedEntry fo entry) } fo :=
    fun h' => h ((refsMissing_congr fun u => Dict.mem_set_of_mem (Dict.mem_of_get? hrow)).mp h')
  rw [updateFileObject, hrow]
  exact congrArg (readWriteSession db) (updateParents_of_not_refsMissing hmiss)

/-- Everything that adding a stored object can do: crash on a missing firmware row, fail over its
release date, fail after the firmware row has been written, or write the row and link the object. -/
theorem addObject_stored_cases {entry : FileObjectEntry} (driver : Driver)
    (hrow : db.fileObjects.get? fo.uid = some entry) :
    (fo.isFirmware = true ∧ fo.uid ∉ db.firmware ∧ ∃ message,
      addObject driver db fo = ⟨db, some (.attributeError message)⟩) ∨
    (fo.uid ∈ db.firmware ∧ ∃ fw e, fo.firmware = some fw ∧ driver.date fw.releaseDate = .error e ∧
      addObject driver db fo = ⟨db, some (sessionError e)⟩) ∨
    ∃ row, writtenFirmware driver db fo = .ok row ∧ UpdatesFirmware driver db fo ∧
      ((RefsMissing db fo ∧ ∃ e, e.isDbInterfaceError = true ∧
        addObject driver db fo = ⟨withFirmware db fo row, some e⟩) ∨
      (¬ RefsMissing db fo ∧ addObject driver db fo = ⟨linkParents { withFirmware db fo row with
        fileObjects := db.fileObjects.set fo.uid (updatedEntry fo entry) } fo, none⟩)) := by
  have hex : db.exists? fo.uid = true := Db.exists?_iff.mpr (Dict.mem_of_get? hrow)
  rw [addObject, if_pos hex]
  cases hfw : fo.firmware with
  | none =>
    have hupdates : UpdatesFirmware driver db fo :=
      ⟨by simp [FileObject.isFirmware, hfw], by simp [ReadsDate, hfw]⟩
    refine .inr (.inr ⟨none, writtenFirmware_of_file hfw, hupdates, ?_⟩)
    rw [updateObject, hfw]
    rcases Decidable.em (RefsMissing db fo) with h | h
    · obtain ⟨e, he, hu⟩ := updateFileObject_of_refsMissing hrow h
      exact .inl ⟨h, e, he, hu⟩
    · exact .inr ⟨h, updateFileObject_of_not_refsMissing hrow h⟩
  | some fw =>
    have hyes : fo.isFirmware = true := by simp [FileObject.isFirmware, hfw]
    have hw : writtenFirmware driver db fo = _ :=
      writtenFirmware_of_stored hfw (Dict.mem_of_get? hrow)
    rw [updateObject, hfw]
    cases hget : db.firmware.get? fo.uid with
    | none =>
      -- the source reads the attributes of the row without looking whether there is one
      refine .inl ⟨hyes, Dict.get?_eq_none_iff.mp hget,
        "'NoneType' object has no attribute 'release_date'", ?_⟩
      simp only [updateFirmware, hget]
      rfl
    | some fwEntry =>
      have hmem : fo.uid ∈ db.firmware := Dict.mem_of_get? hget
      cases hdate : driver.date fw.releaseDate with
      | error e =>
        have hu : updateFirmware driver db fo.uid fw = ⟨db, some (sessionError e)⟩ := by
          simp only [updateFirmware, hget, hdate]
          rfl
        refine .inr (.inl ⟨hmem, fw, e, rfl, hdate, ?_⟩)
        simp only [hu, Outcome.andThen]
      | ok date =>
        rw [hdate] at hw
        -- the first session is committed, whatever the second one does
        have hu : updateFirmware driver db fo.uid fw =
            ⟨withFirmware db fo (some (firmwareRow fw date)), none⟩ := by
          simp only [updateFirmware, hget, hdate]
          rfl
        have hrow' : (withFirmware db fo (some (firmwareRow fw date))).fileObjects.get? fo.uid =
            some entry := hrow
        have hupdates : UpdatesFirmware driver db fo := by
          refine ⟨fun _ => hmem, fun fw' hfw' => ?_⟩
          obtain rfl := Option.some.inj (hfw.symm.trans hfw')
          exact ⟨date, hdate⟩
        refine .inr (.inr ⟨_, hw, hupdates, ?_⟩)
        simp only [hu, Outcome.andThen]
        rcases Decidable.em (RefsMissing db fo) with h | h
        · obtain ⟨e, he, hu⟩ := updateFileObject_of_refsMissing hrow' h
          exact .inl ⟨h, e, he, hu⟩
        · exact .inr ⟨h, updateFileObject_of_not_refsMissing hrow' h⟩

/-- When adding a stored object succeeds. -/
theorem addObject_stored_raised_iff (driver : Driver) (hrow : fo.uid ∈ db.fileObjects) :
    (addObject driver db fo).raised = none ↔
      UpdatesFirmware driver db fo ∧ ¬ RefsMissing db fo := by
  obtain ⟨entry, hentry⟩ := Dict.mem_iff.mp hrow
  rcases addObject_stored_cases driver hentry with ⟨hyes, hno, _, hr⟩ | ⟨-, fw, e, hfw, hdate, hr⟩ |
      ⟨row, -, hfw, ⟨hmiss, _, -, hr⟩ | ⟨hmiss, hr⟩⟩ <;> rw [hr]
  · exact iff_of_false nofun fun h => hno (h.1.row hyes)
  · refine iff_of_false nofun fun h => ?_
    obtain ⟨date, hok⟩ := h.1.date fw hfw
    rw [hdate] at hok
    cases hok
  · exact iff_of_false nofun fun h => h.2 hmiss
  · exact iff_of_true rfl ⟨hfw, hmiss⟩

theorem added_linkParents {entry : FileObjectEntry} {row : Option FirmwareEntry}
    (hrow : db.fileObjects.get? fo.uid = some entry)
    (hw : writtenFirmware driver db fo = .ok row) :
    Added driver db fo (linkParents { withFirmware db fo row with
      fileObjects := db.fileObjects.set fo.uid (updatedEntry fo entry) } fo) where
  row := ⟨_, rfl, hrow ▸ rowOf_updatedEntry fo entry⟩
  firmware := ⟨row, hw, rfl⟩
  included p c := by
    rw [mem_includedFiles_linkParents]
    simp only [Dict.mem_set_of_mem (Dict.mem_of_get? hrow), Linked, Dict.mem_of_get? hrow, true_or,
      true_and]
    rfl
  fwFiles r f := by
    rw [mem_fwFiles_linkParents]
    simp only [Dict.mem_set_of_mem (Dict.mem_of_get? hrow), Linked, Dict.mem_of_get? hrow, true_or,
      true_and]
    rfl
  analyses k hk := .inl hk

/-- The row of a file that is inserted after its parents were linked. -/
theorem added_insertFileObject {rows : List (String × AnalysisEntry)}
    (hrow : fo.uid ∉ db.fileObjects) (hfw : fo.firmware = none)
    (hrows : createAnalysisEntries fo = .ok rows)
    (h : flushFileObject driver (linkParents db fo) fo rows = .ok db') :
    Added driver db fo db' := by
  obtain ⟨sha256, hdb', hana⟩ := flushFileObject_ok hrows h
  have hold : db.fileObjects.get? fo.uid = none := Dict.get?_eq_none_iff.mpr hrow
  have hlinked : Linked db fo := .inr hfw
  exact {
    row := ⟨_, congrArg Db.fileObjects hdb', hold ▸ rowOf_createFileObjectEntry fo sha256⟩
    firmware := ⟨none, writtenFirmware_of_file hfw, by rw [hdb']; rfl⟩
    included := fun p c => by
      rw [hdb']
      simpa only [hlinked, true_and] using mem_includedFiles_linkParents
    fwFiles := fun r f => by
      rw [hdb']
      simpa only [hlinked, true_and] using mem_fwFiles_linkParents
    analyses := hana }

/-- The rows of a firmware that is inserted: nothing is linked. -/
theorem added_insertFirmware {row : Option FirmwareEntry} {rows : List (String × AnalysisEntry)}
    (hrow : fo.uid ∉ db.fileObjects) {fw : FirmwareMeta} (hfw : fo.firmware = some fw)
    (hw : writtenFirmware driver db fo = .ok row) (hrows : createAnalysisEntries fo = .ok rows)
    (h : flushFileObject driver (withFirmware db fo row) fo rows = .ok db') :
    Added driver db fo db' := by
  obtain ⟨sha256, hdb', hana⟩ := flushFileObject_ok hrows h
  have hold : db.fileObjects.get? fo.uid = none := Dict.get?_eq_none_iff.mpr hrow
  have hlinked : ¬ Linked db fo := by simp [Linked, hrow, hfw]
  exact {
    row := ⟨_, congrArg Db.fileObjects hdb', hold ▸ rowOf_createFileObjectEntry fo sha256⟩
    firmware := ⟨row, hw, congrArg Db.firmware hdb'⟩
    included := fun p c => by
      rw [hdb']
      simp only [hlinked, false_and, or_false]
      rfl
    fwFiles := fun r f => by
      rw [hdb']
      simp only [hlinked, false_and, or_false]
      rfl
    analyses := hana }

theorem insertFirmware_eq {fw : FirmwareMeta} (hfw : fo.firmware = some fw)
    (hnew : fo.uid ∉ db.fileObjects) : insertFirmware driver db fo fw =
      readWriteSession db (writtenFirmware driver db fo >>= fun row =>
        createAnalysisEntries fo >>= fun rows =>
          flushFileObject driver (withFirmware db fo row) fo rows) := by
  rw [writtenFirmware_of_new hfw hnew, insertFirmware]
  cases createFirmwareEntry driver.digits fw <;> rfl

/-- Everything that adding an object that is not stored can do. -/
theorem addObject_new_cases (driver : Driver) (hrow : fo.uid ∉ db.fileObjects) :
    (fo.firmware = none ∧ RefsMissing db fo ∧ ∃ e,
      e.isDbInterfaceError = true ∧ addObject driver db fo = ⟨db, some e⟩) ∨
    ((fo.firmware = none → ¬ RefsMissing db fo) ∧ ∃ e, insertError driver fo = some e ∧
      addObject driver db fo = ⟨db, some (sessionError e)⟩) ∨
    ((fo.firmware = none → ¬ RefsMissing db fo) ∧ insertError driver fo = none ∧ ∃ db',
      addObject driver db fo = ⟨db', none⟩ ∧ Added driver db fo db') := by
  have hex : ¬ db.exists? fo.uid = true := by rwa [Db.exists?_iff]
  rw [addObject, if_neg hex, insertObject]
  cases hfw : fo.firmware with
  | none =>
    simp only [true_and, true_imp_iff]
    rcases Decidable.em (RefsMissing db fo) with h | h
    · obtain ⟨message, hm⟩ := updateParents_of_refsMissing h
      refine .inl ⟨h, _, sessionError_isDbInterfaceError (.dbInterfaceError message), ?_⟩
      simp only [insertFileObject, hm]
      rfl
    · -- the parents are linked before the row is written
      have hp := updateParents_of_not_refsMissing h
      rcases insert_cases driver hrow (fun _ => linkParents db fo) with
        ⟨e, he, hi⟩ | ⟨he, row, rows, db', -, hc, hf⟩
      · rw [writtenFirmware_of_file hfw] at hi
        refine .inr (.inl ⟨h, e, he, ?_⟩)
        simp only [insertFileObject, hp]
        exact congrArg (readWriteSession db) hi
      · refine .inr (.inr ⟨h, he, db', ?_, added_insertFileObject hrow hfw hc hf⟩)
        simp only [insertFileObject, hp, hc, bind, Except.bind, hf, readWriteSession_ok]
  | some fw =>
    -- a firmware is inserted without looking at its parents
    simp only [reduceCtorEq, false_and, false_or, false_imp_iff, true_and]
    rw [insertFirmware_eq hfw hrow]
    rcases insert_cases driver hrow (withFirmware db fo) with
      ⟨e, he, hi⟩ | ⟨he, row, rows, db', hw, hc, hf⟩
    · exact .inl ⟨e, he, congrArg (readWriteSession db) hi⟩
    · refine .inr ⟨he, db', ?_, added_insertFirmware hrow hfw hw hc hf⟩
      simp only [hw, hc, bind, Except.bind, hf, readWriteSession_ok]

/-- A call that raises nothing has added the object. -/
theorem addObject_added (h : (addObject driver db fo).raised = none) :
    Added driver db fo (addObject driver db fo).db := by
  rcases Decidable.em (fo.uid ∈ db.fileObjects) with hrow | hrow
  · obtain ⟨entry, hentry⟩ := Dict.mem_iff.mp hrow
    rcases addObject_stored_cases driver hentry with ⟨-, -, _, hr⟩ | ⟨-, _, _, -, -, hr⟩ |
      ⟨row, hw, -, ⟨-, _, -, hr⟩ | ⟨-, hr⟩⟩ <;> rw [hr] at h ⊢
    · cases h
    · cases h
    · cases h
    · exact added_linkParents hentry hw
  · rcases addObject_new_cases driver hrow with ⟨-, -, _, -, hr⟩ | ⟨-, _, -, hr⟩ | ⟨-, -, _, hr, hadd⟩
    · rw [hr] at h; cases h
    · rw [hr] at h; cases h
    · rwa [hr]

/-- A call that raises leaves the database alone, except that a stored firmware whose
references are missing has its meta data written before the second session fails. -/
theorem addObject_failed (h : (addObject driver db fo).raised = some e) :
    (addObject driver db fo).db = db ∨
      (fo.uid ∈ db.firmware ∧ fo.uid ∈ db.fileObjects ∧ RefsMissing db fo ∧
        ∃ row, writtenFirmware driver db fo = .ok row ∧
          (addObject driver db fo).db = withFirmware db fo row) := by
  rcases Decidable.em (fo.uid ∈ db.fileObjects) with hrow | hrow
  · obtain ⟨entry, hentry⟩ := Dict.mem_iff.mp hrow
    rcases addObject_stored_cases driver hentry with ⟨-, -, _, hr⟩ | ⟨-, _, _, -, -, hr⟩ |
      ⟨row, hw, hfw, ⟨hmiss, _, -, hr⟩ | ⟨-, hr⟩⟩ <;> rw [hr] at h ⊢
    · exact .inl rfl
    · exact .inl rfl
    · -- only a firmware has a first session that is committed
      rcases writtenFirmware_ok hw with ⟨-, rfl⟩ | ⟨fw, date, hf, -⟩
      · exact .inl rfl
      · exact .inr ⟨hfw.row (by simp [FileObject.isFirmware, hf]), hrow, hmiss, row, hw, rfl⟩
    · cases h
  · rcases addObject_new_cases driver hrow with ⟨-, -, _, -, hr⟩ | ⟨-, _, -, hr⟩ | ⟨-, -, _, hr, -⟩
    · exact .inl (by rw [hr])
    · exact .inl (by rw [hr])
    · rw [hr] at h; cases h

theorem mem_fileObjects_addObject (h : (addObject driver db fo).raised = none) {u : Uid} :
    u ∈ (addObject driver db fo).db.fileObjects ↔ u = fo.uid ∨ u ∈ db.fileObjects := by
  obtain ⟨row, hrows, -⟩ := (addObject_added h).row
  rw [hrows, Dict.mem_set]

theorem fileObjects_addObject_of_failed (h : (addObject driver db fo).raised = some e) :
    (addObject driver db fo).db.fileObjects = db.fileObjects := by
  rcases addObject_failed h with heq | ⟨-, -, -, row, -, heq⟩ <;> rw [heq]
  rfl

/-- Whether it raises or not, adding an object adds at most its own row. -/
theorem mem_of_mem_fileObjects_addObject {u : Uid}
    (hu : u ∈ (addObject driver db fo).db.fileObjects) : u = fo.uid ∨ u ∈ db.fileObjects := by
  cases h : (addObject driver db fo).raised with
  | none => exact (mem_fileObjects_addObject h).mp hu
  | some e => exact .inr (fileObjects_addObject_of_failed h ▸ hu)

end AddObject

end FactCore
