import FactCore.Lib.ForEach
import FactCore.Lib.OrphanCascade
import FactCore.Storage.FirmwareFiles
import FactCore.Storage.MigrationValues

/-!
# Migrating the old database

`DbMigrator` of `src/src/migrate_db_to_postgresql.py` walks the included files of
every firmware of the MongoDB and inserts what is not in the new database yet. A file
that is there already only gets another parent and another root, and the walk goes on
below it. Every object is a session of its own, so a migration that an exception ends
leaves the objects that it has inserted. The exception may come from an object (a
result that cannot be rewritten, a row that is refused, the recursion limit) or from
outside (a lost connection, the user).

Results:
1. `migrateFileRound_cases`, `migrateFirmwareRound_cases`: what one object adds.
2. `migrateFw_partly`: wherever a migration ends, nothing wrong got in.
3. `migration_resumes`: after any number of attempts, each of which ended before any of
   its sessions or ran to its end, one that nothing stops leaves exactly the old
   firmware images with their files.
-/

namespace FactCore

open Relation

/-! ## 1. The old database -/

/-- A document of `file_objects`, and of `firmwares` without the fields of an image. The results
are those that `retrieve_analysis` returns. -/
structure MongoEntry where
  sha256 : String
  fileName : String
  size : Nat
  comments : List Comment
  virtualFilePath : VirtualFilePath
  filesIncluded : List Uid
  processedAnalysis : Dict String (List (String × MongoVal))

/-- The collections of `MigrationMongoInterface`. -/
structure Mongo where
  firmwares : Dict Uid (MongoEntry × FirmwareMeta)
  fileObjects : Dict Uid MongoEntry

/-- `MigrationMongoInterface.get_object`: a file object comes first. -/
def Mongo.getObject (mongo : Mongo) (uid : Uid) : Option (MongoEntry × Option FirmwareMeta) :=
  match mongo.fileObjects.get? uid with
  | some entry => some (entry, none)
  | none => (mongo.firmwares.get? uid).map fun doc => (doc.1, some doc.2)

/-- `file_objects.find({'_id': {'$in': uids}})`. -/
def Mongo.findFiles (mongo : Mongo) (uids : List Uid) : List (Uid × MongoEntry) :=
  mongo.fileObjects.entries.filter fun e => decide (e.1 ∈ uids)

/-! ## 2. The migration -/

/-- The results of an object, as `_migrate_single_object` leaves them and `insert_object` writes
them. -/
def migrateAnalyses (entry : MongoEntry) : Except MigrationError (Dict String PyVal) := do
  let results ← entry.processedAnalysis.entries.mapM fun item =>
    (migrateAnalysis item.1 item.2).map fun result => (item.1, result)
  let written ← results.mapM fun item =>
    (jsonEntries item.2).map fun result => (item.1, PyVal.dict result)
  return Dict.ofList written

/-- The object of a document, as `_convert_to_firmware` and `_convert_to_file_object` build it, with
the parent and the root that the migration sets. -/
def migratedObject (uid : Uid) (doc : MongoEntry × Option FirmwareMeta) (parents roots : List Uid)
    (analysis : Dict String PyVal) : FileObject where
  uid := uid
  sha256 := some doc.1.sha256
  fileName := doc.1.fileName
  depth := 0
  size := doc.1.size
  comments := doc.1.comments
  virtualFilePath := doc.1.virtualFilePath
  parents := parents
  parentFirmwareUids := roots
  filesIncluded := doc.1.filesIncluded
  processedAnalysis := analysis
  scheduledAnalysis := []
  analysisException := none
  forceUpdate := false
  firmware := doc.2

/-- The migration so far: the new database, the number of objects that were inserted, and the
exception that ends it. -/
structure MigrationState where
  db : Db
  count : Nat
  raised : Option MigrationError

def MigrationState.isRaised (s : MigrationState) : Bool := s.raised.isSome

/-- What ends a migration from outside: the exception that is raised instead of the session for a
file, on the database that the sessions before have left. -/
abbrev Interrupts := Db → Uid → Option MigrationError

/-- The session for a file, unless the migration is interrupted. -/
def MigrationState.session (interrupts : Interrupts) (db : Db) (uid : Uid) (body : MigrationState) :
    MigrationState :=
  match interrupts db uid with
  | some e => ⟨db, 0, some e⟩
  | none => body

/-- A session of the migration. -/
def MigrationState.ofOutcome (o : Outcome) : MigrationState :=
  ⟨o.db, 0, o.raised.map MigrationError.raised⟩

/-- `_migrate_single_object` for a file below the root `rootUid`. -/
def migrateSingleFile (driver : Driver) (db : Db) (uid : Uid) (entry : MongoEntry)
    (rootUid parentUid : Uid) : MigrationState :=
  match migrateAnalyses entry with
  | .error e => ⟨db, 0, some e⟩
  | .ok analysis =>
    .ofOutcome (insertObject driver db (migratedObject uid (entry, none) [parentUid] [rootUid] analysis))

/-- `_migrate_single_object` for a firmware of the first level. Its parent is `None`, which is no
matter for an image; a file object has no parent then, and that is an error. -/
def migrateSingleFirmware (driver : Driver) (db : Db) (uid : Uid)
    (doc : MongoEntry × Option FirmwareMeta) : MigrationState :=
  match migrateAnalyses doc.1 with
  | .error e => ⟨db, 0, some e⟩
  | .ok analysis =>
    .ofOutcome <| match doc.2 with
      | some _ => insertObject driver db (migratedObject uid doc [] [] analysis)
      | none => readWriteSession db (.error (.dbInterfaceError
          "Trying to add object but no parent object was found in DB: [None]"))

/-- `update_file_object_parents` for a stored file. -/
def updateFileObjectParents (db : Db) (fileUid rootUid parentUid : Uid) : Outcome :=
  readWriteSession db (updateParents db fileUid [rootUid] [parentUid])

/-- One object: the session `here`, then the objects below it unless it raised. -/
def migrateObject (here : MigrationState) (below : Db → MigrationState) (isNew : Bool) (count : Nat) :
    MigrationState :=
  match here.raised with
  | some _ => { here with count := count }
  | none => { below here.db with count := if isNew then count + 1 else count }

/-- A round of the loop in `migrate_fw`, with `root=False`: the document `file` of a file below
`parentUid`. -/
def migrateFileRound (driver : Driver) (interrupts : Interrupts) (rootUid parentUid : Uid)
    (migrateFiles : Db → List Uid → Uid → MigrationState) (s : MigrationState)
    (file : Uid × MongoEntry) : MigrationState :=
  migrateObject
    (.session interrupts s.db file.1 <|
      if s.db.exists? file.1 then
        .ofOutcome (updateFileObjectParents s.db file.1 rootUid parentUid)
      else migrateSingleFile driver s.db file.1 file.2 rootUid parentUid)
    (fun db => migrateFiles db file.2.filesIncluded file.1) (!s.db.exists? file.1) s.count

/-- `migrate_fw` with `root=False`: the files `uids` below the object `parentUid`. `fuel` is what is
left of Python's recursion limit. -/
def migrateFiles (mongo : Mongo) (driver : Driver) (interrupts : Interrupts) (rootUid : Uid) :
    Nat → Db → List Uid → Uid → MigrationState
  | 0, db, _, _ => ⟨db, 0, some (.raised .recursionError)⟩
  | fuel + 1, db, uids, parentUid =>
    forEach MigrationState.isRaised
      (migrateFileRound driver interrupts rootUid parentUid
        (migrateFiles mongo driver interrupts rootUid fuel))
      ⟨db, 0, none⟩ (mongo.findFiles uids)

/-- A round of the loop in `migrate_fw`, with `root=True`. -/
def migrateFirmwareRound (mongo : Mongo) (driver : Driver) (interrupts : Interrupts)
    (migrateFiles : Uid → Db → List Uid → Uid → MigrationState) (s : MigrationState)
    (firmware : Uid × (MongoEntry × FirmwareMeta)) : MigrationState :=
  let doc := (mongo.getObject firmware.1).getD (firmware.2.1, some firmware.2.2)
  migrateObject
    (.session interrupts s.db firmware.1 <|
      if s.db.exists? firmware.1 then ⟨s.db, 0, none⟩
      else migrateSingleFirmware driver s.db firmware.1 doc)
    (fun db => migrateFiles firmware.1 db doc.1.filesIncluded firmware.1)
    (!s.db.exists? firmware.1) s.count

/-- `migrate_fw(query={}, root=True)`: all firmware images. The variable `root_uid`, which keeps the
uid of the image before, only gets to `insert_firmware`, and that does not look at it. -/
def migrateFw (mongo : Mongo) (driver : Driver) (interrupts : Interrupts) :
    Nat → Db → MigrationState
  | 0, db => ⟨db, 0, some (.raised .recursionError)⟩
  | fuel + 1, db =>
    forEach MigrationState.isRaised
      (migrateFirmwareRound mongo driver interrupts fun rootUid =>
        migrateFiles mongo driver interrupts rootUid fuel)
      ⟨db, 0, none⟩ mongo.firmwares.entries

/-! ## 3. What is to be migrated -/

namespace Mongo

/-- The document of `parent` lists the file `child`, and there is one. -/
def Contains (mongo : Mongo) (parent child : Uid) : Prop :=
  ∃ doc, mongo.getObject parent = some doc ∧ child ∈ doc.1.filesIncluded ∧ child ∈ mongo.fileObjects

/-- The document is an image or below one. -/
def Kept (mongo : Mongo) (uid : Uid) : Prop :=
  ∃ root ∈ mongo.firmwares, ReflTransGen mongo.Contains root uid

/-- The row of a document. -/
def entryOf (mongo : Mongo) (uid : Uid) : Option FileObjectEntry :=
  (mongo.getObject uid).map fun doc =>
    createFileObjectEntry (migratedObject uid doc [] [] ∅) doc.1.sha256

/-- The firmware row of a document. -/
def firmwareOf (mongo : Mongo) (digits : DecimalTable) (uid : Uid) : Option FirmwareEntry :=
  (mongo.firmwares.get? uid).bind fun doc => (createFirmwareEntry digits doc.2).toOption

/-- The analysis rows of a document. -/
def analysesOf (mongo : Mongo) (uid : Uid) : Option (List (String × AnalysisEntry)) :=
  (mongo.getObject uid).bind fun doc =>
    match migrateAnalyses doc.1 with
    | .error _ => none
    | .ok analysis =>
      (createAnalysisEntries (migratedObject uid doc [] [] analysis)).toOption

/-- No document is a file object and a firmware, and no chain of included files below a firmware is
longer than `limit`. -/
structure WellFormed (mongo : Mongo) (limit : Nat) : Prop where
  disjoint : ∀ uid ∈ mongo.firmwares, uid ∉ mongo.fileObjects
  depth : ∀ root ∈ mongo.firmwares, ∀ n uid, Steps mongo.Contains root n uid → n ≤ limit

/-- The results of all documents can be rewritten and stored. -/
def AcceptedBy (mongo : Mongo) (driver : Driver) : Prop :=
  ∀ uid doc, mongo.getObject uid = some doc → ∃ analysis, migrateAnalyses doc.1 = .ok analysis ∧
    insertError driver (migratedObject uid doc [] [] analysis) = none

end Mongo

/-- Nothing stops the migration. -/
structure Unstopped (mongo : Mongo) (driver : Driver) (interrupts : Interrupts) : Prop where
  accepted : mongo.AcceptedBy driver
  quiet : ∀ db uid, interrupts db uid = none

/-- The new database holds some of the objects, complete and with none but right relations. -/
structure PartlyMigrated (mongo : Mongo) (digits : DecimalTable) (db : Db) : Prop where
  row : ∀ uid row, db.fileObjects.get? uid = some row → mongo.Kept uid ∧ mongo.entryOf uid = some row
  firmware : ∀ uid, db.firmware.get? uid =
    if uid ∈ db.fileObjects then mongo.firmwareOf digits uid else none
  included : ∀ p c, (p, c) ∈ db.includedFiles →
    p ∈ db.fileObjects ∧ c ∈ db.fileObjects ∧ mongo.Contains p c
  fwFiles : ∀ r f, (r, f) ∈ db.fwFiles → r ∈ db.fileObjects ∧ f ∈ db.fileObjects ∧
    r ∈ mongo.firmwares ∧ TransGen mongo.Contains r f
  analyses : ∀ uid plugin, db.analyses.get? (uid, plugin) = if uid ∈ db.fileObjects then
    (mongo.analysesOf uid).bind (Dict.find plugin) else none
  once : db.includedFiles.Nodup ∧ db.fwFiles.Nodup

/-- The new database holds exactly the objects and the relations of the old one. -/
structure Migrated (mongo : Mongo) (digits : DecimalTable) (db : Db) : Prop where
  row : ∀ uid row, db.fileObjects.get? uid = some row ↔
    mongo.Kept uid ∧ mongo.entryOf uid = some row
  firmware : ∀ uid, db.firmware.get? uid = mongo.firmwareOf digits uid
  included : ∀ p c, db.Includes p c ↔ mongo.Kept p ∧ mongo.Contains p c
  files : ∀ root ∈ db.firmware, FilesExact db root
  analyses : ∀ uid plugin row, db.analyses.get? (uid, plugin) = some row ↔
    mongo.Kept uid ∧ ∃ rows, mongo.analysesOf uid = some rows ∧ Dict.find plugin rows = some row
  once : db.includedFiles.Nodup ∧ db.fwFiles.Nodup

/-! ## 4. Sessions -/

/-- The relations that a file gets. -/
def Db.linkFile (db : Db) (rootUid parentUid uid : Uid) : Db :=
  { db with
    fwFiles := insertPairs db.fwFiles [(rootUid, uid)]
    includedFiles := insertPairs db.includedFiles [(parentUid, uid)] }

/-- Nothing is lost. -/
structure Db.Grows (db db' : Db) : Prop where
  rows : ∀ uid ∈ db.fileObjects, uid ∈ db'.fileObjects
  included : db.includedFiles ⊆ db'.includedFiles
  fwFiles : db.fwFiles ⊆ db'.fwFiles

theorem Db.Grows.refl (db : Db) : db.Grows db := ⟨fun _ h => h, fun _ h => h, fun _ h => h⟩

theorem Db.Grows.trans {db db' db'' : Db} (h : db.Grows db') (h' : db'.Grows db'') :
    db.Grows db'' where
  rows uid hu := h'.rows uid (h.rows uid hu)
  included _ he := h'.included (h.included he)
  fwFiles _ he := h'.fwFiles (h.fwFiles he)

theorem nodup_insertPairs_singleton {table : List (Uid × Uid)} (h : table.Nodup) (e : Uid × Uid) :
    (insertPairs table [e]).Nodup := by
  show (if e ∈ table then table else table ++ [e]).Nodup
  split
  · exact h
  · next hno =>
    exact List.nodup_append.mpr ⟨h, List.nodup_singleton e,
      fun x hx y hy => by rintro rfl; exact hno (List.mem_singleton.mp hy ▸ hx)⟩

theorem grows_linkFile (db : Db) (r p uid : Uid) : db.Grows (db.linkFile r p uid) where
  rows _ h := h
  included _ he := mem_insertPairs.mpr (.inl he)
  fwFiles _ he := mem_insertPairs.mpr (.inl he)

section Sessions
variable {mongo : Mongo} {driver : Driver} {db db' : Db} {r p uid : Uid} {limit : Nat}
  {doc : MongoEntry × Option FirmwareMeta} {analysis : Dict String PyVal}

theorem updateParents_stored (hr : r ∈ db.fileObjects) (hp : p ∈ db.fileObjects) :
    updateParents db uid [r] [p] = .ok (db.linkFile r p uid) := by
  simp [updateParents, updateEntries, Db.linkFile, hr, hp, bind, Except.bind, pure, Except.pure]

/-- The rows that are stored are found, and the others are as before. -/
theorem get?_storeAnalyses {rows : List (String × AnalysisEntry)} (hnodup : (rows.map Prod.fst).Nodup)
    (h : storeAnalyses driver uid db rows = .ok db') (u : Uid) (plugin : String) :
    db'.analyses.get? (u, plugin) =
      if u = uid then (Dict.find plugin rows).or (db.analyses.get? (u, plugin))
      else db.analyses.get? (u, plugin) := by
  induction rows generalizing db with
  | nil =>
    obtain rfl := Except.ok.inj h
    simp [Dict.find]
  | cons row rows ih =>
    obtain ⟨name, entry⟩ := row
    obtain ⟨hname, hnodup⟩ := List.nodup_cons.mp hnodup
    rw [storeAnalyses] at h
    obtain ⟨db1, hstore, hrest⟩ := except_bind_eq_ok h
    obtain rfl := storeAnalysis_ok hstore
    simp only [ih hnodup hrest, Dict.get?_set, Dict.find, Prod.mk.injEq]
    by_cases hu : u = uid
    · by_cases hplugin : name = plugin
      · -- the row of this plugin is not written again
        subst hu hplugin
        simp [Dict.find_eq_none_iff.mpr hname]
      · simp [hu, hplugin, Ne.symm hplugin]
    · simp [hu]

theorem getObject_of_file {entry : MongoEntry} (h : mongo.fileObjects.get? uid = some entry) :
    mongo.getObject uid = some (entry, none) := by
  rw [Mongo.getObject, h]

theorem getObject_of_firmware {firmware : MongoEntry × FirmwareMeta} (hmongo : mongo.WellFormed limit)
    (h : mongo.firmwares.get? uid = some firmware) :
    mongo.getObject uid = some (firmware.1, some firmware.2) := by
  have hno := Dict.get?_eq_none_iff.mpr (hmongo.disjoint uid (Dict.mem_of_get? h))
  rw [Mongo.getObject, hno, h]
  rfl

/-- The rows of a new object, with the relations as they were. -/
theorem PartlyMigrated.insert {row : FileObjectEntry} {rows : List (String × AnalysisEntry)}
    (h : PartlyMigrated mongo driver.digits db) (hnew : uid ∉ db.fileObjects) (hkept : mongo.Kept uid)
    (hrow : mongo.entryOf uid = some row) (hrows : mongo.analysesOf uid = some rows)
    (hobjects : db'.fileObjects = db.fileObjects.set uid row)
    (hfirmware : ∀ u, db'.firmware.get? u =
      if u = uid then mongo.firmwareOf driver.digits uid else db.firmware.get? u)
    (hincluded : db'.includedFiles = db.includedFiles) (hfwFiles : db'.fwFiles = db.fwFiles)
    (hanalyses : ∀ u plugin, db'.analyses.get? (u, plugin) = if u = uid then
      (Dict.find plugin rows).or (db.analyses.get? (u, plugin))
      else db.analyses.get? (u, plugin)) : PartlyMigrated mongo driver.digits db' where
  row u row' hu := by
    rw [hobjects] at hu
    rcases Dict.get?_set_eq_some.mp hu with ⟨rfl, rfl⟩ | ⟨-, hu⟩
    · exact ⟨hkept, hrow⟩
    · exact h.row u row' hu
  firmware u := by
    simp only [hfirmware, hobjects, Dict.mem_set]
    by_cases hu : u = uid
    · simp only [hu, if_true, true_or]
    · simp only [hu, if_false, false_or, h.firmware]
  included p c hpc := by
    rw [hincluded] at hpc
    obtain ⟨hp, hc, hcontains⟩ := h.included p c hpc
    rw [hobjects]
    exact ⟨Dict.mem_set.mpr (.inr hp), Dict.mem_set.mpr (.inr hc), hcontains⟩
  fwFiles r f hrf := by
    rw [hfwFiles] at hrf
    obtain ⟨hr, hf, hroot⟩ := h.fwFiles r f hrf
    rw [hobjects]
    exact ⟨Dict.mem_set.mpr (.inr hr), Dict.mem_set.mpr (.inr hf), hroot⟩
  analyses u plugin := by
    simp only [hanalyses, hobjects, Dict.mem_set]
    by_cases hu : u = uid
    · -- nothing is stored for a file that is not
      simp only [hu, if_true, true_or, h.analyses uid plugin, if_neg hnew, Option.or_none, hrows,
        Option.bind_some]
    · simp only [hu, if_false, false_or, h.analyses]
  once := by
    rw [hincluded, hfwFiles]
    exact h.once

/-- A stored file gets a parent that includes it and a root that it is below. -/
theorem PartlyMigrated.link (h : PartlyMigrated mongo driver.digits db) (hroot : r ∈ mongo.firmwares)
    (hr : r ∈ db.fileObjects) (hp : p ∈ db.fileObjects) (hbelow : ReflTransGen mongo.Contains r p)
    (hcontains : mongo.Contains p uid) (huid : uid ∈ db.fileObjects) :
    PartlyMigrated mongo driver.digits (db.linkFile r p uid) where
  row := h.row
  firmware := h.firmware
  included q c hqc := by
    rcases mem_insertPairs.mp hqc with hqc | hqc
    · exact h.included q c hqc
    · obtain ⟨rfl, rfl⟩ := Prod.mk.inj (List.mem_singleton.mp hqc)
      exact ⟨hp, huid, hcontains⟩
  fwFiles q f hqf := by
    rcases mem_insertPairs.mp hqf with hqf | hqf
    · exact h.fwFiles q f hqf
    · obtain ⟨rfl, rfl⟩ := Prod.mk.inj (List.mem_singleton.mp hqf)
      exact ⟨hr, huid, hroot, .tail' hbelow hcontains⟩
  analyses := h.analyses
  once := ⟨nodup_insertPairs_singleton h.once.1 _, nodup_insertPairs_singleton h.once.2 _⟩

theorem analysesOf_eq {rows : List (String × AnalysisEntry)} {parents roots : List Uid}
    (hdoc : mongo.getObject uid = some doc) (hanalysis : migrateAnalyses doc.1 = .ok analysis)
    (hrows : createAnalysisEntries (migratedObject uid doc parents roots analysis) = .ok rows) :
    mongo.analysesOf uid = some rows := by
  have hrows' : createAnalysisEntries (migratedObject uid doc [] [] analysis) = .ok rows := hrows
  simp only [Mongo.analysesOf, hdoc, Option.bind_some, hanalysis, hrows']
  rfl

/-- The flush of a new object: it fails for what the object is, or it writes its rows. -/
theorem flush_cases (driver : Driver) (hnew : uid ∉ db.fileObjects)
    (base : Option FirmwareEntry → Db) (doc : MongoEntry × Option FirmwareMeta)
    (parents roots : List Uid) (analysis : Dict String PyVal) :
    let fo := migratedObject uid doc parents roots analysis
    (∃ e, insertError driver fo = some e ∧
      (writtenFirmware driver db fo >>= fun row => createAnalysisEntries fo >>= fun rows =>
        flushFileObject driver (base row) fo rows) = .error e) ∨
    (∃ row rows analyses, writtenFirmware driver db fo = .ok row ∧
      createAnalysisEntries fo = .ok rows ∧
      (writtenFirmware driver db fo >>= fun row => createAnalysisEntries fo >>= fun rows =>
        flushFileObject driver (base row) fo rows) =
        .ok { base row with
          fileObjects := (base row).fileObjects.set uid (createFileObjectEntry fo doc.1.sha256)
          analyses := analyses } ∧
      ∀ u plugin, analyses.get? (u, plugin) = if u = uid then
        (Dict.find plugin rows).or ((base row).analyses.get? (u, plugin))
        else (base row).analyses.get? (u, plugin)) := by
  intro fo
  have hnew' : fo.uid ∉ db.fileObjects := hnew
  rcases insert_cases driver hnew' base with ⟨e, he, hfail⟩ | ⟨-, row, rows, db', hw, hrows, hflush⟩
  · exact .inl ⟨e, he, hfail⟩
  · have hstore : storeAnalyses driver uid { base row with
        fileObjects := (base row).fileObjects.set uid (createFileObjectEntry fo doc.1.sha256) } rows =
        .ok db' := hflush
    obtain ⟨hdb', -⟩ := storeAnalyses_ok hstore
    have hnodup : (rows.map Prod.fst).Nodup := by
      rw [createAnalysisEntries_keys hrows]
      exact Dict.keys_nodup _
    refine .inr ⟨row, rows, db'.analyses, hw, hrows, ?_, fun u plugin =>
      get?_storeAnalyses hnodup hstore u plugin⟩
    rw [hw, hrows]
    exact hflush.trans (congrArg _ hdb')

/-- Everything that migrating a new file can do: fail for what the file is, or write its rows and
link it. -/
theorem migrateSingleFile_cases (h : PartlyMigrated mongo driver.digits db)
    (hmongo : mongo.WellFormed limit)
    {entry : MongoEntry} (hentry : mongo.fileObjects.get? uid = some entry)
    (hnew : uid ∉ db.fileObjects) (hroot : r ∈ mongo.firmwares) (hr : r ∈ db.fileObjects)
    (hp : p ∈ db.fileObjects) (hbelow : ReflTransGen mongo.Contains r p)
    (hcontains : mongo.Contains p uid) :
    (¬ mongo.AcceptedBy driver ∧ ∃ e,
      migrateSingleFile driver db uid entry r p = ⟨db, 0, some e⟩) ∨
    ∃ db1, PartlyMigrated mongo driver.digits db1 ∧ db.Grows db1 ∧ uid ∈ db1.fileObjects ∧
      migrateSingleFile driver db uid entry r p = ⟨db1.linkFile r p uid, 0, none⟩ := by
  have hdoc := getObject_of_file hentry
  cases hanalysis : migrateAnalyses entry with
  | error e =>
    refine .inl ⟨fun haccept => ?_, e, by simp only [migrateSingleFile, hanalysis]⟩
    obtain ⟨analysis, hok, -⟩ := haccept uid _ hdoc
    rw [hanalysis] at hok
    cases hok
  | ok analysis =>
    have hlink : updateParents db uid [r] [p] = .ok (db.linkFile r p uid) := updateParents_stored hr hp
    have hhere : migrateSingleFile driver db uid entry r p = .ofOutcome (readWriteSession db
        (writtenFirmware driver db (migratedObject uid (entry, none) [p] [r] analysis) >>= fun _ =>
          createAnalysisEntries (migratedObject uid (entry, none) [p] [r] analysis) >>= fun rows =>
            flushFileObject driver (db.linkFile r p uid)
              (migratedObject uid (entry, none) [p] [r] analysis) rows)) := by
      simp only [migrateSingleFile, hanalysis]
      show MigrationState.ofOutcome (readWriteSession db (updateParents db uid [r] [p] >>= _)) = _
      rw [hlink]
      rfl
    rcases flush_cases driver hnew (fun _ => db.linkFile r p uid) (entry, none) [p] [r] analysis with
      ⟨e, he, hfail⟩ | ⟨row, rows, analyses, -, hrows, hflush, hget⟩
    · refine .inl ⟨fun haccept => ?_, .raised (sessionError e), by rw [hhere, hfail]; rfl⟩
      obtain ⟨analysis', hok, hnone⟩ := haccept uid _ hdoc
      obtain rfl := Except.ok.inj (hanalysis.symm.trans hok)
      exact Option.some_ne_none e (he.symm.trans hnone)
    · have hkept : mongo.Kept uid := ⟨r, hroot, hbelow.tail hcontains⟩
      have hno : uid ∉ mongo.firmwares := fun hmem =>
        hmongo.disjoint uid hmem (Dict.mem_of_get? hentry)
      rw [hhere, hflush]
      refine .inr ⟨{ db with
        fileObjects := db.fileObjects.set uid
          (createFileObjectEntry (migratedObject uid (entry, none) [p] [r] analysis) entry.sha256)
        analyses := analyses }, ?_, ⟨fun u hu => Dict.mem_set.mpr (.inr hu), fun _ h => h,
          fun _ h => h⟩, Dict.mem_set.mpr (.inl rfl), rfl⟩
      refine h.insert hnew hkept (by rw [Mongo.entryOf, hdoc]; rfl) (analysesOf_eq hdoc hanalysis hrows)
        rfl (fun u => ?_) rfl rfl hget
      -- no row of an image
      split
      · next hu =>
        rw [hu, h.firmware, if_neg hnew, Mongo.firmwareOf, Dict.get?_eq_none_iff.mpr hno]
        rfl
      · rfl

/-- Everything that migrating a new firmware can do. -/
theorem migrateSingleFirmware_cases (h : PartlyMigrated mongo driver.digits db)
    (hmongo : mongo.WellFormed limit)
    {firmware : MongoEntry × FirmwareMeta} (hfirmware : mongo.firmwares.get? uid = some firmware)
    (hnew : uid ∉ db.fileObjects) :
    (¬ mongo.AcceptedBy driver ∧ ∃ e,
      migrateSingleFirmware driver db uid (firmware.1, some firmware.2) = ⟨db, 0, some e⟩) ∨
    ∃ db1, PartlyMigrated mongo driver.digits db1 ∧ db.Grows db1 ∧ uid ∈ db1.fileObjects ∧
      migrateSingleFirmware driver db uid (firmware.1, some firmware.2) = ⟨db1, 0, none⟩ := by
  have hdoc := getObject_of_firmware hmongo hfirmware
  cases hanalysis : migrateAnalyses firmware.1 with
  | error e =>
    refine .inl ⟨fun haccept => ?_, e, by simp only [migrateSingleFirmware, hanalysis]⟩
    obtain ⟨analysis, hok, -⟩ := haccept uid _ hdoc
    rw [hanalysis] at hok
    cases hok
  | ok analysis =>
    let fo := migratedObject uid (firmware.1, some firmware.2) [] [] analysis
    have hhere : migrateSingleFirmware driver db uid (firmware.1, some firmware.2) =
        .ofOutcome (readWriteSession db (writtenFirmware driver db fo >>= fun row =>
          createAnalysisEntries fo >>= fun rows =>
            flushFileObject driver (withFirmware db fo row) fo rows)) := by
      simp only [migrateSingleFirmware, hanalysis]
      exact congrArg _ (insertFirmware_eq rfl hnew)
    rcases flush_cases driver hnew (withFirmware db fo) (firmware.1, some firmware.2) [] [] analysis
      with ⟨e, he, hfail⟩ | ⟨row, rows, analyses, hw, hrows, hflush, hget⟩
    · refine .inl ⟨fun haccept => ?_, .raised (sessionError e), by rw [hhere, hfail]; rfl⟩
      obtain ⟨analysis', hok, hnone⟩ := haccept uid _ hdoc
      obtain rfl := Except.ok.inj (hanalysis.symm.trans hok)
      exact Option.some_ne_none e (he.symm.trans hnone)
    · rw [hhere, hflush]
      refine .inr ⟨_, ?_, ?_, ?_, rfl⟩
      rotate_left
      · exact ⟨fun u hu => Dict.mem_set.mpr (.inr hu), fun _ h => h, fun _ h => h⟩
      · exact Dict.mem_set.mpr (.inl rfl)
      refine h.insert hnew ⟨uid, Dict.mem_of_get? hfirmware, .refl⟩
        (by rw [Mongo.entryOf, hdoc]; rfl) (analysesOf_eq hdoc hanalysis hrows)
        rfl (fun u => ?_) rfl rfl hget
      have hnewRow : writtenFirmware driver db fo =
          (createFirmwareEntry driver.digits firmware.2).map some := writtenFirmware_of_new rfl hnew
      cases hentry : createFirmwareEntry driver.digits firmware.2 with
      | error e =>
        rw [hentry] at hnewRow
        cases hnewRow.symm.trans hw
      | ok fwRow =>
        rw [hentry] at hnewRow
        obtain rfl := Except.ok.inj (hnewRow.symm.trans hw)
        have hrowOf : mongo.firmwareOf driver.digits uid = some fwRow := by
          rw [Mongo.firmwareOf, hfirmware, Option.bind_some, hentry]
          rfl
        rw [hrowOf]
        exact Dict.get?_set _ _ _ _

end Sessions

/-! ## 5. The walk -/

/-- Every file below `u` is stored, with its parent and below the root `r`. -/
def FinishedBelow (mongo : Mongo) (db : Db) (r u : Uid) : Prop :=
  ∀ x, ReflTransGen mongo.Contains u x → ∀ y, mongo.Contains x y →
    y ∈ db.fileObjects ∧ (x, y) ∈ db.includedFiles ∧ (r, y) ∈ db.fwFiles

/-- The file `c` and everything below it is migrated below the parent `p`. -/
def FileFinished (mongo : Mongo) (db : Db) (r p c : Uid) : Prop :=
  c ∈ db.fileObjects ∧ (p, c) ∈ db.includedFiles ∧ (r, c) ∈ db.fwFiles ∧ FinishedBelow mongo db r c

section Walk
variable {mongo : Mongo} {driver : Driver} {interrupts : Interrupts} {db db' : Db} {r p uid : Uid}
  {limit fuel : Nat} {uids : List Uid}

theorem FinishedBelow.mono (h : FinishedBelow mongo db r uid) (hgrows : db.Grows db') :
    FinishedBelow mongo db' r uid := by
  intro x hx y hy
  obtain ⟨hrow, hincluded, hfwFiles⟩ := h x hx y hy
  exact ⟨hgrows.rows y hrow, hgrows.included hincluded, hgrows.fwFiles hfwFiles⟩

theorem FileFinished.mono {c : Uid} (h : FileFinished mongo db r p c) (hgrows : db.Grows db') :
    FileFinished mongo db' r p c :=
  ⟨hgrows.rows c h.1, hgrows.included h.2.1, hgrows.fwFiles h.2.2.1, h.2.2.2.mono hgrows⟩

/-- All files that a document includes are finished, so everything below it is. -/
theorem finishedBelow_of_files {doc : MongoEntry × Option FirmwareMeta}
    (hdoc : mongo.getObject uid = some doc)
    (h : ∀ c ∈ doc.1.filesIncluded, c ∈ mongo.fileObjects → FileFinished mongo db r uid c) :
    FinishedBelow mongo db r uid := by
  intro x hx y hy
  have hchild : ∀ {c}, mongo.Contains uid c → FileFinished mongo db r uid c := by
    rintro c ⟨doc', hdoc', hc, hfile⟩
    obtain rfl := Option.some.inj (hdoc.symm.trans hdoc')
    exact h c hc hfile
  rcases ReflTransGen.cases_head hx with rfl | ⟨c, hc, hcx⟩
  · obtain ⟨hrow, hincluded, hfwFiles, -⟩ := hchild hy
    exact ⟨hrow, hincluded, hfwFiles⟩
  · exact (hchild hc).2.2.2 x hcx y hy

theorem mem_findFiles {file : Uid × MongoEntry} :
    file ∈ mongo.findFiles uids ↔ mongo.fileObjects.get? file.1 = some file.2 ∧ file.1 ∈ uids := by
  rw [Mongo.findFiles, List.mem_filter, decide_eq_true_eq, Dict.mem_entries_iff]

/-- A round for a file below `p`: its session is interrupted or fails for what the file is, or the
file is stored and linked, and the walk goes on below it. -/
theorem migrateFileRound_cases {s : MigrationState} {walk : Db → List Uid → Uid → MigrationState}
    (h : PartlyMigrated mongo driver.digits s.db) (hmongo : mongo.WellFormed limit) {entry : MongoEntry}
    (hentry : mongo.fileObjects.get? uid = some entry) (hroot : r ∈ mongo.firmwares)
    (hr : r ∈ s.db.fileObjects) (hp : p ∈ s.db.fileObjects)
    (hbelow : ReflTransGen mongo.Contains r p) (hcontains : mongo.Contains p uid) :
    (¬ Unstopped mongo driver interrupts ∧
      (migrateFileRound driver interrupts r p walk s (uid, entry)).db = s.db) ∨
    ∃ db1 count, PartlyMigrated mongo driver.digits db1 ∧ s.db.Grows db1 ∧ uid ∈ db1.fileObjects ∧
      (p, uid) ∈ db1.includedFiles ∧ (r, uid) ∈ db1.fwFiles ∧
      migrateFileRound driver interrupts r p walk s (uid, entry) =
        { walk db1 entry.filesIncluded uid with count := count } := by
  cases hint : interrupts s.db uid with
  | some e =>
    refine .inl ⟨fun hun => ?_, by simp only [migrateFileRound, MigrationState.session, hint]; rfl⟩
    cases hint.symm.trans (hun.quiet s.db uid)
  | none =>
    -- a stored file is linked, whatever was in the database before
    have hlinked : ∀ {db1 : Db}, PartlyMigrated mongo driver.digits db1 → s.db.Grows db1 →
        uid ∈ db1.fileObjects →
        PartlyMigrated mongo driver.digits (db1.linkFile r p uid) ∧ s.db.Grows (db1.linkFile r p uid) ∧
          uid ∈ (db1.linkFile r p uid).fileObjects ∧ (p, uid) ∈ (db1.linkFile r p uid).includedFiles ∧
          (r, uid) ∈ (db1.linkFile r p uid).fwFiles := by
      intro db1 h1 hgrows huid
      exact ⟨h1.link hroot (hgrows.rows r hr) (hgrows.rows p hp) hbelow hcontains huid,
        hgrows.trans (grows_linkFile db1 r p uid), huid, mem_insertPairs.mpr (.inr List.mem_cons_self),
        mem_insertPairs.mpr (.inr List.mem_cons_self)⟩
    by_cases hex : s.db.exists? uid = true
    · have hupdate : updateFileObjectParents s.db uid r p = ⟨s.db.linkFile r p uid, none⟩ := by
        rw [updateFileObjectParents, updateParents_stored hr hp]
        rfl
      obtain ⟨h2, hgrows, huid, hincluded, hfwFiles⟩ :=
        hlinked h (.refl s.db) (Db.exists?_iff.mp hex)
      refine .inr ⟨_, s.count, h2, hgrows, huid, hincluded, hfwFiles, ?_⟩
      simp only [migrateFileRound, MigrationState.session, hint, hex, if_true, hupdate]
      rfl
    · have hnew : uid ∉ s.db.fileObjects := fun hmem => hex (Db.exists?_iff.mpr hmem)
      rw [Bool.not_eq_true] at hex
      rcases migrateSingleFile_cases h hmongo hentry hnew hroot hr hp hbelow
        hcontains with ⟨hno, e, heq⟩ | ⟨db1, h1, hgrows, huid, heq⟩
      · refine .inl ⟨fun hun => hno hun.accepted, ?_⟩
        simp only [migrateFileRound, MigrationState.session, hint, hex, Bool.false_eq_true, if_false,
          heq]
        rfl
      · obtain ⟨h2, hgrows2, huid2, hincluded, hfwFiles⟩ := hlinked h1 hgrows huid
        refine .inr ⟨_, s.count + 1, h2, hgrows2, huid2, hincluded, hfwFiles, ?_⟩
        simp only [migrateFileRound, MigrationState.session, hint, hex, Bool.false_eq_true, if_false,
          heq]
        rfl

/-- Wherever the walk below `p` stops, the database is a part of the old one. -/
theorem migrateFiles_partly (hmongo : mongo.WellFormed limit) (hroot : r ∈ mongo.firmwares)
    (h : PartlyMigrated mongo driver.digits db) (hr : r ∈ db.fileObjects) (hp : p ∈ db.fileObjects)
    (hbelow : ReflTransGen mongo.Contains r p)
    (hcontains : ∀ c ∈ uids, c ∈ mongo.fileObjects → mongo.Contains p c) :
    PartlyMigrated mongo driver.digits (migrateFiles mongo driver interrupts r fuel db uids p).db ∧
      db.Grows (migrateFiles mongo driver interrupts r fuel db uids p).db := by
  induction fuel generalizing db uids p with
  | zero => exact ⟨h, .refl db⟩
  | succ fuel ih =>
    refine forEach_invariant (I := fun s : MigrationState =>
      PartlyMigrated mongo driver.digits s.db ∧ db.Grows s.db) ?_ ⟨h, .refl db⟩
    rintro s ⟨uid, entry⟩ hfile - ⟨hs, hgrows⟩
    obtain ⟨hentry, hmem⟩ := mem_findFiles.mp hfile
    have hchild := hcontains uid hmem (Dict.mem_of_get? hentry)
    rcases migrateFileRound_cases hs hmongo hentry hroot (hgrows.rows r hr)
      (hgrows.rows p hp) hbelow hchild with ⟨-, heq⟩ | ⟨db1, count, h1, hgrows1, huid, -, -, heq⟩
    · rw [heq]
      exact ⟨hs, hgrows⟩
    · rw [heq]
      have hgrows1 := hgrows.trans hgrows1
      obtain ⟨hs', hgrows'⟩ := ih h1 (hgrows1.rows r hr) huid (hbelow.tail hchild)
        fun c hc hcfile => ⟨_, getObject_of_file hentry, hc, hcfile⟩
      exact ⟨hs', hgrows1.trans hgrows'⟩

/-- A walk that nothing stops finishes every file below `p`. -/
theorem migrateFiles_complete (hmongo : mongo.WellFormed limit) (hun : Unstopped mongo driver interrupts)
    (hroot : r ∈ mongo.firmwares) (h : PartlyMigrated mongo driver.digits db) (hr : r ∈ db.fileObjects)
    (hp : p ∈ db.fileObjects) (hbelow : ReflTransGen mongo.Contains r p)
    (hcontains : ∀ c ∈ uids, c ∈ mongo.fileObjects → mongo.Contains p c)
    (hdepth : ∀ n u, Steps mongo.Contains p n u → n < fuel) :
    (migrateFiles mongo driver interrupts r fuel db uids p).isRaised = false ∧
      ∀ c ∈ uids, c ∈ mongo.fileObjects →
        FileFinished mongo (migrateFiles mongo driver interrupts r fuel db uids p).db r p c := by
  induction fuel generalizing db uids p with
  | zero => exact absurd (hdepth 0 p .refl) (Nat.not_lt_zero 0)
  | succ fuel ih =>
    have hround : ∀ s, ∀ file ∈ mongo.findFiles uids,
        PartlyMigrated mongo driver.digits s.db ∧ db.Grows s.db →
        let s' :=
          migrateFileRound driver interrupts r p (migrateFiles mongo driver interrupts r fuel) s file
        (PartlyMigrated mongo driver.digits s'.db ∧ db.Grows s'.db) ∧ s'.isRaised = false ∧
          FileFinished mongo s'.db r p file.1 ∧ s.db.Grows s'.db := by
      rintro s ⟨uid, entry⟩ hfile ⟨hs, hgrows⟩
      obtain ⟨hentry, hmem⟩ := mem_findFiles.mp hfile
      have hchild := hcontains uid hmem (Dict.mem_of_get? hentry)
      rcases migrateFileRound_cases hs hmongo hentry hroot (hgrows.rows r hr)
        (hgrows.rows p hp) hbelow hchild with
        ⟨hno, -⟩ | ⟨db1, count, h1, hgrows1, huid, hincluded, hfwFiles, heq⟩
      · exact absurd hun hno
      · have hr1 := (hgrows.trans hgrows1).rows r hr
        have hincludes : ∀ c ∈ entry.filesIncluded, c ∈ mongo.fileObjects → mongo.Contains uid c :=
          fun c hc hcfile => ⟨_, getObject_of_file hentry, hc, hcfile⟩
        obtain ⟨hs', hgrows'⟩ := migrateFiles_partly hmongo hroot h1
          hr1 huid (hbelow.tail hchild) hincludes
        obtain ⟨hraised, hfiles⟩ := ih h1 hr1 huid (hbelow.tail hchild) hincludes
          fun n u hn => Nat.lt_of_succ_lt_succ (hdepth (n + 1) u (.head hchild hn))
        rw [heq]
        exact ⟨⟨hs', (hgrows.trans hgrows1).trans hgrows'⟩, hraised,
          ⟨hgrows'.rows uid huid, hgrows'.included hincluded, hgrows'.fwFiles hfwFiles,
            finishedBelow_of_files (getObject_of_file hentry) hfiles⟩, hgrows1.trans hgrows'⟩
    obtain ⟨-, hraised, hall⟩ := forEach_establishes MigrationState.isRaised
      (migrateFileRound driver interrupts r p (migrateFiles mongo driver interrupts r fuel))
      (I := fun s => PartlyMigrated mongo driver.digits s.db ∧ db.Grows s.db)
      (P := fun file s => FileFinished mongo s.db r p file.1)
      (fun s file hfile _ _ hI hdone => hdone.mono (hround s file hfile hI).2.2.2)
      (fun s file hfile hI =>
        have hround := hround s file hfile hI
        ⟨hround.1, hround.2.1, hround.2.2.1⟩) ⟨h, .refl db⟩
      (rfl : MigrationState.isRaised ⟨db, 0, none⟩ = false)
    refine ⟨hraised, fun c hc hcfile => ?_⟩
    obtain ⟨entry, hentry⟩ := Dict.mem_iff.mp hcfile
    exact hall (c, entry) (mem_findFiles.mpr ⟨hentry, hc⟩)

/-- A round for an image: its session is interrupted or fails for what the image is, or it is stored
and the walk goes on below it. -/
theorem migrateFirmwareRound_cases {s : MigrationState}
    {walk : Uid → Db → List Uid → Uid → MigrationState} (h : PartlyMigrated mongo driver.digits s.db)
    (hmongo : mongo.WellFormed limit) {firmware : MongoEntry × FirmwareMeta}
    (hfirmware : mongo.firmwares.get? uid = some firmware) :
    (¬ Unstopped mongo driver interrupts ∧
      (migrateFirmwareRound mongo driver interrupts walk s (uid, firmware)).db = s.db) ∨
    ∃ db1 count, PartlyMigrated mongo driver.digits db1 ∧ s.db.Grows db1 ∧ uid ∈ db1.fileObjects ∧
      migrateFirmwareRound mongo driver interrupts walk s (uid, firmware) =
        { walk uid db1 firmware.1.filesIncluded uid with count := count } := by
  have hdoc := getObject_of_firmware hmongo hfirmware
  cases hint : interrupts s.db uid with
  | some e =>
    refine .inl ⟨fun hun => ?_,
      by simp only [migrateFirmwareRound, MigrationState.session, hint]; rfl⟩
    cases hint.symm.trans (hun.quiet s.db uid)
  | none =>
    by_cases hex : s.db.exists? uid = true
    · refine .inr ⟨s.db, s.count, h, .refl s.db, Db.exists?_iff.mp hex, ?_⟩
      simp only [migrateFirmwareRound, MigrationState.session, hint, hdoc, Option.getD_some, hex,
        if_true]
      rfl
    · have hnew : uid ∉ s.db.fileObjects := fun hmem => hex (Db.exists?_iff.mpr hmem)
      rw [Bool.not_eq_true] at hex
      rcases migrateSingleFirmware_cases h hmongo hfirmware hnew with
        ⟨hno, e, heq⟩ | ⟨db1, h1, hgrows, huid, heq⟩
      · refine .inl ⟨fun hun => hno hun.accepted, ?_⟩
        simp only [migrateFirmwareRound, MigrationState.session, hint, hdoc, Option.getD_some, hex,
          Bool.false_eq_true, if_false, heq]
        rfl
      · refine .inr ⟨db1, s.count + 1, h1, hgrows, huid, ?_⟩
        simp only [migrateFirmwareRound, MigrationState.session, hint, hdoc, Option.getD_some, hex,
          Bool.false_eq_true, if_false, heq]
        rfl

/-- Wherever a migration stops, the new database is a part of the old one. -/
theorem migrateFw_partly (hmongo : mongo.WellFormed limit) (h : PartlyMigrated mongo driver.digits db) :
    PartlyMigrated mongo driver.digits (migrateFw mongo driver interrupts fuel db).db := by
  cases fuel with
  | zero => exact h
  | succ fuel =>
    refine forEach_invariant (I := fun s : MigrationState => PartlyMigrated mongo driver.digits s.db) ?_ h
    rintro s ⟨uid, firmware⟩ hmem - hs
    have hfirmware := Dict.mem_entries_iff.mp hmem
    rcases migrateFirmwareRound_cases hs hmongo hfirmware with
      ⟨-, heq⟩ | ⟨db1, count, h1, -, huid, heq⟩
    · rw [heq]
      exact hs
    · rw [heq]
      exact (migrateFiles_partly hmongo (Dict.mem_of_get? hfirmware) h1 huid huid .refl
        fun c hc hcfile => ⟨_, getObject_of_firmware hmongo hfirmware, hc, hcfile⟩).1

/-- A migration that nothing stops finishes every image. -/
theorem migrateFw_complete (hmongo : mongo.WellFormed limit) (hun : Unstopped mongo driver interrupts)
    (h : PartlyMigrated mongo driver.digits db) (hfuel : limit + 1 < fuel) :
    (migrateFw mongo driver interrupts fuel db).isRaised = false ∧ ∀ root ∈ mongo.firmwares,
      root ∈ (migrateFw mongo driver interrupts fuel db).db.fileObjects ∧
        FinishedBelow mongo (migrateFw mongo driver interrupts fuel db).db root root := by
  cases fuel with
  | zero => exact absurd hfuel (Nat.not_lt_zero _)
  | succ fuel =>
    have hround : ∀ s, ∀ firmware ∈ mongo.firmwares.entries, PartlyMigrated mongo driver.digits s.db →
        let s' := migrateFirmwareRound mongo driver interrupts
          (fun r => migrateFiles mongo driver interrupts r fuel) s
          firmware
        PartlyMigrated mongo driver.digits s'.db ∧ s'.isRaised = false ∧ (firmware.1 ∈ s'.db.fileObjects ∧
          FinishedBelow mongo s'.db firmware.1 firmware.1) ∧ s.db.Grows s'.db := by
      rintro s ⟨uid, firmware⟩ hmem hs
      have hfirmware := Dict.mem_entries_iff.mp hmem
      have hroot := Dict.mem_of_get? hfirmware
      have hdoc := getObject_of_firmware hmongo hfirmware
      rcases migrateFirmwareRound_cases hs hmongo hfirmware with
        ⟨hno, -⟩ | ⟨db1, count, h1, hgrows1, huid, heq⟩
      · exact absurd hun hno
      · have hincludes : ∀ c ∈ firmware.1.filesIncluded, c ∈ mongo.fileObjects →
            mongo.Contains uid c := fun c hc hcfile => ⟨_, hdoc, hc, hcfile⟩
        obtain ⟨hs', hgrows'⟩ := migrateFiles_partly hmongo hroot h1
          huid huid .refl hincludes
        obtain ⟨hraised, hfiles⟩ := migrateFiles_complete hmongo hun hroot h1 huid huid .refl
          hincludes fun n u hn => Nat.lt_of_le_of_lt (hmongo.depth uid hroot n u hn)
            (Nat.lt_of_succ_lt_succ hfuel)
        rw [heq]
        exact ⟨hs', hraised, ⟨hgrows'.rows uid huid, finishedBelow_of_files hdoc hfiles⟩,
          hgrows1.trans hgrows'⟩
    obtain ⟨-, hraised, hall⟩ := forEach_establishes MigrationState.isRaised
      (migrateFirmwareRound mongo driver interrupts fun r => migrateFiles mongo driver interrupts r fuel)
      (I := fun s => PartlyMigrated mongo driver.digits s.db)
      (P := fun firmware s => firmware.1 ∈ s.db.fileObjects ∧
        FinishedBelow mongo s.db firmware.1 firmware.1)
      (fun s firmware hmem _ _ hI hdone =>
        have hgrows := (hround s firmware hmem hI).2.2.2
        ⟨hgrows.rows _ hdone.1, hdone.2.mono hgrows⟩)
      (fun s firmware hmem hI =>
        have hround := hround s firmware hmem hI
        ⟨hround.1, hround.2.1, hround.2.2.1⟩) h
      (rfl : MigrationState.isRaised ⟨db, 0, none⟩ = false)
    refine ⟨hraised, fun root hroot => ?_⟩
    obtain ⟨firmware, hfirmware⟩ := Dict.mem_iff.mp hroot
    exact hall (root, firmware) (Dict.mem_entries_iff.mpr hfirmware)

end Walk

/-! ## 6. The new database -/

section Result
variable {mongo : Mongo} {driver : Driver} {db : Db} {limit : Nat}

theorem partlyMigrated_empty (mongo : Mongo) (digits : DecimalTable) :
    PartlyMigrated mongo digits Db.empty where
  row _ _ h := nomatch h
  firmware uid := (if_neg (Dict.not_mem_empty uid)).symm
  included _ _ h := absurd h List.not_mem_nil
  fwFiles _ _ h := absurd h List.not_mem_nil
  analyses uid _ := (if_neg (Dict.not_mem_empty uid)).symm
  once := ⟨List.nodup_nil, List.nodup_nil⟩

/-- A part of the old database in which every image is finished is all of it. -/
theorem PartlyMigrated.migrated (h : PartlyMigrated mongo driver.digits db)
    (hmongo : mongo.WellFormed limit)
    (hall : ∀ root ∈ mongo.firmwares, root ∈ db.fileObjects ∧ FinishedBelow mongo db root root) :
    Migrated mongo driver.digits db := by
  have hstored : ∀ {uid}, mongo.Kept uid → uid ∈ db.fileObjects := by
    rintro uid ⟨root, hroot, hbelow⟩
    rcases ReflTransGen.cases_tail hbelow with rfl | ⟨x, hx, hcontains⟩
    · exact (hall _ hroot).1
    · exact ((hall root hroot).2 x hx uid hcontains).1
  have hincludes : ∀ p c, db.Includes p c ↔ mongo.Kept p ∧ mongo.Contains p c := by
    intro p c
    constructor
    · intro hpc
      obtain ⟨hp, -, hcontains⟩ := h.included p c hpc
      obtain ⟨row, hrow⟩ := Dict.mem_iff.mp hp
      exact ⟨(h.row p row hrow).1, hcontains⟩
    · rintro ⟨⟨root, hroot, hbelow⟩, hcontains⟩
      exact ((hall root hroot).2 p hbelow c hcontains).2.1
  -- the files that the table of roots lists are those below the image, in both databases
  have hbelow : ∀ {root u}, root ∈ mongo.firmwares →
      (TransGen db.Includes root u ↔ TransGen mongo.Contains root u) := by
    intro root u hroot
    constructor
    · intro hu
      exact TransGen.mono (fun p c hpc => ((hincludes p c).mp hpc).2) root u hu
    · intro hu
      induction hu with
      | single hc => exact .single ((hincludes root _).mpr ⟨⟨root, hroot, .refl⟩, hc⟩)
      | tail hx hc ih => exact .tail ih ((hincludes _ _).mpr ⟨⟨root, hroot, hx.to_reflTransGen⟩, hc⟩)
  exact {
    row := fun uid row => by
      constructor
      · exact h.row uid row
      · rintro ⟨hkept, hentry⟩
        obtain ⟨row', hrow'⟩ := Dict.mem_iff.mp (hstored hkept)
        rw [hrow', ← (h.row uid row' hrow').2, hentry]
    firmware := fun uid => by
      rw [h.firmware uid]
      split
      · rfl
      · next hno =>
        rw [Mongo.firmwareOf]
        cases hget : mongo.firmwares.get? uid with
        | none => rfl
        | some doc => exact absurd (hall uid (Dict.mem_of_get? hget)).1 hno
    included := hincludes
    files := fun root hroot => by
      have hfirmware : root ∈ mongo.firmwares := by
        obtain ⟨row, hrow⟩ := Dict.mem_iff.mp hroot
        rw [h.firmware] at hrow
        split at hrow
        · obtain ⟨doc, hdoc, -⟩ := Option.bind_eq_some_iff.mp hrow
          exact Dict.mem_of_get? hdoc
        · cases hrow
      constructor
      · intro u
        rw [mem_getAllFilesInFw, hbelow hfirmware]
        constructor
        · intro hmem
          exact (h.fwFiles root u hmem).2.2.2
        · intro hu
          obtain ⟨x, hx, hcontains⟩ := TransGen.tail'_iff.mp hu
          exact ((hall root hfirmware).2 x hx u hcontains).2.2
      · intro hmem
        exact not_transGen_self (fun n v hn => hmongo.depth root hfirmware n v hn) .refl
          (h.fwFiles root root (mem_getAllFilesInFw.mp hmem)).2.2.2
    analyses := fun uid plugin row => by
      rw [h.analyses uid plugin]
      split
      · next hmem =>
        obtain ⟨entry, hentry⟩ := Dict.mem_iff.mp hmem
        rw [Option.bind_eq_some_iff]
        exact (and_iff_right (h.row uid entry hentry).1).symm
      · next hno =>
        constructor
        · intro hnone
          cases hnone
        · intro hkept
          exact absurd (hstored hkept.1) hno
    once := h.once }

/-- What an attempt meets: its recursion limit, the rows that the database rejects, and what ends it
from outside. -/
structure Attempt where
  fuel : Nat
  rejects : Uid → String → AnalysisEntry → Option PyException
  interrupts : Interrupts

/-- The database that earlier attempts leave. -/
def migrateAttempts (mongo : Mongo) (driver : Driver) (db : Db) (attempts : List Attempt) : Db :=
  attempts.foldl (fun db attempt => (migrateFw mongo { driver with row := attempt.rejects }
    attempt.interrupts attempt.fuel db).db) db

theorem migrateAttempts_partly (hmongo : mongo.WellFormed limit)
    (h : PartlyMigrated mongo driver.digits db) (attempts : List Attempt) :
    PartlyMigrated mongo driver.digits (migrateAttempts mongo driver db attempts) := by
  induction attempts generalizing db with
  | nil => exact h
  | cons attempt attempts ih =>
    exact ih (@migrateFw_partly mongo { driver with row := attempt.rejects } _ _ _ _ hmongo h)

end Result

/-- Earlier attempts may have been stopped before any of their sessions. One that is not stopped leaves
exactly the old images with their files, relations and results. -/
theorem migration_resumes {mongo : Mongo} {driver : Driver} {interrupts : Interrupts}
    {limit fuel : Nat} (hmongo : mongo.WellFormed limit) (hun : Unstopped mongo driver interrupts)
    (hfuel : limit + 1 < fuel) (attempts : List Attempt) :
    let after := migrateFw mongo driver interrupts fuel
      (migrateAttempts mongo driver Db.empty attempts)
    after.raised = none ∧ Migrated mongo driver.digits after.db := by
  have hpartly := migrateAttempts_partly hmongo (partlyMigrated_empty mongo driver.digits) attempts
  obtain ⟨hraised, hall⟩ := migrateFw_complete hmongo hun hpartly hfuel
  exact ⟨Option.isSome_eq_false_iff.mp hraised |> Option.isNone_iff_eq_none.mp,
    (migrateFw_partly hmongo hpartly).migrated hmongo hall⟩

/-- A document with the files that it includes and a result without a version. -/
def measuredEntry (files : List Uid) : MongoEntry where
  sha256 := "c0ffee"
  fileName := "part"
  size := 4
  comments := []
  virtualFilePath := ∅
  filesIncluded := files
  processedAnalysis := Dict.ofList [("binwalk", [("entropy", .num 5)])]

/-- An image with an archive and a file, which the archive includes too. -/
def routerMongo : Mongo where
  firmwares := Dict.ofList [("image", measuredEntry ["archive", "file"], routerMeta)]
  fileObjects := Dict.ofList [("file", measuredEntry []), ("archive", measuredEntry ["file"])]

theorem steps_le_of_rank {α : Type} {r : α → α → Prop} {u v : α} {n : Nat} (height : α → Nat)
    (hr : ∀ u v, r u v → height v < height u) (h : Steps r u n v) : n + height v ≤ height u := by
  induction h with
  | refl => exact Nat.le_of_eq (Nat.zero_add _)
  | tail _ hstep ih =>
    have hlt := hr _ _ hstep
    omega

theorem getObject_routerMongo {uid : Uid} {doc : MongoEntry × Option FirmwareMeta}
    (h : routerMongo.getObject uid = some doc) :
    (uid = "image" ∧ doc = (measuredEntry ["archive", "file"], some routerMeta)) ∨
      (uid = "archive" ∧ doc = (measuredEntry ["file"], none)) ∨
      (uid = "file" ∧ doc = (measuredEntry [], none)) := by
  unfold Mongo.getObject at h
  split at h
  · next entry hentry =>
    obtain rfl := Option.some.inj h
    rcases List.mem_cons.mp (Dict.mem_of_get?_ofList hentry) with heq | hmem
    · obtain ⟨rfl, rfl⟩ := Prod.mk.inj heq
      exact .inr (.inr ⟨rfl, rfl⟩)
    · obtain ⟨rfl, rfl⟩ := Prod.mk.inj (List.mem_singleton.mp hmem)
      exact .inr (.inl ⟨rfl, rfl⟩)
  · obtain ⟨firmware, hfirmware, rfl⟩ := Option.map_eq_some_iff.mp h
    obtain ⟨rfl, rfl⟩ := Prod.mk.inj (List.mem_singleton.mp (Dict.mem_of_get?_ofList hfirmware))
    exact .inl ⟨rfl, rfl⟩

/-- How far the chains below a file can go. -/
def routerHeight (uid : Uid) : Nat := if uid = "image" then 2 else if uid = "archive" then 1 else 0

theorem wellFormed_routerMongo : routerMongo.WellFormed 2 where
  disjoint := by decide
  depth root hroot n uid h := by
    have hstep : ∀ p c, routerMongo.Contains p c → routerHeight c < routerHeight p := by
      rintro p c ⟨doc, hdoc, hc, -⟩
      rcases getObject_routerMongo hdoc with ⟨rfl, rfl⟩ | ⟨rfl, rfl⟩ | ⟨rfl, rfl⟩
      · rcases List.mem_cons.mp hc with rfl | hc
        · decide
        · rw [List.mem_singleton.mp hc]
          decide
      · rw [List.mem_singleton.mp hc]
        decide
      · cases hc
    have hheight : routerHeight root ≤ 2 := by
      unfold routerHeight
      split_ifs <;> decide
    have hle := steps_le_of_rank routerHeight hstep h
    omega

theorem acceptedBy_routerMongo : routerMongo.AcceptedBy acceptAll := by
  intro uid doc hdoc
  rcases getObject_routerMongo hdoc with ⟨rfl, rfl⟩ | ⟨rfl, rfl⟩ | ⟨rfl, rfl⟩ <;>
    exact ⟨_, rfl, rfl⟩

/-- One attempt ends when the connection is lost after the image was inserted, a second one over a
rejected row. -/
def stoppedAttempts : List Attempt :=
  [⟨1000, fun _ _ _ => none, fun db uid =>
      if "image" ∈ db.fileObjects ∧ uid = "file" then
        some (.raised (.sqlAlchemyError "server closed the connection unexpectedly"))
      else none⟩,
    ⟨1000, fun uid _ _ => if uid = "file" then some .dbSerializationError else none,
      fun _ _ => none⟩]

theorem router_resumes :
    let after := migrateFw routerMongo acceptAll (fun _ _ => none) 1000
      (migrateAttempts routerMongo acceptAll Db.empty stoppedAttempts)
    after.raised = none ∧ Migrated routerMongo asciiDigits after.db :=
  migration_resumes wellFormed_routerMongo ⟨acceptedBy_routerMongo, fun _ _ => rfl⟩ (by decide) _

end FactCore
