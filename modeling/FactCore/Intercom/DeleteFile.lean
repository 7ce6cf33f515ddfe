import FactCore.Storage.FileStore
import FactCore.Storage.Histories

/-!
# Deleting files that are still in use

Four processes act on the binary of a file. The unpacker sets the lock of the uid and stores the
binary (`src/src/unpacker/unpack.py`); the analysis scheduler writes the row and releases the lock
(`src/src/scheduler/analysis.py`); the frontend deletes firmware
(`src/src/storage/db_interface_admin.py`) and sends the uids of the files that went with it; and a
listener of the backend (`InterComBackEndDeleteFile` in `src/src/intercom/back_end_binding.py`)
deletes the binary of each uid that has neither a row nor a lock.

The model interleaves single actions of these processes. Any number of objects is on its way
through the backend, several of them possibly with the same uid. The listener looks for the row,
looks for the lock and deletes the file in three actions.

Results:
1. `FileInvariant.step`: in an undisturbed step rows keep their files, and an object that was
   extracted keeps its file and its lock.
2. `filesStay_of_undisturbed`: no file gets lost in a run of undisturbed steps.
3. `shared_lock_loses_file`: the lock does not count, so of two extractions of one file the first
   takes the lock from the second, and the listener deletes the file.
-/

namespace FactCore

/-! ## 1. Objects on their way through the backend -/

/-- What comes next for an object. -/
inductive ObjectStage
  /-- It was extracted and its lock is set: `store_file`. -/
  | locked
  /-- It was extracted and stored: its first `pre_analysis`. -/
  | extracted
  /-- It has no lock, since it was uploaded, loaded from the database, or has released it:
  `pre_analysis`. -/
  | scheduled
  /-- `pre_analysis` is done: `release_unpacking_lock`. -/
  | added (ownLock : Bool)
  deriving DecidableEq

/-- `pre_analysis` is next. -/
def ObjectStage.awaitsPreAnalysis : ObjectStage → Bool
  | .extracted | .scheduled => true
  | .locked | .added _ => false

/-- An object in the backend. What else belongs to a `FileObject` changes on the way, and comes
with the events that read it. -/
structure BackendObject where
  uid : Uid
  stage : ObjectStage
  deriving DecidableEq

/-- The object has set the lock of its uid and has not released it. -/
def BackendObject.ownsLock (o : BackendObject) : Bool :=
  match o.stage with
  | .locked | .extracted | .added true => true
  | .scheduled | .added false => false

/-- What `post_processing` does next for the first uid of its list. -/
inductive DeleteStage
  | dbEntry
  | lock
  | delete
  deriving DecidableEq

/-- The listener: the uids that remain of its task. -/
structure DeleteListener where
  uids : List Uid
  stage : DeleteStage

/-- The shared state. `unsent` holds the uids of each `delete_firmware` that has removed the rows
and has not called `delete_file` yet, `deleteTasks` the queue `file_delete_task`. -/
structure BackendState where
  locks : UnpackingLocks
  files : FileStore
  db : Db
  objects : Dict Nat BackendObject
  unsent : List (List Uid)
  deleteTasks : List (List Uid)
  listener : DeleteListener

namespace BackendState

/-- Nothing is stored. -/
def init : BackendState := ⟨∅, ∅, Db.empty, ∅, [], [], ⟨[], .dbEntry⟩⟩

/-- `pre_analysis`. An object that cannot be added leaves the backend, with its lock set. -/
def preAnalysis (driver : Driver) (s : BackendState) (id : Nat) (fo : FileObject)
    (stage : ObjectStage) : BackendState :=
  let outcome := addObject driver s.db fo
  { s with
    db := outcome.db
    objects := match outcome.raised with
      | none => s.objects.set id ⟨fo.uid, .added (decide (stage = .extracted))⟩
      | some _ => s.objects.erase id }

/-- `delete_firmware` up to the call of `delete_file`. -/
def deleteFirmware (limits : Limits) (s : BackendState) (uid : Uid) (deleteRootFile : Bool) :
    BackendState :=
  let deletion := FactCore.deleteFirmware limits s.db uid deleteRootFile
  { s with db := deletion.outcome.db, unsent := s.unsent ++ deletion.sent.toList }

/-- `_entry_was_removed_from_db`. -/
def entryWasRemovedFromDb (s : BackendState) (uid : Uid) : Bool :=
  !s.db.exists? uid && !s.locks.unpackingLockIsSet uid

end BackendState

/-- One action of one process; `id` names an object in the backend. -/
inductive BackendEvent
  | upload (id : Nat) (fo : FileObject)
  | reanalyze (id : Nat) (uid : Uid)
  | updateChild (id : Nat) (uid : Uid)
  | setUnpackingLock (id : Nat) (uid : Uid)
  | storeFile (id : Nat) (fo : FileObject)
  | preAnalysis (id : Nat) (fo : FileObject)
  | releaseUnpackingLock (id : Nat) (uid : Uid)
  | leave (id : Nat)
  | deleteFirmware (uid : Uid) (deleteRootFile : Bool)
  | sendUids (uids : List Uid)
  | nextDeleteTask
  | checkDbEntry (uid : Uid)
  | checkLock (uid : Uid)
  | deleteFile (uid : Uid)

/-- The actions. -/
inductive BackendStep (driver : Driver) (limits : Limits) :
    BackendState → BackendEvent → BackendState → Prop
  /-- The binary of an upload is stored; no lock is set. -/
  | upload {s : BackendState} {id : Nat} {fo : FileObject} :
      id ∉ s.objects → fo.sha256 ≠ none →
      BackendStep driver limits s (.upload id fo)
        { s with
          files := s.files.storeFile fo
          objects := s.objects.set id ⟨fo.uid, .scheduled⟩ }
  /-- `InterComBackEndReAnalyzeTask` reads the binary from the file store. -/
  | reanalyze {s : BackendState} {id : Nat} {uid : Uid} {binary : String} :
      id ∉ s.objects → s.files.readBinary uid = .ok binary →
      BackendStep driver limits s (.reanalyze id uid)
        { s with objects := s.objects.set id ⟨uid, .scheduled⟩ }
  /-- `update_analysis_of_object_and_children` loads a child from the database. -/
  | updateChild {s : BackendState} {id : Nat} {uid : Uid} :
      id ∉ s.objects → s.db.exists? uid = true →
      BackendStep driver limits s (.updateChild id uid)
        { s with objects := s.objects.set id ⟨uid, .scheduled⟩ }
  /-- The first half of `generate_and_store_file_objects` for one file. -/
  | setUnpackingLock {s : BackendState} {id : Nat} {uid : Uid} :
      id ∉ s.objects →
      BackendStep driver limits s (.setUnpackingLock id uid)
        { s with
          locks := s.locks.setUnpackingLock uid
          objects := s.objects.set id ⟨uid, .locked⟩ }
  /-- The second half; an extracted object has its binary loaded. -/
  | storeFile {s : BackendState} {id : Nat} {fo : FileObject} :
      s.objects.get? id = some ⟨fo.uid, .locked⟩ → fo.sha256 ≠ none →
      BackendStep driver limits s (.storeFile id fo)
        { s with
          files := s.files.storeFile fo
          objects := s.objects.set id ⟨fo.uid, .extracted⟩ }
  | preAnalysis {s : BackendState} {id : Nat} {fo : FileObject} {stage : ObjectStage} :
      s.objects.get? id = some ⟨fo.uid, stage⟩ → stage.awaitsPreAnalysis = true →
      BackendStep driver limits s (.preAnalysis id fo) (s.preAnalysis driver id fo stage)
  /-- Whatever lock the uid has is taken away. The object may go another round. -/
  | releaseUnpackingLock {s : BackendState} {id : Nat} {uid : Uid} {ownLock : Bool} :
      s.objects.get? id = some ⟨uid, .added ownLock⟩ →
      BackendStep driver limits s (.releaseUnpackingLock id uid)
        { s with
          locks := s.locks.releaseUnpackingLock uid
          objects := s.objects.set id ⟨uid, .scheduled⟩ }
  /-- The object is done, is dropped by `remove_duplicates`, or its process has died. -/
  | leave {s : BackendState} {id : Nat} :
      BackendStep driver limits s (.leave id) { s with objects := s.objects.erase id }
  | deleteFirmware {s : BackendState} {uid : Uid} {deleteRootFile : Bool} :
      BackendStep driver limits s (.deleteFirmware uid deleteRootFile)
        (s.deleteFirmware limits uid deleteRootFile)
  /-- `delete_file` of the frontend binding, with the set of uids in some order. -/
  | sendUids {s : BackendState} {uids sent : List Uid} :
      sent ∈ s.unsent → uids.Perm sent →
      BackendStep driver limits s (.sendUids uids)
        { s with unsent := s.unsent.erase sent, deleteTasks := s.deleteTasks ++ [uids] }
  | nextDeleteTask {s : BackendState} {uids : List Uid} {rest : List (List Uid)} :
      s.listener.uids = [] → s.deleteTasks = uids :: rest →
      BackendStep driver limits s .nextDeleteTask
        { s with deleteTasks := rest, listener := ⟨uids, .dbEntry⟩ }
  | checkDbEntry {s : BackendState} {uid : Uid} {rest : List Uid} :
      s.listener = ⟨uid :: rest, .dbEntry⟩ →
      BackendStep driver limits s (.checkDbEntry uid)
        { s with listener :=
            if s.db.exists? uid then ⟨rest, .dbEntry⟩ else ⟨uid :: rest, .lock⟩ }
  | checkLock {s : BackendState} {uid : Uid} {rest : List Uid} :
      s.listener = ⟨uid :: rest, .lock⟩ →
      BackendStep driver limits s (.checkLock uid)
        { s with listener :=
            if s.locks.unpackingLockIsSet uid then ⟨rest, .dbEntry⟩ else ⟨uid :: rest, .delete⟩ }
  | deleteFile {s : BackendState} {uid : Uid} {rest : List Uid} :
      s.listener = ⟨uid :: rest, .delete⟩ →
      BackendStep driver limits s (.deleteFile uid)
        { s with files := s.files.deleteFile uid, listener := ⟨rest, .dbEntry⟩ }

/-- A run of the backend from the empty state. -/
abbrev BackendRun (driver : Driver) (limits : Limits) : List BackendEvent → BackendState → Prop :=
  Run (BackendStep driver limits) BackendState.init

/-- Every row has its file, and so has every object that was extracted and stored and whose row is
not added yet. -/
structure FilesStay (s : BackendState) : Prop where
  rows : ∀ uid ∈ s.db.fileObjects, uid ∈ s.files
  extracted : ∀ id uid, s.objects.get? id = some ⟨uid, .extracted⟩ → uid ∈ s.files

/-- The step does not disturb the protocol of the locks.

* A release takes the lock from no other object that owns it.
* When a file is deleted, the answers that the listener got for it are still right, and every
  object of its uid in the backend owns a lock. -/
def Undisturbed (s : BackendState) : BackendEvent → Prop
  | .releaseUnpackingLock id uid =>
    ∀ e ∈ s.objects.entries, e.1 ≠ id → e.2.uid = uid → e.2.ownsLock = false
  | .deleteFile uid =>
    s.entryWasRemovedFromDb uid = true ∧
      ∀ e ∈ s.objects.entries, e.2.uid = uid → e.2.ownsLock = true
  | _ => True

/-! ## 2. One step -/

/-- Rows have their files, stored objects have theirs, and the lock of an object that owns one is
set. -/
structure FileInvariant (s : BackendState) : Prop where
  rows : ∀ uid ∈ s.db.fileObjects, uid ∈ s.files
  stored : ∀ id o, s.objects.get? id = some o → o.stage ≠ .locked → o.uid ∈ s.files
  locked : ∀ id o, s.objects.get? id = some o → o.ownsLock = true → o.uid ∈ s.locks

theorem BackendState.entryWasRemovedFromDb_iff {s : BackendState} {uid : Uid} :
    s.entryWasRemovedFromDb uid = true ↔ uid ∉ s.db.fileObjects ∧ uid ∉ s.locks := by
  simp [entryWasRemovedFromDb, ← Bool.not_eq_true, Db.exists?_iff,
    UnpackingLocks.unpackingLockIsSet_iff]

namespace FileInvariant

section Steps
variable {driver : Driver} {limits : Limits} {s s' : BackendState} {e : BackendEvent}
  {id : Nat} {o : BackendObject} {uid : Uid}

theorem init : FileInvariant BackendState.init :=
  ⟨fun _ h => (nomatch h), fun _ _ h => (nomatch h), fun _ _ h => (nomatch h)⟩

theorem filesStay (h : FileInvariant s) : FilesStay s where
  rows := h.rows
  extracted id uid hid := h.stored id ⟨uid, .extracted⟩ hid nofun

/-- Rows and objects may go, files and locks may come. -/
theorem of_le (h : FileInvariant s) (hrows : ∀ u ∈ s'.db.fileObjects, u ∈ s.db.fileObjects)
    (hobjects : ∀ id o, s'.objects.get? id = some o → s.objects.get? id = some o)
    (hfiles : ∀ u ∈ s.files, u ∈ s'.files) (hlocks : ∀ u ∈ s.locks, u ∈ s'.locks) :
    FileInvariant s' where
  rows u hu := hfiles u (h.rows u (hrows u hu))
  stored id o hid hstage := hfiles o.uid (h.stored id o (hobjects id o hid) hstage)
  locked id o hid hown := hlocks o.uid (h.locked id o (hobjects id o hid) hown)

theorem setObject (h : FileInvariant s) (hfile : o.stage ≠ .locked → o.uid ∈ s.files)
    (hlock : o.ownsLock = true → o.uid ∈ s.locks) :
    FileInvariant { s with objects := s.objects.set id o } where
  rows := h.rows
  stored id' o' hid hstage := by
    rcases Dict.get?_set_eq_some.mp hid with ⟨-, rfl⟩ | ⟨-, hid⟩
    · exact hfile hstage
    · exact h.stored id' o' hid hstage
  locked id' o' hid hown := by
    rcases Dict.get?_set_eq_some.mp hid with ⟨-, rfl⟩ | ⟨-, hid⟩
    · exact hlock hown
    · exact h.locked id' o' hid hown

theorem storeFile (h : FileInvariant s) (fo : FileObject) :
    FileInvariant { s with files := s.files.storeFile fo } :=
  h.of_le (fun _ hu => hu) (fun _ _ hid => hid) (fun _ hu => FileStore.mem_storeFile hu)
    fun _ hu => hu

theorem setUnpackingLock (h : FileInvariant s) (uid : Uid) :
    FileInvariant { s with locks := s.locks.setUnpackingLock uid } :=
  h.of_le (fun _ hu => hu) (fun _ _ hid => hid) (fun _ hu => hu)
    fun _ hu => UnpackingLocks.mem_setUnpackingLock.mpr (.inr hu)

theorem eraseObject (h : FileInvariant s) :
    FileInvariant { s with objects := s.objects.erase id } :=
  h.of_le (fun _ hu => hu) (fun _ _ hid => Dict.get?_of_get?_erase hid) (fun _ hu => hu)
    fun _ hu => hu

/-- The object whose turn it is has its file, so its row has one. -/
theorem preAnalysis (h : FileInvariant s) {fo : FileObject} {stage : ObjectStage}
    (hid : s.objects.get? id = some ⟨fo.uid, stage⟩) (hstage : stage.awaitsPreAnalysis = true) :
    FileInvariant (s.preAnalysis driver id fo stage) := by
  have hfile : fo.uid ∈ s.files := h.stored id _ hid fun heq => by
    rw [show stage = .locked from heq] at hstage
    cases hstage
  have hdb : FileInvariant { s with db := (addObject driver s.db fo).db } :=
    { h with
      rows := fun u hu => by
        rcases mem_of_mem_fileObjects_addObject hu with rfl | hu
        · exact hfile
        · exact h.rows u hu }
  -- the object owns the lock after the call exactly if it does before
  have hown : (⟨fo.uid, .added (decide (stage = .extracted))⟩ : BackendObject).ownsLock = true →
      fo.uid ∈ s.locks := by
    cases stage with
    | extracted => exact fun _ => h.locked id _ hid rfl
    | scheduled => exact nofun
    | locked => cases hstage
    | added ownLock => cases hstage
  cases hraised : (addObject driver s.db fo).raised with
  | none =>
    simp only [BackendState.preAnalysis, hraised]
    exact hdb.setObject (fun _ => hfile) hown
  | some e =>
    simp only [BackendState.preAnalysis, hraised]
    exact hdb.eraseObject

/-- No other object that owns the lock of `uid` loses it. -/
theorem releaseUnpackingLock (h : FileInvariant s) {ownLock : Bool}
    (hid : s.objects.get? id = some ⟨uid, .added ownLock⟩)
    (hfree : ∀ e ∈ s.objects.entries, e.1 ≠ id → e.2.uid = uid → e.2.ownsLock = false) :
    FileInvariant { s with
      locks := s.locks.releaseUnpackingLock uid
      objects := s.objects.set id ⟨uid, .scheduled⟩ } where
  rows := h.rows
  stored := by
    have hfile : uid ∈ s.files := h.stored id _ hid nofun
    exact (@setObject s id ⟨uid, .scheduled⟩ h (fun _ => hfile) nofun).stored
  locked id' o' hid' hown := by
    rcases Dict.get?_set_eq_some.mp hid' with ⟨-, rfl⟩ | ⟨hne, hid'⟩
    · cases hown
    · refine UnpackingLocks.mem_releaseUnpackingLock.mpr ⟨fun hu => ?_, h.locked id' o' hid' hown⟩
      rw [hfree (id', o') (Dict.mem_entries_iff.mpr hid') hne hu] at hown
      cases hown

/-- No row and no object in the backend has the uid of the file that is deleted. -/
theorem deleteFile (h : FileInvariant s) (hunused : s.entryWasRemovedFromDb uid = true)
    (hown : ∀ e ∈ s.objects.entries, e.2.uid = uid → e.2.ownsLock = true)
    {listener : DeleteListener} :
    FileInvariant { s with files := s.files.deleteFile uid, listener := listener } := by
  obtain ⟨hrow, hlock⟩ := BackendState.entryWasRemovedFromDb_iff.mp hunused
  have hgone : ∀ id o, s.objects.get? id = some o → o.uid ≠ uid := by
    rintro id o hid rfl
    exact hlock (h.locked id o hid (hown (id, o) (Dict.mem_entries_iff.mpr hid) rfl))
  exact {
    rows := fun u hu => FileStore.mem_deleteFile (h.rows u hu) fun heq => hrow (heq ▸ hu)
    stored := fun id o hid hstage =>
      FileStore.mem_deleteFile (h.stored id o hid hstage) (hgone id o hid)
    locked := h.locked }

/-- Every undisturbed step keeps the invariant. -/
theorem step (h : FileInvariant s) (hst : Restrict Undisturbed (BackendStep driver limits) s e s') :
    FileInvariant s' := by
  obtain ⟨hcond, hst⟩ := hst
  cases hst with
  | @upload _ fo hnew hbinary =>
    exact (h.storeFile fo).setObject (fun _ => FileStore.mem_storeFile_self hbinary) nofun
  | reanalyze hnew hread =>
    exact h.setObject (fun _ => FileStore.mem_of_readBinary hread) nofun
  | updateChild hnew hrow =>
    exact h.setObject (fun _ => h.rows _ (Db.exists?_iff.mp hrow)) nofun
  | @setUnpackingLock _ uid hnew =>
    exact (h.setUnpackingLock uid).setObject (fun hstage => (hstage rfl).elim)
      fun _ => UnpackingLocks.mem_setUnpackingLock.mpr (.inl rfl)
  | @storeFile _ fo hid hbinary =>
    have hlock : fo.uid ∈ s.locks := h.locked _ _ hid rfl
    exact (h.storeFile fo).setObject (fun _ => FileStore.mem_storeFile_self hbinary) fun _ => hlock
  | preAnalysis hid hstage => exact h.preAnalysis hid hstage
  | releaseUnpackingLock hid => exact h.releaseUnpackingLock hid hcond
  | leave => exact h.eraseObject
  | deleteFirmware =>
    exact h.of_le (fun _ hu => mem_of_mem_fileObjects_deleteFirmware hu) (fun _ _ hid => hid)
      (fun _ hu => hu) fun _ hu => hu
  | sendUids => exact ⟨h.rows, h.stored, h.locked⟩
  | nextDeleteTask => exact ⟨h.rows, h.stored, h.locked⟩
  | checkDbEntry => exact ⟨h.rows, h.stored, h.locked⟩
  | checkLock => exact ⟨h.rows, h.stored, h.locked⟩
  | deleteFile => exact h.deleteFile hcond.1 hcond.2

end Steps

end FileInvariant

/-! ## 3. Whole runs -/

/-- In a run whose releases take no lock from another extraction, and whose deletions meet no
object without a lock and act on answers that are still right, every row has its file and every
object that was stored and is not added yet has its file. -/
theorem filesStay_of_undisturbed {driver : Driver} {limits : Limits} {events : List BackendEvent}
    {s : BackendState}
    (h : Run (Restrict Undisturbed (BackendStep driver limits)) BackendState.init events s) :
    FilesStay s := by
  have hinv : FileInvariant s := h.invariant (fun _ _ _ hs hst => hs.step hst) .init
  exact hinv.filesStay

/-- An image is uploaded, unpacked, analysed and deleted again, and the listener removes the files
of its rows. -/
def deletedImage : List BackendEvent :=
  [.upload 0 outerImage, .setUnpackingLock 1 "inner", .storeFile 1 innerFile,
    .preAnalysis 0 outerImage, .releaseUnpackingLock 0 "outer", .preAnalysis 1 innerFile,
    .releaseUnpackingLock 1 "inner", .leave 0, .leave 1, .deleteFirmware "outer" true,
    .sendUids ["inner", "outer"], .nextDeleteTask, .checkDbEntry "inner", .checkLock "inner",
    .deleteFile "inner", .checkDbEntry "outer", .checkLock "outer", .deleteFile "outer"]

/-- Nobody else uses the files of the image, so nothing is disturbed and no file is missing. -/
theorem deleted_image_files_stay :
    ∃ s, BackendRun acceptAll pythonLimits deletedImage s ∧ FilesStay s := by
  have hrun : Run (Restrict Undisturbed (BackendStep acceptAll pythonLimits)) BackendState.init
      deletedImage _ :=
    .cons ⟨trivial, .upload (by decide) (by decide)⟩ <|
    .cons ⟨trivial, .setUnpackingLock (by decide)⟩ <|
    .cons ⟨trivial, .storeFile rfl (by decide)⟩ <|
    .cons ⟨trivial, .preAnalysis rfl rfl⟩ <|
    .cons ⟨by unfold Undisturbed; decide, .releaseUnpackingLock rfl⟩ <|
    .cons ⟨trivial, .preAnalysis rfl rfl⟩ <|
    .cons ⟨by unfold Undisturbed; decide, .releaseUnpackingLock rfl⟩ <|
    .cons ⟨trivial, .leave⟩ <|
    .cons ⟨trivial, .leave⟩ <|
    .cons ⟨trivial, .deleteFirmware⟩ <|
    .cons ⟨trivial, .sendUids List.mem_cons_self (.refl _)⟩ <|
    .cons ⟨trivial, .nextDeleteTask rfl rfl⟩ <|
    .cons ⟨trivial, .checkDbEntry rfl⟩ <|
    .cons ⟨trivial, .checkLock rfl⟩ <|
    .cons ⟨by unfold Undisturbed; decide, .deleteFile rfl⟩ <|
    .cons ⟨trivial, .checkDbEntry rfl⟩ <|
    .cons ⟨trivial, .checkLock rfl⟩ <|
    .cons ⟨by unfold Undisturbed; decide, .deleteFile rfl⟩ (.nil _)
  exact ⟨_, hrun.of_restrict, filesStay_of_undisturbed hrun⟩

/-- Two images contain the same file, and the file is extracted from both before its row is added.
The release after the first row takes the only lock; then the first image is deleted. -/
def sharedFile : List BackendEvent :=
  [.upload 0 outerImage, .setUnpackingLock 1 "inner", .storeFile 1 innerFile,
    .upload 2 secondImage, .setUnpackingLock 3 "inner", .storeFile 3 innerFileAgain,
    .preAnalysis 0 outerImage, .releaseUnpackingLock 0 "outer", .preAnalysis 1 innerFile,
    .releaseUnpackingLock 1 "inner", .leave 0, .leave 1, .deleteFirmware "outer" true,
    .sendUids ["inner", "outer"], .nextDeleteTask, .checkDbEntry "inner", .checkLock "inner",
    .deleteFile "inner"]

/-- The file of the second extraction is deleted before its row is added. -/
theorem shared_lock_loses_file :
    ¬ ∀ (driver : Driver) (limits : Limits) (events : List BackendEvent) (s : BackendState),
      BackendRun driver limits events s → FilesStay s := by
  intro h
  have hrun : BackendRun acceptAll pythonLimits sharedFile _ :=
    .cons (.upload (by decide) (by decide)) <|
    .cons (.setUnpackingLock (by decide)) <|
    .cons (.storeFile rfl (by decide)) <|
    .cons (.upload (by decide) (by decide)) <|
    .cons (.setUnpackingLock (by decide)) <|
    .cons (.storeFile rfl (by decide)) <|
    .cons (.preAnalysis rfl rfl) <|
    .cons (.releaseUnpackingLock rfl) <|
    .cons (.preAnalysis rfl rfl) <|
    .cons (.releaseUnpackingLock rfl) <|
    .cons .leave <|
    .cons .leave <|
    .cons .deleteFirmware <|
    .cons (.sendUids List.mem_cons_self (.refl _)) <|
    .cons (.nextDeleteTask rfl rfl) <|
    .cons (.checkDbEntry rfl) <|
    .cons (.checkLock rfl) <|
    .cons (.deleteFile rfl) (.nil _)
  have hfile := (h _ _ _ _ hrun).extracted 3 "inner" rfl
  revert hfile
  decide

end FactCore
