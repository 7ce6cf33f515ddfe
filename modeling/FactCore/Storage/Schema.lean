import FactCore.VirtualFilePath

/-!
# The database schema

`src/src/storage/schema.py`: the tables that hold files, firmware images and
analysis results, with the delete cascade that the listener
`delete_file_orphans` adds to them.

A flush deletes the marked rows; for every deleted file object the listener
marks all files that have no parent left and are not flagged as firmware. The
commit flushes until nothing is marked. It gives up after a fixed number of
flushes, which is a parameter here.

Results:
1. `deleteEntries_append`: deleting twice is deleting both lists.
2. `commitDelete_spec`: a commit deletes the marked rows and, beyond them, only
   unflagged rows all of whose parents it deletes too; no orphan is left.
3. `ForeignKeys.deleteEntries`: the foreign keys survive every deletion.
-/

namespace FactCore

/-- A row of `file_object`. -/
@[ext]
structure FileObjectEntry where
  sha256 : String
  fileName : String
  depth : Nat
  size : Nat
  comments : List Comment
  virtualFilePaths : VirtualFilePath
  isFirmware : Bool

/-- A row of `firmware`. `firmware_tags` is an array of strings. -/
structure FirmwareEntry where
  releaseDate : Date
  version : String
  vendor : String
  deviceName : String
  deviceClass : String
  devicePart : String
  firmwareTags : List String
  deriving DecidableEq

/-- A row of `analysis`. -/
structure AnalysisEntry where
  pluginVersion : PyVal
  systemVersion : PyVal
  analysisDate : PyVal
  summary : PyVal
  tags : PyVal
  result : PyVal

/-- The tables. `includedFiles` holds pairs (parent, child), `fwFiles` pairs (root, file). -/
@[ext]
structure Db where
  fileObjects : Dict Uid FileObjectEntry
  firmware : Dict Uid FirmwareEntry
  includedFiles : List (Uid × Uid)
  fwFiles : List (Uid × Uid)
  analyses : Dict (Uid × String) AnalysisEntry

namespace Db

/-- The database right after its installation. -/
def empty : Db := ⟨∅, ∅, [], [], ∅⟩

/-- `DbInterfaceCommon.exists`. -/
def exists? (db : Db) (uid : Uid) : Bool := decide (uid ∈ db.fileObjects)

/-- `FileObjectEntry.get_included_uids`. -/
def getIncludedUids (db : Db) (uid : Uid) : List Uid :=
  (db.includedFiles.filter fun e => decide (e.1 = uid)).map Prod.snd

/-- `FileObjectEntry.get_parent_uids`. -/
def getParentUids (db : Db) (uid : Uid) : List Uid :=
  (db.includedFiles.filter fun e => decide (e.2 = uid)).map Prod.fst

theorem mem_getParentUids {db : Db} {parent child : Uid} :
    parent ∈ db.getParentUids child ↔ (parent, child) ∈ db.includedFiles := by
  simp [getParentUids]

theorem exists?_iff {db : Db} {uid : Uid} : db.exists? uid = true ↔ uid ∈ db.fileObjects := by
  simp [exists?]

/-- The row of `uid` has its firmware flag set. -/
def Flagged (db : Db) (uid : Uid) : Prop :=
  ∃ entry, db.fileObjects.get? uid = some entry ∧ entry.isFirmware = true

theorem Flagged.mem_fileObjects {db : Db} {uid : Uid} (h : db.Flagged uid) :
    uid ∈ db.fileObjects := by
  obtain ⟨entry, hentry, -⟩ := h
  exact Dict.mem_of_get? hentry

/-! ## 1. Deleting rows -/

/-- Delete the rows of `uids` with what their relationships cascade to: firmware and analysis
rows, and the association rows on either side. -/
def deleteEntries (db : Db) (uids : List Uid) : Db where
  fileObjects := db.fileObjects.filter fun u => decide (u ∉ uids)
  firmware := db.firmware.filter fun u => decide (u ∉ uids)
  includedFiles := db.includedFiles.filter fun e => decide (e.1 ∉ uids ∧ e.2 ∉ uids)
  fwFiles := db.fwFiles.filter fun e => decide (e.1 ∉ uids ∧ e.2 ∉ uids)
  analyses := db.analyses.filter fun k => decide (k.1 ∉ uids)

/-- The condition of the query in `delete_file_orphans`: no parent left, and no firmware. -/
def isOrphan (db : Db) (uid : Uid) : Bool :=
  (!db.includedFiles.any fun e => decide (e.2 = uid ∧ e.1 ∈ db.fileObjects)) &&
    (db.fileObjects.get? uid).any fun entry => !entry.isFirmware

/-- The rows that `delete_file_orphans` marks for deletion. -/
def orphans (db : Db) : List Uid := db.fileObjects.keys.filter db.isOrphan

/-- `session.commit()` with the rows `marked` for deletion: at most `flushes` rounds, the last
of which has to find nothing marked. `none` is the `FlushError`. -/
def commitDelete : Nat → Db → List Uid → Option Db
  | 0, _, _ => none
  | flushes + 1, db, marked =>
    if marked = [] then some db
    else commitDelete flushes (db.deleteEntries marked) (db.deleteEntries marked).orphans

section DeleteEntries
variable {db : Db} {uids : List Uid} {u p c : Uid}

@[simp] theorem mem_fileObjects_deleteEntries :
    u ∈ (db.deleteEntries uids).fileObjects ↔ u ∈ db.fileObjects ∧ u ∉ uids := by
  simp [deleteEntries]

@[simp] theorem mem_firmware_deleteEntries :
    u ∈ (db.deleteEntries uids).firmware ↔ u ∈ db.firmware ∧ u ∉ uids := by
  simp [deleteEntries]

@[simp] theorem mem_includedFiles_deleteEntries :
    (p, c) ∈ (db.deleteEntries uids).includedFiles ↔
      (p, c) ∈ db.includedFiles ∧ p ∉ uids ∧ c ∉ uids := by
  simp [deleteEntries]

@[simp] theorem mem_fwFiles_deleteEntries :
    (p, c) ∈ (db.deleteEntries uids).fwFiles ↔ (p, c) ∈ db.fwFiles ∧ p ∉ uids ∧ c ∉ uids := by
  simp [deleteEntries]

theorem get?_fileObjects_deleteEntries :
    (db.deleteEntries uids).fileObjects.get? u =
      if u ∈ uids then none else db.fileObjects.get? u := by
  rw [deleteEntries, Dict.get?_filter]
  simp

theorem get?_firmware_deleteEntries :
    (db.deleteEntries uids).firmware.get? u = if u ∈ uids then none else db.firmware.get? u := by
  rw [deleteEntries, Dict.get?_filter]
  simp

theorem flagged_deleteEntries : (db.deleteEntries uids).Flagged u ↔ db.Flagged u ∧ u ∉ uids := by
  unfold Flagged
  rw [get?_fileObjects_deleteEntries]
  split
  · next h => simp [h]
  · next h => simp [h]

theorem deleteEntries_nil : db.deleteEntries [] = db := by
  simp [deleteEntries, Dict.filter_eq_self]

theorem deleteEntries_append {us vs : List Uid} :
    (db.deleteEntries us).deleteEntries vs = db.deleteEntries (us ++ vs) := by
  simp only [deleteEntries, Dict.filter_filter, List.filter_filter, List.mem_append, not_or,
    Bool.decide_and, Db.mk.injEq, true_and, and_true]
  constructor <;> refine List.filter_congr fun e _ => ?_ <;>
    cases decide (e.1 ∉ us) <;> cases decide (e.2 ∉ us) <;>
      cases decide (e.1 ∉ vs) <;> cases decide (e.2 ∉ vs) <;> rfl

end DeleteEntries

/-! ## 2. The orphan cascade -/

theorem mem_orphans {db : Db} {u : Uid} :
    u ∈ db.orphans ↔ u ∈ db.fileObjects ∧ ¬ db.Flagged u ∧
      ∀ p, (p, u) ∈ db.includedFiles → p ∉ db.fileObjects := by
  rw [orphans, List.mem_filter, ← Dict.mem_def]
  refine and_congr_right fun hu => ?_
  obtain ⟨entry, hentry⟩ := Dict.mem_iff.mp hu
  simp only [isOrphan, Flagged, hentry, Bool.and_eq_true, Bool.not_eq_true', Option.any_some,
    Option.some.injEq, exists_eq_left', Bool.not_eq_true, List.any_eq_false, decide_eq_true_eq,
    Prod.forall, not_and]
  exact ⟨fun h => ⟨h.2, fun p hp => h.1 p u hp rfl⟩,
    fun h => ⟨fun p c hp hc => h.2 p (hc ▸ hp), h.1⟩⟩

/-- What a commit does beyond the marked rows: it deletes unflagged rows whose parents are all
deleted too, and it stops when there are none left. -/
theorem commitDelete_spec {flushes : Nat} {db db' : Db} {marked : List Uid}
    (h : commitDelete flushes db marked = some db') :
    ∃ cascaded, db' = db.deleteEntries (marked ++ cascaded) ∧
      (∀ u ∈ cascaded, u ∈ db.fileObjects ∧ ¬ db.Flagged u ∧
        ∀ p, (p, u) ∈ db.includedFiles → p ∈ db.fileObjects → p ∈ marked ++ cascaded) ∧
      ((marked = [] ∧ db' = db) ∨ db'.orphans = []) := by
  induction flushes generalizing db marked with
  | zero => cases h
  | succ flushes ih =>
    rw [commitDelete] at h
    split at h
    · next hm =>
      subst hm
      obtain rfl := Option.some.inj h
      exact ⟨[], by simp [deleteEntries_nil], by simp, .inl ⟨rfl, rfl⟩⟩
    · obtain ⟨cascaded, hdb', hcas, hend⟩ := ih h
      rw [deleteEntries_append] at hdb'
      refine ⟨(db.deleteEntries marked).orphans ++ cascaded, hdb', fun u hu => ?_, .inr ?_⟩
      · rcases List.mem_append.mp hu with hu | hu
        · -- an orphan of the first flush: every parent row is marked
          obtain ⟨hrow, hflag, hpar⟩ := mem_orphans.mp hu
          obtain ⟨hrow, hum⟩ := mem_fileObjects_deleteEntries.mp hrow
          refine ⟨hrow, fun hf => hflag (flagged_deleteEntries.mpr ⟨hf, hum⟩), fun p hp hprow => ?_⟩
          by_contra hmem
          rw [List.mem_append, not_or] at hmem
          exact hpar p (by simp [hp, hum, hmem.1]) (by simp [hprow, hmem.1])
        · -- a row of a later flush
          obtain ⟨hrow, hflag, hpar⟩ := hcas u hu
          obtain ⟨hrow, hum⟩ := mem_fileObjects_deleteEntries.mp hrow
          refine ⟨hrow, fun hf => hflag (flagged_deleteEntries.mpr ⟨hf, hum⟩), fun p hp hprow => ?_⟩
          rcases Decidable.em (p ∈ marked) with hpm | hpm
          · exact List.mem_append_left _ hpm
          · exact List.mem_append_right _ (hpar p (by simp [hp, hum, hpm]) (by simp [hprow, hpm]))
      · rcases hend with ⟨hnil, heq⟩ | hend
        · rw [heq, hnil]
        · exact hend

/-! ## 3. Foreign keys -/

/-- The foreign keys of the schema: every reference names a row of `file_object`. -/
structure ForeignKeys (db : Db) : Prop where
  firmware : ∀ u, u ∈ db.firmware → u ∈ db.fileObjects
  included : ∀ p c, (p, c) ∈ db.includedFiles → p ∈ db.fileObjects ∧ c ∈ db.fileObjects
  fwFiles : ∀ r f, (r, f) ∈ db.fwFiles → r ∈ db.fileObjects ∧ f ∈ db.fileObjects
  analyses : ∀ u plugin, (u, plugin) ∈ db.analyses → u ∈ db.fileObjects

theorem ForeignKeys.empty : ForeignKeys Db.empty where
  firmware _ h := absurd h (Dict.not_mem_empty _)
  included _ _ h := absurd h List.not_mem_nil
  fwFiles _ _ h := absurd h List.not_mem_nil
  analyses _ _ h := absurd h (Dict.not_mem_empty _)

theorem ForeignKeys.deleteEntries {db : Db} (hk : ForeignKeys db) (uids : List Uid) :
    ForeignKeys (db.deleteEntries uids) where
  firmware u h := by
    obtain ⟨h, hu⟩ := mem_firmware_deleteEntries.mp h
    exact mem_fileObjects_deleteEntries.mpr ⟨hk.firmware u h, hu⟩
  included p c h := by
    obtain ⟨h, hp, hc⟩ := mem_includedFiles_deleteEntries.mp h
    simp [hk.included p c h, hp, hc]
  fwFiles r f h := by
    obtain ⟨h, hr, hf⟩ := mem_fwFiles_deleteEntries.mp h
    simp [hk.fwFiles r f h, hr, hf]
  analyses u plugin h := by
    obtain ⟨h, hu⟩ := Dict.mem_filter.mp h
    exact mem_fileObjects_deleteEntries.mpr ⟨hk.analyses u plugin h, of_decide_eq_true hu⟩

end Db

end FactCore
