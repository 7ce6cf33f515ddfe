import FactCore.Storage.Backend

/-!
# Deleting firmware

`src/src/storage/db_interface_admin.py`. `delete_firmware` works in two
sessions: the first walks down the included files and takes the root out of
their virtual file paths, the second deletes the row of the image and lets the
orphan cascade of the schema delete the rest. The uids it collects on the walk
are sent to the backend, which deletes the files from the disk.

The walk is a recursion over `included_files`, so it fails on a chain that is
longer than Python's recursion limit, and the commit fails after too many
flushes. Both bounds are parameters (`Limits`).

Results:
1. `removeVirtualPathEntries_trimmed`: the walk changes nothing but virtual
   paths, and takes at most the key of the root out of them.
2. `deleteFirmware_cases`: what a call can do to the database.
3. `ForeignKeys.deleteFirmware`.
-/

namespace FactCore

/-- Bounds of the runtime: nested calls of the walk, and flushes of one commit. -/
structure Limits where
  recursion : Nat
  flushes : Nat

/-- What `_remove_virtual_path_entries` gives back: the number of removed path entries, the uids
of the files to delete, and the database of the session. -/
structure Removal where
  removedFp : Nat
  uidsToDelete : List Uid
  db : Db

/-- Take `rootUid` out of the virtual file paths of a row. -/
def FileObjectEntry.withoutRoot (entry : FileObjectEntry) (rootUid : Uid) : FileObjectEntry :=
  { entry with virtualFilePaths := entry.virtualFilePaths.filter fun uid => decide (uid ≠ rootUid) }

/-- `_remove_virtual_path_entries`; `none` when the recursion limit is reached. The children are
visited in some order of the set; the result does not depend on it. -/
def removeVirtualPathEntries : Nat → Uid → Uid → Db → Option Removal
  | 0, _, _, _ => none
  | depth + 1, rootUid, foUid, db =>
    if foUid ∉ db.fileObjects then some ⟨0, [], db⟩
    else do
      let r ← (db.getIncludedUids foUid).foldlM (fun (acc : Removal) childUid => do
        let child ← removeVirtualPathEntries depth rootUid childUid acc.db
        return ⟨acc.removedFp + child.removedFp, acc.uidsToDelete ∪ child.uidsToDelete, child.db⟩)
        ⟨0, [], db⟩
      let foEntry ← r.db.fileObjects.get? foUid
      if foEntry.virtualFilePaths.keys.any fun root => decide (root ≠ rootUid) then
        -- the file is included in other firmware: only the paths below this root go
        return ⟨r.removedFp + 1, r.uidsToDelete, { r.db with
          fileObjects := r.db.fileObjects.set foUid (foEntry.withoutRoot rootUid) }⟩
      else return ⟨r.removedFp, r.uidsToDelete ∪ [foUid], r.db⟩

/-- The loop of `delete_firmware` over the files that the image includes. -/
def removeChildren (limits : Limits) (db : Db) (uid : Uid) : Option Removal :=
  (db.getIncludedUids uid).foldlM (fun (acc : Removal) childUid => do
    let child ← removeVirtualPathEntries limits.recursion uid childUid acc.db
    return ⟨acc.removedFp + child.removedFp, acc.uidsToDelete ∪ child.uidsToDelete, child.db⟩)
    ⟨0, [], db⟩

/-- `delete_object`. -/
def deleteObject (limits : Limits) (db : Db) (uid : Uid) : Outcome :=
  readWriteSession db <|
    if uid ∈ db.fileObjects then
      match Db.commitDelete limits.flushes db [uid] with
      | some db' => .ok db'
      | none => .error (.sqlAlchemyError
          "Over 100 subsequent flushes have occurred within session.commit()")
    else .ok db

/-- The outcome of `delete_firmware` and the uids that it sends to `intercom.delete_file`. -/
structure Deletion where
  outcome : Outcome
  removedFp : Nat
  sent : Option (List Uid)

/-- `delete_firmware`. -/
def deleteFirmware (limits : Limits) (db : Db) (uid : Uid) (deleteRootFile : Bool := true) :
    Deletion :=
  match db.fileObjects.get? uid with
  | none => ⟨⟨db, none⟩, 0, none⟩
  | some fw =>
    if fw.isFirmware then
      match removeChildren limits db uid with
      | none => ⟨⟨db, some .recursionError⟩, 0, none⟩
      | some r =>
        let outcome := deleteObject limits r.db uid
        match outcome.raised with
        -- the paths are trimmed in sessions of their own, and stay so when the deletion fails
        | some _ => ⟨outcome, r.removedFp, none⟩
        | none => ⟨outcome, r.removedFp,
            some (if deleteRootFile then r.uidsToDelete ∪ [uid] else r.uidsToDelete)⟩
    else ⟨⟨db, none⟩, 0, none⟩

/-! ## 1. The walk changes virtual paths only -/

/-- `db'` is `db` with `root` taken out of the virtual file paths of some rows. -/
structure Trimmed (root : Uid) (db db' : Db) : Prop where
  tables : db' = { db with fileObjects := db'.fileObjects }
  rows : ∀ u, db'.fileObjects.get? u = db.fileObjects.get? u ∨
    db'.fileObjects.get? u = (db.fileObjects.get? u).map fun entry => entry.withoutRoot root

namespace Trimmed

variable {root : Uid} {db db' db'' : Db}

theorem refl (root : Uid) (db : Db) : Trimmed root db db := ⟨rfl, fun _ => .inl rfl⟩

theorem withoutRoot_withoutRoot (entry : FileObjectEntry) (root : Uid) :
    (entry.withoutRoot root).withoutRoot root = entry.withoutRoot root := by
  simp [FileObjectEntry.withoutRoot, Dict.filter_filter]

theorem trans (h : Trimmed root db db') (h' : Trimmed root db' db'') : Trimmed root db db'' where
  tables := by rw [h'.tables, h.tables]
  rows u := by
    rcases h.rows u with h1 | h1 <;> rcases h'.rows u with h2 | h2 <;> rw [h2, h1]
    · exact .inl rfl
    · exact .inr rfl
    · exact .inr rfl
    · -- the root is filtered out twice
      refine .inr ?_
      rw [Option.map_map]
      congr 1
      funext entry
      exact withoutRoot_withoutRoot entry root

theorem mem_fileObjects (h : Trimmed root db db') {u : Uid} :
    u ∈ db'.fileObjects ↔ u ∈ db.fileObjects := by
  rw [← Dict.isSome_get?, ← Dict.isSome_get?]
  rcases h.rows u with hu | hu <;> simp [hu]

theorem flagged (h : Trimmed root db db') {u : Uid} : db'.Flagged u ↔ db.Flagged u := by
  unfold Db.Flagged
  rcases h.rows u with hu | hu
  · rw [hu]
  · rw [hu]
    cases db.fileObjects.get? u <;> simp [FileObjectEntry.withoutRoot]

theorem firmware (h : Trimmed root db db') : db'.firmware = db.firmware := by rw [h.tables]

theorem includedFiles (h : Trimmed root db db') : db'.includedFiles = db.includedFiles := by
  rw [h.tables]

theorem fwFiles (h : Trimmed root db db') : db'.fwFiles = db.fwFiles := by rw [h.tables]

theorem analyses (h : Trimmed root db db') : db'.analyses = db.analyses := by rw [h.tables]

theorem foreignKeys (h : Trimmed root db db') (hk : Db.ForeignKeys db) : Db.ForeignKeys db' where
  firmware u hu := h.mem_fileObjects.mpr (hk.firmware u (h.firmware ▸ hu))
  included p c hc := by
    rw [h.includedFiles] at hc
    simpa only [h.mem_fileObjects] using hk.included p c hc
  fwFiles r f hf := by
    rw [h.fwFiles] at hf
    simpa only [h.mem_fileObjects] using hk.fwFiles r f hf
  analyses u plugin hu := h.mem_fileObjects.mpr (hk.analyses u plugin (h.analyses ▸ hu))

/-- Writing one row without the root. -/
theorem set {u : Uid} {entry : FileObjectEntry} (hrow : db.fileObjects.get? u = some entry) :
    Trimmed root db { db with fileObjects := db.fileObjects.set u (entry.withoutRoot root) } where
  tables := rfl
  rows v := by
    rcases eq_or_ne v u with rfl | hv
    · exact .inr (by rw [Dict.get?_set_self, hrow]; rfl)
    · exact .inl (Dict.get?_set_of_ne _ hv)

end Trimmed

/-- A loop of steps that trim trims. -/
theorem foldlM_trimmed {root : Uid} {walk : Uid → Db → Option Removal}
    (hwalk : ∀ u db r, walk u db = some r → Trimmed root db r.db) {uids : List Uid}
    {acc r : Removal}
    (h : uids.foldlM (fun (acc : Removal) childUid => do
      let child ← walk childUid acc.db
      return (⟨acc.removedFp + child.removedFp, acc.uidsToDelete ∪ child.uidsToDelete,
        child.db⟩ : Removal)) acc = some r) :
    Trimmed root acc.db r.db := by
  induction uids generalizing acc with
  | nil =>
    obtain rfl := Option.some.inj h
    exact .refl root acc.db
  | cons u uids ih =>
    rw [List.foldlM_cons] at h
    cases hu : walk u acc.db with
    | none => simp [hu] at h
    | some child =>
      simp only [hu, Option.bind_eq_bind, Option.bind_some, Option.pure_def] at h
      have htl := @ih ⟨acc.removedFp + child.removedFp,
        acc.uidsToDelete ∪ child.uidsToDelete, child.db⟩ h
      exact (hwalk u acc.db child hu).trans htl

/-- The walk changes nothing but virtual file paths. The induction is on the recursion depth. -/
theorem removeVirtualPathEntries_trimmed {depth : Nat} {rootUid foUid : Uid} {db : Db} {r : Removal}
    (h : removeVirtualPathEntries depth rootUid foUid db = some r) : Trimmed rootUid db r.db := by
  induction depth generalizing foUid db r with
  | zero => cases h
  | succ depth ih =>
    rw [removeVirtualPathEntries] at h
    split at h
    · obtain rfl := Option.some.inj h
      exact .refl rootUid db
    · obtain ⟨r1, h1, h⟩ := Option.bind_eq_some_iff.mp h
      obtain ⟨foEntry, hrow, h⟩ := Option.bind_eq_some_iff.mp h
      have htrim : Trimmed rootUid db r1.db :=
        foldlM_trimmed (fun u db' r' hu => ih hu) h1
      -- the file has other roots and keeps its row, or it is to be deleted
      split at h
      · obtain rfl := Option.some.inj h
        exact htrim.trans (.set hrow)
      · obtain rfl := Option.some.inj h
        exact htrim

theorem removeChildren_trimmed {limits : Limits} {db : Db} {uid : Uid} {r : Removal}
    (h : removeChildren limits db uid = some r) : Trimmed uid db r.db :=
  foldlM_trimmed (fun _ _ _ hu => removeVirtualPathEntries_trimmed hu) h

/-! ## 2. What deleting a firmware can do -/

/-- The rows that deleting `uid` takes with it: rows that are not flagged as firmware and whose
parents are all deleted. -/
structure Cascade (db : Db) (uid : Uid) (cascaded : List Uid) : Prop where
  stored : ∀ u ∈ cascaded, u ∈ db.fileObjects
  unflagged : ∀ u ∈ cascaded, ¬ db.Flagged u
  parents : ∀ u ∈ cascaded, ∀ p, (p, u) ∈ db.includedFiles → p ∈ db.fileObjects →
    p = uid ∨ p ∈ cascaded

theorem deleteFirmware_cases (limits : Limits) (db : Db) (uid : Uid) (deleteRootFile : Bool) :
    (deleteFirmware limits db uid deleteRootFile).outcome.db = db ∨
    (db.Flagged uid ∧ ∃ db1, Trimmed uid db db1 ∧
      ((deleteFirmware limits db uid deleteRootFile).outcome.db = db1 ∨
        ∃ cascaded, Cascade db uid cascaded ∧
          (deleteFirmware limits db uid deleteRootFile).outcome.db =
            db1.deleteEntries (uid :: cascaded))) := by
  unfold deleteFirmware
  cases hrow : db.fileObjects.get? uid with
  | none => exact .inl rfl
  | some fw =>
    rcases Bool.eq_false_or_eq_true fw.isFirmware with hflag | hflag
    · simp only [hflag, if_true]
      cases hr : removeChildren limits db uid with
      | none => exact .inl rfl
      | some r =>
        have htrim := removeChildren_trimmed hr
        have hmem : uid ∈ r.db.fileObjects := htrim.mem_fileObjects.mpr (Dict.mem_of_get? hrow)
        refine .inr ⟨⟨fw, hrow, hflag⟩, r.db, htrim, ?_⟩
        simp only [deleteObject, if_pos hmem]
        cases hc : Db.commitDelete limits.flushes r.db [uid] with
        | none => exact .inl rfl
        | some db' =>
          obtain ⟨cascaded, rfl, hcas, -⟩ := Db.commitDelete_spec hc
          refine .inr ⟨cascaded, ⟨fun u hu => ?_, fun u hu => ?_, fun u hu p hp hprow => ?_⟩, rfl⟩
          · exact htrim.mem_fileObjects.mp (hcas u hu).1
          · exact fun hf => (hcas u hu).2.1 (htrim.flagged.mpr hf)
          · have := (hcas u hu).2.2 p (htrim.includedFiles ▸ hp) (htrim.mem_fileObjects.mpr hprow)
            simpa using this
    · simp only [hflag]
      exact .inl rfl

/-- Deleting a firmware adds no row. -/
theorem mem_of_mem_fileObjects_deleteFirmware {limits : Limits} {db : Db} {uid u : Uid}
    {deleteRootFile : Bool}
    (hu : u ∈ (deleteFirmware limits db uid deleteRootFile).outcome.db.fileObjects) :
    u ∈ db.fileObjects := by
  rcases deleteFirmware_cases limits db uid deleteRootFile with
    heq | ⟨-, db1, htrim, heq | ⟨cascaded, -, heq⟩⟩ <;> rw [heq] at hu
  · exact hu
  · exact htrim.mem_fileObjects.mp hu
  · exact htrim.mem_fileObjects.mp (Db.mem_fileObjects_deleteEntries.mp hu).1

/-! ## 3. Foreign keys -/

theorem Db.ForeignKeys.added {db : Db} {fo : FileObject} {driver : Driver}
    (hk : ForeignKeys db) (h : (addObject driver db fo).raised = none) :
    ForeignKeys (addObject driver db fo).db := by
  obtain ⟨-, ⟨row, -, hfirm⟩, hincl, hfw, hana⟩ := addObject_added h
  have hmem := fun u => @mem_fileObjects_addObject driver db fo h u
  refine ⟨fun u hu => ?_, fun p c hc => ?_, fun r f hf => ?_, fun u plugin hu => ?_⟩
  · rw [hfirm] at hu
    exact (hmem u).mpr ((mem_firmware_withFirmware.mp hu).imp And.right (hk.firmware u))
  · rcases (hincl p c).mp hc with hc | ⟨-, rfl, -, hp⟩
    · exact ⟨(hmem p).mpr (.inr (hk.included p c hc).1), (hmem c).mpr (.inr (hk.included p c hc).2)⟩
    · exact ⟨(hmem p).mpr (.inr hp), (hmem _).mpr (.inl rfl)⟩
  · rcases (hfw r f).mp hf with hf | ⟨-, rfl, -, hr⟩
    · exact ⟨(hmem r).mpr (.inr (hk.fwFiles r f hf).1), (hmem f).mpr (.inr (hk.fwFiles r f hf).2)⟩
    · exact ⟨(hmem r).mpr (.inr hr), (hmem _).mpr (.inl rfl)⟩
  · rcases hana _ hu with hu | hu
    · exact (hmem u).mpr (.inr (hk.analyses u plugin hu))
    · exact (hmem u).mpr (.inl hu.1)

theorem Db.ForeignKeys.withFirmware {db : Db} {fo : FileObject} (hk : ForeignKeys db)
    (hrow : fo.uid ∈ db.fileObjects) (row : Option FirmwareEntry) :
    ForeignKeys (withFirmware db fo row) where
  firmware u hu :=
    (mem_firmware_withFirmware.mp hu).elim (fun h => h.2 ▸ hrow) (hk.firmware u)
  included := hk.included
  fwFiles := hk.fwFiles
  analyses := hk.analyses

theorem Db.ForeignKeys.addObject {db : Db} (hk : ForeignKeys db) (driver : Driver)
    (fo : FileObject) : ForeignKeys (addObject driver db fo).db := by
  cases h : (FactCore.addObject driver db fo).raised with
  | none => exact hk.added h
  | some e =>
    rcases addObject_failed h with heq | ⟨-, hrow, -, row, -, heq⟩
    · rwa [heq]
    · rw [heq]
      exact hk.withFirmware hrow row

theorem Db.ForeignKeys.deleteFirmware {db : Db} (hk : ForeignKeys db) (limits : Limits) (uid : Uid)
    (deleteRootFile : Bool) :
    ForeignKeys (deleteFirmware limits db uid deleteRootFile).outcome.db := by
  rcases deleteFirmware_cases limits db uid deleteRootFile with
    heq | ⟨-, db1, htrim, heq | ⟨cascaded, -, heq⟩⟩ <;> rw [heq]
  · exact hk
  · exact htrim.foreignKeys hk
  · exact (htrim.foreignKeys hk).deleteEntries _

end FactCore
