import FactCore.Lib.Run
import FactCore.Storage.Admin
import FactCore.Unpacker

/-!
# Histories of the database

Two kinds of calls write to the tables of files and firmware: an object is added
(or updated), and a firmware is deleted together with the files that go with it.
A history is a list of such calls, in any order and with any arguments; it starts
with the empty database.

Results:
1. `foreignKeys_of_run`, `tagsNodup_of_run`: what holds after every history.
2. `flagged_addObject_self`, `mem_firmware_addObject_self`: flag and firmware row
   of an object that was added.
-/

namespace FactCore

/-- A call that writes to the tables of files and firmware. -/
inductive StorageOp
  | addObject (fo : FileObject)
  | deleteFirmware (uid : Uid) (deleteRootFile : Bool)

/-- The call deletes the firmware `uid`. -/
def StorageOp.deletes (uid : Uid) : StorageOp → Bool
  | .addObject _ => false
  | .deleteFirmware u _ => decide (u = uid)

/-- The database after a call, whether it raises or not. -/
def storageStep (driver : Driver) (limits : Limits) (db : Db) : StorageOp → Db
  | .addObject fo => (addObject driver db fo).db
  | .deleteFirmware uid deleteRootFile => (deleteFirmware limits db uid deleteRootFile).outcome.db

/-- `History driver limits db ops db'`: the calls `ops` lead from `db` to `db'`. -/
abbrev History (driver : Driver) (limits : Limits) : Db → List StorageOp → Db → Prop :=
  Run (Deterministic (storageStep driver limits))

/-- The database after the calls `ops` on the empty database. -/
def databaseAfter (driver : Driver) (limits : Limits) (ops : List StorageOp) : Db :=
  ops.foldl (storageStep driver limits) Db.empty

/-- A database that some history leads to. -/
def Reachable (driver : Driver) (limits : Limits) (db : Db) : Prop :=
  ∃ ops, History driver limits Db.empty ops db

/-- The tags of a stored firmware are the keys of a dict. -/
def Db.TagsNodup (db : Db) : Prop :=
  ∀ uid entry, db.firmware.get? uid = some entry → entry.firmwareTags.Nodup

section Histories
variable {driver : Driver} {limits : Limits} {db db' : Db} {ops : List StorageOp}

/-! ## 1. Invariants -/

theorem foreignKeys_of_run (h : History driver limits db ops db') (hk : db.ForeignKeys) :
    db'.ForeignKeys := by
  refine h.invariant (fun s op s' hs hst => ?_) hk
  subst hst
  cases op with
  | addObject fo => exact hs.addObject driver fo
  | deleteFirmware uid deleteRootFile => exact hs.deleteFirmware limits uid deleteRootFile

theorem Reachable.foreignKeys (h : Reachable driver limits db) : db.ForeignKeys := by
  obtain ⟨ops, h⟩ := h
  exact foreignKeys_of_run h .empty

/-- Adding an object leaves the firmware table alone or writes one row, made of its meta data. -/
theorem firmware_addObject (driver : Driver) (db : Db) (fo : FileObject) :
    (addObject driver db fo).db.firmware = db.firmware ∨
      ∃ fw date, fo.firmware = some fw ∧
        (addObject driver db fo).db.firmware = db.firmware.set fo.uid (firmwareRow fw date) := by
  have hset : ∀ row, writtenFirmware driver db fo = .ok row →
      row.elim db.firmware (db.firmware.set fo.uid) = db.firmware ∨
        ∃ fw date, fo.firmware = some fw ∧
          row.elim db.firmware (db.firmware.set fo.uid) =
            db.firmware.set fo.uid (firmwareRow fw date) := by
    intro row hw
    rcases writtenFirmware_ok hw with ⟨-, rfl⟩ | ⟨fw, date, hfw, rfl⟩
    · exact .inl rfl
    · exact .inr ⟨fw, date, hfw, rfl⟩
  cases h : (addObject driver db fo).raised with
  | none =>
    obtain ⟨row, hw, hfirm⟩ := (addObject_added h).firmware
    rw [hfirm]
    exact hset row hw
  | some e =>
    rcases addObject_failed h with heq | ⟨-, -, -, row, hw, heq⟩ <;> rw [heq]
    · exact .inl rfl
    · exact hset row hw

theorem firmware_addObject_of_file {fo : FileObject} (hfile : fo.firmware = none) :
    (addObject driver db fo).db.firmware = db.firmware := by
  rcases firmware_addObject driver db fo with heq | ⟨fw, date, hfw, -⟩
  · exact heq
  · rw [hfile] at hfw
    cases hfw

theorem tagsNodup_of_run (h : History driver limits db ops db') (ht : db.TagsNodup) :
    db'.TagsNodup := by
  refine h.invariant (fun s op s' hs hst uid entry hentry => ?_) ht
  subst hst
  cases op with
  | addObject fo =>
    simp only [storageStep] at hentry
    rcases firmware_addObject driver s fo with heq | ⟨fw, date, -, heq⟩ <;> rw [heq] at hentry
    · exact hs uid entry hentry
    · rw [Dict.get?_set] at hentry
      split at hentry
      · obtain rfl := Option.some.inj hentry
        exact fw.tags.keys_nodup
      · exact hs uid entry hentry
  | deleteFirmware root deleteRootFile =>
    simp only [storageStep] at hentry
    rcases deleteFirmware_cases limits s root deleteRootFile with
      heq | ⟨-, db1, htrim, heq | ⟨cascaded, -, heq⟩⟩ <;> rw [heq] at hentry
    · exact hs uid entry hentry
    · exact hs uid entry (htrim.firmware ▸ hentry)
    · rw [Db.get?_firmware_deleteEntries] at hentry
      split at hentry
      · cases hentry
      · exact hs uid entry (htrim.firmware ▸ hentry)

theorem Reachable.tagsNodup (h : Reachable driver limits db) : db.TagsNodup := by
  obtain ⟨ops, h⟩ := h
  refine tagsNodup_of_run h fun uid entry hentry => ?_
  cases hentry

theorem history_databaseAfter (driver : Driver) (limits : Limits) (ops : List StorageOp) :
    History driver limits Db.empty ops (databaseAfter driver limits ops) :=
  Run.det_iff.mpr rfl

theorem databaseAfter_eq (h : History driver limits Db.empty ops db) :
    databaseAfter driver limits ops = db :=
  Run.det_iff.mp h

theorem reachable_databaseAfter (driver : Driver) (limits : Limits) (ops : List StorageOp) :
    Reachable driver limits (databaseAfter driver limits ops) :=
  ⟨ops, history_databaseAfter driver limits ops⟩

theorem databaseAfter_append (driver : Driver) (limits : Limits) (ops ops' : List StorageOp) :
    databaseAfter driver limits (ops ++ ops') =
      ops'.foldl (storageStep driver limits) (databaseAfter driver limits ops) :=
  List.foldl_append

/-! ## 2. What an added object is afterwards -/

/-- Adding an object changes the flag of no other row. -/
theorem flagged_addObject_of_ne {fo : FileObject} {u : Uid} (hu : u ≠ fo.uid) :
    (addObject driver db fo).db.Flagged u ↔ db.Flagged u := by
  unfold Db.Flagged
  cases h : (addObject driver db fo).raised with
  | none =>
    obtain ⟨row, hrows, -⟩ := (addObject_added h).row
    rw [hrows, Dict.get?_set_of_ne _ hu]
  | some e =>
    rcases addObject_failed h with heq | ⟨-, -, -, row, -, heq⟩ <;> rw [heq]
    exact Iff.rfl

/-- A call that adds an object sets the flag of its row as the class of the object says. -/
theorem flagged_addObject_self {fo : FileObject} (h : (addObject driver db fo).raised = none) :
    (addObject driver db fo).db.Flagged fo.uid ↔ fo.isFirmware = true := by
  obtain ⟨row, hrows, hrow⟩ := (addObject_added h).row
  rw [Db.Flagged, hrows, Dict.get?_set_self, ← hrow.isFirmware]
  simp

/-- A failed call changes no flag. -/
theorem flagged_addObject_of_failed {fo : FileObject} {e : PyException} {u : Uid}
    (h : (addObject driver db fo).raised = some e) :
    (addObject driver db fo).db.Flagged u ↔ db.Flagged u := by
  rcases addObject_failed h with heq | ⟨-, -, -, row, -, heq⟩ <;> rw [heq]
  exact Iff.rfl

theorem mem_firmware_addObject_of_ne {fo : FileObject} {u : Uid} (hu : u ≠ fo.uid) :
    u ∈ (addObject driver db fo).db.firmware ↔ u ∈ db.firmware := by
  rcases firmware_addObject driver db fo with heq | ⟨fw, date, -, heq⟩ <;> rw [heq]
  rw [Dict.mem_set]
  exact ⟨fun h => h.resolve_left hu, .inr⟩

/-- Adding never takes a firmware row away. -/
theorem mem_firmware_addObject {fo : FileObject} {u : Uid} (h : u ∈ db.firmware) :
    u ∈ (addObject driver db fo).db.firmware := by
  rcases firmware_addObject driver db fo with heq | ⟨fw, date, -, heq⟩ <;> rw [heq]
  · exact h
  · exact Dict.mem_set.mpr (.inr h)

/-- A failed call adds no firmware row. -/
theorem mem_firmware_addObject_of_failed {fo : FileObject} {e : PyException} {u : Uid}
    (h : (addObject driver db fo).raised = some e) :
    u ∈ (addObject driver db fo).db.firmware ↔ u ∈ db.firmware := by
  refine ⟨fun hu => ?_, mem_firmware_addObject⟩
  rcases addObject_failed h with heq | ⟨hfw, -, -, row, -, heq⟩ <;> rw [heq] at hu
  · exact hu
  · exact (mem_firmware_withFirmware.mp hu).elim (fun h => h.2 ▸ hfw) id

/-- The firmware row of an object that was added is there exactly if it is a firmware, or was. -/
theorem mem_firmware_addObject_self {fo : FileObject}
    (h : (addObject driver db fo).raised = none) :
    fo.uid ∈ (addObject driver db fo).db.firmware ↔ fo.isFirmware = true ∨ fo.uid ∈ db.firmware := by
  obtain ⟨row, hw, hfirm⟩ := (addObject_added h).firmware
  have hmem : fo.uid ∈ (withFirmware db fo row).firmware ↔ _ := mem_firmware_withFirmware
  rw [hfirm]
  refine hmem.trans (or_congr_left ?_)
  rcases writtenFirmware_ok hw with ⟨hfw, rfl⟩ | ⟨fw, date, hfw, rfl⟩ <;>
    simp [FileObject.isFirmware, hfw]

end Histories

/-! ## 3. A short history -/

/-- The limits that Python and SQLAlchemy have by default. -/
abbrev pythonLimits : Limits := ⟨1000, 100⟩

/-- The image is uploaded, and the file is extracted from it. -/
def uploadWithFile : List StorageOp := [.addObject outerImage, .addObject innerFile]

/-- The database after this history. -/
abbrev uploadedDb : Db := databaseAfter acceptAll pythonLimits uploadWithFile

end FactCore
