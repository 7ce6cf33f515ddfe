import FactCore.Storage.Histories

/-!
# Uploaded firmware that other firmware contains

The same content can be uploaded as a firmware and extracted from another one.
The orphan cascade spares rows that are flagged as firmware, but adding the
extracted file clears the flag, and from then on the uploaded firmware goes when
the last image that contains it is deleted.

Results:
1. `firmwareSurvives_iff`: a history keeps flags and firmware rows in step, and
   every uploaded firmware until its own deletion, exactly if it never adds a
   plain file object over a stored firmware.
2. `contained_firmware_deleted`: the shortest history that loses a firmware.
-/

namespace FactCore

/-- After the history `ops` has led to `db`, the flags tell which rows have a firmware row, and
every firmware that was added and not deleted since is still there. -/
structure FirmwareSurvives (driver : Driver) (limits : Limits) (ops : List StorageOp) : Prop where
  flagged_iff : ∀ u, (databaseAfter driver limits ops).Flagged u ↔
    u ∈ (databaseAfter driver limits ops).firmware
  stored : ∀ pre fo post, ops = pre ++ .addObject fo :: post → fo.isFirmware = true →
    (addObject driver (databaseAfter driver limits pre) fo).raised = none →
    (∀ op ∈ post, op.deletes fo.uid = false) →
    fo.uid ∈ (databaseAfter driver limits ops).fileObjects ∧
      fo.uid ∈ (databaseAfter driver limits ops).firmware

/-- The call does not add a plain file object over a stored firmware, or fails because the
references of the object are missing. -/
def KeepsRole (db : Db) : StorageOp → Prop
  | .addObject fo => fo.uid ∈ db.firmware → fo.isFirmware = false → RefsMissing db fo
  | .deleteFirmware _ _ => True

/-- The flags tell which rows have a firmware row. -/
def FlagsExact (db : Db) : Prop := ∀ u, db.Flagged u ↔ u ∈ db.firmware

section FirmwareRole
variable {driver : Driver} {limits : Limits} {db db' : Db} {ops : List StorageOp}

/-! ## 1. One step -/

theorem FlagsExact.mem_fileObjects (hf : FlagsExact db) {u : Uid} (hu : u ∈ db.firmware) :
    u ∈ db.fileObjects :=
  ((hf u).mpr hu).mem_fileObjects

theorem FlagsExact.deleteFirmware (hf : FlagsExact db) (uid : Uid) (deleteRootFile : Bool) :
    FlagsExact (deleteFirmware limits db uid deleteRootFile).outcome.db := by
  have htrimmed : ∀ {db1}, Trimmed uid db db1 → FlagsExact db1 := by
    intro db1 htrim u
    rw [htrim.flagged, htrim.firmware]
    exact hf u
  rcases deleteFirmware_cases limits db uid deleteRootFile with
    heq | ⟨-, db1, htrim, heq | ⟨cascaded, -, heq⟩⟩ <;> rw [heq]
  · exact hf
  · exact htrimmed htrim
  · intro u
    rw [Db.flagged_deleteEntries, Db.mem_firmware_deleteEntries]
    exact and_congr_left fun _ => htrimmed htrim u

/-- Adding an object keeps the flags exact unless it is a plain file over a firmware. -/
theorem flagsExact_addObject_iff (hf : FlagsExact db) (fo : FileObject) :
    FlagsExact (addObject driver db fo).db ↔ KeepsRole db (.addObject fo) := by
  have hothers : ∀ u, u ≠ fo.uid → ((addObject driver db fo).db.Flagged u ↔
      u ∈ (addObject driver db fo).db.firmware) := by
    intro u hu
    rw [flagged_addObject_of_ne hu, mem_firmware_addObject_of_ne hu]
    exact hf u
  have hself : FlagsExact (addObject driver db fo).db ↔
      ((addObject driver db fo).db.Flagged fo.uid ↔
        fo.uid ∈ (addObject driver db fo).db.firmware) := by
    refine ⟨fun h => h fo.uid, fun h u => ?_⟩
    rcases eq_or_ne u fo.uid with rfl | hu
    · exact h
    · exact hothers u hu
  rw [hself, KeepsRole]
  cases h : (addObject driver db fo).raised with
  | none =>
    rw [flagged_addObject_self h, mem_firmware_addObject_self h]
    constructor
    · intro hiff hfw hno
      have := hiff.mpr (.inr hfw)
      rw [hno] at this
      cases this
    · refine fun hkeep => ⟨.inl, fun hor => hor.elim id fun hfw => ?_⟩
      by_contra hno
      -- the object is stored, so a call with missing references would have failed
      have hmiss := hkeep hfw (by simpa using hno)
      exact ((addObject_stored_raised_iff driver (hf.mem_fileObjects hfw)).mp h).2 hmiss
  | some e =>
    rw [flagged_addObject_of_failed h, mem_firmware_addObject_of_failed h]
    refine iff_of_true (hf fo.uid) fun hfw hno => ?_
    by_contra hmiss
    -- a plain file whose references are stored is added over any row
    have hdate : ReadsDate driver fo := by
      intro fw hfirmware
      simp [FileObject.isFirmware, hfirmware] at hno
    have hok : (addObject driver db fo).raised = none :=
      (addObject_stored_raised_iff driver (hf.mem_fileObjects hfw)).mpr
        ⟨⟨fun _ => hfw, hdate⟩, hmiss⟩
    rw [h] at hok
    cases hok

theorem flagsExact_storageStep_iff (hf : FlagsExact db) (op : StorageOp) :
    FlagsExact (storageStep driver limits db op) ↔ KeepsRole db op := by
  cases op with
  | addObject fo => exact flagsExact_addObject_iff hf fo
  | deleteFirmware uid deleteRootFile =>
    exact iff_of_true (hf.deleteFirmware uid deleteRootFile) trivial

/-- While the flags are exact, a firmware row stays until the firmware itself is deleted. -/
theorem FlagsExact.mem_firmware_storageStep (hf : FlagsExact db) {op : StorageOp} {u : Uid}
    (hop : op.deletes u = false) (hu : u ∈ db.firmware) :
    u ∈ (storageStep driver limits db op).firmware := by
  cases op with
  | addObject fo => exact mem_firmware_addObject hu
  | deleteFirmware uid deleteRootFile =>
    rw [storageStep]
    rcases deleteFirmware_cases limits db uid deleteRootFile with
      heq | ⟨-, db1, htrim, heq | ⟨cascaded, hcas, heq⟩⟩ <;> rw [heq]
    · exact hu
    · rwa [htrim.firmware]
    · -- the cascade takes rows without the flag only
      refine Db.mem_firmware_deleteEntries.mpr ⟨htrim.firmware ▸ hu, fun hmem => ?_⟩
      rcases List.mem_cons.mp hmem with rfl | hmem
      · simp [StorageOp.deletes] at hop
      · exact hcas.unflagged u hmem ((hf u).mpr hu)

/-! ## 2. Whole histories -/

/-- A history that keeps roles keeps the flags exact and the firmware rows. -/
theorem mem_firmware_of_run {u : Uid}
    (h : Run (Restrict KeepsRole (Deterministic (storageStep driver limits))) db ops db')
    (hf : FlagsExact db) (hops : ∀ op ∈ ops, op.deletes u = false)
    (hu : u ∈ db.firmware) : u ∈ db'.firmware := by
  induction h with
  | nil => exact hu
  | @cons s s' t op ops hst _ ih =>
    obtain ⟨hkeep, rfl⟩ := hst
    exact ih ((flagsExact_storageStep_iff hf op).mpr hkeep)
      (fun op' hop' => hops op' (List.mem_cons_of_mem _ hop'))
      (hf.mem_firmware_storageStep (hops op List.mem_cons_self) hu)

theorem flagsExact_empty : FlagsExact Db.empty := by
  intro u
  refine iff_of_false ?_ (Dict.not_mem_empty u)
  rintro ⟨entry, hentry, -⟩
  cases hentry

/-- The flags stay exact over a whole history exactly if each of its calls keeps roles. -/
theorem flagsExact_prefix_iff :
    (∀ pre suf, ops = pre ++ suf → FlagsExact (databaseAfter driver limits pre)) ↔
      Run (Restrict KeepsRole (Deterministic (storageStep driver limits))) Db.empty ops
        (databaseAfter driver limits ops) :=
  Run.forall_fold_iff (fun _ => FlagsExact) (fun _ _ op hs => flagsExact_storageStep_iff hs op)
    flagsExact_empty

end FirmwareRole

/-- Every state of a history satisfies `FirmwareSurvives` exactly if no call of it adds a plain
file object over a stored firmware. -/
theorem firmwareSurvives_iff (driver : Driver) (limits : Limits) (ops : List StorageOp) :
    (∀ pre suf, ops = pre ++ suf → FirmwareSurvives driver limits pre) ↔
      Run (Restrict KeepsRole (Deterministic (storageStep driver limits))) Db.empty ops
        (databaseAfter driver limits ops) := by
  rw [← flagsExact_prefix_iff]
  refine ⟨fun h pre suf hops => (h pre suf hops).flagged_iff, fun h pre suf hops => ?_⟩
  have hexact : FlagsExact (databaseAfter driver limits pre) := h pre suf hops
  refine ⟨hexact, fun pre' fo post hpre hfw hadd hdel => ?_⟩
  -- the row is there right after the upload, and the rest of the history keeps it
  have hexactPre : ∀ p s, pre = p ++ s → FlagsExact (databaseAfter driver limits p) :=
    fun p s hps => h p (s ++ suf) (by rw [hops, hps, List.append_assoc])
  have hsplit : pre = (pre' ++ [.addObject fo]) ++ post := by rw [hpre, List.append_cons]
  obtain ⟨m, hrun, hpost⟩ := (hsplit ▸ flagsExact_prefix_iff.mp hexactPre).split
  obtain rfl := databaseAfter_eq hrun.of_restrict
  have hrow : fo.uid ∈ (databaseAfter driver limits (pre' ++ [.addObject fo])).firmware := by
    rw [databaseAfter_append]
    exact (mem_firmware_addObject_self hadd).mpr (.inl hfw)
  have hstays := mem_firmware_of_run hpost (hexactPre _ _ hsplit) hdel hrow
  rw [← hsplit] at hstays
  exact ⟨hexact.mem_fileObjects hstays, hstays⟩

/-- Two uploads, the second of which contains the first, and the deletion of the second. -/
def containedUpload : List StorageOp :=
  .addObject (newFirmware ⟨"inner", "bb", "inner.bin", 1⟩ routerMeta []) ::
    (uploadWithFile ++ [.deleteFirmware "outer" true])

/-- Deleting the firmware that contains another upload deletes that upload as well. -/
theorem contained_firmware_deleted :
    ¬ FirmwareSurvives acceptAll pythonLimits containedUpload ∧
      "inner" ∉ (databaseAfter acceptAll pythonLimits containedUpload).fileObjects := by
  have hgone : "inner" ∉
      (databaseAfter acceptAll pythonLimits containedUpload).fileObjects := by
    decide
  exact ⟨fun h => hgone (h.stored [] _ _ rfl rfl rfl (by decide)).1, hgone⟩

end FactCore
