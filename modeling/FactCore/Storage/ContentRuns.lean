import FactCore.Scheduler.StoredResults
import FactCore.Storage.RecursiveListing

/-!
# Runs with files and results

The views of the front end join two things: which files are below which, and what the
plugins found in them. This module puts the two kinds of writes into one run: completed
uploads, updates with loaded objects and deletions on the one hand, `add_analysis` on the
other.

A result leaves every table alone but its own. An operation on files leaves the results
of the files alone that stay stored; this holds of each of its calls, and so also if
other processes write in between.

Results:
1. `addAnalysis_tables`, `analyses_addObject`: what each kind of write leaves alone.
2. `ContentInv.step`, `contentInv_of_run`: the invariant of the runs.
3. `analyses_of_run`: a stored result stays as it is until the plugin stores another
   one.
-/

namespace FactCore

open Relation

/-- A write of the backend. -/
inductive ContentOp
  | files (op : FilesOp)
  /-- `add_analysis`, with any result. -/
  | result (uid : Uid) (plugin : String) (result : PyVal)

/-- One completed write. -/
def ContentStep (driver : Driver) (limits : Limits) (contents : Contents) (maxDepth : Nat) (db : Db) :
    ContentOp → Db → Prop
  | .files op, db' => FilesStep driver limits contents maxDepth db op db'
  | .result uid plugin result, db' => (addAnalysis driver db uid plugin result).db = db'

/-- The write neither updates a firmware nor deletes a file that a stored file includes. -/
def KeepsContent (db : Db) : ContentOp → Prop
  | .files op => KeepsFiles db op
  | .result _ _ _ => True

/-- The runs of the backend. -/
abbrev ContentRun (driver : Driver) (limits : Limits) (contents : Contents) (maxDepth : Nat) :
    Db → List ContentOp → Db → Prop :=
  Run (Restrict KeepsContent (ContentStep driver limits contents maxDepth))

section Writes
variable {driver : Driver} {limits : Limits} {db db' : Db} {fo : FileObject} {uid : Uid}
  {plugin : String} {result : PyVal} {k : Uid × String}

/-! ## 1. What a write leaves alone -/

/-- Two databases differ at most in the row of one result. -/
def OneResult (uid : Uid) (plugin : String) (db db' : Db) : Prop :=
  db' = db ∨ ∃ entry, db' = { db with analyses := db.analyses.set (uid, plugin) entry }

theorem oneResult_readWriteSession {body : Except PyException Db}
    (h : ∀ db', body = .ok db' → OneResult uid plugin db db') :
    OneResult uid plugin db (readWriteSession db body).db := by
  cases body with
  | ok db' => exact h db' rfl
  | error e => exact .inl rfl

theorem oneResult_insertAnalysis :
    OneResult uid plugin db (insertAnalysis driver db uid plugin result).db := by
  refine oneResult_readWriteSession fun db' h => ?_
  split at h
  · cases h
  · split at h
    · cases h
    · exact .inr ⟨_, storeAnalysis_ok h⟩

theorem oneResult_updateAnalysis :
    OneResult uid plugin db (updateAnalysis driver db uid plugin result).db := by
  refine oneResult_readWriteSession fun db' h => ?_
  split at h
  · cases h
  · split at h
    · cases h
    · cases h
    · exact .inr ⟨_, storeAnalysis_ok h⟩

/-- A result that is rejected changes nothing, and a result of a file that is not stored is
rejected. -/
theorem addAnalysis_tables (driver : Driver) (uid : Uid) (plugin : String) (result : PyVal)
    (hk : db.ForeignKeys) :
    OneResult uid plugin db (addAnalysis driver db uid plugin result).db ∧
      (uid ∉ db.fileObjects → (addAnalysis driver db uid plugin result).db = db) := by
  have hdb : (addAnalysis driver db uid plugin result).db =
      if analysisExists db uid plugin then (updateAnalysis driver db uid plugin result).db
      else (insertAnalysis driver db uid plugin result).db := by
    unfold addAnalysis
    cases analysisExists db uid plugin <;> dsimp only <;> split
    · split <;> rfl
    · rfl
    · split <;> rfl
    · rfl
  rw [hdb]
  constructor
  · split
    · exact oneResult_updateAnalysis
    · exact oneResult_insertAnalysis
  · intro hno
    have hnew : analysisExists db uid plugin = false :=
      decide_eq_false fun hmem => hno (hk.analyses uid plugin hmem)
    rw [hnew]
    simp [insertAnalysis, hno]

theorem storeAnalyses_get? {rows : List (String × AnalysisEntry)}
    (h : storeAnalyses driver uid db rows = .ok db') (hk : k.1 ≠ uid) :
    db'.analyses.get? k = db.analyses.get? k := by
  induction rows generalizing db with
  | nil =>
    obtain rfl := Except.ok.inj h
    rfl
  | cons row rows ih =>
    obtain ⟨name, entry⟩ := row
    cases hs : storeAnalysis driver db uid name entry with
    | error e => simp [storeAnalyses, hs, bind, Except.bind] at h
    | ok db1 =>
      simp only [storeAnalyses, hs, bind, Except.bind] at h
      rw [ih h, storeAnalysis_ok hs]
      exact Dict.get?_set_of_ne entry fun heq => hk (congrArg Prod.fst heq)

theorem flushFileObject_get? {rows : List (String × AnalysisEntry)}
    (h : flushFileObject driver db fo rows = .ok db') (hk : k.1 ≠ fo.uid) :
    db'.analyses.get? k = db.analyses.get? k := by
  unfold flushFileObject at h
  split at h
  · cases h
  · exact (storeAnalyses_get? h hk).trans rfl

theorem readWriteSession_get? {body : Except PyException Db}
    (h : ∀ db', body = .ok db' → db'.analyses.get? k = db.analyses.get? k) :
    (readWriteSession db body).db.analyses.get? k = db.analyses.get? k := by
  cases body with
  | ok db' => exact h db' rfl
  | error e => rfl

theorem updateParents_analyses {roots parents : List Uid}
    (h : updateParents db uid roots parents = .ok db') : db'.analyses = db.analyses := by
  unfold updateParents at h
  cases hroots : updateEntries db roots "root" with
  | error e => simp [hroots, bind, Except.bind] at h
  | ok roots' =>
    cases hparents : updateEntries db parents "parent" with
    | error e => simp [hroots, hparents, bind, Except.bind] at h
    | ok parents' =>
      simp only [hroots, hparents, bind, Except.bind, pure, Except.pure, Except.ok.injEq] at h
      rw [← h]

theorem insertObject_get? (hk : k.1 ≠ fo.uid) :
    (insertObject driver db fo).db.analyses.get? k = db.analyses.get? k := by
  unfold insertObject
  split
  · refine readWriteSession_get? fun db' h => ?_
    obtain ⟨row, -, h⟩ := except_bind_eq_ok h
    obtain ⟨rows, -, h⟩ := except_bind_eq_ok h
    exact (flushFileObject_get? h hk).trans rfl
  · refine readWriteSession_get? fun db' h => ?_
    cases hparents : updateParents db fo.uid fo.parentFirmwareUids fo.parents with
    | error e => simp [hparents, bind, Except.bind] at h
    | ok db1 =>
      cases hrows : createAnalysisEntries fo with
      | error e => simp [hparents, hrows, bind, Except.bind] at h
      | ok rows =>
        simp only [hparents, hrows, bind, Except.bind] at h
        rw [flushFileObject_get? h hk, updateParents_analyses hparents]

/-- Adding an object leaves the results of all stored files alone, its own included. -/
theorem analyses_addObject (driver : Driver) (fo : FileObject) (hk : k.1 ∈ db.fileObjects) :
    (addObject driver db fo).db.analyses.get? k = db.analyses.get? k := by
  rcases Decidable.em (fo.uid ∈ db.fileObjects) with hrow | hrow
  · obtain ⟨entry, hentry⟩ := Dict.mem_iff.mp hrow
    rcases addObject_stored_cases driver hentry with ⟨-, -, _, hr⟩ | ⟨-, _, _, -, -, hr⟩ |
      ⟨row, -, -, ⟨-, _, -, hr⟩ | ⟨-, hr⟩⟩ <;> rw [hr] <;> rfl
  · have hne : k.1 ≠ fo.uid := fun heq => hrow (heq ▸ hk)
    rw [addObject, if_neg (Db.exists?_iff.not.mpr hrow)]
    exact insertObject_get? hne

/-- The foreign keys survive a result. -/
theorem foreignKeys_addAnalysis (driver : Driver) (uid : Uid) (plugin : String) (result : PyVal)
    (hk : db.ForeignKeys) : (addAnalysis driver db uid plugin result).db.ForeignKeys := by
  obtain ⟨hone, hrejected⟩ := addAnalysis_tables driver uid plugin result hk
  rcases Decidable.em (uid ∈ db.fileObjects) with hrow | hrow
  · rcases hone with heq | ⟨entry, heq⟩ <;> rw [heq]
    · exact hk
    · refine ⟨hk.firmware, hk.included, hk.fwFiles, fun u name hmem => ?_⟩
      rcases Dict.mem_set.mp hmem with heq | hmem
      · obtain rfl : u = uid := congrArg Prod.fst heq
        exact hrow
      · exact hk.analyses u name hmem
  · rwa [hrejected hrow]

/-- Deleting a firmware leaves the results of the files alone that stay. -/
theorem analyses_deleteFirmware (limits : Limits) {root : Uid} {deleteRootFile : Bool}
    (hnew : k.1 ∈ (deleteFirmware limits db root deleteRootFile).outcome.db.fileObjects) :
    (deleteFirmware limits db root deleteRootFile).outcome.db.analyses.get? k = db.analyses.get? k := by
  rcases deleteFirmware_cases limits db root deleteRootFile with
    heq | ⟨-, db1, htrim, heq | ⟨cascaded, -, heq⟩⟩ <;> rw [heq] at hnew ⊢
  · rw [htrim.analyses]
  · obtain ⟨-, hkept⟩ := Db.mem_fileObjects_deleteEntries.mp hnew
    rw [Db.deleteEntries, Dict.get?_filter, htrim.analyses, if_pos (decide_eq_true hkept)]

end Writes

/-! ## 2. The invariant -/

/-- The tables of files are as the uploads left them, a flag is that of a firmware, and no chain of
files is longer than the depth of the extraction. -/
structure ContentInv (contents : Contents) (maxDepth : Nat) (db : Db) : Prop where
  files : FilesInv contents db
  flagged : ∀ u, db.Flagged u → u ∈ db.firmware
  bounded : ∀ u ∈ db.fileObjects, ∀ n v, Steps contents.Contains u n v → n ≤ maxDepth

namespace ContentInv

variable {contents : Contents} {driver : Driver} {limits : Limits} {maxDepth : Nat} {db db' : Db}
  {u v : Uid} {n : Nat}

theorem empty (contents : Contents) (maxDepth : Nat) : ContentInv contents maxDepth Db.empty where
  files := .empty contents
  flagged u h := by
    obtain ⟨entry, hentry, -⟩ := h
    cases hentry
  bounded u hu := absurd hu (Dict.not_mem_empty u)

theorem flagged_addObject (driver : Driver) (fo : FileObject)
    (h : ∀ u, db.Flagged u → u ∈ db.firmware) (u : Uid) :
    (addObject driver db fo).db.Flagged u → u ∈ (addObject driver db fo).db.firmware := by
  intro hflag
  rcases eq_or_ne u fo.uid with rfl | hne
  · cases hr : (addObject driver db fo).raised with
    | none =>
      exact (mem_firmware_addObject_self hr).mpr (.inl ((flagged_addObject_self hr).mp hflag))
    | some e => exact mem_firmware_addObject (h _ ((flagged_addObject_of_failed hr).mp hflag))
  · exact mem_firmware_addObject (h u ((flagged_addObject_of_ne hne).mp hflag))

theorem upload {root : Uid} {fos : List FileObject} (h : ContentInv contents maxDepth db)
    (hup : CompleteUpload driver contents maxDepth root fos db db') :
    ContentInv contents maxDepth db' where
  files := h.files.upload hup
  flagged := by
    refine hup.added.invariant (I := fun s => ∀ u, s.Flagged u → u ∈ s.firmware)
      (fun s fo s' hs hst => ?_) h.flagged
    have := flagged_addObject driver fo hs
    rwa [hst] at this
  bounded u hu n v hsteps := by
    rcases (hup.addedAll.rows u).mp hu with hu | ⟨fo, hfo, rfl⟩
    · exact h.bounded u hu n v hsteps
    · -- a chain from a file of the upload goes on from a chain that starts at the image
      have hreach : ReflTransGen contents.Contains root fo.uid := by
        rcases hup.order.cases hfo with ⟨-, hroot⟩ | ⟨_, -, -, hreach⟩
        · exact hroot ▸ .refl
        · exact hreach.to_reflTransGen
      obtain ⟨m, hm⟩ := reflTransGen_iff_steps.mp hreach
      have hlt := hup.notStopped (m + n) v (extractedAt_iff_steps.mpr (hm.trans hsteps))
      omega

theorem step {op : ContentOp} (h : ContentInv contents maxDepth db) (hkeep : KeepsContent db op)
    (hst : ContentStep driver limits contents maxDepth db op db') :
    ContentInv contents maxDepth db' := by
  cases op with
  | result uid plugin result =>
    have hk := foreignKeys_addAnalysis driver uid plugin result h.files.foreignKeys
    obtain rfl : _ = db' := hst
    rcases (addAnalysis_tables driver uid plugin result h.files.foreignKeys).1 with heq | ⟨entry, heq⟩
    · rwa [heq]
    · rw [heq] at hk ⊢
      exact ⟨⟨hk, h.files.included, h.files.fwFiles, h.files.paths, h.files.acyclic⟩, h.flagged,
        h.bounded⟩
  | files op =>
    have hkeep : KeepsFiles db op := hkeep
    have hst : FilesStep driver limits contents maxDepth db op db' := hst
    cases op with
    | upload root fos => exact h.upload hst
    | update uid =>
      refine ⟨h.files.step hkeep hst, ?_, ?_⟩ <;> obtain ⟨fo, hload, rfl⟩ := hst
      · exact flagged_addObject driver fo h.flagged
      · intro u hu
        refine h.bounded u ?_
        rcases mem_of_mem_fileObjects_addObject hu with rfl | hu
        · rw [getObject_uid hload]
          obtain ⟨entry, hentry, -⟩ := Option.map_eq_some_iff.mp hload
          exact Dict.mem_of_get? hentry
        · exact hu
    | delete uid deleteRootFile =>
      refine ⟨h.files.step hkeep hst, ?_, ?_⟩ <;> obtain rfl : _ = db' := hst
      · intro u hflag
        rcases deleteFirmware_cases limits db uid deleteRootFile with
          heq | ⟨-, db1, htrim, heq | ⟨cascaded, -, heq⟩⟩ <;> rw [heq] at hflag ⊢
        · exact h.flagged u hflag
        · rw [htrim.firmware]
          exact h.flagged u (htrim.flagged.mp hflag)
        · obtain ⟨hflag, hkept⟩ := Db.flagged_deleteEntries.mp hflag
          refine Db.mem_firmware_deleteEntries.mpr ⟨?_, hkept⟩
          rw [htrim.firmware]
          exact h.flagged u (htrim.flagged.mp hflag)
      · exact fun u hu => h.bounded u (mem_of_mem_fileObjects_deleteFirmware hu)

/-- The stored chains are bounded as well. -/
theorem steps_le (h : ContentInv contents maxDepth db) (hu : u ∈ db.fileObjects)
    (hsteps : Steps db.Includes u n v) : n ≤ maxDepth := by
  refine h.bounded u hu n v ?_
  clear hu
  induction hsteps with
  | refl => exact .refl
  | tail _ hc ih =>
    exact .tail ih ((h.files.included _ (h.files.foreignKeys.included _ _ hc).1 _).mp hc)

end ContentInv

section Runs
variable {driver : Driver} {limits : Limits} {contents : Contents} {maxDepth : Nat} {db db' : Db}
  {ops : List ContentOp}

theorem contentInv_of_run (h : ContentRun driver limits contents maxDepth Db.empty ops db) :
    ContentInv contents maxDepth db :=
  h.invariant (fun _ _ _ hs hst => hs.step hst.1 hst.2) (.empty contents maxDepth)

/-! ## 3. Stored results -/

/-- A call that writes to the database. The calls of an upload are calls of `add_object`, with
calls of other processes between them. -/
inductive WriteOp
  | storage (op : StorageOp)
  | result (uid : Uid) (plugin : String) (result : PyVal)

/-- The database after a call. -/
def writeStep (driver : Driver) (limits : Limits) (db : Db) : WriteOp → Db
  | .storage op => storageStep driver limits db op
  | .result uid plugin result => (addAnalysis driver db uid plugin result).db

/-- The calls of all processes in any order, whatever they store. -/
abbrev WriteRun (driver : Driver) (limits : Limits) : Db → List WriteOp → Db → Prop :=
  Run (Deterministic (writeStep driver limits))

theorem foreignKeys_of_writes {ops : List WriteOp} (h : WriteRun driver limits db ops db')
    (hk : db.ForeignKeys) : db'.ForeignKeys := by
  refine h.invariant (fun db op db' hk hst => ?_) hk
  obtain rfl := hst
  cases op with
  | storage op =>
    have hone : History driver limits db [op] (storageStep driver limits db op) := .cons rfl (.nil _)
    exact foreignKeys_of_run hone hk
  | result uid plugin result => exact foreignKeys_addAnalysis driver uid plugin result hk

/-- The file is stored, and the call does not store a result of this plugin for it. -/
def Untouched (uid : Uid) (plugin : String) (db : Db) (op : WriteOp) : Prop :=
  uid ∈ db.fileObjects ∧ ∀ result, op ≠ .result uid plugin result

/-- The result of a file stays as it is while the file is stored and its plugin stores no other. -/
theorem analyses_of_run {uid : Uid} {plugin : String} {ops : List WriteOp}
    (h : Run (Restrict (Untouched uid plugin) (Deterministic (writeStep driver limits))) db ops db')
    (hend : uid ∈ db'.fileObjects) (hk : db.ForeignKeys) :
    db'.analyses.get? (uid, plugin) = db.analyses.get? (uid, plugin) := by
  induction h with
  | nil => rfl
  | @cons s s' t op ops hst htl ih =>
    have hk' := foreignKeys_of_writes (.cons hst.2 (.nil s')) hk
    obtain ⟨⟨hrow, hop⟩, rfl⟩ := hst
    have hrow' : uid ∈ (writeStep driver limits s op).fileObjects := by
      cases htl with
      | nil => exact hend
      | cons hst' _ => exact hst'.1.1
    rw [ih hend hk']
    cases op with
    | storage op =>
      cases op with
      | addObject fo => exact analyses_addObject driver fo hrow
      | deleteFirmware root deleteRootFile => exact analyses_deleteFirmware limits hrow'
    | result uid' plugin' result =>
      show (addAnalysis driver s uid' plugin' result).db.analyses.get? _ = _
      rcases (addAnalysis_tables driver uid' plugin' result hk).1 with heq | ⟨entry, heq⟩ <;> rw [heq]
      refine Dict.get?_set_of_ne entry fun hsame => hop result ?_
      obtain ⟨rfl, rfl⟩ := Prod.mk.inj hsame
      rfl

end Runs

end FactCore
