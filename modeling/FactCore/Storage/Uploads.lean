import FactCore.Lib.OrphanCascade
import FactCore.Storage.Histories

/-!
# Completed uploads

An upload is analysed object by object: first the firmware, then every file that
was extracted from an object before it. Each object is added once before each
plugin, so the same object can be added many times; a file that occurs in several
archives is a new object each time, with another parent.

What the extraction finds in a file depends on its content only (`Contents`).
An upload is complete when every file found in an object of the upload was added
for that parent, and no extraction was stopped by the depth limit.

Results:
1. `UploadOrder.cases`, `CompleteUpload.reached`: the objects of an upload are
   the firmware and what can be reached from it.
2. `AddedAll.of_run`: the tables after a sequence of successful calls.
3. `CompleteUpload.acyclic`: an image whose extraction ends does not contain
   itself.
-/

namespace FactCore

open Relation

/-- The uids of the files that are extracted from a file, by its uid. -/
abbrev Contents := Uid → List Uid

/-- `child` is extracted from `parent`. -/
def Contents.Contains (contents : Contents) (parent child : Uid) : Prop := child ∈ contents parent

/-- `u` is reached by `n` extractions, starting with `root`. -/
inductive ExtractedAt (contents : Contents) (root : Uid) : Nat → Uid → Prop
  | root : ExtractedAt contents root 0 root
  | extract {n : Nat} {parent child : Uid} :
      ExtractedAt contents root n parent → contents.Contains parent child →
      ExtractedAt contents root (n + 1) child

theorem extractedAt_iff_steps {contents : Contents} {root u : Uid} {n : Nat} :
    ExtractedAt contents root n u ↔ Steps contents.Contains root n u := by
  constructor
  · intro h
    induction h with
    | root => exact .refl
    | extract _ hchild ih => exact .tail ih hchild
  · intro h
    induction h with
    | refl => exact .root
    | tail _ hchild ih => exact .extract ih hchild

/-- The objects that an upload of `root` adds, in the order of the calls. -/
inductive UploadOrder (contents : Contents) (root : Uid) : List FileObject → Prop
  | start {fw : FileObject} : FreshFirmware fw → fw.uid = root → UploadOrder contents root [fw]
  | again {fos : List FileObject} {fw : FileObject} : UploadOrder contents root fos →
      FreshFirmware fw → fw.uid = root → UploadOrder contents root (fos ++ [fw])
  | file {fos : List FileObject} {fo : FileObject} {parent : Uid} :
      UploadOrder contents root fos → parent ∈ fos.map FileObject.uid →
      FreshFile root parent fo → contents.Contains parent fo.uid →
      UploadOrder contents root (fos ++ [fo])

/-- Adding objects one after the other without an exception. -/
abbrev AllAdded (driver : Driver) : Db → List FileObject → Db → Prop :=
  Run fun db fo db' => addObject driver db fo = ⟨db', none⟩

/-- The calls `fos` upload `root` completely. -/
structure CompleteUpload (driver : Driver) (contents : Contents) (maxDepth : Nat) (root : Uid)
    (fos : List FileObject) (db db' : Db) : Prop where
  order : UploadOrder contents root fos
  complete : ∀ parent ∈ fos.map FileObject.uid, ∀ child, contents.Contains parent child →
    ∃ fo ∈ fos, fo.uid = child ∧ FreshFile root parent fo
  notStopped : ∀ n u, ExtractedAt contents root n u → n < maxDepth
  added : AllAdded driver db fos db'

/-! ## 1. The objects of an upload -/

section Order
variable {contents : Contents} {root : Uid} {fos : List FileObject}

/-- An object of an upload is the firmware, or a file that was extracted from a reached object. -/
theorem UploadOrder.cases (h : UploadOrder contents root fos) {fo : FileObject} (hfo : fo ∈ fos) :
    (FreshFirmware fo ∧ fo.uid = root) ∨
      ∃ parent, FreshFile root parent fo ∧ contents.Contains parent fo.uid ∧
        TransGen contents.Contains root fo.uid := by
  induction h generalizing fo with
  | start hfw huid =>
    obtain rfl := List.mem_singleton.mp hfo
    exact .inl ⟨hfw, huid⟩
  | again _ hfw huid ih =>
    rcases List.mem_append.mp hfo with hfo | hfo
    · exact ih hfo
    · obtain rfl := List.mem_singleton.mp hfo
      exact .inl ⟨hfw, huid⟩
  | @file fos fo' parent _ hparent hfile hcontent ih =>
    rcases List.mem_append.mp hfo with hfo | hfo
    · exact ih hfo
    · obtain rfl := List.mem_singleton.mp hfo
      refine .inr ⟨parent, hfile, hcontent, ?_⟩
      obtain ⟨p, hp, rfl⟩ := List.mem_map.mp hparent
      rcases ih hp with ⟨-, hroot⟩ | ⟨_, -, -, hreach⟩
      · rw [← hroot]
        exact .single hcontent
      · exact .tail hreach hcontent

/-- An upload starts with the firmware. -/
theorem UploadOrder.head (h : UploadOrder contents root fos) :
    ∃ fw rest, fos = fw :: rest ∧ FreshFirmware fw ∧ fw.uid = root := by
  induction h with
  | start hfw huid => exact ⟨_, [], rfl, hfw, huid⟩
  | again _ _ _ ih =>
    obtain ⟨fw, rest, rfl, hfw, huid⟩ := ih
    exact ⟨fw, _, rfl, hfw, huid⟩
  | file _ _ _ _ ih =>
    obtain ⟨fw, rest, rfl, hfw, huid⟩ := ih
    exact ⟨fw, _, rfl, hfw, huid⟩

end Order

/-! ## 2. The tables after a sequence of calls -/

/-- The row of `file` has virtual paths below `root`. -/
def Db.HasPath (db : Db) (root file : Uid) : Prop :=
  ∃ entry, db.fileObjects.get? file = some entry ∧ root ∈ entry.virtualFilePaths

theorem Db.hasPath_deleteEntries {db : Db} {uids : List Uid} {root u : Uid} :
    (db.deleteEntries uids).HasPath root u ↔ db.HasPath root u ∧ u ∉ uids := by
  unfold Db.HasPath
  rw [Db.get?_fileObjects_deleteEntries]
  split
  · next h => simp [h]
  · next h => simp [h]

/-- The effect of adding the objects `fos`, all of whose references are stored in time. -/
structure AddedAll (db : Db) (fos : List FileObject) (db' : Db) : Prop where
  rows : ∀ u, u ∈ db'.fileObjects ↔ u ∈ db.fileObjects ∨ ∃ fo ∈ fos, u = fo.uid
  firmware : ∀ u, u ∈ db'.firmware ↔
    u ∈ db.firmware ∨ ∃ fo ∈ fos, u = fo.uid ∧ fo.isFirmware = true
  included : ∀ p c, (p, c) ∈ db'.includedFiles ↔
    (p, c) ∈ db.includedFiles ∨ ∃ fo ∈ fos, c = fo.uid ∧ p ∈ fo.parents
  fwFiles : ∀ r f, (r, f) ∈ db'.fwFiles ↔
    (r, f) ∈ db.fwFiles ∨ ∃ fo ∈ fos, f = fo.uid ∧ r ∈ fo.parentFirmwareUids
  paths : ∀ r f, db'.HasPath r f ↔
    db.HasPath r f ∨ ∃ fo ∈ fos, f = fo.uid ∧ r ∈ fo.virtualFilePath

section Tables
variable {driver : Driver} {db db' db'' : Db} {fo : FileObject} {fos : List FileObject}

theorem AddedAll.nil (db : Db) : AddedAll db [] db := by
  constructor <;> simp

theorem AddedAll.cons (h : AddedAll db [fo] db') (h' : AddedAll db' fos db'') :
    AddedAll db (fo :: fos) db'' where
  rows u := by rw [h'.rows, h.rows]; simp [or_assoc]
  firmware u := by rw [h'.firmware, h.firmware]; simp [or_assoc]
  included p c := by rw [h'.included, h.included]; simp [or_assoc]
  fwFiles r f := by rw [h'.fwFiles, h.fwFiles]; simp [or_assoc]
  paths r f := by rw [h'.paths, h.paths]; simp [or_assoc]

/-- A plain file is added only if its references are not missing. -/
theorem not_refsMissing_of_added (h : (addObject driver db fo).raised = none)
    (hfile : fo.firmware = none) : ¬ RefsMissing db fo := by
  rcases Decidable.em (fo.uid ∈ db.fileObjects) with hrow | hrow
  · exact ((addObject_stored_raised_iff driver hrow).mp h).2
  · rcases addObject_new_cases driver hrow with ⟨-, -, _, -, hr⟩ | ⟨-, _, -, hr⟩ | ⟨hmiss, -, -⟩
    · rw [hr] at h; cases h
    · rw [hr] at h; cases h
    · exact hmiss hfile

/-- A stored firmware is added only if it has a firmware row. -/
theorem mem_firmware_of_added (h : (addObject driver db fo).raised = none)
    (hfw : fo.isFirmware = true) (hrow : fo.uid ∈ db.fileObjects) : fo.uid ∈ db.firmware :=
  ((addObject_stored_raised_iff driver hrow).mp h).1.row hfw

theorem Added.hasPath_iff (h : Added driver db fo db') (r f : Uid) :
    db'.HasPath r f ↔ db.HasPath r f ∨ (f = fo.uid ∧ r ∈ fo.virtualFilePath) := by
  obtain ⟨row, hrows, hrow⟩ := h.row
  unfold Db.HasPath
  rcases eq_or_ne f fo.uid with rfl | hf
  · have hvfp := hrow.virtualFilePaths
    cases hold : db.fileObjects.get? fo.uid with
    | none => simp [hrows, hvfp, hold]
    | some entry => simp [hrows, hvfp, hold]
  · rw [hrows, Dict.get?_set_of_ne _ hf]
    simp [hf]

/-- A file is added only if its parent and its root are stored. -/
theorem FreshFile.stored {root parent : Uid} (hfile : FreshFile root parent fo)
    (h : (addObject driver db fo).raised = none) :
    parent ∈ db.fileObjects ∧ root ∈ db.fileObjects := by
  have hmiss := not_refsMissing_of_added h hfile.firmware
  rw [RefsMissing, hfile.parents, hfile.roots] at hmiss
  simpa [and_comm] using hmiss

/-- The parents and roots of a fresh object are linked to it by a successful call. -/
theorem linked_of_fresh {root : Uid} (h : (addObject driver db fo).raised = none)
    (hfresh : FreshFirmware fo ∨ ∃ parent, FreshFile root parent fo) {u : Uid}
    (hu : u ∈ fo.parents ∨ u ∈ fo.parentFirmwareUids) : Linked db fo ∧ u ∈ db.fileObjects := by
  rcases hfresh with hfw | ⟨parent, hfile⟩
  · rw [hfw.parents, hfw.roots] at hu
    simp at hu
  · refine ⟨.inr hfile.firmware, ?_⟩
    rw [hfile.parents, hfile.roots, List.mem_singleton, List.mem_singleton] at hu
    rcases hu with rfl | rfl
    · exact (hfile.stored h).1
    · exact (hfile.stored h).2

/-- A successful call for a fresh object. -/
theorem AddedAll.of_addObject {root : Uid} (h : addObject driver db fo = ⟨db', none⟩)
    (hfresh : FreshFirmware fo ∨ ∃ parent, FreshFile root parent fo) : AddedAll db [fo] db' := by
  have hnone : (addObject driver db fo).raised = none := by rw [h]
  have hadd : Added driver db fo db' := by simpa only [h] using addObject_added hnone
  refine ⟨fun u => ?_, fun u => ?_, fun p c => ?_, fun r f => ?_, fun r f => ?_⟩
  · obtain ⟨row, hrows, -⟩ := hadd.row
    rw [hrows, Dict.mem_set]
    simp [or_comm]
  · rcases eq_or_ne u fo.uid with rfl | hu
    · have hself := mem_firmware_addObject_self hnone
      rw [h] at hself
      simpa [or_comm] using hself
    · have hother : u ∈ (addObject driver db fo).db.firmware ↔ _ := mem_firmware_addObject_of_ne hu
      rw [h] at hother
      simpa [hu] using hother
  · -- `Added` says which links are made; here all of them are
    rw [hadd.included]
    simp only [List.mem_singleton, exists_eq_left]
    refine or_congr_right ⟨fun hc => ⟨hc.2.1, hc.2.2.1⟩, fun hc => ?_⟩
    obtain ⟨hlinked, hstored⟩ := linked_of_fresh hnone hfresh (.inl hc.2)
    exact ⟨hlinked, hc.1, hc.2, hstored⟩
  · rw [hadd.fwFiles]
    simp only [List.mem_singleton, exists_eq_left]
    refine or_congr_right ⟨fun hf => ⟨hf.2.1, hf.2.2.1⟩, fun hf => ?_⟩
    obtain ⟨hlinked, hstored⟩ := linked_of_fresh hnone hfresh (.inr hf.2)
    exact ⟨hlinked, hf.1, hf.2, hstored⟩
  · rw [hadd.hasPath_iff]
    simp

theorem AddedAll.of_run {root : Uid} (h : AllAdded driver db fos db')
    (hfresh : ∀ fo ∈ fos, FreshFirmware fo ∨ ∃ parent, FreshFile root parent fo) :
    AddedAll db fos db' := by
  induction h with
  | nil => exact .nil _
  | @cons s s' t fo fos hst _ ih =>
    exact .cons (.of_addObject hst (hfresh fo List.mem_cons_self))
      (ih fun fo' hfo' => hfresh fo' (List.mem_cons_of_mem _ hfo'))

theorem foreignKeys_of_allAdded (h : AllAdded driver db fos db') (hk : db.ForeignKeys) :
    db'.ForeignKeys := by
  refine h.invariant (fun s fo s' hs hst => ?_) hk
  have := hs.addObject driver fo
  rwa [hst] at this

end Tables

/-! ## 3. Complete uploads -/

namespace CompleteUpload

variable {driver : Driver} {contents : Contents} {maxDepth : Nat} {root : Uid}
  {fos : List FileObject} {db db' : Db}

theorem addedAll (h : CompleteUpload driver contents maxDepth root fos db db') :
    AddedAll db fos db' :=
  .of_run h.added fun _ hfo => (h.order.cases hfo).imp And.left fun ⟨parent, hp⟩ => ⟨parent, hp.1⟩

/-- A new firmware row is that of the image. -/
theorem firmware_cases (h : CompleteUpload driver contents maxDepth root fos db db') {X : Uid}
    (hX : X ∈ db'.firmware) : X ∈ db.firmware ∨ X = root := by
  refine ((h.addedAll.firmware X).mp hX).imp_right ?_
  rintro ⟨fo, hfo, rfl, hfw⟩
  rcases h.order.cases hfo with ⟨-, hroot⟩ | ⟨parent, hfile, -⟩
  · exact hroot
  · simp [FileObject.isFirmware, hfile.firmware] at hfw

/-- An image that is uploaded for the first time was not stored as a file either. -/
theorem root_new (h : CompleteUpload driver contents maxDepth root fos db db')
    (hroot : root ∉ db.firmware) : root ∉ db.fileObjects := by
  obtain ⟨fw, rest, rfl, hfresh, rfl⟩ := h.order.head
  cases h.added with
  | cons hst _ => exact mt (mem_firmware_of_added (by rw [hst]) hfresh.isFirmware) hroot

theorem contains_of_mem_parents (h : CompleteUpload driver contents maxDepth root fos db db')
    {fo : FileObject} (hfo : fo ∈ fos) {p : Uid} (hp : p ∈ fo.parents) :
    contents.Contains p fo.uid := by
  rcases h.order.cases hfo with ⟨hfw, -⟩ | ⟨parent, hfile, hcontent, -⟩
  · rw [hfw.parents] at hp
    cases hp
  · rw [hfile.parents] at hp
    exact List.mem_singleton.mp hp ▸ hcontent

theorem reaches_of_mem_roots (h : CompleteUpload driver contents maxDepth root fos db db')
    {fo : FileObject} (hfo : fo ∈ fos) {r : Uid} (hr : r ∈ fo.parentFirmwareUids) :
    r = root ∧ TransGen contents.Contains root fo.uid := by
  rcases h.order.cases hfo with ⟨hfw, -⟩ | ⟨parent, hfile, -, hreach⟩
  · rw [hfw.roots] at hr
    cases hr
  · rw [hfile.roots] at hr
    exact ⟨List.mem_singleton.mp hr, hreach⟩

/-- The root of a virtual path leads to the file, or the file is the image itself. -/
theorem reaches_of_mem_paths (h : CompleteUpload driver contents maxDepth root fos db db')
    {fo : FileObject} (hfo : fo ∈ fos) {r : Uid} (hr : r ∈ fo.virtualFilePath) :
    TransGen contents.Contains r fo.uid ∨ (r = fo.uid ∧ fo.uid ∈ db'.firmware) := by
  rcases h.order.cases hfo with ⟨hfw, -⟩ | ⟨parent, hfile, -, hreach⟩
  · refine .inr ⟨(hfw.paths r).mp hr, ?_⟩
    exact (h.addedAll.firmware _).mpr (.inr ⟨fo, hfo, rfl, hfw.isFirmware⟩)
  · obtain rfl := (hfile.paths r).mp hr
    exact .inl hreach

/-- Every file that can be reached from the firmware is added below its parent. -/
theorem reached (h : CompleteUpload driver contents maxDepth root fos db db') {file : Uid}
    (hreach : TransGen contents.Contains root file) :
    ∃ fo ∈ fos, fo.uid = file ∧ ∃ parent, FreshFile root parent fo := by
  obtain ⟨fw, rest, rfl, -, hroot⟩ := h.order.head
  have hnext : ∀ u child, u ∈ (fw :: rest).map FileObject.uid → contents.Contains u child →
      ∃ fo ∈ fw :: rest, fo.uid = child ∧ ∃ parent, FreshFile root parent fo := by
    intro u child hu hchild
    obtain ⟨fo, hfo, huid, hfile⟩ := h.complete u hu child hchild
    exact ⟨fo, hfo, huid, u, hfile⟩
  induction hreach with
  | single hchild => exact hnext root _ (by simp [hroot]) hchild
  | tail _ hchild ih =>
    obtain ⟨fo, hfo, rfl, -⟩ := ih
    exact hnext fo.uid _ (List.mem_map_of_mem hfo) hchild

/-- An image whose extraction is not stopped by the depth limit does not contain itself. -/
theorem acyclic (h : CompleteUpload driver contents maxDepth root fos db db') :
    ¬ TransGen contents.Contains root root := by
  have hbound : ∀ n u, Steps contents.Contains root n u → n ≤ maxDepth := fun n u hu =>
    Nat.le_of_lt (h.notStopped n u (extractedAt_iff_steps.mpr hu))
  exact not_transGen_self hbound .refl

end CompleteUpload

end FactCore
