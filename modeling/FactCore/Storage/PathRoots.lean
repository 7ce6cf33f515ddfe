import FactCore.Storage.ContentRuns
import FactCore.Storage.DeleteCascade
import FactCore.Storage.FirmwareRole

/-!
# The roots of virtual paths

A row of `file_object` names the firmware that a file is in twice: in the table `fw_files`,
and as the keys of the column `virtual_file_paths`. The two are written and deleted by
different code. This module relates both to the tree of included files, over runs of the
backend in which no firmware is uploaded that contains a stored one; the row of the
contained one would lose its flag.

The rows and files that a deletion takes away are found twice as well: by a walk down the
tree that looks at the roots of the paths, and by a cascade that looks at the parents.

Results:
1. `RootsInv.step`: what each write preserves.
2. `treesOf_run`: the tables are a function of the images that were uploaded and not deleted.
3. `deleteFirmware_exact`: deleting a firmware takes away what is in no other firmware.
-/

namespace FactCore

open Relation

/-! ## 1. Runs -/

/-- The write neither updates a firmware nor uploads an image that contains a stored firmware. -/
def KeepsRoots (contents : Contents) (db : Db) : ContentOp → Prop
  | .files (.upload root _) => ∀ u, TransGen contents.Contains root u → u ∉ db.firmware
  | .files (.update uid) => uid ∉ db.firmware
  | .files (.delete _ _) => True
  | .result _ _ _ => True

/-- The runs in which firmware is not nested. -/
abbrev RootsRun (driver : Driver) (limits : Limits) (contents : Contents) (maxDepth : Nat) :
    Db → List ContentOp → Db → Prop :=
  Run (Restrict (KeepsRoots contents) (ContentStep driver limits contents maxDepth))

/-- What a write does to the set of stored images. -/
def imagesStep (images : Set Uid) : ContentOp → Set Uid
  | .files (.upload root _) => insert root images
  | .files (.update _) => images
  | .files (.delete uid _) => images \ {uid}
  | .result _ _ _ => images

/-- The limits leave room for the extraction depth. -/
structure SufficientLimits (limits : Limits) (maxDepth : Nat) : Prop where
  recursion : maxDepth ≤ limits.recursion
  flushes : maxDepth + 2 ≤ limits.flushes

/-- The file is the firmware `root`, or in it. -/
def Db.InFirmware (db : Db) (root u : Uid) : Prop :=
  root ∈ db.firmware ∧ ReflTransGen db.Includes root u

/-- Firmware is flagged and not included in anything, every file is in a firmware, and the roots
of its paths are the firmware it is in. -/
structure RootsInv (contents : Contents) (maxDepth : Nat) (db : Db) : Prop where
  content : ContentInv contents maxDepth db
  flags : FlagsExact db
  tops : ∀ X ∈ db.firmware, ∀ p, ¬ db.Includes p X
  rooted : ∀ u ∈ db.fileObjects, ∃ root, db.InFirmware root u
  paths : ∀ root u, db.HasPath root u ↔ db.InFirmware root u
  fwFiles : ∀ root u, (root, u) ∈ db.fwFiles → root ∈ db.firmware

namespace RootsInv

variable {contents : Contents} {driver : Driver} {limits : Limits} {maxDepth : Nat} {db db' : Db}
  {root u X : Uid}

theorem empty (contents : Contents) (maxDepth : Nat) : RootsInv contents maxDepth Db.empty where
  content := .empty contents maxDepth
  flags := flagsExact_empty
  tops X hX := absurd hX (Dict.not_mem_empty X)
  rooted u hu := absurd hu (Dict.not_mem_empty u)
  paths root u := by
    constructor
    · rintro ⟨entry, hentry, -⟩
      cases hentry
    · exact fun h => absurd h.1 (Dict.not_mem_empty root)
  fwFiles root u h := absurd h List.not_mem_nil

theorem foreignKeys (h : RootsInv contents maxDepth db) : db.ForeignKeys :=
  h.content.files.foreignKeys

theorem mem_fileObjects (h : RootsInv contents maxDepth db) (hu : db.InFirmware root u) :
    u ∈ db.fileObjects := by
  rcases reflTransGen_iff_eq_or_transGen.mp hu.2 with rfl | hbelow
  · exact h.foreignKeys.firmware u hu.1
  · obtain ⟨p, -, hp⟩ := TransGen.tail'_iff.mp hbelow
    exact (h.foreignKeys.included p u hp).2

theorem noOrphans (h : RootsInv contents maxDepth db) : db.NoOrphans := by
  intro u hu hflag
  obtain ⟨root, hroot, hreach⟩ := h.rooted u hu
  rcases reflTransGen_iff_eq_or_transGen.mp hreach with rfl | hbelow
  · exact absurd ((h.flags u).mpr hroot) hflag
  · obtain ⟨p, -, hp⟩ := TransGen.tail'_iff.mp hbelow
    exact ⟨p, hp⟩

/-! ## 2. Uploads -/

section Upload
variable {fos : List FileObject}

theorem flagsExact_allAdded {known : Uid → Prop} (h : AllAdded driver db fos db')
    (hf : FlagsExact db) (hknown : ∀ u ∈ db.firmware, known u)
    (hfw : ∀ fo ∈ fos, fo.isFirmware = true → known fo.uid)
    (hfile : ∀ fo ∈ fos, fo.isFirmware = false → ¬ known fo.uid) : FlagsExact db' := by
  induction h with
  | nil => exact hf
  | @cons s s' t fo fos hst _ ih =>
    obtain ⟨hfwHead, hfwTail⟩ := List.forall_mem_cons.mp hfw
    obtain ⟨hfileHead, hfileTail⟩ := List.forall_mem_cons.mp hfile
    obtain rfl : (addObject driver s fo).db = s' := by rw [hst]
    refine ih ((flagsExact_addObject_iff hf fo).mpr fun hmem hno => ?_) (fun u hu => ?_) hfwTail
      hfileTail
    · exact absurd (hknown _ hmem) (hfileHead hno)
    · rcases firmware_addObject driver s fo with heq | ⟨fw, date, hfo, heq⟩ <;> rw [heq] at hu
      · exact hknown u hu
      · rcases Dict.mem_set.mp hu with rfl | hu
        · exact hfwHead (by rw [FileObject.isFirmware, hfo]; rfl)
        · exact hknown u hu

/-- An upload adds nothing below a file that was there. -/
theorem upload_inFirmware (h : RootsInv contents maxDepth db)
    (hup : CompleteUpload driver contents maxDepth root fos db db') (hX : X ∈ db.firmware) :
    db'.InFirmware X u ↔ db.InFirmware X u := by
  have hold : X ∈ db.fileObjects := h.foreignKeys.firmware X hX
  have hnew : X ∈ db'.fileObjects := (hup.addedAll.rows X).mpr (.inl hold)
  have hfirmware : X ∈ db'.firmware := (hup.addedAll.firmware X).mpr (.inl hX)
  rw [Db.InFirmware, Db.InFirmware, reflTransGen_iff_eq_or_transGen,
    reflTransGen_iff_eq_or_transGen, (h.content.files.upload hup).transGen_iff hnew,
    h.content.files.transGen_iff hold]
  exact and_congr_left' (iff_of_true hfirmware hX)

/-- What is in the uploaded image. -/
theorem upload_inFirmware_root (h : RootsInv contents maxDepth db)
    (hup : CompleteUpload driver contents maxDepth root fos db db') :
    db'.InFirmware root u ↔ u = root ∨ TransGen contents.Contains root u := by
  obtain ⟨fw, rest, rfl, hfresh, rfl⟩ := hup.order.head
  have hfirmware : fw.uid ∈ db'.firmware :=
    (hup.addedAll.firmware _).mpr (.inr ⟨fw, List.mem_cons_self, rfl, hfresh.isFirmware⟩)
  have hrow := (h.content.upload hup).files.foreignKeys.firmware _ hfirmware
  rw [Db.InFirmware, and_iff_right hfirmware, reflTransGen_iff_eq_or_transGen,
    (h.content.files.upload hup).transGen_iff hrow]

theorem upload_tops (h : RootsInv contents maxDepth db)
    (hkeep : ∀ u, TransGen contents.Contains root u → u ∉ db.firmware)
    (hup : CompleteUpload driver contents maxDepth root fos db db') :
    ∀ X ∈ db'.firmware, ∀ p, ¬ db'.Includes p X := by
  intro X hX p hp
  -- the uploaded image is in none of the objects that were there
  have hrootTop : ¬ db.Includes p root := by
    intro hc
    rcases Classical.em (root ∈ db.firmware) with hroot | hroot
    · exact h.tops root hroot p hc
    · exact hup.root_new hroot (h.foreignKeys.included p root hc).2
  rcases (hup.addedAll.included p X).mp hp with hp | ⟨fo, hfo, rfl, hpar⟩
  · rcases hup.firmware_cases hX with hold | rfl
    · exact h.tops X hold p hp
    · exact hrootTop hp
  · rcases hup.order.cases hfo with ⟨hfw, -⟩ | ⟨parent, -, -, hreach⟩
    · rw [hfw.parents] at hpar
      cases hpar
    · rcases hup.firmware_cases hX with hold | heq
      · exact hkeep _ hreach hold
      · exact hup.acyclic (heq ▸ hreach)

theorem upload (h : RootsInv contents maxDepth db)
    (hkeep : ∀ u, TransGen contents.Contains root u → u ∉ db.firmware)
    (hup : CompleteUpload driver contents maxDepth root fos db db') :
    RootsInv contents maxDepth db' where
  content := h.content.upload hup
  flags := by
    refine flagsExact_allAdded hup.added h.flags (fun u hu => Or.inl (b := u = root) hu)
      (fun fo hfo hfw => ?_) fun fo hfo hno => ?_
    · rcases hup.order.cases hfo with ⟨-, hroot⟩ | ⟨parent, hfile, -⟩
      · exact .inr hroot
      · rw [FileObject.isFirmware, hfile.firmware] at hfw
        cases hfw
    · rcases hup.order.cases hfo with ⟨hfw, -⟩ | ⟨parent, -, -, hreach⟩
      · rw [hfw.isFirmware] at hno
        cases hno
      · rintro (hold | heq)
        · exact hkeep _ hreach hold
        · exact hup.acyclic (heq ▸ hreach)
  tops := h.upload_tops hkeep hup
  rooted u hu := by
    rcases (hup.addedAll.rows u).mp hu with hold | ⟨fo, hfo, rfl⟩
    · obtain ⟨X, hX⟩ := h.rooted u hold
      exact ⟨X, (h.upload_inFirmware hup hX.1).mpr hX⟩
    · refine ⟨root, (h.upload_inFirmware_root hup).mpr ?_⟩
      rcases hup.order.cases hfo with ⟨-, hroot⟩ | ⟨parent, -, -, hreach⟩
      · exact .inl hroot
      · exact .inr hreach
  paths X u := by
    have hnew : (∃ fo ∈ fos, u = fo.uid ∧ X ∈ fo.virtualFilePath) ↔
        X = root ∧ (u = root ∨ TransGen contents.Contains root u) := by
      constructor
      · rintro ⟨fo, hfo, rfl, hX⟩
        rcases hup.order.cases hfo with ⟨hfw, hroot⟩ | ⟨parent, hfile, -, hreach⟩
        · exact ⟨((hfw.paths X).mp hX).trans hroot, .inl hroot⟩
        · exact ⟨(hfile.paths X).mp hX, .inr hreach⟩
      · rintro ⟨rfl, rfl | hreach⟩
        · obtain ⟨fw, rest, rfl, hfresh, rfl⟩ := hup.order.head
          exact ⟨fw, List.mem_cons_self, rfl, (hfresh.paths _).mpr rfl⟩
        · obtain ⟨fo, hfo, rfl, parent, hfile⟩ := hup.reached hreach
          exact ⟨fo, hfo, rfl, (hfile.paths _).mpr rfl⟩
    rw [hup.addedAll.paths, hnew, h.paths]
    constructor
    · rintro (hold | ⟨rfl, hu⟩)
      · exact (h.upload_inFirmware hup hold.1).mpr hold
      · exact (h.upload_inFirmware_root hup).mpr hu
    · intro hin
      rcases hup.firmware_cases hin.1 with hold | rfl
      · exact .inl ((h.upload_inFirmware hup hold).mp hin)
      · exact .inr ⟨rfl, (h.upload_inFirmware_root hup).mp hin⟩
  fwFiles X u hX := by
    rcases (hup.addedAll.fwFiles X u).mp hX with hold | ⟨fo, hfo, rfl, hr⟩
    · exact (hup.addedAll.firmware X).mpr (.inl (h.fwFiles X u hold))
    · obtain ⟨rfl, -⟩ := hup.reaches_of_mem_roots hfo hr
      obtain ⟨fw, rest, rfl, hfresh, rfl⟩ := hup.order.head
      exact (hup.addedAll.firmware _).mpr (.inr ⟨fw, List.mem_cons_self, rfl, hfresh.isFirmware⟩)

end Upload

/-! ## 3. Updates and results -/

theorem inFirmware_congr (hfirmware : ∀ X, X ∈ db'.firmware ↔ X ∈ db.firmware)
    (hincludes : ∀ p c, db'.Includes p c ↔ db.Includes p c) :
    db'.InFirmware root u ↔ db.InFirmware root u := by
  have heq : db'.Includes = db.Includes := funext fun p => funext fun c => propext (hincludes p c)
  rw [Db.InFirmware, Db.InFirmware, hfirmware, heq]

/-- Adding back a loaded file changes no relation. -/
theorem update {uid : Uid} {fo : FileObject} (h : RootsInv contents maxDepth db)
    (hload : getObject db uid = some fo) (hfile : uid ∉ db.firmware)
    (hcontent : ContentInv contents maxDepth (addObject driver db fo).db) :
    RootsInv contents maxDepth (addObject driver db fo).db := by
  have huid := getObject_uid hload
  cases hr : (addObject driver db fo).raised with
  | some e =>
    rcases addObject_failed hr with heq | ⟨hfw, -⟩
    · rwa [heq]
    · exact absurd (huid ▸ hfw) hfile
  | none =>
    have hadd := addObject_added hr
    obtain ⟨hparents, hroots, hpaths⟩ := FilesInv.getObject_refs hload
    have hno : fo.firmware = none := by
      have := (getObject_isFirmware hload).not.mpr hfile
      rw [FileObject.isFirmware] at this
      exact Option.not_isSome_iff_eq_none.mp this
    have hfirmware : ∀ X, X ∈ (addObject driver db fo).db.firmware ↔ X ∈ db.firmware := by
      intro X
      rw [firmware_addObject_of_file hno]
    have hincludes : ∀ p c, (addObject driver db fo).db.Includes p c ↔ db.Includes p c := by
      intro p c
      rw [Db.Includes, hadd.included]
      refine or_iff_left_of_imp ?_
      rintro ⟨-, rfl, hpar, -⟩
      exact huid ▸ (hparents p).mp hpar
    refine ⟨hcontent, ?_, fun X hX p => ?_, fun u hu => ?_, fun X u => ?_, fun X u hX => ?_⟩
    · exact (flagsExact_addObject_iff h.flags fo).mpr fun hfw => absurd (huid ▸ hfw) hfile
    · rw [hincludes]
      exact h.tops X ((hfirmware X).mp hX) p
    · have hold : u ∈ db.fileObjects := by
        rcases mem_of_mem_fileObjects_addObject hu with rfl | hu
        · rw [huid]
          obtain ⟨entry, hentry, -⟩ := Option.map_eq_some_iff.mp hload
          exact Dict.mem_of_get? hentry
        · exact hu
      obtain ⟨X, hX⟩ := h.rooted u hold
      exact ⟨X, (inFirmware_congr hfirmware hincludes).mpr hX⟩
    · rw [inFirmware_congr hfirmware hincludes, ← h.paths, hadd.hasPath_iff]
      refine or_iff_left_of_imp ?_
      rintro ⟨rfl, hr⟩
      exact huid ▸ hpaths X hr
    · rw [hfirmware]
      rcases hadd.fwFiles X u |>.mp hX with hold | ⟨-, -, hr, -⟩
      · exact h.fwFiles X u hold
      · exact ((h.paths X uid).mp (hroots X hr)).1

theorem result {uid : Uid} {plugin : String} {result : PyVal} (h : RootsInv contents maxDepth db)
    (hcontent : ContentInv contents maxDepth (addAnalysis driver db uid plugin result).db) :
    RootsInv contents maxDepth (addAnalysis driver db uid plugin result).db := by
  rcases (addAnalysis_tables driver uid plugin result h.foreignKeys).1 with heq | ⟨entry, heq⟩
  · rwa [heq]
  · rw [heq] at hcontent ⊢
    exact ⟨hcontent, h.flags, h.tops, h.rooted, h.paths, h.fwFiles⟩

/-! ## 4. Deletions -/

section Delete
variable {deleteRootFile : Bool} {v : Uid}

theorem shared_iff (h : RootsInv contents maxDepth db) :
    db.Shared X v ↔ ∃ root, root ≠ X ∧ db.InFirmware root v :=
  exists_congr fun root => and_congr_right fun _ => h.paths root v

theorem steps_le (h : RootsInv contents maxDepth db) (hX : X ∈ db.firmware) {n : Nat}
    (hsteps : Steps db.Includes X n v) : n ≤ maxDepth :=
  h.content.steps_le (h.foreignKeys.firmware X hX) hsteps

theorem not_below_firmware (h : RootsInv contents maxDepth db) (hX : X ∈ db.firmware) :
    ¬ TransGen db.Includes root X := by
  intro hbelow
  obtain ⟨q, -, hq⟩ := TransGen.tail'_iff.mp hbelow
  exact h.tops X hX q hq

theorem not_shared_self (h : RootsInv contents maxDepth db) (hX : X ∈ db.firmware) :
    ¬ db.Shared X X := by
  intro hshared
  obtain ⟨root, hne, -, hreach⟩ := h.shared_iff.mp hshared
  rcases reflTransGen_iff_eq_or_transGen.mp hreach with rfl | hbelow
  · exact hne rfl
  · exact h.not_below_firmware hX hbelow

/-- What another firmware contains stays: it is that firmware, or so is one of its parents. -/
theorem sharedStays (h : RootsInv contents maxDepth db) (hX : X ∈ db.firmware) :
    SharedStays db.Includes db.Flagged (db.Shared X) X := by
  intro u _ hshared
  obtain ⟨root, hne, hroot, hreach⟩ := h.shared_iff.mp hshared
  rcases reflTransGen_iff_eq_or_transGen.mp hreach with rfl | hbelow
  · exact .inl ((h.flags u).mpr hroot)
  · obtain ⟨p, hp, hpu⟩ := TransGen.tail'_iff.mp hbelow
    have hpshared := h.shared_iff.mpr ⟨root, hne, hroot, hp⟩
    refine .inr ⟨p, ?_, hpu, hpshared⟩
    rintro rfl
    exact h.not_shared_self hX hpshared

theorem sharedDown (h : RootsInv contents maxDepth db) :
    SharedDown db.Includes (db.Shared X) X := by
  intro p u _ hpu hshared
  obtain ⟨root, hne, hroot, hreach⟩ := h.shared_iff.mp hshared
  exact h.shared_iff.mpr ⟨root, hne, hroot, .tail hreach hpu⟩

theorem shared_of_flagged (h : RootsInv contents maxDepth db) (hne : u ≠ X) (hflag : db.Flagged u) :
    db.Shared X u :=
  h.shared_iff.mpr ⟨u, hne, (h.flags u).mp hflag, .refl⟩

theorem shared_of_outside (h : RootsInv contents maxDepth db) {p : Uid} (hp : db.Includes p u)
    (hout : ¬ ReflTransGen db.Includes X p) : db.Shared X u := by
  obtain ⟨root, hroot, hreach⟩ := h.rooted p (h.foreignKeys.included p u hp).1
  exact h.shared_iff.mpr ⟨root, fun heq => hout (heq ▸ hreach), hroot, .tail hreach hp⟩

/-- The cascade takes away what is in no other firmware. -/
theorem gone_iff (h : RootsInv contents maxDepth db) (hX : X ∈ db.firmware) {n : Nat}
    (hn : maxDepth ≤ n) :
    db.GoneAfter X n v ↔ ReflTransGen db.Includes X v ∧ ¬ db.Shared X v := by
  constructor
  · intro hgone
    refine ⟨hgone.below, ?_⟩
    rcases eq_or_ne v X with rfl | hne
    · exact h.not_shared_self hX
    · exact hgone.not_shared (h.sharedStays hX) hne
  · rintro ⟨hreach, hshared⟩
    rcases reflTransGen_iff_eq_or_transGen.mp hreach with rfl | hbelow
    · exact .self n
    · have hne : v ≠ X := by
        rintro rfl
        exact h.not_below_firmware hX hbelow
      exact gone_of_steps_le h.sharedDown (fun u hu => h.shared_of_flagged hu)
        (fun p u hp => h.shared_of_outside hp) hbelow hshared hne
        fun k hk => (h.steps_le hX hk).trans hn

theorem cascadeEnds (h : RootsInv contents maxDepth db) (hX : X ∈ db.firmware) :
    db.CascadeEnds X maxDepth := fun _ hgone =>
  (h.gone_iff hX (Nat.le_refl maxDepth)).mpr ((h.gone_iff hX (Nat.le_succ maxDepth)).mp hgone)

/-- What a deletion consists of: the walk, and the rows that the cascade takes away. -/
theorem deleteFirmware_eq (h : RootsInv contents maxDepth db)
    (hlimits : SufficientLimits limits maxDepth) (hX : X ∈ db.firmware) (deleteRootFile : Bool) :
    ∃ r gone, Visited X db r (TransGen db.Includes X) ∧
      (∀ v, v ∈ gone ↔ ReflTransGen db.Includes X v ∧ ¬ db.Shared X v) ∧
      deleteFirmware limits db X deleteRootFile = ⟨⟨r.db.deleteEntries gone, none⟩, r.removedFp,
        some (if deleteRootFile then r.uidsToDelete ∪ [X] else r.uidsToDelete)⟩ := by
  have hwalk : (removeChildren limits db X).isSome = true :=
    (removeChildren_isSome_iff h.foreignKeys).mpr fun n u hsteps =>
      (h.steps_le hX hsteps).trans hlimits.recursion
  obtain ⟨r, hr⟩ := Option.isSome_iff_exists.mp hwalk
  have hvisited := removeChildren_visited h.foreignKeys hr
  have htrim := hvisited.trimmed
  have hends := htrim.cascadeEnds.mpr (h.cascadeEnds hX)
  have hk := htrim.foreignKeys h.foreignKeys
  have hno := htrim.noOrphans h.noOrphans
  obtain ⟨db', hc⟩ := Option.isSome_iff_exists.mp
    (commitDelete_isSome_of_ends hk hno hends hlimits.flushes)
  obtain ⟨j, -, hendj, gone, hgone, rfl⟩ := commitDelete_eq_some hk hno hc
  refine ⟨r, gone, hvisited, fun v => ?_, ?_⟩
  · -- the cascade has one end only
    rw [hgone, htrim.goneAfter, ← h.gone_iff hX (Nat.le_refl maxDepth)]
    exact ⟨fun hv => hv.of_stable (h.cascadeEnds hX),
      fun hv => hv.of_stable (htrim.cascadeEnds.mp hendj)⟩
  · have hflag := (h.flags X).mpr hX
    have hmem : X ∈ r.db.fileObjects := htrim.mem_fileObjects.mpr hflag.mem_fileObjects
    obtain ⟨fw, hrow, hflag⟩ := hflag
    have hobj : deleteObject limits r.db X = ⟨r.db.deleteEntries gone, none⟩ := by
      simp only [deleteObject, if_pos hmem, hc, readWriteSession_ok]
    unfold deleteFirmware
    simp only [hrow, hflag, if_true, hr, hobj]

/-- What is in a firmware that stays, stays with it. -/
theorem inFirmware_deleteEntries (h : RootsInv contents maxDepth db) (hX : X ∈ db.firmware)
    {db1 : Db} {gone : List Uid} (htrim : Trimmed X db db1)
    (hgone : ∀ v, v ∈ gone ↔ ReflTransGen db.Includes X v ∧ ¬ db.Shared X v) :
    (db1.deleteEntries gone).InFirmware root u ↔ root ≠ X ∧ db.InFirmware root u := by
  have hstays : ∀ {root u}, root ≠ X → db.InFirmware root u → u ∉ gone := by
    intro root u hne hin hmem
    exact ((hgone u).mp hmem).2 (h.shared_iff.mpr ⟨root, hne, hin⟩)
  have hincludes : ∀ p c, (db1.deleteEntries gone).Includes p c ↔
      db.Includes p c ∧ p ∉ gone ∧ c ∉ gone := by
    intro p c
    rw [Db.Includes, Db.mem_includedFiles_deleteEntries, htrim.includedFiles, Db.Includes]
  have hfirmware : root ∈ (db1.deleteEntries gone).firmware ↔ root ∈ db.firmware ∧ root ∉ gone := by
    rw [Db.mem_firmware_deleteEntries, htrim.firmware]
  rw [Db.InFirmware, hfirmware]
  constructor
  · rintro ⟨⟨hroot, hkept⟩, hreach⟩
    refine ⟨?_, hroot, ReflTransGen.mono (fun p c hc => ((hincludes p c).mp hc).1) _ _ hreach⟩
    rintro rfl
    exact hkept ((hgone root).mpr ⟨.refl, h.not_shared_self hX⟩)
  · rintro ⟨hne, hroot, hreach⟩
    refine ⟨⟨hroot, hstays hne ⟨hroot, .refl⟩⟩, ?_⟩
    clear hfirmware
    induction hreach with
    | refl => exact .refl
    | tail hp hc ih =>
      exact .tail ih ((hincludes _ _).mpr
        ⟨hc, hstays hne ⟨hroot, hp⟩, hstays hne ⟨hroot, .tail hp hc⟩⟩)

/-- A file that is not taken away is in another firmware. -/
theorem rooted_of_not_gone (h : RootsInv contents maxDepth db) {gone : List Uid}
    (hgone : ∀ v, v ∈ gone ↔ ReflTransGen db.Includes X v ∧ ¬ db.Shared X v)
    (hu : u ∈ db.fileObjects) (hkept : u ∉ gone) : ∃ root, root ≠ X ∧ db.InFirmware root u := by
  by_contra hno
  have hshared : ¬ db.Shared X u := fun hshared => hno (h.shared_iff.mp hshared)
  obtain ⟨root, hin⟩ := h.rooted u hu
  rcases eq_or_ne root X with rfl | hne
  · exact hkept ((hgone u).mpr ⟨hin.2, hshared⟩)
  · exact hno ⟨root, hne, hin⟩

/-- The walk collects what the cascade takes away below the image. -/
theorem mem_uidsToDelete (h : RootsInv contents maxDepth db) (hX : X ∈ db.firmware) {r : Removal}
    (hvisited : Visited X db r (TransGen db.Includes X)) :
    u ∈ r.uidsToDelete ↔ u ≠ X ∧ ReflTransGen db.Includes X u ∧ ¬ db.Shared X u := by
  rw [hvisited.uids]
  constructor
  · rintro ⟨hbelow, hshared⟩
    refine ⟨?_, hbelow.to_reflTransGen, hshared⟩
    rintro rfl
    exact h.not_below_firmware hX hbelow
  · rintro ⟨hne, hreach, hshared⟩
    exact ⟨(reflTransGen_iff_eq_or_transGen.mp hreach).resolve_left hne, hshared⟩

/-- A row that another firmware shares keeps all its paths but those below the image. -/
theorem get?_kept (h : RootsInv contents maxDepth db) (hX : X ∈ db.firmware) {r : Removal}
    (hvisited : Visited X db r (TransGen db.Includes X)) {entry : FileObjectEntry}
    (hentry : db.fileObjects.get? u = some entry) (hshared : db.Shared X u) :
    r.db.fileObjects.get? u = some (entry.withoutRoot X) := by
  rcases hvisited.trimmed.rows u with hsame | hsame
  · -- the walk leaves rows alone that have no path below the image
    have hno : X ∉ entry.virtualFilePaths := by
      intro hpath
      have hreach := ((h.paths X u).mp ⟨entry, hentry, hpath⟩).2
      rcases reflTransGen_iff_eq_or_transGen.mp hreach with rfl | hbelow
      · exact h.not_shared_self hX hshared
      · exact ((hvisited.paths u).mp ⟨entry, hsame ▸ hentry, hpath⟩).2 ⟨hbelow, hshared⟩
    rw [hsame, hentry, FileObjectEntry.withoutRoot, Dict.filter_eq_self]
    exact fun key hkey => decide_eq_true fun heq => hno (heq ▸ hkey)
  · rw [hsame, hentry]
    rfl

theorem deleteFirmware_of_not_mem {uid : Uid} (h : RootsInv contents maxDepth db)
    (hX : uid ∉ db.firmware) : (deleteFirmware limits db uid deleteRootFile).outcome.db = db := by
  rcases deleteFirmware_cases limits db uid deleteRootFile with heq | ⟨hflag, -⟩
  · exact heq
  · exact absurd ((h.flags uid).mp hflag) hX

theorem delete {uid : Uid} (h : RootsInv contents maxDepth db)
    (hlimits : SufficientLimits limits maxDepth)
    (hcontent : uid ∈ db.firmware →
      ContentInv contents maxDepth (deleteFirmware limits db uid deleteRootFile).outcome.db) :
    RootsInv contents maxDepth (deleteFirmware limits db uid deleteRootFile).outcome.db := by
  rcases Classical.em (uid ∈ db.firmware) with hX | hX
  · have hcontent := hcontent hX
    obtain ⟨r, gone, hvisited, hgone, heq⟩ := h.deleteFirmware_eq hlimits hX deleteRootFile
    have hflags : FlagsExact (deleteFirmware limits db uid deleteRootFile).outcome.db :=
      h.flags.deleteFirmware uid deleteRootFile
    rw [heq] at hcontent hflags ⊢
    have htrim := hvisited.trimmed
    have hin : ∀ root u, (r.db.deleteEntries gone).InFirmware root u ↔
        root ≠ uid ∧ db.InFirmware root u :=
      fun root u => h.inFirmware_deleteEntries hX htrim hgone
    refine ⟨hcontent, hflags, fun Y hY p hp => ?_, fun u hu => ?_, fun root u => ?_,
      fun root u hr => ?_⟩
    · have hp := (Db.mem_includedFiles_deleteEntries.mp hp).1
      rw [htrim.includedFiles] at hp
      rw [Db.mem_firmware_deleteEntries, htrim.firmware] at hY
      exact h.tops Y hY.1 p hp
    · rw [Db.mem_fileObjects_deleteEntries, htrim.mem_fileObjects] at hu
      obtain ⟨root, hroot⟩ := h.rooted_of_not_gone hgone hu.1 hu.2
      exact ⟨root, (hin root u).mpr hroot⟩
    · rw [hin, Db.hasPath_deleteEntries]
      rcases eq_or_ne root uid with rfl | hne
      · -- the walk takes the paths below the image from what the cascade leaves
        refine iff_of_false ?_ fun hcon => hcon.1 rfl
        rintro ⟨hpath, hkept⟩
        rw [hvisited.paths, h.paths] at hpath
        obtain ⟨⟨-, hreach⟩, hno⟩ := hpath
        rw [hgone, not_and_not_right] at hkept
        have hshared := hkept hreach
        rcases reflTransGen_iff_eq_or_transGen.mp hreach with rfl | hbelow
        · exact h.not_shared_self hX hshared
        · exact hno ⟨hbelow, hshared⟩
      · rw [htrim.hasPath_of_ne hne, h.paths]
        refine ⟨fun hpath => ⟨hne, hpath.1⟩, fun hpath => ⟨hpath.2, fun hmem => ?_⟩⟩
        exact ((hgone u).mp hmem).2 (h.shared_iff.mpr ⟨root, hne, hpath.2⟩)
    · obtain ⟨hr, hkept, -⟩ := Db.mem_fwFiles_deleteEntries.mp hr
      rw [htrim.fwFiles] at hr
      exact Db.mem_firmware_deleteEntries.mpr ⟨htrim.firmware ▸ h.fwFiles root u hr, hkept⟩
  · rwa [h.deleteFirmware_of_not_mem hX]

end Delete

/-- An update keeps the files, for a deletion the firmware has to be included in nothing. -/
theorem keepsContent {op : ContentOp} (h : RootsInv contents maxDepth db)
    (hkeep : KeepsRoots contents db op)
    (hno : ∀ uid deleteRootFile, op = .files (.delete uid deleteRootFile) → uid ∈ db.firmware) :
    KeepsContent db op := by
  cases op with
  | result uid plugin result => trivial
  | files op =>
    cases op with
    | upload root fos => trivial
    | update uid => exact hkeep
    | delete uid deleteRootFile => exact h.tops uid (hno uid deleteRootFile rfl)

theorem step {op : ContentOp} (h : RootsInv contents maxDepth db)
    (hlimits : SufficientLimits limits maxDepth) (hkeep : KeepsRoots contents db op)
    (hst : ContentStep driver limits contents maxDepth db op db') :
    RootsInv contents maxDepth db' := by
  have hcontent := fun hno => h.content.step (h.keepsContent hkeep hno) hst
  cases op with
  | result uid plugin result =>
    obtain rfl : _ = db' := hst
    exact h.result (hcontent (by rintro _ _ ⟨⟩))
  | files op =>
    cases op with
    | upload root fos => exact h.upload hkeep hst
    | update uid =>
      obtain ⟨fo, hload, rfl⟩ := hst
      exact h.update hload hkeep (hcontent (by rintro _ _ ⟨⟩))
    | delete uid deleteRootFile =>
      obtain rfl : _ = db' := hst
      refine h.delete hlimits fun hX => hcontent ?_
      rintro _ _ ⟨⟩
      exact hX

/-! ## 5. The stored images -/

theorem firmware_step {op : ContentOp} {images : Set Uid} (h : RootsInv contents maxDepth db)
    (hlimits : SufficientLimits limits maxDepth) (hkeep : KeepsRoots contents db op)
    (hst : ContentStep driver limits contents maxDepth db op db')
    (himages : ∀ X, X ∈ db.firmware ↔ X ∈ images) (X : Uid) :
    X ∈ db'.firmware ↔ X ∈ imagesStep images op := by
  cases op with
  | result uid plugin result =>
    obtain rfl : _ = db' := hst
    rcases (addAnalysis_tables driver uid plugin result h.foreignKeys).1 with heq | ⟨entry, heq⟩ <;>
      rw [heq] <;> exact himages X
  | files op =>
    cases op with
    | upload root fos =>
      have hup : CompleteUpload driver contents maxDepth root fos db db' := hst
      rw [imagesStep, Set.mem_insert_iff, ← himages]
      refine ⟨fun hX => (hup.firmware_cases hX).symm, ?_⟩
      rintro (rfl | hold)
      · exact ((h.upload_inFirmware_root hup).mpr (.inl rfl)).1
      · exact (hup.addedAll.firmware X).mpr (.inl hold)
    | update uid =>
      obtain ⟨fo, hload, rfl⟩ := hst
      have hfile : uid ∉ db.firmware := hkeep
      rw [imagesStep, ← himages]
      rcases firmware_addObject driver db fo with heq | ⟨fw, date, hfw, -⟩
      · rw [heq]
      · refine absurd ((getObject_isFirmware hload).mp ?_) hfile
        rw [FileObject.isFirmware, hfw]
        rfl
    | delete uid deleteRootFile =>
      obtain rfl : _ = db' := hst
      rw [imagesStep, Set.mem_sdiff, Set.mem_singleton_iff, ← himages]
      rcases Classical.em (uid ∈ db.firmware) with hX | hX
      · obtain ⟨r, gone, hvisited, hgone, heq⟩ := h.deleteFirmware_eq hlimits hX deleteRootFile
        have hin : (r.db.deleteEntries gone).InFirmware X X ↔ X ≠ uid ∧ db.InFirmware X X :=
          h.inFirmware_deleteEntries hX hvisited.trimmed hgone
        rw [heq]
        simpa only [Db.InFirmware, ReflTransGen.refl, and_true, true_and, and_comm, ne_eq]
          using hin
      · rw [h.deleteFirmware_of_not_mem hX]
        exact ⟨fun hmem => ⟨hmem, fun heq => hX (heq ▸ hmem)⟩, fun hmem => hmem.1⟩

end RootsInv

/-- The tables hold the trees of the images, and nothing else. -/
structure TreesOf (contents : Contents) (images : Set Uid) (db : Db) : Prop where
  firmware : ∀ X, X ∈ db.firmware ↔ X ∈ images
  flagged : ∀ X, db.Flagged X ↔ X ∈ images
  rows : ∀ u, u ∈ db.fileObjects ↔ ∃ root ∈ images, ReflTransGen contents.Contains root u
  included : ∀ p c, db.Includes p c ↔ p ∈ db.fileObjects ∧ contents.Contains p c
  fwFiles : ∀ root u, (root, u) ∈ db.fwFiles ↔ root ∈ images ∧ TransGen contents.Contains root u
  paths : ∀ root u, db.HasPath root u ↔ root ∈ images ∧ ReflTransGen contents.Contains root u

section Runs
variable {driver : Driver} {limits : Limits} {contents : Contents} {maxDepth : Nat} {db : Db}
  {ops : List ContentOp}

theorem RootsInv.inFirmware_iff (h : RootsInv contents maxDepth db) {root u : Uid} :
    db.InFirmware root u ↔ root ∈ db.firmware ∧ ReflTransGen contents.Contains root u := by
  refine and_congr_right fun hroot => ?_
  rw [reflTransGen_iff_eq_or_transGen, reflTransGen_iff_eq_or_transGen,
    h.content.files.transGen_iff (h.foreignKeys.firmware root hroot)]

theorem RootsInv.treesOf {images : Set Uid} (h : RootsInv contents maxDepth db)
    (himages : ∀ X, X ∈ db.firmware ↔ X ∈ images) : TreesOf contents images db where
  firmware := himages
  flagged X := (h.flags X).trans (himages X)
  rows u := by
    constructor
    · intro hu
      obtain ⟨root, hroot⟩ := h.rooted u hu
      have hcontents := h.inFirmware_iff.mp hroot
      exact ⟨root, (himages root).mp hcontents.1, hcontents.2⟩
    · rintro ⟨root, hroot, hreach⟩
      exact h.mem_fileObjects (h.inFirmware_iff.mpr ⟨(himages root).mpr hroot, hreach⟩)
  included p c := by
    constructor
    · intro hc
      have hp := (h.foreignKeys.included p c hc).1
      exact ⟨hp, (h.content.files.included p hp c).mp hc⟩
    · rintro ⟨hp, hc⟩
      exact (h.content.files.included p hp c).mpr hc
  fwFiles root u := by
    rw [← himages]
    constructor
    · intro hr
      have hroot := h.fwFiles root u hr
      exact ⟨hroot, (h.content.files.fwFiles root hroot u).mp hr⟩
    · rintro ⟨hroot, hreach⟩
      exact (h.content.files.fwFiles root hroot u).mpr hreach
  paths root u := by rw [h.paths, h.inFirmware_iff, himages]

theorem rootsInv_of_run (hlimits : SufficientLimits limits maxDepth)
    (h : RootsRun driver limits contents maxDepth Db.empty ops db) :
    RootsInv contents maxDepth db :=
  h.invariant (fun _ _ _ hs hst => hs.step hlimits hst.1 hst.2) (.empty contents maxDepth)

/-- The tables are a function of the images that were uploaded and not deleted since, whatever
the writes before were and in whatever order they came. -/
theorem treesOf_run (hlimits : SufficientLimits limits maxDepth)
    (h : RootsRun driver limits contents maxDepth Db.empty ops db) :
    TreesOf contents (ops.foldl imagesStep ∅) db := by
  have hrefines := h.refines
    (R := fun images db => RootsInv contents maxDepth db ∧ ∀ X, X ∈ db.firmware ↔ X ∈ images)
    (fun images s op s' hs hst => ⟨hs.1.step hlimits hst.1 hst.2,
      hs.1.firmware_step hlimits hst.1 hst.2 hs.2⟩)
    ⟨.empty contents maxDepth, fun X => iff_of_false (Dict.not_mem_empty X) (Set.notMem_empty X)⟩
  exact hrefines.1.treesOf hrefines.2

/-! ## 6. Deleting a firmware -/

/-- Deleting a firmware takes away exactly what is in no other firmware. -/
structure FirmwareDeleted (db : Db) (X : Uid) (deleteRootFile : Bool) (d : Deletion) : Prop where
  raised : d.outcome.raised = none
  sent : ∃ uids, d.sent = some uids ∧ ∀ u, u ∈ uids ↔
    u ∈ db.fileObjects ∧ u ∉ d.outcome.db.fileObjects ∧ (u = X → deleteRootFile = true)
  kept : ∀ u entry, db.fileObjects.get? u = some entry → ∀ root, root ≠ X → db.InFirmware root u →
    d.outcome.db.fileObjects.get? u = some (entry.withoutRoot X)
  gone : ∀ u, (∀ root, db.InFirmware root u → root = X) → u ∉ d.outcome.db.fileObjects
  inFirmware : ∀ root u, d.outcome.db.InFirmware root u ↔ root ≠ X ∧ db.InFirmware root u
  analyses : ∀ u ∈ d.outcome.db.fileObjects, ∀ plugin,
    d.outcome.db.analyses.get? (u, plugin) = db.analyses.get? (u, plugin)

/-- A deletion of a stored firmware goes through, after every run, and takes away its files and
paths alone. -/
theorem deleteFirmware_exact {X : Uid} (hlimits : SufficientLimits limits maxDepth)
    (h : RootsRun driver limits contents maxDepth Db.empty ops db) (hX : X ∈ db.firmware)
    (deleteRootFile : Bool) :
    FirmwareDeleted db X deleteRootFile (deleteFirmware limits db X deleteRootFile) := by
  have hinv := rootsInv_of_run hlimits h
  obtain ⟨r, gone, hvisited, hgone, heq⟩ := hinv.deleteFirmware_eq hlimits hX deleteRootFile
  have htrim := hvisited.trimmed
  have hin : ∀ root u, (r.db.deleteEntries gone).InFirmware root u ↔
      root ≠ X ∧ db.InFirmware root u :=
    fun root u => hinv.inFirmware_deleteEntries hX htrim hgone
  have hrows : ∀ u, u ∈ (r.db.deleteEntries gone).fileObjects ↔ u ∈ db.fileObjects ∧ u ∉ gone := by
    intro u
    rw [Db.mem_fileObjects_deleteEntries, htrim.mem_fileObjects]
  have hstays : ∀ u root, root ≠ X → db.InFirmware root u → u ∉ gone := by
    intro u root hne hroot hmem
    exact ((hgone u).mp hmem).2 (hinv.shared_iff.mpr ⟨root, hne, hroot⟩)
  rw [heq]
  refine ⟨rfl, ⟨_, rfl, fun u => ?_⟩, fun u entry hentry root hne hroot => ?_, fun u hu hmem => ?_,
    hin, fun u hu plugin => ?_⟩
  · have huids : u ∈ r.uidsToDelete ↔ u ≠ X ∧ u ∈ gone := by
      rw [hinv.mem_uidsToDelete hX hvisited, hgone]
    have hself : X ∈ gone := (hgone X).mpr ⟨.refl, hinv.not_shared_self hX⟩
    have hstored : ∀ v ∈ gone, v ∈ db.fileObjects := fun v hv =>
      hinv.mem_fileObjects ⟨hX, ((hgone v).mp hv).1⟩
    have hremoved : u ∈ db.fileObjects ∧ u ∉ (r.db.deleteEntries gone).fileObjects ↔ u ∈ gone := by
      rw [hrows, not_and_not_right]
      exact ⟨fun hu => hu.2 hu.1, fun hu => ⟨hstored u hu, fun _ => hu⟩⟩
    rw [← and_assoc, hremoved]
    rcases eq_or_ne u X with rfl | hne
    · cases deleteRootFile <;> simp [huids, hself]
    · cases deleteRootFile <;> simp [huids, hne]
  · show (r.db.deleteEntries gone).fileObjects.get? u = _
    rw [Db.get?_fileObjects_deleteEntries, if_neg (hstays u root hne hroot)]
    exact hinv.get?_kept hX hvisited hentry (hinv.shared_iff.mpr ⟨root, hne, hroot⟩)
  · obtain ⟨hstored, hkept⟩ := (hrows u).mp hmem
    obtain ⟨root, hne, hroot⟩ := hinv.rooted_of_not_gone hgone hstored hkept
    exact hne (hu root hroot)
  · have hkept := ((hrows u).mp hu).2
    show (r.db.deleteEntries gone).analyses.get? (u, plugin) = _
    rw [Db.deleteEntries, Dict.get?_filter, htrim.tables]
    simp [hkept]

end Runs

/-! ## 7. Two images with the same file -/

theorem pythonLimits_sufficient : SufficientLimits pythonLimits 10 := ⟨by decide, by decide⟩

theorem eq_inner_of_transGen {root u : Uid} (h : TransGen imageContents.Contains root u) :
    u = "inner" := by
  obtain ⟨_, _, hlast⟩ := TransGen.tail'_iff.mp h
  exact (contains_imageContents_iff.mp hlast).2

theorem sharedFileDb_rootsRun : RootsRun acceptAll pythonLimits imageContents 10 Db.empty
    [.files (.upload "outer" [outerImage, innerFile]),
      .files (.upload "second" [secondImage, innerFileAgain])] sharedFileDb := by
  refine .cons ⟨fun u _ => Dict.not_mem_empty u, completeUpload_outer⟩
    (.cons ⟨fun u hu => ?_, completeUpload_second⟩ (.nil _))
  rw [eq_inner_of_transGen hu]
  decide

/-- One of the images is deleted again, and the tables hold the tree of the other one. -/
theorem treesOf_shared : ∃ db, RootsRun acceptAll pythonLimits imageContents 10 Db.empty
      ([.files (.upload "outer" [outerImage, innerFile]),
        .files (.upload "second" [secondImage, innerFileAgain])] ++
          [.files (.delete "second" true)]) db ∧
    TreesOf imageContents {"outer"} db := by
  have hrun : RootsRun acceptAll pythonLimits imageContents 10 Db.empty
      ([.files (.upload "outer" [outerImage, innerFile]),
        .files (.upload "second" [secondImage, innerFileAgain])] ++
          [.files (.delete "second" true)]) _ :=
    sharedFileDb_rootsRun.append (.cons ⟨trivial, rfl⟩ (.nil _))
  have himages : (insert "second" (insert "outer" (∅ : Set Uid))) \ {"second"} = {"outer"} := by
    ext X
    simp only [Set.mem_sdiff, Set.mem_insert_iff, Set.mem_empty_iff_false, or_false,
      Set.mem_singleton_iff]
    exact ⟨fun h => h.1.resolve_left h.2, fun h => ⟨.inr h, h ▸ by decide⟩⟩
  exact ⟨_, hrun, himages ▸ treesOf_run pythonLimits_sufficient hrun⟩

/-- The file that both images have stays. -/
theorem second_deleted :
    FirmwareDeleted sharedFileDb "second" true
        (deleteFirmware pythonLimits sharedFileDb "second" true) ∧
      (deleteFirmware pythonLimits sharedFileDb "second" true).sent = some ["second"] :=
  ⟨deleteFirmware_exact pythonLimits_sufficient sharedFileDb_rootsRun (by decide) true, by decide⟩

end FactCore
