import FactCore.Storage.Uploads

/-!
# The files of a firmware

`get_all_files_in_fw` reads the table `fw_files`, which is filled from the root
uids of the objects that are written; the tree of included files is filled from
their parents. This module relates the two over sequences of completed uploads,
updates with loaded objects, and deletions.

They agree as long as no firmware is loaded and added back, and no firmware is
deleted that a stored file includes. A loaded firmware names itself as a root.
A deleted firmware is gone from the tree of the image that includes it, while the
files below it stay listed there.

Results:
1. `FilesInv.step`: what each operation preserves.
2. `getAllFilesInFw_exact`: the relation is exact over whole runs.
3. `updated_firmware_contains_itself`: one update of an image breaks it.
-/

namespace FactCore

open Relation

/-- `get_all_files_in_fw`. -/
def getAllFilesInFw (db : Db) (fwUid : Uid) : List Uid :=
  (db.fwFiles.filter fun e => decide (e.1 = fwUid)).map Prod.snd

/-- `child` is included in `parent`, as stored. -/
def Db.Includes (db : Db) (parent child : Uid) : Prop := (parent, child) ∈ db.includedFiles

/-- The operations that change which files a firmware has. -/
inductive FilesOp
  /-- The upload of `root`, which adds the objects `fos`. -/
  | upload (root : Uid) (fos : List FileObject)
  /-- An object is loaded and added back. -/
  | update (uid : Uid)
  | delete (uid : Uid) (deleteRootFile : Bool)

/-- One completed operation. -/
def FilesStep (driver : Driver) (limits : Limits) (contents : Contents) (maxDepth : Nat) (db : Db) :
    FilesOp → Db → Prop
  | .upload root fos, db' => CompleteUpload driver contents maxDepth root fos db db'
  | .update uid, db' => ∃ fo, getObject db uid = some fo ∧ (addObject driver db fo).db = db'
  | .delete uid deleteRootFile, db' => (deleteFirmware limits db uid deleteRootFile).outcome.db = db'

/-- The operation neither updates a firmware nor deletes a file that a stored file includes. -/
def KeepsFiles (db : Db) : FilesOp → Prop
  | .upload _ _ => True
  | .update uid => uid ∉ db.firmware
  | .delete uid _ => ∀ parent, ¬ db.Includes parent uid

/-- The files of the firmware `X` are those below it, and `X` is none of them. -/
structure FilesExact (db : Db) (X : Uid) : Prop where
  reachable : ∀ u, u ∈ getAllFilesInFw db X ↔ TransGen db.Includes X u
  irreflexive : X ∉ getAllFilesInFw db X

theorem mem_getAllFilesInFw {db : Db} {fwUid u : Uid} :
    u ∈ getAllFilesInFw db fwUid ↔ (fwUid, u) ∈ db.fwFiles := by
  simp [getAllFilesInFw]

/-! ## 1. The invariant -/

/-- Every stored file has all its children stored, `fw_files` is the closure of the contents for
every firmware, and the roots of virtual paths lead to the file. -/
structure FilesInv (contents : Contents) (db : Db) : Prop where
  foreignKeys : db.ForeignKeys
  included : ∀ p ∈ db.fileObjects, ∀ c, db.Includes p c ↔ contents.Contains p c
  fwFiles : ∀ X ∈ db.firmware, ∀ f, (X, f) ∈ db.fwFiles ↔ TransGen contents.Contains X f
  paths : ∀ root file, db.HasPath root file →
    TransGen contents.Contains root file ∨ (root = file ∧ file ∈ db.firmware)
  acyclic : ∀ X ∈ db.firmware, ¬ TransGen contents.Contains X X

namespace FilesInv

variable {contents : Contents} {driver : Driver} {limits : Limits} {maxDepth : Nat} {db db' : Db}

theorem empty (contents : Contents) : FilesInv contents Db.empty where
  foreignKeys := .empty
  included p hp := absurd hp (Dict.not_mem_empty p)
  fwFiles X hX := absurd hX (Dict.not_mem_empty X)
  paths root file h := by
    obtain ⟨entry, hentry, -⟩ := h
    cases hentry
  acyclic X hX := absurd hX (Dict.not_mem_empty X)

/-- Below a stored file, the stored tree and the contents are the same. -/
theorem transGen_iff (h : FilesInv contents db) {X u : Uid} (hX : X ∈ db.fileObjects) :
    TransGen db.Includes X u ↔ TransGen contents.Contains X u := by
  have hstored : ∀ {v}, TransGen db.Includes X v → v ∈ db.fileObjects := by
    intro v hv
    cases hv with
    | single hc => exact (h.foreignKeys.included _ _ hc).2
    | tail _ hc => exact (h.foreignKeys.included _ _ hc).2
  constructor
  · intro hu
    induction hu with
    | single hc => exact .single ((h.included X hX _).mp hc)
    | tail hXv hc ih => exact .tail ih ((h.included _ (hstored hXv) _).mp hc)
  · intro hu
    induction hu with
    | single hc => exact .single ((h.included X hX _).mpr hc)
    | tail _ hc ih => exact .tail ih ((h.included _ (hstored ih) _).mpr hc)

theorem filesExact (h : FilesInv contents db) {X : Uid} (hX : X ∈ db.firmware) :
    FilesExact db X where
  reachable u := by
    rw [mem_getAllFilesInFw, h.fwFiles X hX, h.transGen_iff (h.foreignKeys.firmware X hX)]
  irreflexive hmem := h.acyclic X hX ((h.fwFiles X hX X).mp (mem_getAllFilesInFw.mp hmem))

/-! ## 2. One operation -/

section Upload
variable {root : Uid} {fos : List FileObject}

theorem upload_included (h : FilesInv contents db)
    (hup : CompleteUpload driver contents maxDepth root fos db db') {p c : Uid}
    (hp : p ∈ db'.fileObjects) : db'.Includes p c ↔ contents.Contains p c := by
  have hadd := hup.addedAll
  rw [Db.Includes, hadd.included]
  constructor
  · rintro (hc | ⟨fo, hfo, rfl, hpar⟩)
    · exact (h.included p (h.foreignKeys.included p c hc).1 c).mp hc
    · exact hup.contains_of_mem_parents hfo hpar
  · intro hc
    rcases (hadd.rows p).mp hp with hp | ⟨fo, hfo, rfl⟩
    · exact .inl ((h.included p hp c).mpr hc)
    · -- the extraction of an object of this upload has found all its files
      obtain ⟨fo', hfo', rfl, hfile⟩ := hup.complete fo.uid (List.mem_map_of_mem hfo) c hc
      exact .inr ⟨fo', hfo', rfl, by simp [hfile.parents]⟩

theorem upload_fwFiles (h : FilesInv contents db)
    (hup : CompleteUpload driver contents maxDepth root fos db db') {X f : Uid}
    (hX : X ∈ db'.firmware) : (X, f) ∈ db'.fwFiles ↔ TransGen contents.Contains X f := by
  rw [hup.addedAll.fwFiles]
  rcases Decidable.em (X ∈ db.firmware) with hold | hnew
  · -- an image that was there keeps its files; a repeated upload links them again
    rw [← h.fwFiles X hold]
    refine or_iff_left_of_imp ?_
    rintro ⟨fo, hfo, rfl, hr⟩
    obtain ⟨rfl, hreach⟩ := hup.reaches_of_mem_roots hfo hr
    exact (h.fwFiles X hold fo.uid).mpr hreach
  · obtain rfl := (hup.firmware_cases hX).resolve_left hnew
    constructor
    · rintro (hf | ⟨fo, hfo, rfl, hr⟩)
      · exact absurd (h.foreignKeys.fwFiles X f hf).1 (hup.root_new hnew)
      · exact (hup.reaches_of_mem_roots hfo hr).2
    · intro hreach
      obtain ⟨fo, hfo, rfl, parent, hfile⟩ := hup.reached hreach
      exact .inr ⟨fo, hfo, rfl, by simp [hfile.roots]⟩

theorem upload (h : FilesInv contents db)
    (hup : CompleteUpload driver contents maxDepth root fos db db') : FilesInv contents db' where
  foreignKeys := foreignKeys_of_allAdded hup.added h.foreignKeys
  included _ hp _ := h.upload_included hup hp
  fwFiles _ hX _ := h.upload_fwFiles hup hX
  paths r f hrf := by
    rcases (hup.addedAll.paths r f).mp hrf with hrf | ⟨fo, hfo, rfl, hr⟩
    · exact (h.paths r f hrf).imp_right fun hself =>
        ⟨hself.1, (hup.addedAll.firmware f).mpr (.inl hself.2)⟩
    · exact hup.reaches_of_mem_paths hfo hr
  acyclic X hX := by
    rcases hup.firmware_cases hX with hold | rfl
    · exact h.acyclic X hold
    · exact hup.acyclic

end Upload

/-- The references of a loaded object: its stored parents, and the roots of its stored paths. -/
theorem getObject_refs {uid : Uid} {fo : FileObject} (hload : getObject db uid = some fo) :
    (∀ p, p ∈ fo.parents ↔ db.Includes p uid) ∧
      (∀ r, r ∈ fo.parentFirmwareUids → db.HasPath r uid) ∧
      ∀ r, r ∈ fo.virtualFilePath → db.HasPath r uid := by
  obtain ⟨entry, hentry, rfl⟩ := Option.map_eq_some_iff.mp hload
  exact ⟨fun p => Db.mem_getParentUids, fun r hr => ⟨entry, hentry, hr⟩,
    fun r hr => ⟨entry, hentry, hr⟩⟩

/-- Adding back a loaded file that is no firmware writes no relation that the paths of its row do
not lead to. -/
theorem update {uid : Uid} {fo : FileObject} (h : FilesInv contents db)
    (hload : getObject db uid = some fo) (hfile : uid ∉ db.firmware) :
    FilesInv contents (addObject driver db fo).db := by
  have huid := getObject_uid hload
  have hno : fo.firmware = none := by
    have := (getObject_isFirmware hload).not.mpr hfile
    rw [FileObject.isFirmware] at this
    exact Option.not_isSome_iff_eq_none.mp this
  cases hr : (addObject driver db fo).raised with
  | some e =>
    rcases addObject_failed hr with heq | ⟨hfw, -⟩
    · rwa [heq]
    · exact absurd (huid ▸ hfw) hfile
  | none =>
    have hadd := addObject_added hr
    obtain ⟨hparents, hroots, hpaths⟩ := getObject_refs hload
    have hrow : uid ∈ db.fileObjects := by
      obtain ⟨entry, hentry, -⟩ := Option.map_eq_some_iff.mp hload
      exact Dict.mem_of_get? hentry
    have hrows : ∀ u, u ∈ (addObject driver db fo).db.fileObjects ↔ u ∈ db.fileObjects := by
      intro u
      rw [mem_fileObjects_addObject hr, huid]
      exact or_iff_right_of_imp fun hu => hu ▸ hrow
    have hfirmware : (addObject driver db fo).db.firmware = db.firmware :=
      firmware_addObject_of_file hno
    refine ⟨h.foreignKeys.addObject driver fo, fun p hp c => ?_, fun X hX f => ?_,
      fun r f hrf => ?_, fun X hX => h.acyclic X (hfirmware ▸ hX)⟩
    · rw [← h.included p ((hrows p).mp hp), Db.Includes, hadd.included]
      refine or_iff_left_of_imp ?_
      rintro ⟨-, rfl, hpar, -⟩
      exact huid ▸ (hparents p).mp hpar
    · rw [hfirmware] at hX
      rw [← h.fwFiles X hX, hadd.fwFiles]
      refine or_iff_left_of_imp ?_
      rintro ⟨-, rfl, hr, -⟩
      rw [h.fwFiles X hX, huid]
      exact (h.paths X uid (hroots X hr)).resolve_right fun hself => hfile hself.2
    · rw [hfirmware]
      rcases (hadd.hasPath_iff r f).mp hrf with hrf | ⟨rfl, hr⟩
      · exact h.paths r f hrf
      · exact huid ▸ h.paths r uid (hpaths r hr)

theorem trimmed {root : Uid} (h : FilesInv contents db) (htrim : Trimmed root db db') :
    FilesInv contents db' where
  foreignKeys := htrim.foreignKeys h.foreignKeys
  included p hp c := by
    rw [Db.Includes, htrim.includedFiles]
    exact h.included p (htrim.mem_fileObjects.mp hp) c
  fwFiles X hX f := by
    rw [htrim.fwFiles]
    exact h.fwFiles X (htrim.firmware ▸ hX) f
  paths r f := by
    rintro ⟨entry, hentry, hr⟩
    rw [htrim.firmware]
    refine h.paths r f ?_
    rcases htrim.rows f with hf | hf
    · exact ⟨entry, hf ▸ hentry, hr⟩
    · rw [hf] at hentry
      obtain ⟨old, hold, rfl⟩ := Option.map_eq_some_iff.mp hentry
      exact ⟨old, hold, (Dict.mem_filter.mp hr).1⟩
  acyclic X hX := h.acyclic X (htrim.firmware ▸ hX)

/-- Deleting rows all of whose parents are deleted too leaves every other file complete. -/
theorem deleteEntries {uids : List Uid} (h : FilesInv contents db)
    (hclosed : ∀ u ∈ uids, ∀ p, db.Includes p u → p ∈ uids) :
    FilesInv contents (db.deleteEntries uids) where
  foreignKeys := h.foreignKeys.deleteEntries uids
  included p hp c := by
    obtain ⟨hp, hpu⟩ := Db.mem_fileObjects_deleteEntries.mp hp
    rw [← h.included p hp c]
    refine Db.mem_includedFiles_deleteEntries.trans ⟨And.left, fun hc => ⟨hc, hpu, fun hcu => ?_⟩⟩
    exact hpu (hclosed c hcu p hc)
  fwFiles X hX f := by
    obtain ⟨hX, hXu⟩ := Db.mem_firmware_deleteEntries.mp hX
    rw [Db.mem_fwFiles_deleteEntries, h.fwFiles X hX]
    refine ⟨And.left, fun hreach => ⟨hreach, hXu, ?_⟩⟩
    -- what remains is closed under inclusion
    have hdown : ∀ v, TransGen db.Includes X v → v ∉ uids := by
      intro v hv
      induction hv with
      | single hc => exact fun hcu => hXu (hclosed _ hcu X hc)
      | tail _ hc ih => exact fun hcu => ih (hclosed _ hcu _ hc)
    exact hdown f ((h.transGen_iff (h.foreignKeys.firmware X hX)).mpr hreach)
  paths r f hrf := by
    obtain ⟨hrf, hf⟩ := Db.hasPath_deleteEntries.mp hrf
    exact (h.paths r f hrf).imp_right fun hself =>
      ⟨hself.1, Db.mem_firmware_deleteEntries.mpr ⟨hself.2, hf⟩⟩
  acyclic X hX := h.acyclic X (Db.mem_firmware_deleteEntries.mp hX).1

theorem delete {uid : Uid} {deleteRootFile : Bool} (h : FilesInv contents db)
    (hroot : ∀ parent, ¬ db.Includes parent uid) :
    FilesInv contents (deleteFirmware limits db uid deleteRootFile).outcome.db := by
  rcases deleteFirmware_cases limits db uid deleteRootFile with
    heq | ⟨-, db1, htrim, heq | ⟨cascaded, hcas, heq⟩⟩ <;> rw [heq]
  · exact h
  · exact h.trimmed htrim
  · refine (h.trimmed htrim).deleteEntries fun u hu p hp => ?_
    rw [Db.Includes, htrim.includedFiles] at hp
    rcases List.mem_cons.mp hu with rfl | hu
    · exact absurd hp (hroot p)
    · exact List.mem_cons.mpr (hcas.parents u hu p hp (h.foreignKeys.included p u hp).1)

theorem step {op : FilesOp} (h : FilesInv contents db) (hkeep : KeepsFiles db op)
    (hst : FilesStep driver limits contents maxDepth db op db') : FilesInv contents db' := by
  cases op with
  | upload root fos => exact h.upload hst
  | update uid =>
    obtain ⟨fo, hload, rfl⟩ := hst
    exact h.update hload hkeep
  | delete uid deleteRootFile =>
    obtain rfl := hst
    exact h.delete hkeep

end FilesInv

/-! ## 3. Whole runs -/

/-- In every run that neither updates a firmware nor deletes a file that a stored file includes,
the files of a firmware are exactly those that can be reached from it. -/
theorem getAllFilesInFw_exact {driver : Driver} {limits : Limits} {contents : Contents}
    {maxDepth : Nat} {ops : List FilesOp} {db : Db}
    (h : Run (Restrict KeepsFiles fun db op db' =>
      FilesStep driver limits contents maxDepth db op db') Db.empty ops db) :
    ∀ X ∈ db.firmware, FilesExact db X := by
  have hinv : FilesInv contents db :=
    h.invariant (fun _ _ _ hs hst => hs.step hst.1 hst.2) (.empty contents)
  exact fun X hX => hinv.filesExact hX

/-- The extraction finds the same file in two images. -/
def imageContents : Contents := fun uid => if uid = "outer" ∨ uid = "second" then ["inner"] else []

theorem contains_imageContents_iff {parent child : Uid} :
    imageContents.Contains parent child ↔ (parent = "outer" ∨ parent = "second") ∧ child = "inner" := by
  by_cases h : parent = "outer" ∨ parent = "second" <;> simp [Contents.Contains, imageContents, h]

/-- The upload of an image and of its file. -/
theorem completeUpload_image {image file : FileObject} {db db' : Db}
    (hroot : image.uid = "outer" ∨ image.uid = "second") (himage : FreshFirmware image)
    (hinner : file.uid = "inner") (hfile : FreshFile image.uid image.uid file)
    (hadded : AllAdded acceptAll db [image, file] db') :
    CompleteUpload acceptAll imageContents 10 image.uid [image, file] db db' where
  order := by
    have hstart : UploadOrder imageContents image.uid [image] := .start himage rfl
    have hcontent : imageContents.Contains image.uid file.uid :=
      contains_imageContents_iff.mpr ⟨hroot, hinner⟩
    exact hstart.file (List.mem_singleton_self _) hfile hcontent
  complete parent hparent child hchild := by
    obtain ⟨himages, rfl⟩ := contains_imageContents_iff.mp hchild
    have hparent : parent = image.uid := by
      rcases List.mem_pair.mp hparent with rfl | rfl
      · rfl
      · rw [hinner] at himages
        exact absurd himages (by decide)
    rw [hparent]
    exact ⟨file, by simp, hinner, hfile⟩
  notStopped n u h := by
    cases h with
    | root => decide
    | extract h hchild =>
      cases h with
      | root => decide
      | extract _ hparent =>
        have himages := (contains_imageContents_iff.mp hchild).1
        rw [(contains_imageContents_iff.mp hparent).2] at himages
        exact absurd himages (by decide)
  added := hadded

theorem completeUpload_outer : CompleteUpload acceptAll imageContents 10 "outer"
    [outerImage, innerFile] Db.empty uploadedDb :=
  @completeUpload_image outerImage innerFile _ _ (.inl rfl) (newFirmware_fresh _ _ _) (by decide)
    innerFile_fresh (.cons rfl (.cons rfl (.nil _)))

/-- Two images with the same file are uploaded. -/
abbrev sharedFileDb : Db :=
  databaseAfter acceptAll pythonLimits
    (uploadWithFile ++ [.addObject secondImage, .addObject innerFileAgain])

theorem completeUpload_second : CompleteUpload acceptAll imageContents 10 "second"
    [secondImage, innerFileAgain] uploadedDb sharedFileDb :=
  @completeUpload_image secondImage innerFileAgain _ _ (.inr rfl) (newFirmware_fresh _ _ _) (by decide)
    innerFileAgain_fresh (.cons rfl (.cons rfl (.nil _)))

/-- The second image is deleted again, and the first one keeps the file. -/
theorem filesExact_shared : ∃ db, Run (Restrict KeepsFiles fun db op db' =>
        FilesStep acceptAll pythonLimits imageContents 10 db op db') Db.empty
      [.upload "outer" [outerImage, innerFile], .upload "second" [secondImage, innerFileAgain],
        .delete "second" true] db ∧
    getAllFilesInFw db "outer" = ["inner"] ∧ FilesExact db "outer" := by
  have hkeeps : ∀ e ∈ sharedFileDb.includedFiles, e.2 ≠ "second" := by decide
  have hrun : Run (Restrict KeepsFiles fun db op db' =>
      FilesStep acceptAll pythonLimits imageContents 10 db op db') Db.empty
      [.upload "outer" [outerImage, innerFile], .upload "second" [secondImage, innerFileAgain],
        .delete "second" true] _ :=
    .cons ⟨trivial, completeUpload_outer⟩ <| .cons ⟨trivial, completeUpload_second⟩ <|
      .cons ⟨fun parent h => hkeeps _ h rfl, rfl⟩ (.nil _)
  exact ⟨_, hrun, by decide, getAllFilesInFw_exact hrun "outer" (by decide)⟩

/-- Loading an image and adding it back makes it one of its own files. -/
theorem updated_firmware_contains_itself :
    ¬ ∀ (contents : Contents) (ops : List FilesOp) (db : Db),
      Run (FilesStep acceptAll pythonLimits contents 10) Db.empty ops db →
        ∀ X ∈ db.firmware, FilesExact db X := by
  intro h
  let db := uploadedDb
  let loaded := (getObject db "outer").get (by decide)
  have hrun : Run (FilesStep acceptAll pythonLimits imageContents 10) Db.empty
      [.upload "outer" [outerImage, innerFile], .update "outer"]
      (addObject acceptAll db loaded).db :=
    .cons completeUpload_outer (.cons ⟨loaded, (Option.some_get _).symm, rfl⟩ (.nil _))
  exact (h _ _ _ hrun "outer" (by decide)).irreflexive (by decide)

end FactCore
