import FactCore.Storage.DeleteCascade

/-!
# Where the walk and the cascade agree

Images are uploaded in any order and at the same time, and their archives share
files arbitrarily. The extraction carries the depth of an object along and stops at
the limit, so a file may be extracted in one image and stored without its contents
in another.

Deleting an image should send exactly those uids whose rows are gone, and leave no
path below the image and no orphan (`DeletesExactly`). It does so when the deletion
is clean (`CleanDeletion`):
* The row of the image is flagged, no chain below it is longer than the recursion
  limit, and no chain of files that go with it is longer than the flush limit.
* Every file below the image that has another root is flagged or has another parent
  with another root.
* What such a file includes has another root too. This fails at the depth limit.

Results:
1. `UploadsInv.step`: what an uploaded object preserves.
2. `deletesExactly_iff`: in every state that uploads lead to, the deletion of an
   image is exact if and only if it is clean.
3. `outer_deleted_exactly`, `depth_limit_keeps_row`: two images with one archive,
   which only one of them extracts; the deletion of the other one is exact.
-/

namespace FactCore

open Relation

/-! ## 1. Uploads -/

/-- The database, and the objects that were added to it, each with the root of its upload. -/
structure UploadState where
  db : Db
  added : List (Uid × FileObject)

/-- Nothing was uploaded yet. -/
def UploadState.start : UploadState := ⟨Db.empty, []⟩

/-- The state after a successful `add_object` of an object below `root`. -/
def UploadState.add (driver : Driver) (s : UploadState) (root : Uid) (fo : FileObject) :
    UploadState :=
  ⟨(addObject driver s.db fo).db, s.added ++ [(root, fo)]⟩

/-- One object is added.
* `firmware`: the image, at first and before every plugin.
* `file`: a file that was found in an object of the same upload above the depth limit, at first
  and before every plugin. A file is never extracted from itself (`remove_duplicates`). -/
inductive UploadStep (driver : Driver) (contents : Contents) (maxDepth : Nat) :
    UploadState → FileObject → UploadState → Prop
  | firmware {s : UploadState} {fw : FileObject} :
      FreshFirmware fw → fw.depth = 0 → (addObject driver s.db fw).raised = none →
      UploadStep driver contents maxDepth s fw (s.add driver fw.uid fw)
  | file {s : UploadState} {root : Uid} {parent fo : FileObject} :
      (root, parent) ∈ s.added → parent.depth < maxDepth →
      contents.Contains parent.uid fo.uid → fo.uid ≠ parent.uid →
      FreshFile root parent.uid fo → fo.depth = parent.depth + 1 →
      (addObject driver s.db fo).raised = none →
      UploadStep driver contents maxDepth s fo (s.add driver root fo)

/-- No upload is under way: what the objects above the depth limit contain was added. -/
def UploadState.Complete (contents : Contents) (maxDepth : Nat) (s : UploadState) : Prop :=
  ∀ e ∈ s.added, e.2.depth < maxDepth → ∀ child ∈ contents e.2.uid, child ≠ e.2.uid →
    ∃ e' ∈ s.added, e'.1 = e.1 ∧ e'.2.uid = child ∧ e'.2.parents = [e.2.uid] ∧
      e'.2.depth = e.2.depth + 1

/-- What holds in every state that uploads lead to: a file and its parent have a common root, a
root leads to the file, and every firmware is a root of itself. -/
structure UploadsInv (s : UploadState) : Prop where
  foreignKeys : s.db.ForeignKeys
  added : ∀ root fo, (root, fo) ∈ s.added → s.db.HasPath root fo.uid
  roots : ∀ p u, s.db.Includes p u → ∃ r, s.db.HasPath r p ∧ s.db.HasPath r u
  below : ∀ r u, s.db.HasPath r u → ReflTransGen s.db.Includes r u
  noOrphans : s.db.NoOrphans
  flagged : ∀ u, s.db.Flagged u → u ∈ s.db.firmware
  firmware : ∀ u ∈ s.db.firmware, s.db.HasPath u u

namespace UploadsInv

variable {driver : Driver} {contents : Contents} {maxDepth : Nat} {s s' : UploadState}
  {root : Uid} {fo : FileObject}

theorem start : UploadsInv UploadState.start where
  foreignKeys := .empty
  added root fo h := absurd h List.not_mem_nil
  roots p u h := absurd h List.not_mem_nil
  below r u h := by
    obtain ⟨entry, hentry, -⟩ := h
    cases hentry
  noOrphans u hu := absurd hu (Dict.not_mem_empty u)
  flagged u h := by
    obtain ⟨entry, hentry, -⟩ := h
    cases hentry
  firmware u hu := absurd hu (Dict.not_mem_empty u)

/-- The tables after one object. -/
theorem addedAll (hok : (addObject driver s.db fo).raised = none)
    (hfresh : FreshFirmware fo ∨ ∃ parent, FreshFile root parent fo) :
    AddedAll s.db [fo] (s.add driver root fo).db := by
  have heq : addObject driver s.db fo = ⟨(addObject driver s.db fo).db, none⟩ := by rw [← hok]
  exact .of_addObject heq hfresh

theorem includes_add (hok : (addObject driver s.db fo).raised = none)
    (hfresh : FreshFirmware fo ∨ ∃ parent, FreshFile root parent fo) (p c : Uid) :
    (s.add driver root fo).db.Includes p c ↔
      s.db.Includes p c ∨ (c = fo.uid ∧ p ∈ fo.parents) := by
  show (p, c) ∈ (s.add driver root fo).db.includedFiles ↔ (p, c) ∈ s.db.includedFiles ∨ _
  rw [(addedAll hok hfresh).included]
  simp

theorem hasPath_add (hok : (addObject driver s.db fo).raised = none)
    (hfresh : FreshFirmware fo ∨ ∃ parent, FreshFile root parent fo)
    (hroot : ∀ r, r ∈ fo.virtualFilePath ↔ r = root) (r f : Uid) :
    (s.add driver root fo).db.HasPath r f ↔ s.db.HasPath r f ∨ (f = fo.uid ∧ r = root) := by
  rw [(addedAll hok hfresh).paths]
  simp [hroot]

/-- Adding an object keeps the invariant if its parents have the root of the upload, and it is the
image itself or has a parent. -/
theorem add (h : UploadsInv s) (hok : (addObject driver s.db fo).raised = none)
    (hfresh : FreshFirmware fo ∨ ∃ parent, FreshFile root parent fo)
    (hroot : ∀ r, r ∈ fo.virtualFilePath ↔ r = root)
    (hparents : ∀ p ∈ fo.parents, s.db.HasPath root p)
    (hplace : (fo.isFirmware = true ∧ fo.uid = root) ∨
      (fo.isFirmware = false ∧ ∃ p, p ∈ fo.parents)) : UploadsInv (s.add driver root fo) := by
  have hincl := includes_add hok hfresh
  have hpaths := hasPath_add hok hfresh hroot
  have hbelow : ∀ r u, ReflTransGen s.db.Includes r u →
      ReflTransGen (s.add driver root fo).db.Includes r u :=
    ReflTransGen.mono fun p c hp => (hincl p c).mpr (.inl hp)
  refine ⟨h.foreignKeys.addObject driver fo, fun r fo' hfo => ?_, fun p u hp => ?_,
    fun r u hr => ?_, fun u hu hflag => ?_, fun u hflag => ?_, fun u hu => ?_⟩
  · rcases List.mem_append.mp hfo with hfo | hfo
    · exact (hpaths r fo'.uid).mpr (.inl (h.added r fo' hfo))
    · obtain ⟨rfl, rfl⟩ := Prod.mk.inj (List.mem_singleton.mp hfo)
      exact (hpaths _ _).mpr (.inr ⟨rfl, rfl⟩)
  · rcases (hincl p u).mp hp with hold | ⟨rfl, hmem⟩
    · obtain ⟨r, hrp, hru⟩ := h.roots p u hold
      exact ⟨r, (hpaths r p).mpr (.inl hrp), (hpaths r u).mpr (.inl hru)⟩
    · -- the object and its parent belong to this upload
      have hrootp := hparents p hmem
      exact ⟨root, (hpaths root p).mpr (.inl hrootp), (hpaths _ _).mpr (.inr ⟨rfl, rfl⟩)⟩
  · rcases (hpaths r u).mp hr with hr | ⟨rfl, rfl⟩
    · exact hbelow r u (h.below r u hr)
    · rcases hplace with ⟨-, rfl⟩ | ⟨-, p, hp⟩
      · exact .refl
      · exact .tail (hbelow _ _ (h.below _ _ (hparents p hp))) ((hincl _ _).mpr (.inr ⟨rfl, hp⟩))
  · rcases eq_or_ne u fo.uid with rfl | hne
    · rcases hplace with ⟨hfw, -⟩ | ⟨-, p, hp⟩
      · exact absurd ((flagged_addObject_self hok).mpr hfw) hflag
      · exact ⟨p, (hincl _ _).mpr (.inr ⟨rfl, hp⟩)⟩
    · have hrow : u ∈ s.db.fileObjects :=
        (((addedAll hok hfresh).rows u).mp hu).resolve_right (by simpa using hne)
      obtain ⟨p, hp⟩ := h.noOrphans u hrow fun hf => hflag ((flagged_addObject_of_ne hne).mpr hf)
      exact ⟨p, (hincl p u).mpr (.inl hp)⟩
  · rcases eq_or_ne u fo.uid with rfl | hne
    · exact (mem_firmware_addObject_self hok).mpr (.inl ((flagged_addObject_self hok).mp hflag))
    · exact mem_firmware_addObject (h.flagged u ((flagged_addObject_of_ne hne).mp hflag))
  · rcases eq_or_ne u fo.uid with rfl | hne
    · rcases (mem_firmware_addObject_self hok).mp hu with hfw | hold
      · rcases hplace with ⟨-, huid⟩ | ⟨hfile, -⟩
        · exact (hpaths _ _).mpr (.inr ⟨rfl, huid⟩)
        · exact absurd hfw (by simp [hfile])
      · exact (hpaths _ _).mpr (.inl (h.firmware _ hold))
    · exact (hpaths u u).mpr (.inl (h.firmware u ((mem_firmware_addObject_of_ne hne).mp hu)))

theorem step (h : UploadsInv s) (hst : UploadStep driver contents maxDepth s fo s') :
    UploadsInv s' := by
  cases hst with
  | firmware hfresh _ hok =>
    refine h.add hok (.inl hfresh) hfresh.paths (fun p hp => ?_) (.inl ⟨hfresh.isFirmware, rfl⟩)
    rw [hfresh.parents] at hp
    cases hp
  | @file root parent _ hparent _ _ _ hfresh _ hok =>
    have hfile : fo.isFirmware = false := by simp [FileObject.isFirmware, hfresh.firmware]
    have hmem : ∀ p, p ∈ fo.parents ↔ p = parent.uid := by simp [hfresh.parents]
    refine h.add hok (.inr ⟨parent.uid, hfresh⟩) hfresh.paths (fun p hp => ?_)
      (.inr ⟨hfile, parent.uid, (hmem _).mpr rfl⟩)
    rw [(hmem p).mp hp]
    exact h.added root parent hparent

theorem of_run {fos : List FileObject}
    (h : Run (UploadStep driver contents maxDepth) UploadState.start fos s) : UploadsInv s :=
  h.invariant (fun _ _ _ hs hst => hs.step hst) .start

/-- A flagged file is shared unless it is the image itself. -/
theorem shared_of_flagged (h : UploadsInv s) {X u : Uid} (hne : u ≠ X) (hflag : s.db.Flagged u) :
    s.db.Shared X u :=
  ⟨u, hne, h.firmware u (h.flagged u hflag)⟩

/-- A parent that is not below the image has another root, and so have its files. -/
theorem shared_of_outside (h : UploadsInv s) {X p u : Uid} (hp : s.db.Includes p u)
    (hout : ¬ ReflTransGen s.db.Includes X p) : s.db.Shared X p ∧ s.db.Shared X u := by
  obtain ⟨r, hrp, hru⟩ := h.roots p u hp
  have hr : r ≠ X := by
    rintro rfl
    exact hout (h.below r p hrp)
  exact ⟨⟨r, hr, hrp⟩, ⟨r, hr, hru⟩⟩

end UploadsInv

/-! ## 2. Deleting an image -/

/-- The deletion of `uid` sends exactly the uids whose rows are gone, and leaves no virtual path
below `uid` and no orphan. -/
structure DeletesExactly (limits : Limits) (db : Db) (uid : Uid) : Prop where
  sent : ∀ u, u ∈ (deleteFirmware limits db uid).sent.getD [] ↔
    u ∈ db.fileObjects ∧ u ∉ (deleteFirmware limits db uid).outcome.db.fileObjects
  paths : ∀ u, ¬ (deleteFirmware limits db uid).outcome.db.HasPath uid u
  noOrphans : (deleteFirmware limits db uid).outcome.db.NoOrphans

/-- The condition under which the walk and the cascade agree about `uid`. -/
structure CleanDeletion (limits : Limits) (db : Db) (uid : Uid) : Prop where
  flagged : db.Flagged uid
  nested : ∀ n u, Steps db.Includes uid n u → n ≤ limits.recursion
  rounds : ∀ n u, Steps db.Includes uid n u → u = uid ∨ ¬ db.Shared uid u →
    n + 2 ≤ limits.flushes
  stays : SharedStays db.Includes db.Flagged (db.Shared uid) uid
  extracted : SharedDown db.Includes (db.Shared uid) uid

section Deletion
variable {driver : Driver} {contents : Contents} {maxDepth : Nat} {limits : Limits}
  {s : UploadState} {X : Uid} {n : Nat}

/-- The chains of the files that go with the image bound the rounds of the cascade. -/
theorem CleanDeletion.ends (h : CleanDeletion limits s.db X) (hinv : UploadsInv s) :
    s.db.CascadeEnds X (limits.flushes - 2) := by
  intro u hgone
  rcases eq_or_ne u X with rfl | hne
  · exact .self _
  · have hshared : ¬ s.db.Shared X u := hgone.not_shared h.stays hne
    refine gone_of_steps_le h.extracted (fun v hv => hinv.shared_of_flagged hv)
      (fun p v hp hout => (hinv.shared_of_outside hp hout).2)
      ((reflTransGen_iff_eq_or_transGen.mp hgone.below).resolve_left hne) hshared hne fun k hk => ?_
    have := h.rounds k u hk (.inr hshared)
    omega

theorem CleanDeletion.completes (h : CleanDeletion limits s.db X) (hinv : UploadsInv s) :
    DeletionCompletes limits s.db X := by
  refine ⟨h.flagged, h.nested, limits.flushes - 2, ?_, h.ends hinv⟩
  have := h.rounds 0 X .refl (.inl rfl)
  omega

/-- When the deletion goes through, the rest of the condition is about sharing. -/
theorem DeletionCompletes.clean_iff (h : DeletionCompletes limits s.db X) (hinv : UploadsInv s) :
    CleanDeletion limits s.db X ↔
      SharedStays s.db.Includes s.db.Flagged (s.db.Shared X) X ∧
        SharedDown s.db.Includes (s.db.Shared X) X := by
  refine ⟨fun hc => ⟨hc.stays, hc.extracted⟩, fun ⟨hstays, hdown⟩ =>
    ⟨h.flagged, h.nested, fun k u hk hu => ?_, hstays, hdown⟩⟩
  obtain ⟨n, hn, hend⟩ := h.ends
  have hacyclic : ¬ TransGen s.db.Includes X X := not_transGen_self h.nested .refl
  have hgone : s.db.GoneAfter X n u := by
    rcases eq_or_ne u X with rfl | hne
    · exact .self n
    · have hbelow := reflTransGen_iff_eq_or_transGen.mp (reflTransGen_iff_steps.mpr ⟨k, hk⟩)
      exact ((gone_iff_not_shared_iff h.nested hend (fun v hv => hinv.shared_of_flagged hv)
        fun p v hp hout => hinv.shared_of_outside hp hout).mpr ⟨hstays, hdown⟩ u
          (hbelow.resolve_left hne)).mpr (hu.resolve_left hne)
  have := hgone.steps_le hacyclic hk
  omega

/-- A deletion that goes through is exact if the two criteria agree below the image. -/
theorem DeletionResult.exact_iff (hinv : UploadsInv s) (hX : X ∈ s.db.firmware)
    (hacyclic : ¬ TransGen s.db.Includes X X)
    (hres : DeletionResult s.db X n (deleteFirmware limits s.db X)) :
    DeletesExactly limits s.db X ↔
      ∀ u, TransGen s.db.Includes X u → (s.db.GoneAfter X n u ↔ ¬ s.db.Shared X u) := by
  obtain ⟨uids, hsent, huids⟩ := hres.sent
  have hstored : ∀ u, TransGen s.db.Includes X u → u ∈ s.db.fileObjects := by
    intro u hu
    obtain ⟨p, -, hp⟩ := TransGen.tail'_iff.mp hu
    exact (hinv.foreignKeys.included p u hp).2
  -- the rows that are gone, by the cascade
  have hrows : ∀ u, u ∈ s.db.fileObjects ∧
      u ∉ (deleteFirmware limits s.db X).outcome.db.fileObjects ↔
        u ∈ s.db.fileObjects ∧ s.db.GoneAfter X n u := by
    intro u
    rw [hres.rows u]
    tauto
  constructor
  · intro h u hu
    have hne : u ≠ X := fun heq => hacyclic (heq ▸ hu)
    have hmem := h.sent u
    rw [hsent, Option.getD_some, huids, hrows] at hmem
    simpa [hne, hu, hstored u hu] using hmem.symm
  · intro hagree
    refine ⟨fun u => ?_, fun u hpath => ?_, hres.noOrphans⟩
    · rw [hsent, Option.getD_some, huids, hrows]
      constructor
      · rintro (rfl | ⟨hu, hshared⟩)
        · exact ⟨hinv.foreignKeys.firmware u hX, .self n⟩
        · exact ⟨hstored u hu, (hagree u hu).mpr hshared⟩
      · rintro ⟨-, hgone⟩
        refine (reflTransGen_iff_eq_or_transGen.mp hgone.below).imp_right fun hu => ⟨hu, ?_⟩
        exact (hagree u hu).mp hgone
    · obtain ⟨hpath, hstays, hkept⟩ := (hres.paths u).mp hpath
      rcases reflTransGen_iff_eq_or_transGen.mp (hinv.below X u hpath) with rfl | hu
      · exact hstays (.self n)
      · exact hkept ⟨hu, by_contra fun hshared => hstays ((hagree u hu).mpr hshared)⟩

/-- In every state that uploads lead to, the deletion of an uploaded image is exact if and only
if it is clean. -/
theorem deletesExactly_iff {fos : List FileObject}
    (h : Run (UploadStep driver contents maxDepth) UploadState.start fos s) (limits : Limits)
    (hX : X ∈ s.db.firmware) : DeletesExactly limits s.db X ↔ CleanDeletion limits s.db X := by
  have hinv : UploadsInv s := .of_run h
  rcases Classical.em (DeletionCompletes limits s.db X) with hc | hc
  · obtain ⟨n, -, hend⟩ := hc.ends
    have hres := hc.result hinv.foreignKeys hinv.noOrphans hend
    rw [hres.exact_iff hinv hX (not_transGen_self hc.nested .refl), hc.clean_iff hinv]
    exact gone_iff_not_shared_iff hc.nested hend (fun v hv => hinv.shared_of_flagged hv)
      fun p v hp hout => hinv.shared_of_outside hp hout
  · -- the image keeps its own path
    have hself := (deleteFirmware_not_completed hinv.foreignKeys hinv.noOrphans
      (hinv.firmware X hX) hc).2
    exact iff_of_false (fun hexact => hexact.paths X hself) fun hclean => hc (hclean.completes hinv)

end Deletion

/-! ## 3. A file at the depth limit -/

/-- A file as it is extracted from `parent`. -/
def extractedFile (rootUid : Uid) (parent : FileObject) (file : BinaryFile)
    (h : (extractedObject rootUid parent file ["/" ++ file.fileName]).isSome = true) : FileObject :=
  (extractedObject rootUid parent file ["/" ++ file.fileName]).get h

section Extracted
variable {driver : Driver} {contents : Contents} {maxDepth : Nat} {s : UploadState}

theorem mem_added_self {root : Uid} {fo : FileObject} : (root, fo) ∈ (s.add driver root fo).added :=
  List.mem_append_right _ (List.mem_singleton.mpr rfl)

/-- An extracted file can be added below the object it was extracted from. -/
theorem UploadStep.extracted {root : Uid} {parent : FileObject} {file : BinaryFile}
    {h : (extractedObject root parent file ["/" ++ file.fileName]).isSome = true}
    (hparent : (root, parent) ∈ s.added) (hdepth : parent.depth < maxDepth)
    (hcontent : file.uid ∈ contents parent.uid) (hne : file.uid ≠ parent.uid)
    (hok : (addObject driver s.db (extractedFile root parent file h)).raised = none) :
    UploadStep driver contents maxDepth s (extractedFile root parent file h)
      (s.add driver root (extractedFile root parent file h)) := by
  have hsome : extractedObject root parent file ["/" ++ file.fileName] =
      some (extractedFile root parent file h) := (Option.some_get h).symm
  have hfresh := extractedObject_fresh hsome
  obtain ⟨parentPaths, -, hsome⟩ := Option.bind_eq_some_iff.mp hsome
  obtain ⟨base, -, hsome⟩ := Option.bind_eq_some_iff.mp hsome
  have hfo := Option.some.inj hsome
  rw [← hfo] at hfresh hok ⊢
  exact .file hparent hdepth hcontent hne hfresh rfl hok

end Extracted

/-- The archive `box` lies in a directory image of `outer`, and directly in `second`. -/
def boxContents : Contents := fun uid =>
  if uid = "outer" then ["dir"]
  else if uid = "dir" ∨ uid = "second" then ["box"]
  else if uid = "box" then ["leaf"]
  else []

def dirFile : FileObject :=
  extractedFile "outer" outerImage ⟨"dir", "dd", "dir.img", 2⟩ (by decide)

def boxOfDir : FileObject := extractedFile "outer" dirFile ⟨"box", "ee", "box.zip", 2⟩ (by decide)

def boxOfSecond : FileObject :=
  extractedFile "second" secondImage ⟨"box", "ee", "box.zip", 2⟩ (by decide)

def leafFile : FileObject :=
  extractedFile "second" boxOfSecond ⟨"leaf", "ff", "leaf.txt", 1⟩ (by decide)

/-- `outer` is uploaded with the depth limit 2, so its archive is not extracted. -/
def boxStored : UploadState :=
  ((UploadState.start.add acceptAll "outer" outerImage).add acceptAll "outer" dirFile).add
    acceptAll "outer" boxOfDir

/-- Then `second` is uploaded, and the same archive is extracted. -/
def boxExtracted : UploadState :=
  ((boxStored.add acceptAll "second" secondImage).add acceptAll "second" boxOfSecond).add
    acceptAll "second" leafFile

theorem run_boxExtracted :
    Run (UploadStep acceptAll boxContents 2) UploadState.start
      [outerImage, dirFile, boxOfDir, secondImage, boxOfSecond, leafFile] boxExtracted :=
  .cons (.firmware (newFirmware_fresh _ _ _) rfl (by decide)) <|
  .cons (.extracted mem_added_self (by decide) (by decide) (by decide) (by decide)) <|
  .cons (.extracted mem_added_self (by decide) (by decide) (by decide) (by decide)) <|
  .cons (.firmware (newFirmware_fresh _ _ _) rfl (by decide)) <|
  .cons (.extracted mem_added_self (by decide) (by decide) (by decide) (by decide)) <|
  .cons (.extracted mem_added_self (by decide) (by decide) (by decide) (by decide)) <|
  .nil _

/-- The rows of the table `included_files`. -/
theorem includes_boxExtracted {p u : Uid} (h : boxExtracted.db.Includes p u) :
    (p, u) ∈ [("outer", "dir"), ("dir", "box"), ("second", "box"), ("box", "leaf")] := by
  have htable : boxExtracted.db.includedFiles =
      [("outer", "dir"), ("dir", "box"), ("second", "box"), ("box", "leaf")] := by decide
  rwa [Db.Includes, htable] at h

theorem steps_boxExtracted {n : Nat} {u : Uid} (h : Steps boxExtracted.db.Includes "outer" n u) :
    (n, u) ∈ [(0, "outer"), (1, "dir"), (2, "box"), (3, "leaf")] := by
  have hnext : ∀ e ∈ [(0, "outer"), (1, "dir"), (2, "box"), (3, "leaf")],
      ∀ i ∈ [("outer", "dir"), ("dir", "box"), ("second", "box"), ("box", "leaf")],
        i.1 = e.2 → (e.1 + 1, i.2) ∈ [(0, "outer"), (1, "dir"), (2, "box"), (3, "leaf")] := by
    decide
  induction h with
  | refl => decide
  | tail _ hp ih => exact hnext _ ih _ (includes_boxExtracted hp) rfl

theorem clean_outer : CleanDeletion pythonLimits boxExtracted.db "outer" := by
  have hbound : ∀ e ∈ [(0, "outer"), (1, "dir"), (2, "box"), (3, "leaf")], e.1 ≤ 3 := by decide
  have hdir : ¬ boxExtracted.db.Shared "outer" "dir" := fun h =>
    absurd ((shared_iff_any rfl).mpr h) (by decide)
  have hbox : boxExtracted.db.Shared "outer" "box" := (shared_iff_any rfl).mp (by decide)
  have hleaf : boxExtracted.db.Shared "outer" "leaf" := (shared_iff_any rfl).mp (by decide)
  have hsecond : boxExtracted.db.Shared "outer" "second" := (shared_iff_any rfl).mp (by decide)
  have hbelow : ∀ u, TransGen boxExtracted.db.Includes "outer" u →
      u = "dir" ∨ u = "box" ∨ u = "leaf" := by
    intro u hu
    have hnames : ∀ e ∈ [(0, "outer"), (1, "dir"), (2, "box"), (3, "leaf")], e.1 ≠ 0 →
        e.2 = "dir" ∨ e.2 = "box" ∨ e.2 = "leaf" := by decide
    obtain ⟨n, hn⟩ := transGen_iff_steps.mp hu
    exact hnames _ (steps_boxExtracted hn) (Nat.succ_ne_zero n)
  refine ⟨⟨_, rfl, rfl⟩, fun n u hu => ?_, fun n u hu _ => ?_, fun u hu hshared => ?_,
    fun p u hp hpu hshared => ?_⟩
  · exact Nat.le_trans (hbound _ (steps_boxExtracted hu)) (by decide)
  · exact Nat.le_trans (Nat.add_le_add_right (hbound _ (steps_boxExtracted hu)) 2) (by decide)
  · rcases hbelow u hu with rfl | rfl | rfl
    · exact absurd hshared hdir
    · have hparent : ("second", "box") ∈ boxExtracted.db.includedFiles := by decide
      exact .inr ⟨"second", by decide, hparent, hsecond⟩
    · have hparent : ("box", "leaf") ∈ boxExtracted.db.includedFiles := by decide
      exact .inr ⟨"box", by decide, hparent, hbox⟩
  · rcases hbelow u (.tail hp hpu) with rfl | rfl | rfl
    · have := includes_boxExtracted hpu
      rcases hbelow p hp with rfl | rfl | rfl <;> simp at this
    · exact hbox
    · exact hleaf

/-- In the same state, the walk and the cascade agree about `outer`. -/
theorem outer_deleted_exactly : DeletesExactly pythonLimits boxExtracted.db "outer" :=
  (deletesExactly_iff run_boxExtracted pythonLimits (by decide)).mpr clean_outer

theorem complete_boxExtracted : boxExtracted.Complete boxContents 2 := by
  unfold UploadState.Complete
  decide

/-- Two images contain the same archive, which only `second` extracts. When `second` is deleted,
the file in the archive is sent although its row stays with its parent. -/
theorem depth_limit_keeps_row :
    ¬ ∀ (contents : Contents) (maxDepth : Nat) (fos : List FileObject) (s : UploadState),
      Run (UploadStep acceptAll contents maxDepth) UploadState.start fos s →
        s.Complete contents maxDepth → ∀ X ∈ s.db.firmware, DeletesExactly pythonLimits s.db X := by
  intro h
  have hexact := h _ _ _ _ run_boxExtracted complete_boxExtracted "second" (by decide)
  exact absurd ((hexact.sent "leaf").mp (by decide)) (by decide)

end FactCore
