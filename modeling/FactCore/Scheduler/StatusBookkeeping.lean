import FactCore.Scheduler.AnalysisStatus

/-!
# The bookkeeping of the running analyses

The counters and lists of `currently_running` under any sequence of the calls of
`src/src/scheduler/analysis_status.py`, each of which is atomic here. A file may
be added or removed several times, and a parent may be seen after its child.

Results:
1. `StatusOp.run_spec`: what a call does to what the tables say about each uid.
2. `Consistent.updatedAnalysis`, `Consistent.analyzedFile`: the counters keep
   fitting the lists.
3. `currentlyRunning_consistent`: this holds in every run, and a uid leaves
   `currently_running` only with its last file.
-/

namespace FactCore

/-! ## 1. Atomic calls -/

/-- A call whose sections follow each other without interruption. -/
def StatusOp.run (t : StatusTables) (now : Rat) (op : StatusOp) : Except PyException StatusTables :=
  op.sections.foldlM (fun t sec => sec.run t now) t

/-- The arguments of a call: a file does not include itself, the included files are distinct, and
only a firmware is updated. -/
def StatusOp.Valid : StatusOp → Prop
  | .addToCurrentAnalyses fwObject =>
    fwObject.filesIncluded.Nodup ∧ fwObject.uid ∉ fwObject.filesIncluded
  | .addUpdateToCurrentAnalyses fwObject includedFiles =>
    fwObject.isFirmware = true ∧ includedFiles.Nodup ∧ fwObject.uid ∉ includedFiles
  | .removeFromCurrentAnalyses _ => True
  | .clearRecentlyFinished => True

/-- A call at some time. -/
def StatusCall (t : StatusTables) (call : StatusOp × Rat) (t' : StatusTables) : Prop :=
  call.1.run t call.2 = .ok t'

/-- The counters of an entry fit its lists. -/
structure RunningAnalysis.Fits (entry : RunningAnalysis) : Prop where
  unpackNodup : entry.filesToUnpack.Nodup
  analyzeNodup : entry.filesToAnalyze.Nodup
  disjoint : ∀ uid ∈ entry.filesToUnpack, uid ∉ entry.filesToAnalyze
  total : entry.totalFilesCount = entry.unpackedFilesCount + entry.filesToUnpack.length
  unpacked : entry.unpackedFilesCount = entry.analyzedFilesCount + entry.filesToAnalyze.length

/-- Moreover, there is something left to do. -/
structure RunningAnalysis.Consistent (entry : RunningAnalysis) : Prop extends entry.Fits where
  nonempty : entry.filesToUnpack ≠ [] ∨ entry.filesToAnalyze ≠ []

/-- The call removes the last file of `uid`: both lists of its entry become empty, and the entry
moves to `recently_finished` with all files unpacked and analysed. -/
structure RemovesLastFile (t : StatusTables) (op : StatusOp) (now : Rat) (t' : StatusTables)
    (uid : Uid) (fwObject : FileObject) (entry : RunningAnalysis) : Prop where
  call : op = .removeFromCurrentAnalyses fwObject
  stored : t.currentlyRunning.get? uid = some entry
  unpackEmpty : (analyzedFile fwObject entry).filesToUnpack = []
  analyzeEmpty : (analyzedFile fwObject entry).filesToAnalyze = []
  analyzed : (analyzedFile fwObject entry).analyzedFilesCount =
    (analyzedFile fwObject entry).unpackedFilesCount
  unpacked : (analyzedFile fwObject entry).unpackedFilesCount =
    (analyzedFile fwObject entry).totalFilesCount
  finished : t'.recentlyFinished.get? uid =
    some (initRecentlyFinished (analyzedFile fwObject entry) now)

/-! ## 2. What a call does -/

/-- The entry of a firmware whose update is registered. -/
def initUpdatedAnalysis (fwObject : FileObject) (fw : FirmwareMeta) (includedFiles : List Uid)
    (now : Rat) : RunningAnalysis :=
  { initCurrentAnalysis fwObject fw now with
    filesToUnpack := []
    unpackedFilesCount := includedFiles.length + 1
    totalFilesCount := includedFiles.length + 1
    filesToAnalyze := fwObject.uid :: includedFiles }

section Calls
variable {t t' : StatusTables}

theorem addUpdate_spec (t : StatusTables) (now : Rat) {fwObject : FileObject} {fw : FirmwareMeta}
    (h : fwObject.firmware = some fw) (includedFiles : List Uid) :
    ∃ t', StatusOp.run t now (.addUpdateToCurrentAnalyses fwObject includedFiles) = .ok t' ∧
      ∀ u, t'.standing u = if u = fwObject.uid then
        { t.standing u with running := some (initUpdatedAnalysis fwObject fw includedFiles now) }
        else t.standing u := by
  obtain ⟨t1, h1, hview1⟩ := @addToCurrent_firmware t now fwObject fw h
  have hget : t1.currentlyRunning.get? fwObject.uid =
      some (initCurrentAnalysis fwObject fw now) := by
    have := congrArg Standing.running (hview1 fwObject.uid)
    rwa [if_pos rfl] at this
  refine ⟨t1.setRunning fwObject.uid (initUpdatedAnalysis fwObject fw includedFiles now), ?_,
    fun u => ?_⟩
  · unfold StatusOp.run StatusOp.sections
    rw [List.foldlM_cons, h1]
    show setUpdateCounts t1 fwObject.uid includedFiles >>= pure = _
    unfold setUpdateCounts StatusTables.lookup
    rw [hget]
    rfl
  · rw [standing_setRunning, hview1]
    split <;> rfl

/-- What a call does to what the tables say about `uid`; `clear_recently_finished` is left out. -/
def StatusOp.change (op : StatusOp) (now : Rat) (uid : Uid) (s : Standing) : Standing :=
  match op with
  | .addToCurrentAnalyses fwObject =>
    match fwObject.firmware with
    | some fw =>
      if uid = fwObject.uid then { s with running := some (initCurrentAnalysis fwObject fw now) }
      else s
    | none => if fwObject.ReportsTo uid then s.addFile fwObject else s
  | .addUpdateToCurrentAnalyses fwObject includedFiles =>
    match fwObject.firmware with
    | some fw =>
      if uid = fwObject.uid then
        { s with running := some (initUpdatedAnalysis fwObject fw includedFiles now) }
      else s
    | none => s
  | .removeFromCurrentAnalyses fwObject =>
    if fwObject.ReportsTo uid then s.removeFile fwObject now else s
  | .clearRecentlyFinished => s

theorem run_singleton (t : StatusTables) (now : Rat) (sec : Section) :
    [sec].foldlM (fun t sec => Section.run t now sec) t = sec.run t now := by
  rw [List.foldlM_cons]
  cases sec.run t now <;> rfl

/-- A call with valid arguments raises nothing, and changes what the tables say about each uid as
`change` says. -/
theorem StatusOp.run_spec (t : StatusTables) (now : Rat) (op : StatusOp) (hop : op.Valid)
    (hclear : op ≠ .clearRecentlyFinished) :
    ∃ t', op.run t now = .ok t' ∧ ∀ u, t'.standing u = op.change now u (t.standing u) := by
  cases op with
  | addToCurrentAnalyses fwObject =>
    unfold StatusOp.run StatusOp.sections
    rw [run_singleton]
    cases hfw : fwObject.firmware with
    | some fw =>
      simp only [StatusOp.change, hfw]
      exact addToCurrent_firmware now hfw
    | none =>
      simp only [StatusOp.change, hfw]
      exact addToCurrent_file now hfw
  | addUpdateToCurrentAnalyses fwObject includedFiles =>
    obtain ⟨fw, hfw⟩ := FileObject.isFirmware_iff.mp hop.1
    simp only [StatusOp.change, hfw]
    exact addUpdate_spec t now hfw includedFiles
  | removeFromCurrentAnalyses fwObject =>
    unfold StatusOp.run StatusOp.change StatusOp.sections
    rw [run_singleton]
    exact removeFromCurrent_spec t now fwObject
  | clearRecentlyFinished => exact absurd rfl hclear

/-- Clearing the other table leaves the running analyses alone. -/
theorem clearRecentlyFinished_run (t : StatusTables) (now : Rat) :
    ∃ t', StatusOp.run t now .clearRecentlyFinished = .ok t' ∧
      t'.currentlyRunning = t.currentlyRunning := by
  unfold StatusOp.run StatusOp.sections
  rw [run_singleton]
  exact ⟨_, rfl, rfl⟩

end Calls

/-! ## 3. The counters fit the lists -/

namespace RunningAnalysis

variable {entry : RunningAnalysis} {fwObject : FileObject} {fw : FirmwareMeta}
  {includedFiles : List Uid} {now : Rat}

theorem Consistent.initCurrentAnalysis (hn : fwObject.filesIncluded.Nodup)
    (hself : fwObject.uid ∉ fwObject.filesIncluded) :
    (FactCore.initCurrentAnalysis fwObject fw now).Consistent where
  unpackNodup := hn
  analyzeNodup := List.nodup_singleton _
  disjoint _ hu hmem := hself (List.mem_singleton.mp hmem ▸ hu)
  total := rfl
  unpacked := rfl
  nonempty := .inr (List.cons_ne_nil _ _)

theorem Consistent.initUpdatedAnalysis (hn : includedFiles.Nodup)
    (hself : fwObject.uid ∉ includedFiles) :
    (FactCore.initUpdatedAnalysis fwObject fw includedFiles now).Consistent where
  unpackNodup := List.nodup_nil
  analyzeNodup := List.nodup_cons.mpr ⟨hself, hn⟩
  disjoint _ hu := absurd hu List.not_mem_nil
  total := rfl
  unpacked := (Nat.zero_add _).symm
  nonempty := .inr (List.cons_ne_nil _ _)

/-- The files that an object adds to `files_to_unpack`. -/
def newFiles (entry : RunningAnalysis) (fwObject : FileObject) : List Uid :=
  fwObject.filesIncluded.dedup.filter fun uid =>
    decide (uid ∉ entry.filesToUnpack ∧ uid ∉ entry.filesToAnalyze)

theorem mem_newFiles {u : Uid} : u ∈ entry.newFiles fwObject ↔
    u ∈ fwObject.filesIncluded ∧ u ∉ entry.filesToUnpack ∧ u ∉ entry.filesToAnalyze := by
  rw [newFiles, List.mem_filter, List.mem_dedup, decide_eq_true_iff]

/-- The lists together hold every file at most once, also with the new files. -/
theorem Fits.append_newFiles (h : entry.Fits) (fwObject : FileObject) :
    (entry.filesToUnpack ++ entry.newFiles fwObject).Nodup ∧
      ∀ u ∈ entry.filesToUnpack ++ entry.newFiles fwObject, u ∉ entry.filesToAnalyze := by
  constructor
  · exact h.unpackNodup.append ((List.nodup_dedup _).filter _) fun _ hu hu' =>
      (mem_newFiles.mp hu').2.1 hu
  · intro u hu
    rcases List.mem_append.mp hu with hu | hu
    · exact h.disjoint u hu
    · exact (mem_newFiles.mp hu).2.2

/-- What `_update_current_analysis` makes of a fitting entry. -/
theorem updatedAnalysis_eq (h : entry.Fits) : updatedAnalysis fwObject entry =
    if fwObject.uid ∈ entry.filesToUnpack ++ entry.newFiles fwObject then
      { entry with
        totalFilesCount := entry.totalFilesCount + (entry.newFiles fwObject).length
        filesToUnpack := (entry.filesToUnpack ++ entry.newFiles fwObject).erase fwObject.uid
        filesToAnalyze := entry.filesToAnalyze ++ [fwObject.uid]
        unpackedFilesCount := entry.unpackedFilesCount + 1 }
    else
      { entry with
        totalFilesCount := entry.totalFilesCount + (entry.newFiles fwObject).length
        filesToUnpack := entry.filesToUnpack ++ entry.newFiles fwObject } := by
  have hfiles : (entry.filesToUnpack ++ entry.newFiles fwObject).dedup =
      entry.filesToUnpack ++ entry.newFiles fwObject :=
    List.dedup_eq_self.mpr (h.append_newFiles fwObject).1
  rw [← hfiles]
  rfl

/-- The lists after a file came from unpacking. -/
theorem mem_updatedAnalysis (h : entry.Fits) {u : Uid} :
    (u ∈ (updatedAnalysis fwObject entry).filesToUnpack ↔
      (u ∈ entry.filesToUnpack ∨ u ∈ entry.newFiles fwObject) ∧ u ≠ fwObject.uid) ∧
    (u ∈ (updatedAnalysis fwObject entry).filesToAnalyze ↔ u ∈ entry.filesToAnalyze ∨
      ((u ∈ entry.filesToUnpack ∨ u ∈ entry.newFiles fwObject) ∧ u = fwObject.uid)) := by
  have hn := (h.append_newFiles fwObject).1
  rw [updatedAnalysis_eq h]
  split
  · next hmem =>
    dsimp only
    rw [hn.mem_erase_iff, List.mem_append, List.mem_append, List.mem_singleton]
    rw [List.mem_append] at hmem
    refine ⟨and_comm, or_congr_right (iff_and_self.mpr ?_)⟩
    rintro rfl
    exact hmem
  · next hnot =>
    have hne : u ∈ entry.filesToUnpack ++ entry.newFiles fwObject → u ≠ fwObject.uid :=
      fun hu heq => hnot (heq ▸ hu)
    dsimp only
    rw [← List.mem_append]
    exact ⟨(and_iff_left_of_imp hne).symm, (or_iff_left fun hu => hne hu.1 hu.2).symm⟩

theorem mem_analyzedFile {u : Uid} : u ∈ (analyzedFile fwObject entry).filesToAnalyze ↔
    u ∈ entry.filesToAnalyze ∧ u ≠ fwObject.uid := by
  simp [analyzedFile]

/-- Every new file is counted once, and a file that came from unpacking moves to the other list. -/
theorem Consistent.updatedAnalysis (h : entry.Consistent) :
    (FactCore.updatedAnalysis fwObject entry).Consistent := by
  obtain ⟨hn, hdisj⟩ := h.append_newFiles fwObject
  have htotal := h.total
  have hunpacked := h.unpacked
  rw [updatedAnalysis_eq h.toFits]
  split
  · next hmem =>
    have hlen := List.length_erase_of_mem hmem
    have hpos := List.length_pos_of_mem hmem
    rw [List.length_append] at hlen hpos
    refine ⟨⟨hn.erase _, ?_, fun u hu => ?_, ?_, ?_⟩, .inr (by simp)⟩
    · refine h.analyzeNodup.append (List.nodup_singleton _) fun _ hu hu' => ?_
      rw [List.mem_singleton.mp hu'] at hu
      exact hdisj _ hmem hu
    · obtain ⟨hne, hu⟩ := hn.mem_erase_iff.mp hu
      rw [List.mem_append, List.mem_singleton, not_or]
      exact ⟨hdisj u hu, hne⟩
    · dsimp only
      rw [hlen]
      omega
    · dsimp only
      rw [List.length_append, List.length_singleton]
      omega
  · refine ⟨⟨hn, h.analyzeNodup, hdisj, ?_, hunpacked⟩, ?_⟩
    · dsimp only
      rw [List.length_append]
      omega
    · exact h.nonempty.imp_left fun hne => List.append_ne_nil_of_left_ne_nil hne _

/-- Removing a file that is there keeps the counters fitting. -/
theorem Fits.analyzedFile (h : entry.Fits) (hmem : fwObject.uid ∈ entry.filesToAnalyze) :
    (FactCore.analyzedFile fwObject entry).Fits := by
  have hfiles : (FactCore.analyzedFile fwObject entry).filesToAnalyze =
      entry.filesToAnalyze.erase fwObject.uid := by
    rw [h.analyzeNodup.erase_eq_filter, FactCore.analyzedFile, List.dedup_eq_self.mpr h.analyzeNodup]
    refine List.filter_congr fun u _ => ?_
    rcases Decidable.em (u = fwObject.uid) with heq | hne
    · simp [heq]
    · simp [hne]
  have hlen := List.length_erase_of_mem hmem
  have hpos := List.length_pos_of_mem hmem
  have hunpacked := h.unpacked
  refine ⟨h.unpackNodup, ?_, fun u hu hu' => ?_, h.total, ?_⟩
  · rw [hfiles]
    exact h.analyzeNodup.erase _
  · rw [hfiles] at hu'
    exact h.disjoint u hu (List.mem_of_mem_erase hu')
  · rw [hfiles, hlen]
    show entry.unpackedFilesCount = entry.analyzedFilesCount + 1 + _
    omega

end RunningAnalysis

/-! ## 4. One call -/

/-- The entry of the uid, if there is one, is consistent. -/
def Standing.Consistent (s : Standing) : Prop := ∀ entry, s.running = some entry → entry.Consistent

section Change
variable {s : Standing} {op : StatusOp} {now : Rat} {uid : Uid} {fwObject : FileObject}
  {entry : RunningAnalysis}

theorem Standing.Consistent.ofRunning (h : entry.Consistent) :
    Standing.Consistent { s with running := some entry } := by
  rintro entry' hentry'
  obtain rfl := Option.some.inj hentry'
  exact h

theorem Standing.Consistent.addFile (h : s.Consistent) : (s.addFile fwObject).Consistent := by
  intro entry' hentry'
  obtain ⟨entry, hentry, rfl⟩ := Option.map_eq_some_iff.mp hentry'
  exact (h entry hentry).updatedAnalysis

/-- A removal leaves a consistent entry alone, shortens it, or takes it away with its last file. -/
theorem removeFile_cases (fwObject : FileObject) (now : Rat) (hs : s.running = some entry)
    (h : entry.Consistent) :
    (fwObject.uid ∉ entry.filesToAnalyze ∧ s.removeFile fwObject now = s) ∨
      ((analyzedFile fwObject entry).Consistent ∧
        s.removeFile fwObject now = { s with running := some (analyzedFile fwObject entry) }) ∨
      ((analyzedFile fwObject entry).Fits ∧
        (analyzedFile fwObject entry).filesToUnpack = [] ∧
        (analyzedFile fwObject entry).filesToAnalyze = [] ∧
        s.removeFile fwObject now =
          ⟨none, some (initRecentlyFinished (analyzedFile fwObject entry) now)⟩) := by
  unfold Standing.removeFile
  rw [hs]
  dsimp only
  split
  · next hnot => exact .inl ⟨hnot, rfl⟩
  · next hmem =>
    have hfits := h.toFits.analyzedFile (not_not.mp hmem)
    split
    · next hempty => exact .inr (.inr ⟨hfits, hempty.1, hempty.2, rfl⟩)
    · next hleft => exact .inr (.inl ⟨⟨hfits, not_and_or.mp hleft⟩, rfl⟩)

theorem Standing.Consistent.removeFile (h : s.Consistent) :
    (s.removeFile fwObject now).Consistent := by
  rcases Option.eq_none_or_eq_some s.running with hs | ⟨entry, hs⟩
  · rwa [removeFile_of_none fwObject now hs]
  · rcases removeFile_cases fwObject now hs (h entry hs) with ⟨-, heq⟩ | ⟨hcons, heq⟩ | ⟨-, -, -, heq⟩ <;>
      rw [heq]
    · exact h
    · exact .ofRunning hcons
    · exact nofun

/-- A valid call keeps an entry consistent, and makes consistent entries. -/
theorem Standing.Consistent.change (h : s.Consistent) (hop : op.Valid) :
    (op.change now uid s).Consistent := by
  cases op with
  | addToCurrentAnalyses fwObject =>
    cases hfw : fwObject.firmware with
    | some fw =>
      simp only [StatusOp.change, hfw]
      split
      · exact .ofRunning (.initCurrentAnalysis hop.1 hop.2)
      · exact h
    | none =>
      simp only [StatusOp.change, hfw]
      split
      · exact h.addFile
      · exact h
  | addUpdateToCurrentAnalyses fwObject includedFiles =>
    cases hfw : fwObject.firmware with
    | some fw =>
      simp only [StatusOp.change, hfw]
      split
      · exact .ofRunning (.initUpdatedAnalysis hop.2.1 hop.2.2)
      · exact h
    | none =>
      simp only [StatusOp.change, hfw]
      exact h
  | removeFromCurrentAnalyses fwObject =>
    simp only [StatusOp.change]
    split
    · exact h.removeFile
    · exact h
  | clearRecentlyFinished => exact h

/-- Only a removal takes an entry away, and only with its last file. -/
theorem change_leaves (h : entry.Consistent) (hs : s.running = some entry)
    (hgone : (op.change now uid s).running = none) :
    ∃ fwObject, op = .removeFromCurrentAnalyses fwObject ∧
      (analyzedFile fwObject entry).Fits ∧
      (analyzedFile fwObject entry).filesToUnpack = [] ∧
      (analyzedFile fwObject entry).filesToAnalyze = [] ∧
      op.change now uid s =
        ⟨none, some (initRecentlyFinished (analyzedFile fwObject entry) now)⟩ := by
  cases op with
  | addToCurrentAnalyses fwObject =>
    cases hfw : fwObject.firmware <;> simp only [StatusOp.change, hfw] at hgone <;> split at hgone <;>
      simp [Standing.addFile, hs] at hgone
  | addUpdateToCurrentAnalyses fwObject includedFiles =>
    cases hfw : fwObject.firmware with
    | some fw =>
      simp only [StatusOp.change, hfw] at hgone
      split at hgone <;> simp [hs] at hgone
    | none => simp [StatusOp.change, hfw, hs] at hgone
  | removeFromCurrentAnalyses fwObject =>
    simp only [StatusOp.change] at hgone ⊢
    split at hgone
    · next hrep =>
      rw [if_pos hrep]
      rcases removeFile_cases fwObject now hs h with ⟨-, heq⟩ | ⟨-, heq⟩ | hlast
      · simp [heq, hs] at hgone
      · simp [heq] at hgone
      · exact ⟨fwObject, rfl, hlast⟩
    · simp [hs] at hgone
  | clearRecentlyFinished => simp [StatusOp.change, hs] at hgone

end Change

/-! ## 5. Whole runs -/

/-- Every entry of `currently_running` is consistent. -/
def StatusTables.Consistent (t : StatusTables) : Prop := ∀ uid, (t.standing uid).Consistent

/-- A valid call keeps the tables consistent. -/
theorem StatusTables.Consistent.call {t t' : StatusTables} {op : StatusOp} {now : Rat}
    (h : t.Consistent) (hop : op.Valid) (hrun : op.run t now = .ok t') : t'.Consistent := by
  intro uid
  cases op with
  | clearRecentlyFinished =>
    obtain ⟨t'', hrun', hsame⟩ := clearRecentlyFinished_run t now
    obtain rfl := Except.ok.inj (hrun.symm.trans hrun')
    intro entry hentry
    refine h uid entry ?_
    unfold StatusTables.standing at hentry ⊢
    rwa [hsame] at hentry
  | _ =>
    obtain ⟨t'', hrun', hchange⟩ := StatusOp.run_spec t now _ hop nofun
    obtain rfl := Except.ok.inj (hrun.symm.trans hrun')
    rw [hchange]
    exact (h uid).change hop

/-- A uid that a valid call takes out of consistent tables is finished. -/
theorem removesLastFile_of_leaves {t t' : StatusTables} {op : StatusOp} {now : Rat} {uid : Uid}
    (h : t.Consistent) (hop : op.Valid) (hrun : op.run t now = .ok t')
    (hmem : uid ∈ t.currentlyRunning) (hgone : uid ∉ t'.currentlyRunning) :
    ∃ fwObject entry, RemovesLastFile t op now t' uid fwObject entry := by
  obtain ⟨entry, hentry⟩ := Dict.mem_iff.mp hmem
  have hnone : t'.currentlyRunning.get? uid = none := Dict.get?_eq_none_iff.mpr hgone
  have hleaves : op ≠ .clearRecentlyFinished → ∃ fwObject entry,
      RemovesLastFile t op now t' uid fwObject entry := by
    intro hne
    obtain ⟨t'', hrun', hchange⟩ := StatusOp.run_spec t now _ hop hne
    obtain rfl := Except.ok.inj (hrun.symm.trans hrun')
    have hrunning : (op.change now uid (t.standing uid)).running = none :=
      (congrArg Standing.running (hchange uid)).symm.trans hnone
    obtain ⟨fwObject, rfl, hfits, hunpack, hanalyze, heq⟩ :=
      change_leaves (h uid entry hentry) hentry hrunning
    have htotal := hfits.total
    have hunpacked := hfits.unpacked
    rw [hunpack] at htotal
    rw [hanalyze] at hunpacked
    exact ⟨fwObject, entry, rfl, hentry, hunpack, hanalyze, hunpacked.symm, htotal.symm,
      (congrArg Standing.finished (hchange uid)).trans (congrArg Standing.finished heq)⟩
  cases op with
  | clearRecentlyFinished =>
    obtain ⟨t'', hrun', hsame⟩ := clearRecentlyFinished_run t now
    obtain rfl := Except.ok.inj (hrun.symm.trans hrun')
    exact absurd (hsame ▸ hmem) hgone
  | _ => exact hleaves nofun

/-- In every run of valid calls the entries of `currently_running` are consistent; the next valid
call raises nothing, and takes a uid out of `currently_running` only with its last file. -/
theorem currentlyRunning_consistent {calls : List (StatusOp × Rat)} {t : StatusTables}
    (h : Run (Restrict (fun _ call => call.1.Valid) StatusCall) ⟨∅, ∅⟩ calls t) :
    (∀ uid entry, t.currentlyRunning.get? uid = some entry → entry.Consistent) ∧
      ∀ op now, op.Valid → ∃ t', op.run t now = .ok t' ∧
        ∀ uid ∈ t.currentlyRunning, uid ∉ t'.currentlyRunning →
          ∃ fwObject entry, RemovesLastFile t op now t' uid fwObject entry := by
  have hcons : t.Consistent :=
    h.invariant (fun _ _ _ hs hst => hs.call hst.1 hst.2) fun _ _ hentry => nomatch hentry
  refine ⟨hcons, fun op now hop => ?_⟩
  obtain ⟨t', hrun⟩ : ∃ t', op.run t now = .ok t' := by
    cases op with
    | clearRecentlyFinished => exact (clearRecentlyFinished_run t now).imp fun _ => And.left
    | _ => exact (StatusOp.run_spec t now _ hop nofun).imp fun _ => And.left
  exact ⟨t', hrun, fun uid hmem hgone => removesLastFile_of_leaves hcons hop hrun hmem hgone⟩

/-- An image that includes a file, as the unpacking leaves it. -/
def unpackedImage : FileObject := { outerImage with filesIncluded := ["inner"] }

/-- Two images with the same file are unpacked at once, and the file is reported twice. -/
def sharedFileCalls : List (StatusOp × Rat) :=
  [(.addToCurrentAnalyses unpackedImage, 1),
    (.addToCurrentAnalyses { secondImage with filesIncluded := ["inner"] }, 2),
    (.addToCurrentAnalyses innerFile, 3), (.addToCurrentAnalyses innerFileAgain, 4),
    (.addToCurrentAnalyses innerFile, 5), (.removeFromCurrentAnalyses unpackedImage, 6)]

theorem shared_file_consistent : ∃ t : StatusTables,
    Run (Restrict (fun _ call => call.1.Valid) StatusCall) ⟨∅, ∅⟩ sharedFileCalls t ∧
    (∀ uid entry, t.currentlyRunning.get? uid = some entry → entry.Consistent) ∧
      ∀ op now, op.Valid → ∃ t', op.run t now = .ok t' ∧
        ∀ uid ∈ t.currentlyRunning, uid ∉ t'.currentlyRunning →
          ∃ fwObject entry, RemovesLastFile t op now t' uid fwObject entry := by
  have hrun : Run (Restrict (fun _ call => call.1.Valid) StatusCall) ⟨∅, ∅⟩ sharedFileCalls _ :=
    .cons ⟨⟨by decide, by decide⟩, rfl⟩ <| .cons ⟨⟨by decide, by decide⟩, rfl⟩ <|
    .cons ⟨⟨by decide, by decide⟩, rfl⟩ <| .cons ⟨⟨by decide, by decide⟩, rfl⟩ <|
    .cons ⟨⟨by decide, by decide⟩, rfl⟩ <| .cons ⟨trivial, rfl⟩ (.nil _)
  exact ⟨_, hrun, currentlyRunning_consistent hrun⟩

end FactCore
