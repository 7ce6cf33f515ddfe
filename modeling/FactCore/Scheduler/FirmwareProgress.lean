import Mathlib.Logic.Relation
import FactCore.Scheduler.StatusBookkeeping

/-!
# The progress of one firmware

The analysis of a new firmware, as `AnalysisStatus` sees it: the firmware is added
first, an extracted file after the archive it was extracted from, and every object
is removed when its analysis is complete. The same file may occur in several
archives; each occurrence is an object of its own, and the occurrences are added and
removed in any order.

Results:
1. `Tracks.addFile`, `Tracks.removeFile`: which occurrences are behind the lists of
   the entry.
2. `completion_exact`: the firmware is reported as finished only when every file
   below it was added and removed, and it is when all occurrences were.
-/

open Relation (TransGen)

namespace FactCore

/-! ## 1. Occurrences and their order -/

/-- The occurrences of files below one firmware. All occurrences of a file include the same files,
and the firmware itself occurs once. -/
structure Extraction (ι : Type) where
  root : ι
  object : ι → FileObject
  /-- The occurrence that an occurrence was extracted from. -/
  origin : ι → Option ι
  isFirmware : (object root).isFirmware = true
  origin_root : origin root = none
  extracted : ∀ o, o ≠ root → ∃ p, origin o = some p ∧ (object o).uid ∈ (object p).filesIncluded
  isFile : ∀ o, o ≠ root → (object o).firmware = none
  roots : ∀ o, o ≠ root → (object o).parentFirmwareUids = [(object root).uid]
  occurs : ∀ p, ∀ uid ∈ (object p).filesIncluded, ∃ o, origin o = some p ∧ (object o).uid = uid
  included_nodup : ∀ o, (object o).filesIncluded.Nodup
  not_self : ∀ o, (object o).uid ∉ (object o).filesIncluded
  sameFiles : ∀ o o', (object o).uid = (object o').uid →
    ∀ uid ∈ (object o).filesIncluded, uid ∈ (object o').filesIncluded
  rootOnce : ∀ o, o ≠ root → (object o).uid ≠ (object root).uid

namespace Extraction

variable {ι : Type}

/-- The uid of the firmware. -/
def rootUid (x : Extraction ι) : Uid := (x.object x.root).uid

/-- The file `child` is included in the file `parent`. -/
def Includes (x : Extraction ι) (parent child : Uid) : Prop :=
  ∃ o, (x.object o).uid = parent ∧ child ∈ (x.object o).filesIncluded

/-- The file is transitively included in the firmware. -/
def Below (x : Extraction ι) (uid : Uid) : Prop := TransGen x.Includes x.rootUid uid

end Extraction

/-- The tables, and the occurrences that were added and removed so far. -/
structure ProgressState (ι : Type) where
  tables : StatusTables
  added : List ι
  removed : List ι

/-- A call for an occurrence, at some time. -/
inductive ProgressEvent (ι : Type)
  | add (o : ι) (now : Rat)
  | remove (o : ι) (now : Rat)

/-- The calls of one analysis. -/
inductive ProgressStep {ι : Type} (x : Extraction ι) :
    ProgressState ι → ProgressEvent ι → ProgressState ι → Prop
  /-- The firmware is added first, and once. -/
  | addRoot {s : ProgressState ι} {now : Rat} {t : StatusTables} : s.added = [] →
      StatusOp.run s.tables now (.addToCurrentAnalyses (x.object x.root)) = .ok t →
      ProgressStep x s (.add x.root now) { s with tables := t, added := [x.root] }
  /-- An extracted file is added after the occurrence it was extracted from. -/
  | add {s : ProgressState ι} {now : Rat} {t : StatusTables} {o p : ι} : x.origin o = some p →
      p ∈ s.added → o ∉ s.added →
      StatusOp.run s.tables now (.addToCurrentAnalyses (x.object o)) = .ok t →
      ProgressStep x s (.add o now) { s with tables := t, added := o :: s.added }
  /-- An occurrence is removed after it was added. -/
  | remove {s : ProgressState ι} {now : Rat} {t : StatusTables} {o : ι} : o ∈ s.added →
      o ∉ s.removed → StatusOp.run s.tables now (.removeFromCurrentAnalyses (x.object o)) = .ok t →
      ProgressStep x s (.remove o now) { s with tables := t, removed := o :: s.removed }

/-- The file was added and removed at least once. -/
def ProgressState.Analyzed {ι : Type} (x : Extraction ι) (s : ProgressState ι) (uid : Uid) : Prop :=
  (∃ o ∈ s.added, (x.object o).uid = uid) ∧ ∃ o ∈ s.removed, (x.object o).uid = uid

/-- Every file below the firmware was added and removed at least once. -/
def ProgressState.AllAnalyzed {ι : Type} (x : Extraction ι) (s : ProgressState ι) : Prop :=
  ∀ uid, x.Below uid → s.Analyzed x uid

/-- The completion of the analysis that started with the tables `t0` is reported neither too early
nor never. -/
structure CompletionExact {ι : Type} (x : Extraction ι) (t0 : StatusTables) (s : ProgressState ι) :
    Prop where
  /-- Once added, the firmware leaves `currently_running` for `recently_finished`, and only with
  all files analysed. -/
  moved : s.added ≠ [] → x.rootUid ∉ s.tables.currentlyRunning →
    x.rootUid ∈ s.tables.recentlyFinished ∧ s.AllAnalyzed x
  finished : x.rootUid ∈ s.tables.recentlyFinished →
    x.rootUid ∈ t0.recentlyFinished ∨ s.AllAnalyzed x
  complete : (∀ o, o ∈ s.added ∧ o ∈ s.removed) →
    x.rootUid ∈ s.tables.recentlyFinished ∧ x.rootUid ∉ s.tables.currentlyRunning

/-! ## 2. The invariant -/

/-- What is behind the entry of the firmware: a file that is to be unpacked has an occurrence that
waits for being added, a file that is to be analysed has one that waits for being removed, and
every file of an added occurrence is in a list or was analysed. -/
structure Tracks {ι : Type} (x : Extraction ι) (s : ProgressState ι) (entry : RunningAnalysis) :
    Prop where
  unpack : ∀ u ∈ entry.filesToUnpack, ∃ o p, x.origin o = some p ∧ (x.object o).uid = u ∧
    p ∈ s.added ∧ o ∉ s.added
  analyze : ∀ u ∈ entry.filesToAnalyze, ∃ o ∈ s.added, (x.object o).uid = u ∧ o ∉ s.removed
  covered : ∀ o ∈ s.added, ∀ u ∈ (x.object o).filesIncluded,
    u ∈ entry.filesToUnpack ∨ u ∈ entry.filesToAnalyze ∨ s.Analyzed x u

/-- The invariant of the analysis. -/
structure ProgressInv {ι : Type} (x : Extraction ι) (t0 : StatusTables) (s : ProgressState ι) :
    Prop where
  start : s.added = [] → s.tables = t0
  root : s.added ≠ [] → x.root ∈ s.added
  closed : ∀ o ∈ s.added, ∀ p, x.origin o = some p → p ∈ s.added
  removed : ∀ o ∈ s.removed, o ∈ s.added
  standing : s.added ≠ [] →
    (∃ entry, s.tables.standing x.rootUid = ⟨some entry, t0.recentlyFinished.get? x.rootUid⟩ ∧
      entry.Consistent ∧ Tracks x s entry) ∨
    ∃ finished, s.tables.standing x.rootUid = ⟨none, some finished⟩ ∧ s.AllAnalyzed x

section Progress
variable {ι : Type} {x : Extraction ι} {s s' : ProgressState ι} {t0 t : StatusTables}
  {entry : RunningAnalysis} {o p : ι} {now : Rat}

theorem Extraction.ne_root (h : x.origin o = some p) : o ≠ x.root := by
  rintro rfl
  rw [x.origin_root] at h
  cases h

theorem Extraction.reportsTo (h : o ≠ x.root) : (x.object o).ReportsTo x.rootUid := by
  simp [FileObject.ReportsTo, FileObject.isFirmware, x.isFile o h, x.roots o h, rootUid]

theorem Extraction.root_reportsTo (x : Extraction ι) : (x.object x.root).ReportsTo x.rootUid := by
  simp [FileObject.ReportsTo, x.isFirmware, rootUid]

theorem ProgressState.Analyzed.mono {uid : Uid} (h : s.Analyzed x uid)
    (hadded : ∀ o ∈ s.added, o ∈ s'.added) (hremoved : ∀ o ∈ s.removed, o ∈ s'.removed) :
    s'.Analyzed x uid := by
  obtain ⟨⟨o, ho, huid⟩, o', ho', huid'⟩ := h
  exact ⟨⟨o, hadded o ho, huid⟩, o', hremoved o' ho', huid'⟩

/-- When both lists are empty, every file below the firmware was analysed. -/
theorem Tracks.allAnalyzed (h : Tracks x s entry) (hroot : x.root ∈ s.added)
    (hunpack : entry.filesToUnpack = []) (hanalyze : entry.filesToAnalyze = []) :
    s.AllAnalyzed x := by
  have hcovered : ∀ o ∈ s.added, ∀ u ∈ (x.object o).filesIncluded, s.Analyzed x u := by
    intro o ho u hu
    rcases h.covered o ho u hu with hmem | hmem | hdone
    · rw [hunpack] at hmem
      cases hmem
    · rw [hanalyze] at hmem
      cases hmem
    · exact hdone
  intro uid hbelow
  induction hbelow with
  | single hincl =>
    obtain ⟨o, ho, hu⟩ := hincl
    exact hcovered x.root hroot _ (x.sameFiles o x.root ho _ hu)
  | tail _ hincl ih =>
    -- some occurrence of the parent was added, and it includes the same files
    obtain ⟨o, ho, hu⟩ := hincl
    obtain ⟨⟨o', ho', huid⟩, -⟩ := ih
    exact hcovered o' ho' _ (x.sameFiles o o' (ho.trans huid.symm) _ hu)

/-- An entry of which nothing is left to add or to remove does not exist. -/
theorem Tracks.not_complete (h : Tracks x s entry) (hentry : entry.Consistent)
    (hall : ∀ o, o ∈ s.added ∧ o ∈ s.removed) : False := by
  rcases hentry.nonempty with hne | hne
  · obtain ⟨u, hu⟩ := List.exists_mem_of_ne_nil _ hne
    obtain ⟨o, p, -, -, -, hnot⟩ := h.unpack u hu
    exact hnot (hall o).1
  · obtain ⟨u, hu⟩ := List.exists_mem_of_ne_nil _ hne
    obtain ⟨o, -, -, hnot⟩ := h.analyze u hu
    exact hnot (hall o).2

/-! ## 3. One step -/

/-- The entry of a firmware that was just added. -/
theorem Tracks.init {fw : FirmwareMeta} (hremoved : x.root ∉ s.removed) :
    Tracks x { s with tables := t, added := [x.root] }
      (initCurrentAnalysis (x.object x.root) fw now) where
  unpack u hu := by
    obtain ⟨o, horigin, huid⟩ := x.occurs x.root u hu
    refine ⟨o, x.root, horigin, huid, List.mem_singleton_self _, fun hmem => ?_⟩
    exact Extraction.ne_root horigin (List.mem_singleton.mp hmem)
  analyze u hu := by
    obtain rfl := List.mem_singleton.mp hu
    exact ⟨x.root, List.mem_singleton_self _, rfl, hremoved⟩
  covered o ho u hu := by
    obtain rfl := List.mem_singleton.mp ho
    exact .inl hu

/-- An occurrence is added: its file is no longer waited for, its own files are. -/
theorem Tracks.addFile (h : Tracks x s entry) (hfits : entry.Fits)
    (hclosed : ∀ o ∈ s.added, ∀ p, x.origin o = some p → p ∈ s.added)
    (hremoved : ∀ o ∈ s.removed, o ∈ s.added) (ho : o ∉ s.added) :
    Tracks x { s with tables := t, added := o :: s.added }
      (updatedAnalysis (x.object o) entry) where
  unpack u hu := by
    obtain ⟨hu, hne⟩ := (RunningAnalysis.mem_updatedAnalysis hfits).1.mp hu
    have hother : ∀ o', (x.object o').uid = u → o' ∉ s.added → o' ∉ o :: s.added := by
      rintro o' huid hnot hmem
      rcases List.mem_cons.mp hmem with rfl | hmem
      · exact hne huid.symm
      · exact hnot hmem
    rcases hu with hu | hu
    · obtain ⟨o', p', horigin, huid, hp, hnot⟩ := h.unpack u hu
      exact ⟨o', p', horigin, huid, List.mem_cons_of_mem _ hp, hother o' huid hnot⟩
    · obtain ⟨o', horigin, huid⟩ := x.occurs o u (RunningAnalysis.mem_newFiles.mp hu).1
      exact ⟨o', o, horigin, huid, List.mem_cons_self,
        hother o' huid fun hmem => ho (hclosed o' hmem o horigin)⟩
  analyze u hu := by
    rcases (RunningAnalysis.mem_updatedAnalysis hfits).2.mp hu with hu | ⟨-, rfl⟩
    · obtain ⟨o', ho', huid, hnot⟩ := h.analyze u hu
      exact ⟨o', List.mem_cons_of_mem _ ho', huid, hnot⟩
    · exact ⟨o, List.mem_cons_self, rfl, fun hmem => ho (hremoved o hmem)⟩
  covered o' ho' u hu := by
    rw [(RunningAnalysis.mem_updatedAnalysis hfits).1,
      (RunningAnalysis.mem_updatedAnalysis hfits).2]
    -- what was in a list is in one of the lists still
    have hlisted : u ∈ entry.filesToUnpack ∨ u ∈ entry.newFiles (x.object o) ∨
        u ∈ entry.filesToAnalyze ∨
        ProgressState.Analyzed x { s with tables := t, added := o :: s.added } u := by
      rcases List.mem_cons.mp ho' with rfl | ho'
      · rcases Decidable.em (u ∈ entry.filesToUnpack) with h1 | h1
        · exact .inl h1
        · rcases Decidable.em (u ∈ entry.filesToAnalyze) with h2 | h2
          · exact .inr (.inr (.inl h2))
          · exact .inr (.inl (RunningAnalysis.mem_newFiles.mpr ⟨hu, h1, h2⟩))
      · rcases h.covered o' ho' u hu with h1 | h1 | h1
        · exact .inl h1
        · exact .inr (.inr (.inl h1))
        · exact .inr (.inr (.inr (h1.mono (fun _ => List.mem_cons_of_mem _) fun _ => id)))
    rcases Decidable.em (u = (x.object o).uid) with heq | hne <;> tauto

/-- An occurrence is removed whose file is waited for: the file is analysed now. -/
theorem Tracks.removeFile (h : Tracks x s entry) (ho : o ∈ s.added) :
    Tracks x { s with tables := t, removed := o :: s.removed }
      (analyzedFile (x.object o) entry) where
  unpack := h.unpack
  analyze u hu := by
    obtain ⟨hu, hne⟩ := RunningAnalysis.mem_analyzedFile.mp hu
    obtain ⟨o', ho', rfl, hnot⟩ := h.analyze u hu
    refine ⟨o', ho', rfl, fun hmem => ?_⟩
    rcases List.mem_cons.mp hmem with rfl | hmem
    · exact hne rfl
    · exact hnot hmem
  covered o' ho' u hu := by
    rcases h.covered o' ho' u hu with hmem | hmem | hdone
    · exact .inl hmem
    · rcases eq_or_ne u (x.object o).uid with rfl | hne
      · exact .inr (.inr ⟨⟨o, ho, rfl⟩, o, List.mem_cons_self, rfl⟩)
      · exact .inr (.inl (RunningAnalysis.mem_analyzedFile.mpr ⟨hmem, hne⟩))
    · exact .inr (.inr (hdone.mono (fun _ => id) fun _ => List.mem_cons_of_mem _))

/-- An occurrence is removed whose file is not waited for. -/
theorem Tracks.removeAgain (h : Tracks x s entry) (hnot : (x.object o).uid ∉ entry.filesToAnalyze) :
    Tracks x { s with tables := t, removed := o :: s.removed } entry where
  unpack := h.unpack
  analyze u hu := by
    obtain ⟨o', ho', rfl, hnot'⟩ := h.analyze u hu
    refine ⟨o', ho', rfl, fun hmem => ?_⟩
    rcases List.mem_cons.mp hmem with rfl | hmem
    · exact hnot hu
    · exact hnot' hmem
  covered o' ho' u hu := (h.covered o' ho' u hu).imp_right <| Or.imp_right fun hdone =>
    hdone.mono (fun _ => id) fun _ => List.mem_cons_of_mem _

theorem ProgressInv.init : ProgressInv x t0 ⟨t0, [], []⟩ where
  start _ := rfl
  root h := absurd rfl h
  closed _ ho := absurd ho List.not_mem_nil
  removed _ ho := absurd ho List.not_mem_nil
  standing h := absurd rfl h

/-- The firmware is added. -/
theorem ProgressInv.addRoot (h : ProgressInv x t0 s) (hnone : s.added = [])
    (hrun : StatusOp.run s.tables now (.addToCurrentAnalyses (x.object x.root)) = .ok t) :
    ProgressInv x t0 { s with tables := t, added := [x.root] } := by
  have hnot : ∀ o, o ∉ s.removed := fun o ho => by
    have := h.removed o ho
    rw [hnone] at this
    cases this
  obtain ⟨fw, hfw⟩ := FileObject.isFirmware_iff.mp x.isFirmware
  obtain ⟨t', hrun', hchange⟩ := StatusOp.run_spec s.tables now
    (.addToCurrentAnalyses (x.object x.root)) ⟨x.included_nodup _, x.not_self _⟩ (by simp)
  obtain rfl := Except.ok.inj (hrun.symm.trans hrun')
  refine ⟨fun hnil => absurd hnil (List.cons_ne_nil _ _), fun _ => List.mem_singleton_self _,
    fun o ho p horigin => ?_, fun o ho => absurd ho (hnot o), fun _ => .inl ?_⟩
  · obtain rfl := List.mem_singleton.mp ho
    exact absurd rfl (Extraction.ne_root horigin)
  · refine ⟨initCurrentAnalysis (x.object x.root) fw now, ?_,
      .initCurrentAnalysis (x.included_nodup _) (x.not_self _), .init (hnot x.root)⟩
    rw [hchange]
    simp only [StatusOp.change, hfw, Extraction.rootUid, if_true, h.start hnone]
    rfl

/-- An extracted file is added. -/
theorem ProgressInv.add (h : ProgressInv x t0 s) (horigin : x.origin o = some p)
    (hp : p ∈ s.added) (ho : o ∉ s.added)
    (hrun : StatusOp.run s.tables now (.addToCurrentAnalyses (x.object o)) = .ok t) :
    ProgressInv x t0 { s with tables := t, added := o :: s.added } := by
  have hroot := Extraction.ne_root horigin
  have hsome : s.added ≠ [] := List.ne_nil_of_mem hp
  obtain ⟨t', hrun', hchange⟩ := StatusOp.run_spec s.tables now
    (.addToCurrentAnalyses (x.object o)) ⟨x.included_nodup _, x.not_self _⟩ (by simp)
  obtain rfl := Except.ok.inj (hrun.symm.trans hrun')
  have hstanding : t.standing x.rootUid = (s.tables.standing x.rootUid).addFile (x.object o) := by
    rw [hchange]
    simp only [StatusOp.change, x.isFile o hroot, if_pos (Extraction.reportsTo hroot)]
  refine ⟨fun hnil => absurd hnil (List.cons_ne_nil _ _),
    fun _ => List.mem_cons_of_mem _ (h.root hsome), fun o' ho' p' horigin' => ?_,
    fun o' ho' => List.mem_cons_of_mem _ (h.removed o' ho'), fun _ => ?_⟩
  · rcases List.mem_cons.mp ho' with rfl | ho'
    · obtain rfl := Option.some.inj (horigin.symm.trans horigin')
      exact List.mem_cons_of_mem _ hp
    · exact List.mem_cons_of_mem _ (h.closed o' ho' p' horigin')
  · dsimp only
    rw [hstanding]
    rcases h.standing hsome with ⟨entry, hentry, hcons, htracks⟩ | ⟨finished, hfinished, hall⟩
    · rw [hentry]
      exact .inl ⟨_, rfl, hcons.updatedAnalysis, htracks.addFile hcons.toFits h.closed h.removed ho⟩
    · -- the analysis is finished: nothing is written any more
      rw [hfinished]
      exact .inr ⟨finished, rfl, fun uid hbelow =>
        (hall uid hbelow).mono (fun _ => List.mem_cons_of_mem _) fun _ => id⟩

/-- An occurrence is removed. -/
theorem ProgressInv.remove (h : ProgressInv x t0 s) (ho : o ∈ s.added)
    (hrun : StatusOp.run s.tables now (.removeFromCurrentAnalyses (x.object o)) = .ok t) :
    ProgressInv x t0 { s with tables := t, removed := o :: s.removed } := by
  have hsome : s.added ≠ [] := List.ne_nil_of_mem ho
  obtain ⟨t', hrun', hchange⟩ := StatusOp.run_spec s.tables now
    (.removeFromCurrentAnalyses (x.object o)) trivial (by simp)
  obtain rfl := Except.ok.inj (hrun.symm.trans hrun')
  have hreports : (x.object o).ReportsTo x.rootUid := by
    rcases Classical.em (o = x.root) with rfl | hne
    · exact x.root_reportsTo
    · exact Extraction.reportsTo hne
  have hstanding : t.standing x.rootUid =
      (s.tables.standing x.rootUid).removeFile (x.object o) now := by
    rw [hchange]
    simp only [StatusOp.change, if_pos hreports]
  refine ⟨fun hnone => absurd hnone hsome, h.root, h.closed, fun o' ho' => ?_, fun _ => ?_⟩
  · rcases List.mem_cons.mp ho' with rfl | ho'
    · exact ho
    · exact h.removed o' ho'
  · dsimp only
    rw [hstanding]
    rcases h.standing hsome with ⟨entry, hentry, hcons, htracks⟩ | ⟨finished, hfinished, hall⟩
    · have hrunning : (s.tables.standing x.rootUid).running = some entry := by rw [hentry]
      rcases removeFile_cases (x.object o) now hrunning hcons with
        ⟨hnot, heq⟩ | ⟨hcons', heq⟩ | ⟨-, hunpack, hanalyze, heq⟩ <;> rw [heq]
      · exact .inl ⟨entry, hentry, hcons, htracks.removeAgain hnot⟩
      · exact .inl ⟨_, by rw [hentry], hcons', htracks.removeFile ho⟩
      · exact .inr ⟨_, rfl, (htracks.removeFile ho).allAnalyzed (h.root hsome) hunpack hanalyze⟩
    · rw [hfinished]
      exact .inr ⟨finished, rfl, fun uid hbelow =>
        (hall uid hbelow).mono (fun _ => id) fun _ => List.mem_cons_of_mem _⟩

theorem ProgressInv.step {e : ProgressEvent ι} (h : ProgressInv x t0 s)
    (hst : ProgressStep x s e s') : ProgressInv x t0 s' := by
  cases hst with
  | addRoot hnone hrun => exact h.addRoot hnone hrun
  | add horigin hp ho hrun => exact h.add horigin hp ho hrun
  | remove ho _ hrun => exact h.remove ho hrun

theorem ProgressInv.completionExact (h : ProgressInv x t0 s) : CompletionExact x t0 s := by
  have hrunning : ∀ t : StatusTables, x.rootUid ∈ t.currentlyRunning ↔
      ∃ entry, (t.standing x.rootUid).running = some entry := fun _ => Dict.mem_iff
  have hfinished : ∀ t : StatusTables, x.rootUid ∈ t.recentlyFinished ↔
      ∃ entry, (t.standing x.rootUid).finished = some entry := fun _ => Dict.mem_iff
  refine ⟨fun hsome hnot => ?_, fun hmem => ?_, fun hall => ?_⟩
  · rcases h.standing hsome with ⟨entry, hentry, -⟩ | ⟨finished, hdone, hanalyzed⟩
    · exact absurd ((hrunning _).mpr ⟨entry, by rw [hentry]⟩) hnot
    · exact ⟨(hfinished _).mpr ⟨finished, by rw [hdone]⟩, hanalyzed⟩
  · rcases Classical.em (s.added = []) with hnone | hsome
    · exact .inl (h.start hnone ▸ hmem)
    · rcases h.standing hsome with ⟨entry, hentry, -⟩ | ⟨finished, -, hanalyzed⟩
      · rw [hfinished, hentry] at hmem
        exact .inl (Dict.mem_iff.mpr hmem)
      · exact .inr hanalyzed
  · have hsome : s.added ≠ [] := List.ne_nil_of_mem (hall x.root).1
    rcases h.standing hsome with ⟨entry, -, hcons, htracks⟩ | ⟨finished, hdone, -⟩
    · exact (htracks.not_complete hcons hall).elim
    · refine ⟨(hfinished _).mpr ⟨finished, by rw [hdone]⟩, fun hmem => ?_⟩
      obtain ⟨entry, hentry⟩ := (hrunning _).mp hmem
      rw [hdone] at hentry
      cases hentry

end Progress

/-! ## 4. Whole runs -/

/-- In every run the completion is reported exactly when all files are analysed. -/
theorem completion_exact {ι : Type} {x : Extraction ι} {t0 : StatusTables}
    {events : List (ProgressEvent ι)} {s : ProgressState ι}
    (h : Run (ProgressStep x) ⟨t0, [], []⟩ events s) : CompletionExact x t0 s := by
  have hinv : ProgressInv x t0 s := h.invariant (fun _ _ _ hs hst => hs.step hst) .init
  exact hinv.completionExact

/-- An image with two archives that contain the same file. -/
def sharedExtraction : Extraction (Fin 5) where
  root := 0
  object
    | 0 => { outerImage with filesIncluded := ["left", "right"] }
    | 1 => { innerFile with uid := "left", filesIncluded := ["inner"] }
    | 2 => { innerFile with uid := "right", filesIncluded := ["inner"] }
    | _ => innerFile
  origin
    | 0 => none
    | 1 => some 0
    | 2 => some 0
    | 3 => some 1
    | 4 => some 2
  isFirmware := rfl
  origin_root := rfl
  extracted := by decide
  isFile o ho := by
    match o with
    | 0 => exact absurd rfl ho
    | 1 | 2 | 3 | 4 => rfl
  roots := by decide
  occurs := by decide
  included_nodup := by decide
  not_self := by decide
  sameFiles := by decide
  rootOnce := by decide

/-- The shared file is analysed completely before its second archive is added, and is waited for
again then. -/
theorem shared_file_exact :
    ∃ s, Run (ProgressStep sharedExtraction) ⟨⟨∅, ∅⟩, [], []⟩
        [.add 0 1, .add 1 2, .add 3 3, .remove 3 4, .add 2 5, .remove 1 6, .remove 2 7, .add 4 8,
          .remove 0 9, .remove 4 10] s ∧ CompletionExact sharedExtraction ⟨∅, ∅⟩ s := by
  have hrun : Run (ProgressStep sharedExtraction) ⟨⟨∅, ∅⟩, [], []⟩
      [.add 0 1, .add 1 2, .add 3 3, .remove 3 4, .add 2 5, .remove 1 6, .remove 2 7, .add 4 8,
        .remove 0 9, .remove 4 10] _ :=
    .cons (.addRoot rfl rfl) <| .cons (.add rfl (by decide) (by decide) rfl) <|
    .cons (.add rfl (by decide) (by decide) rfl) <| .cons (.remove (by decide) (by decide) rfl) <|
    .cons (.add rfl (by decide) (by decide) rfl) <| .cons (.remove (by decide) (by decide) rfl) <|
    .cons (.remove (by decide) (by decide) rfl) <| .cons (.add rfl (by decide) (by decide) rfl) <|
    .cons (.remove (by decide) (by decide) rfl) <|
    .cons (.remove (by decide) (by decide) rfl) (.nil _)
  exact ⟨_, hrun, completion_exact hrun⟩

end FactCore
