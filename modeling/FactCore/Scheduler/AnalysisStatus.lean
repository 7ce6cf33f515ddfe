import Mathlib.Data.List.Dedup
import FactCore.Lib.Run
import FactCore.Lib.WhileLoop
import FactCore.Unpacker

/-!
# The status of running analyses

`src/src/scheduler/analysis_status.py`. Several processes report which files are
unpacked and analysed. The tables they share are guarded by one lock that is not
reentrant; an operation consists of one or two critical sections. All sections
but one release the lock in a `finally` clause. The second section of
`add_update_to_current_analyses` does not, and it looks up an entry that it
expects the first section to have written.

The model interleaves the operations of any number of processes at the points
where the lock is acquired and released.

Results:
1. `addToCurrent_firmware`, `addToCurrent_file`, `removeFromCurrent_spec`: what a
   section does to what the tables say about each uid; `Section.run_ok_iff`: which
   sections cannot raise.
2. `statusSafe_iff`: in a run no operation raises and every operation releases
   the lock exactly if the second section of an update finds its entry whenever
   it acquires the lock.
3. `file_update_keeps_lock`: an update of a file that is no firmware ends with
   the lock held.
-/

namespace FactCore

/-! ## 1. The tables -/

/-- An entry of `currently_running`. -/
structure RunningAnalysis where
  filesToUnpack : List Uid
  filesToAnalyze : List Uid
  startTime : Rat
  unpackedFilesCount : Nat
  analyzedFilesCount : Nat
  totalFilesCount : Nat
  hid : String

/-- An entry of `recently_finished`. -/
structure FinishedAnalysis where
  duration : Rat
  totalFilesCount : Nat
  timeFinished : Rat
  hid : String

/-- The two shared dictionaries. -/
structure StatusTables where
  currentlyRunning : Dict Uid RunningAnalysis
  recentlyFinished : Dict Uid FinishedAnalysis

/-- `RECENTLY_FINISHED_DISPLAY_TIME_IN_SEC`. -/
def recentlyFinishedDisplayTimeInSec : Rat := 300

/-- `_init_current_analysis`. -/
def initCurrentAnalysis (fwObject : FileObject) (fw : FirmwareMeta) (now : Rat) :
    RunningAnalysis where
  filesToUnpack := fwObject.filesIncluded
  filesToAnalyze := [fwObject.uid]
  startTime := now
  unpackedFilesCount := 1
  analyzedFilesCount := 0
  totalFilesCount := 1 + fwObject.filesIncluded.length
  hid := fw.getHid

/-- `_init_recently_finished`. -/
def initRecentlyFinished (analysisData : RunningAnalysis) (now : Rat) : FinishedAnalysis where
  duration := now - analysisData.startTime
  totalFilesCount := analysisData.totalFilesCount
  timeFinished := now
  hid := analysisData.hid

/-- `_find_currently_analyzed_parents`. -/
def findCurrentlyAnalyzedParents (t : StatusTables) (fwObject : FileObject) : List Uid :=
  t.currentlyRunning.keys.filter fun uid => decide <|
    if fwObject.isFirmware then uid = fwObject.uid else uid ∈ fwObject.parentFirmwareUids

/-- `self.currently_running[uid]`. -/
def StatusTables.lookup (t : StatusTables) (uid : Uid) : Except PyException RunningAnalysis :=
  match t.currentlyRunning.get? uid with
  | some entry => .ok entry
  | none => .error (.keyError uid)

/-- `self.currently_running[uid] = entry`. -/
def StatusTables.setRunning (t : StatusTables) (uid : Uid) (entry : RunningAnalysis) :
    StatusTables :=
  { t with currentlyRunning := t.currentlyRunning.set uid entry }

/-- The entry of a parent after a file came from unpacking. -/
def updatedAnalysis (fwObject : FileObject) (entry : RunningAnalysis) : RunningAnalysis :=
  let newFiles := fwObject.filesIncluded.dedup.filter fun uid =>
    decide (uid ∉ entry.filesToUnpack ∧ uid ∉ entry.filesToAnalyze)
  let filesToUnpack := (entry.filesToUnpack ++ newFiles).dedup
  let entry' := { entry with
    totalFilesCount := entry.totalFilesCount + newFiles.length
    filesToUnpack := filesToUnpack }
  if fwObject.uid ∈ filesToUnpack then
    { entry' with
      filesToUnpack := filesToUnpack.erase fwObject.uid
      filesToAnalyze := entry.filesToAnalyze ++ [fwObject.uid]
      unpackedFilesCount := entry.unpackedFilesCount + 1 }
  else entry'

/-- One round of the loop in `_update_current_analysis`. -/
def updateParent (fwObject : FileObject) (t : StatusTables) (parent : Uid) :
    Except PyException StatusTables := do
  let entry ← t.lookup parent
  return t.setRunning parent (updatedAnalysis fwObject entry)

/-- `_update_current_analysis`. -/
def updateCurrentAnalysis (t : StatusTables) (fwObject : FileObject) :
    Except PyException StatusTables :=
  (findCurrentlyAnalyzedParents t fwObject).foldlM (updateParent fwObject) t

/-- One round of the loop in `remove_from_current_analyses`. -/
def removeFromParent (fwObject : FileObject) (now : Rat) (t : StatusTables) (parent : Uid) :
    Except PyException StatusTables := do
  let entry ← t.lookup parent
  if fwObject.uid ∉ entry.filesToAnalyze then return t
  else
    let updated := { entry with
      filesToAnalyze := entry.filesToAnalyze.dedup.filter fun uid => decide (uid ≠ fwObject.uid)
      analyzedFilesCount := entry.analyzedFilesCount + 1 }
    if updated.filesToUnpack.isEmpty && updated.filesToAnalyze.isEmpty then
      return {
        currentlyRunning := t.currentlyRunning.erase parent
        recentlyFinished := t.recentlyFinished.set parent (initRecentlyFinished updated now) }
    else return t.setRunning parent updated

/-! ## 2. Critical sections -/

/-- What is done between acquiring the lock and releasing it. -/
inductive Section
  /-- `add_to_current_analyses`. -/
  | addToCurrent (fwObject : FileObject)
  /-- The second section of `add_update_to_current_analyses`. -/
  | setUpdate (uid : Uid) (includedFiles : List Uid)
  /-- `remove_from_current_analyses`. -/
  | removeFromCurrent (fwObject : FileObject)
  /-- `clear_recently_finished`. -/
  | clearRecent

/-- What `add_update_to_current_analyses` does once it has the lock again. -/
def setUpdateCounts (t : StatusTables) (uid : Uid) (includedFiles : List Uid) :
    Except PyException StatusTables := do
  let entry ← t.lookup uid
  return t.setRunning uid { entry with
    filesToUnpack := []
    unpackedFilesCount := includedFiles.length + 1
    totalFilesCount := includedFiles.length + 1
    filesToAnalyze := uid :: includedFiles }

/-- The tables after a section that runs at the time `now`. -/
def Section.run (t : StatusTables) (now : Rat) : Section → Except PyException StatusTables
  | .addToCurrent fwObject =>
    match fwObject.firmware with
    | some fw => .ok (t.setRunning fwObject.uid (initCurrentAnalysis fwObject fw now))
    | none => updateCurrentAnalysis t fwObject
  | .setUpdate uid includedFiles => setUpdateCounts t uid includedFiles
  | .removeFromCurrent fwObject =>
    (findCurrentlyAnalyzedParents t fwObject).foldlM (removeFromParent fwObject now) t
  | .clearRecent => .ok { t with
      recentlyFinished := t.recentlyFinished.entries.foldl (fun d e =>
        if now - e.2.timeFinished > recentlyFinishedDisplayTimeInSec then d.erase e.1 else d)
        t.recentlyFinished }

/-- The section stands in a `try` with a `finally` that releases the lock. -/
def Section.hasFinally : Section → Bool
  | .setUpdate _ _ => false
  | _ => true

/-- The operations of `AnalysisStatus`. -/
inductive StatusOp
  | addToCurrentAnalyses (fwObject : FileObject)
  | addUpdateToCurrentAnalyses (fwObject : FileObject) (includedFiles : List Uid)
  | removeFromCurrentAnalyses (fwObject : FileObject)
  | clearRecentlyFinished

/-- The critical sections of an operation. -/
def StatusOp.sections : StatusOp → List Section
  | .addToCurrentAnalyses fwObject => [.addToCurrent fwObject]
  | .addUpdateToCurrentAnalyses fwObject includedFiles =>
    [.addToCurrent fwObject, .setUpdate fwObject.uid includedFiles]
  | .removeFromCurrentAnalyses fwObject => [.removeFromCurrent fwObject]
  | .clearRecentlyFinished => [.clearRecent]

/-! ## 3. Processes -/

/-- A process that uses the status. -/
abbrev Pid := Nat

/-- The shared tables, the holder of the lock, the sections that each process has before it, and
the exceptions that have left an operation. -/
structure StatusState where
  tables : StatusTables
  lock : Option Pid
  todo : Pid → List Section
  raised : List (Pid × PyException)

/-- The state when the scheduler starts. -/
def StatusState.init : StatusState := ⟨⟨∅, ∅⟩, none, fun _ => [], []⟩

/-- What can happen next. -/
inductive StatusEvent
  /-- A process that is not in an operation calls one. -/
  | call (pid : Pid) (op : StatusOp)
  /-- A process takes the lock for its next section. -/
  | acquire (pid : Pid)
  /-- The holder of the lock executes its section, to the release or to an exception. -/
  | execute (pid : Pid) (now : Rat)

/-- The sections of one process. -/
def StatusState.setTodo (s : StatusState) (pid : Pid) (sections : List Section) : StatusState :=
  { s with todo := fun p => if p = pid then sections else s.todo p }

/-- The holder executes `sec`, with `rest` before it afterwards. An exception ends the operation;
the lock is released on the way only if there is a `finally` clause. -/
def StatusState.executeSection (s : StatusState) (pid : Pid) (now : Rat) (sec : Section)
    (rest : List Section) : StatusState :=
  match sec.run s.tables now with
  | .ok t => { s.setTodo pid rest with tables := t, lock := none }
  | .error e => { s.setTodo pid [] with
      lock := if sec.hasFinally then none else s.lock
      raised := s.raised ++ [(pid, e)] }

/-- The step relation. -/
inductive StatusStep : StatusState → StatusEvent → StatusState → Prop
  | call {s : StatusState} {pid : Pid} (op : StatusOp) : s.todo pid = [] →
      StatusStep s (.call pid op) (s.setTodo pid op.sections)
  | acquire {s : StatusState} {pid : Pid} {sec : Section} {rest : List Section} :
      s.todo pid = sec :: rest → s.lock = none →
      StatusStep s (.acquire pid) { s with lock := some pid }
  | execute {s : StatusState} {pid : Pid} {sec : Section} {rest : List Section} (now : Rat) :
      s.lock = some pid → s.todo pid = sec :: rest →
      StatusStep s (.execute pid now) (s.executeSection pid now sec rest)

/-- The entry that a section needs is there. -/
def Section.Ready (t : StatusTables) : Section → Prop
  | .setUpdate uid _ => uid ∈ t.currentlyRunning
  | _ => True

/-- If the step acquires the lock for the second section of an update, the entry of the object is
in `currently_running`. -/
def FindsEntry (s : StatusState) : StatusEvent → Prop
  | .acquire pid => ∀ sec ∈ (s.todo pid).head?, sec.Ready s.tables
  | _ => True

/-- No operation has raised an exception, and an operation that holds the lock has not ended and
releases the lock with its next step. -/
structure StatusSafe (s : StatusState) : Prop where
  noException : s.raised = []
  notEnded : ∀ pid, s.lock = some pid → s.todo pid ≠ []
  released : ∀ pid, s.lock = some pid → ∀ now,
    ∃ s', StatusStep s (.execute pid now) s' ∧ s'.lock = none ∧ s'.raised = []

/-! ## 4. The sections -/

/-- What the tables say about one uid. -/
structure Standing where
  running : Option RunningAnalysis
  finished : Option FinishedAnalysis

/-- What the tables say about `uid`. -/
def StatusTables.standing (t : StatusTables) (uid : Uid) : Standing :=
  ⟨t.currentlyRunning.get? uid, t.recentlyFinished.get? uid⟩

/-- The files of `uid` are counted for the firmware `root`: `_find_currently_analyzed_parents`
without the look at the running analyses. -/
def FileObject.ReportsTo (fwObject : FileObject) (root : Uid) : Prop :=
  if fwObject.isFirmware then root = fwObject.uid else root ∈ fwObject.parentFirmwareUids

instance (fwObject : FileObject) (root : Uid) : Decidable (fwObject.ReportsTo root) :=
  inferInstanceAs (Decidable (if fwObject.isFirmware then root = fwObject.uid
    else root ∈ fwObject.parentFirmwareUids))

/-- The entry of a parent after a file of it was analysed. -/
def analyzedFile (fwObject : FileObject) (entry : RunningAnalysis) : RunningAnalysis :=
  { entry with
    filesToAnalyze := entry.filesToAnalyze.dedup.filter fun uid => decide (uid ≠ fwObject.uid)
    analyzedFilesCount := entry.analyzedFilesCount + 1 }

/-- A file of a parent came from unpacking. -/
def Standing.addFile (s : Standing) (fwObject : FileObject) : Standing :=
  { s with running := s.running.map (updatedAnalysis fwObject) }

/-- A file of a parent was analysed. -/
def Standing.removeFile (s : Standing) (fwObject : FileObject) (now : Rat) : Standing :=
  match s.running with
  | none => s
  | some entry =>
    if fwObject.uid ∉ entry.filesToAnalyze then s
    else
      let updated := analyzedFile fwObject entry
      if updated.filesToUnpack = [] ∧ updated.filesToAnalyze = [] then
        ⟨none, some (initRecentlyFinished updated now)⟩
      else { s with running := some updated }

section Sections
variable {t t' : StatusTables} {sec : Section}

theorem lookup_of_mem {u : Uid} (h : u ∈ t.currentlyRunning) : ∃ entry, t.lookup u = .ok entry := by
  obtain ⟨entry, hentry⟩ := Dict.mem_iff.mp h
  exact ⟨entry, by rw [StatusTables.lookup, hentry]⟩

theorem lookup_of_not_mem {u : Uid} (h : u ∉ t.currentlyRunning) :
    t.lookup u = .error (.keyError u) := by
  rw [StatusTables.lookup, Dict.get?_eq_none_iff.mpr h]

theorem standing_setRunning (t : StatusTables) (u v : Uid) (entry : RunningAnalysis) :
    (t.setRunning u entry).standing v =
      if v = u then { t.standing v with running := some entry } else t.standing v := by
  unfold StatusTables.standing StatusTables.setRunning
  rw [Dict.get?_set]
  split <;> rfl

/-- A round of the loop changes the entry of its parent only. -/
theorem updateParent_spec (fwObject : FileObject) (t : StatusTables) (u : Uid)
    (h : (t.standing u).running ≠ none) : ∃ t', updateParent fwObject t u = .ok t' ∧
      ∀ v, t'.standing v = if v = u then (t.standing v).addFile fwObject else t.standing v := by
  obtain ⟨entry, hentry⟩ := Option.ne_none_iff_exists'.mp h
  refine ⟨t.setRunning u (updatedAnalysis fwObject entry), ?_, fun v => ?_⟩
  · rw [updateParent, StatusTables.lookup, show t.currentlyRunning.get? u = some entry from hentry]
    rfl
  · rw [standing_setRunning]
    split
    · next heq =>
      subst heq
      rw [Standing.addFile, hentry]
      rfl
    · rfl

theorem removeFromParent_spec (fwObject : FileObject) (now : Rat) (t : StatusTables) (u : Uid)
    (h : (t.standing u).running ≠ none) : ∃ t', removeFromParent fwObject now t u = .ok t' ∧
      ∀ v, t'.standing v = if v = u then (t.standing v).removeFile fwObject now else t.standing v := by
  obtain ⟨entry, hentry⟩ := Option.ne_none_iff_exists'.mp h
  have hget : t.currentlyRunning.get? u = some entry := hentry
  unfold removeFromParent StatusTables.lookup
  rw [hget]
  simp only [bind, Except.bind]
  split
  · next hnot =>
    refine ⟨t, rfl, fun v => ?_⟩
    split
    · next heq =>
      subst heq
      rw [Standing.removeFile, hentry]
      exact (if_pos hnot).symm
    · rfl
  · next hmem =>
    split
    · next hempty =>
      -- the last file: the entry moves to the other table
      refine ⟨_, rfl, fun v => ?_⟩
      split
      · next heq =>
        subst heq
        rw [Standing.removeFile, hentry]
        simp only [if_neg hmem]
        rw [if_pos (by simpa [analyzedFile] using hempty)]
        simp [StatusTables.standing, Dict.get?_erase, analyzedFile]
      · next hne => simp [StatusTables.standing, Dict.get?_erase, Dict.get?_set, hne]
    · next hempty =>
      refine ⟨_, rfl, fun v => ?_⟩
      rw [standing_setRunning]
      split
      · next heq =>
        subst heq
        rw [Standing.removeFile, hentry]
        simp only [if_neg hmem]
        rw [if_neg (by simpa [analyzedFile] using hempty)]
        rfl
      · rfl

theorem findCurrentlyAnalyzedParents_nodup (t : StatusTables) (fwObject : FileObject) :
    (findCurrentlyAnalyzedParents t fwObject).Nodup :=
  t.currentlyRunning.keys_nodup.filter _

theorem mem_findCurrentlyAnalyzedParents {fwObject : FileObject} {u : Uid} :
    u ∈ findCurrentlyAnalyzedParents t fwObject ↔
      (t.standing u).running ≠ none ∧ fwObject.ReportsTo u := by
  unfold findCurrentlyAnalyzedParents FileObject.ReportsTo StatusTables.standing
  rw [List.mem_filter, ← Dict.mem_def, decide_eq_true_iff, Dict.mem_iff,
    Option.ne_none_iff_exists']

/-- A loop over the running parents: what a round does to a parent, the loop does to all of them. -/
theorem foldlM_parents_spec {round : StatusTables → Uid → Except PyException StatusTables}
    {change : Standing → Standing} (hsame : ∀ s : Standing, s.running = none → change s = s)
    (hround : ∀ t u, (t.standing u).running ≠ none → ∃ t', round t u = .ok t' ∧
      ∀ v, t'.standing v = if v = u then change (t.standing v) else t.standing v)
    (t : StatusTables) (fwObject : FileObject) :
    ∃ t', (findCurrentlyAnalyzedParents t fwObject).foldlM round t = .ok t' ∧
      ∀ u, t'.standing u =
        if fwObject.ReportsTo u then change (t.standing u) else t.standing u := by
  obtain ⟨t', hok, hview⟩ := WhileLoop.foldlM_pointwise StatusTables.standing
    (fun _ s => s.running ≠ none) (fun _ => change) hround
    (findCurrentlyAnalyzedParents_nodup t fwObject)
    fun u hu => (mem_findCurrentlyAnalyzedParents.mp hu).1
  refine ⟨t', hok, fun u => (hview u).trans ?_⟩
  simp only [mem_findCurrentlyAnalyzedParents]
  rcases Decidable.em (fwObject.ReportsTo u) with hrep | hrep
  · rw [if_pos hrep]
    rcases Option.eq_none_or_eq_some (t.standing u).running with hnone | ⟨entry, hentry⟩
    · rw [if_neg fun h => h.1 hnone, hsame _ hnone]
    · rw [if_pos ⟨by simp [hentry], hrep⟩]
  · rw [if_neg hrep, if_neg fun h => hrep h.2]

theorem Standing.addFile_of_none {s : Standing} (fwObject : FileObject) (h : s.running = none) :
    s.addFile fwObject = s := by
  obtain ⟨running, finished⟩ := s
  subst h
  rfl

theorem Standing.removeFile_of_none {s : Standing} (fwObject : FileObject) (now : Rat)
    (h : s.running = none) : s.removeFile fwObject now = s := by
  rw [removeFile, h]

theorem addToCurrent_firmware (now : Rat) {fwObject : FileObject} {fw : FirmwareMeta}
    (h : fwObject.firmware = some fw) : ∃ t', Section.run t now (.addToCurrent fwObject) = .ok t' ∧
      ∀ u, t'.standing u = if u = fwObject.uid then
        { t.standing u with running := some (initCurrentAnalysis fwObject fw now) }
        else t.standing u := by
  refine ⟨_, by rw [Section.run, h], fun u => standing_setRunning t fwObject.uid u _⟩

theorem addToCurrent_file (now : Rat) {fwObject : FileObject} (h : fwObject.firmware = none) :
    ∃ t', Section.run t now (.addToCurrent fwObject) = .ok t' ∧
      ∀ u, t'.standing u =
        if fwObject.ReportsTo u then (t.standing u).addFile fwObject else t.standing u := by
  rw [Section.run, h]
  exact foldlM_parents_spec (fun _ => Standing.addFile_of_none fwObject)
    (updateParent_spec fwObject) t fwObject

theorem removeFromCurrent_spec (t : StatusTables) (now : Rat) (fwObject : FileObject) :
    ∃ t', Section.run t now (.removeFromCurrent fwObject) = .ok t' ∧
      ∀ u, t'.standing u =
        if fwObject.ReportsTo u then (t.standing u).removeFile fwObject now else t.standing u :=
  foldlM_parents_spec (fun _ => Standing.removeFile_of_none fwObject now)
    (removeFromParent_spec fwObject now) t fwObject

/-- A section runs to its end exactly if the entry it needs is there. -/
theorem Section.run_ok_iff (now : Rat) : (∃ t', sec.run t now = .ok t') ↔ sec.Ready t := by
  cases sec with
  | addToCurrent fwObject =>
    refine iff_of_true ?_ trivial
    cases hfw : fwObject.firmware with
    | some fw => exact (addToCurrent_firmware now hfw).imp fun _ => And.left
    | none => exact (addToCurrent_file now hfw).imp fun _ => And.left
  | setUpdate uid includedFiles =>
    show (∃ t', setUpdateCounts t uid includedFiles = .ok t') ↔ uid ∈ t.currentlyRunning
    unfold setUpdateCounts
    rcases Decidable.em (uid ∈ t.currentlyRunning) with h | h
    · obtain ⟨entry, hentry⟩ := lookup_of_mem h
      exact iff_of_true ⟨_, by rw [hentry]; rfl⟩ h
    · refine iff_of_false ?_ h
      rw [lookup_of_not_mem h]
      rintro ⟨t', ht'⟩
      cases ht'
  | removeFromCurrent fwObject =>
    exact iff_of_true ((removeFromCurrent_spec t now fwObject).imp fun _ => And.left) trivial
  | clearRecent => exact iff_of_true ⟨_, rfl⟩ trivial

end Sections

/-! ## 5. One step -/

section Steps
variable {s s' s'' : StatusState} {e : StatusEvent} {pid : Pid}

theorem StatusStep.deterministic (h : StatusStep s e s') (h' : StatusStep s e s'') : s' = s'' := by
  cases h with
  | call op htodo => cases h'; rfl
  | acquire htodo hlock => cases h'; rfl
  | execute now hlock htodo =>
    cases h' with
    | execute _ _ htodo' =>
      obtain ⟨rfl, rfl⟩ := List.cons_eq_cons.mp (htodo.symm.trans htodo')
      rfl

theorem executeSection_ok {sec : Section} {rest : List Section} {now : Rat}
    (h : sec.Ready s.tables) : (s.executeSection pid now sec rest).lock = none ∧
      (s.executeSection pid now sec rest).raised = s.raised := by
  obtain ⟨t, ht⟩ := (Section.run_ok_iff now).mpr h
  simp only [StatusState.executeSection, ht]
  exact ⟨trivial, rfl⟩

/-- A state is safe exactly if nothing was raised and the holder of the lock finds the entry that
its section needs. -/
theorem statusSafe_iff_ready : StatusSafe s ↔ s.raised = [] ∧ ∀ pid, s.lock = some pid →
    ∃ sec rest, s.todo pid = sec :: rest ∧ sec.Ready s.tables := by
  constructor
  · intro h
    refine ⟨h.noException, fun pid hlock => ?_⟩
    obtain ⟨s', hst, hfree, hraised⟩ := h.released pid hlock 0
    cases hst with
    | @execute _ sec rest _ _ htodo =>
      refine ⟨sec, rest, htodo, (Section.run_ok_iff 0).mp ?_⟩
      -- a section that fails leaves an exception
      cases hrun : sec.run s.tables 0 with
      | ok t => exact ⟨t, rfl⟩
      | error e => simp [StatusState.executeSection, hrun] at hraised
  · rintro ⟨hraised, hready⟩
    refine ⟨hraised, fun pid hlock => ?_, fun pid hlock now => ?_⟩
    · obtain ⟨sec, rest, htodo, -⟩ := hready pid hlock
      rw [htodo]
      exact List.cons_ne_nil sec rest
    · obtain ⟨sec, rest, htodo, hsec⟩ := hready pid hlock
      obtain ⟨hfree, hsame⟩ := @executeSection_ok s pid sec rest now hsec
      exact ⟨_, .execute now hlock htodo, hfree, hsame.trans hraised⟩

theorem statusSafe_step_iff (h : StatusSafe s) (hst : StatusStep s e s') :
    StatusSafe s' ↔ FindsEntry s e := by
  obtain ⟨hraised, hready⟩ := statusSafe_iff_ready.mp h
  cases hst with
  | @call pid op htodo =>
    refine iff_of_true (statusSafe_iff_ready.mpr ⟨hraised, fun p hp => ?_⟩) trivial
    obtain ⟨sec, rest, hsec, hr⟩ := hready p hp
    refine ⟨sec, rest, ?_, hr⟩
    have hne : p ≠ pid := by
      rintro rfl
      rw [htodo] at hsec
      cases hsec
    show (if p = pid then op.sections else s.todo p) = sec :: rest
    rw [if_neg hne, hsec]
  | @acquire pid sec rest htodo hlock =>
    rw [statusSafe_iff_ready, and_iff_right hraised]
    unfold FindsEntry
    simp only [htodo, Option.some.injEq, forall_eq', List.head?_cons, Option.mem_some_iff]
    constructor
    · rintro ⟨sec', rest', hsec, hr⟩
      obtain ⟨rfl, rfl⟩ := List.cons_eq_cons.mp hsec
      exact hr
    · exact fun hr => ⟨sec, rest, rfl, hr⟩
  | @execute pid sec rest now hlock htodo =>
    obtain ⟨sec', rest', hsec, hr⟩ := hready pid hlock
    obtain ⟨rfl, rfl⟩ := List.cons_eq_cons.mp (htodo.symm.trans hsec)
    obtain ⟨hfree, hsame⟩ := @executeSection_ok s pid sec rest now hr
    refine iff_of_true (statusSafe_iff_ready.mpr ⟨hsame.trans hraised, fun p hp => ?_⟩) trivial
    rw [hfree] at hp
    cases hp

theorem statusSafe_init : StatusSafe StatusState.init :=
  statusSafe_iff_ready.mpr ⟨rfl, fun _ h => nomatch h⟩

end Steps

/-! ## 6. Whole runs -/

/-- In every state of a run no operation has raised and every operation releases the lock, exactly
if the second section of each update finds the entry of its object when it acquires the lock. -/
theorem statusSafe_iff {events : List StatusEvent} {s : StatusState}
    (h : Run StatusStep StatusState.init events s) :
    (∀ pre suf m, events = pre ++ suf → Run StatusStep StatusState.init pre m → StatusSafe m) ↔
      Run (Restrict FindsEntry StatusStep) StatusState.init events s :=
  Run.forall_prefix_iff (fun _ => StatusSafe) [] (fun _ _ _ _ => StatusStep.deterministic)
    (fun _ _ _ _ hs hst => statusSafe_step_iff hs hst) statusSafe_init h

/-- One update of an image. -/
def firmwareUpdate : List StatusEvent :=
  [.call 0 (.addUpdateToCurrentAnalyses outerImage ["inner"]), .acquire 0, .execute 0 1, .acquire 0,
    .execute 0 1]

/-- The update of an image releases the lock both times. -/
theorem firmware_update_safe :
    ∃ s, Run StatusStep StatusState.init firmwareUpdate s ∧ StatusSafe s := by
  have hrun : Run (Restrict FindsEntry StatusStep) StatusState.init firmwareUpdate _ :=
    .cons ⟨trivial, .call _ rfl⟩ <|
    .cons ⟨fun sec hsec => by obtain rfl := Option.mem_some_iff.mp hsec; trivial, .acquire rfl rfl⟩ <|
    .cons ⟨trivial, .execute 1 rfl rfl⟩ <|
    .cons ⟨fun sec hsec => by
      obtain rfl := Option.mem_some_iff.mp hsec
      exact Dict.mem_set.mpr (.inl rfl), .acquire rfl rfl⟩ <|
    .cons ⟨trivial, .execute 1 rfl rfl⟩ (.nil _)
  exact ⟨_, hrun.of_restrict,
    (statusSafe_iff hrun.of_restrict).mpr hrun firmwareUpdate [] _ rfl hrun.of_restrict⟩

/-- The update of a stored file that is no firmware raises a `KeyError` and keeps the lock. -/
theorem file_update_keeps_lock :
    ¬ ∀ (events : List StatusEvent) (s : StatusState),
      Run StatusStep StatusState.init events s → StatusSafe s := by
  intro h
  have hrun : Run StatusStep StatusState.init
      [.call 0 (.addUpdateToCurrentAnalyses innerFile []), .acquire 0, .execute 0 1, .acquire 0,
        .execute 0 1] _ :=
    .cons (.call _ rfl) <| .cons (.acquire rfl rfl) <| .cons (.execute 1 rfl rfl) <|
    .cons (.acquire rfl rfl) <| .cons (.execute 1 rfl rfl) (.nil _)
  exact (h _ _ hrun).notEnded 0 rfl rfl

end FactCore
