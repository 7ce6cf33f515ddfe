import FactCore.Lib.Dict
import FactCore.Lib.Run
import FactCore.Lib.Separator
import FactCore.Objects

/-!
# QEMU test runs

`_run_analysis_jobs` starts a job for each file of a container and each
architecture that the file may be for. A job runs the file in a docker container
and enters the output into `results_dict`, which all jobs share: it looks whether
the file has an entry, copies the results of the entry and writes the copy back
with its own result. No lock is held in between.

Results:
1. `JobsInv.step`: what is stored was entered by a finished job, and a file has an
   entry if and only if a job has entered something for it.
2. `qemu_results_survive_iff`: no result is lost if and only if every job has read,
   when it writes, all results that its file has at this moment.
3. `two_architectures_lose_a_result`: two jobs for one file.
-/

namespace FactCore

/-! ## 1. Jobs -/

/-- The results of a file by architecture. A result is what the container printed for each
parameter. -/
abbrev ArchResults (ν : Type) := Dict String (Dict String ν)

/-- An entry of `results_dict`. -/
structure QemuEntry (ν : Type) where
  path : String
  results : ArchResults ν

/-- A call of `process_qemu_job`, with what `check_qemu_executability` returns in it. -/
structure QemuJob (ν : Type) where
  filePath : String
  archSuffix : String
  uid : Uid
  result : Dict String ν

/-- The test `if result`. -/
def QemuJob.hasResult {ν : Type} (job : QemuJob ν) : Bool := !job.result.entries.isEmpty

/-- How far a job has come. -/
inductive JobProgress (ν : Type)
  | waiting
  /-- `uid in results_dict` was true. -/
  | present
  /-- `tmp_dict` is built from the results that were read, `none` if there was no entry. -/
  | ready (read : Option (ArchResults ν))
  | finished
  /-- The entry was gone: `KeyError`. -/
  | failed

/-- The shared dictionary and the progress of each job. -/
structure QemuState (ν : Type) where
  resultsDict : Dict Uid (QemuEntry ν)
  progress : Nat → JobProgress ν

section Jobs
variable {ν : Type}

/-- `tmp_dict`, as it is written. -/
def QemuJob.tmpDict (job : QemuJob ν) (read : Option (ArchResults ν)) : ArchResults ν :=
  match read with
  | some results => results.set job.archSuffix job.result
  | none => Dict.ofList [(job.archSuffix, job.result)]

def QemuState.start : QemuState ν := ⟨∅, fun _ => .waiting⟩

def QemuState.setProgress (s : QemuState ν) (i : Nat) (p : JobProgress ν) : QemuState ν :=
  { s with progress := Function.update s.progress i p }

/-- `process_qemu_job` up to its next operation on `results_dict`. -/
def processQemuJob (s : QemuState ν) (i : Nat) (job : QemuJob ν) : Option (QemuState ν) :=
  match s.progress i with
  | .waiting =>
    if job.hasResult then
      if job.uid ∈ s.resultsDict then some (s.setProgress i .present)
      else some (s.setProgress i (.ready none))
    else some (s.setProgress i .finished)
  | .present =>
    match s.resultsDict.get? job.uid with
    | some entry => some (s.setProgress i (.ready (some entry.results)))
    | none => some (s.setProgress i .failed)
  | .ready read =>
    let entry := ⟨job.filePath, job.tmpDict read⟩
    some { s.setProgress i .finished with resultsDict := s.resultsDict.set job.uid entry }
  | .finished => none
  | .failed => none

/-- The `i`-th job takes its next step. -/
def QemuStep (jobs : List (QemuJob ν)) (s : QemuState ν) (i : Nat) (s' : QemuState ν) : Prop :=
  ∃ job, jobs[i]? = some job ∧ processQemuJob s i job = some s'

/-- The result that the entry of a file holds for an architecture. -/
def QemuState.stored (s : QemuState ν) (uid : Uid) (arch : String) : Option (Dict String ν) :=
  (s.resultsDict.get? uid).bind fun entry => entry.results.get? arch

/-- The job number `i` is finished and has entered its result. -/
structure Entered (jobs : List (QemuJob ν)) (s : QemuState ν) (i : Nat) (job : QemuJob ν) :
    Prop where
  listed : jobs[i]? = some job
  finished : s.progress i = .finished
  hasResult : job.hasResult = true

/-- There are entries for the files of the jobs that have entered a result, and their results are
all there. -/
structure ResultsSurvive (jobs : List (QemuJob ν)) (s : QemuState ν) : Prop where
  entries : ∀ uid, uid ∈ s.resultsDict ↔ ∃ i job, Entered jobs s i job ∧ job.uid = uid
  results : ∀ i job, Entered jobs s i job → s.stored job.uid job.archSuffix = some job.result

/-- Exactly the files with a result have entries, and their entries hold all their results. -/
structure AllEntered (jobs : List (QemuJob ν)) (resultsDict : Dict Uid (QemuEntry ν)) : Prop where
  entries : ∀ uid, uid ∈ resultsDict ↔ ∃ job ∈ jobs, job.hasResult = true ∧ job.uid = uid
  results : ∀ job ∈ jobs, job.hasResult = true →
    ∃ entry, resultsDict.get? job.uid = some entry ∧
      entry.results.get? job.archSuffix = some job.result

/-- A job that writes has read every result that its file has at this moment, or brings it. -/
def ReadAll (jobs : List (QemuJob ν)) (s : QemuState ν) (i : Nat) : Prop :=
  ∀ job read, jobs[i]? = some job → s.progress i = .ready read →
    ∀ arch r, s.stored job.uid arch = some r →
      (arch = job.archSuffix ∧ r = job.result) ∨
      (arch ≠ job.archSuffix ∧ ∃ results, read = some results ∧ results.get? arch = some r)

/-! ## 2. One step -/

/-- What a job can do. -/
inductive QemuOutcome (s : QemuState ν) (i : Nat) (job : QemuJob ν) : QemuState ν → Prop
  | empty : s.progress i = .waiting → job.hasResult = false →
      QemuOutcome s i job (s.setProgress i .finished)
  | absent : s.progress i = .waiting → job.hasResult = true → job.uid ∉ s.resultsDict →
      QemuOutcome s i job (s.setProgress i (.ready none))
  | found : s.progress i = .waiting → job.hasResult = true → job.uid ∈ s.resultsDict →
      QemuOutcome s i job (s.setProgress i .present)
  | read {entry : QemuEntry ν} : s.progress i = .present →
      s.resultsDict.get? job.uid = some entry →
      QemuOutcome s i job (s.setProgress i (.ready (some entry.results)))
  | fail : s.progress i = .present → job.uid ∉ s.resultsDict →
      QemuOutcome s i job (s.setProgress i .failed)
  | write {read : Option (ArchResults ν)} : s.progress i = .ready read →
      QemuOutcome s i job
        ⟨s.resultsDict.set job.uid ⟨job.filePath, job.tmpDict read⟩,
          Function.update s.progress i .finished⟩

variable {jobs : List (QemuJob ν)} {s s' t : QemuState ν} {i : Nat} {job : QemuJob ν}
  {es : List Nat}

theorem processQemuJob_outcome (h : processQemuJob s i job = some s') :
    QemuOutcome s i job s' := by
  unfold processQemuJob at h
  split at h
  · next hwait =>
    split at h
    · next hres =>
      split at h
      · next hmem => cases h; exact .found hwait hres hmem
      · next hmem => cases h; exact .absent hwait hres hmem
    · next hres => cases h; exact .empty hwait (Bool.eq_false_iff.mpr hres)
  · next hpresent =>
    split at h
    · next entry hget => cases h; exact .read hpresent hget
    · next hget => cases h; exact .fail hpresent (Dict.get?_eq_none_iff.mp hget)
  · next read hready => cases h; exact .write hready
  · cases h
  · cases h

@[simp] theorem progress_setProgress_self (s : QemuState ν) (i : Nat) (p : JobProgress ν) :
    (s.setProgress i p).progress i = p := by
  simp [QemuState.setProgress]

theorem progress_setProgress_of_ne {j : Nat} (h : j ≠ i) (p : JobProgress ν) :
    (s.setProgress i p).progress j = s.progress j := by
  simp [QemuState.setProgress, h]

theorem get?_tmpDict (read : Option (ArchResults ν)) (arch : String) :
    (job.tmpDict read).get? arch =
      if arch = job.archSuffix then some job.result else read.bind (·.get? arch) := by
  cases read with
  | none => exact Dict.get?_set ∅ job.archSuffix arch job.result
  | some results => exact Dict.get?_set results job.archSuffix arch job.result

/-! ## 3. What every run keeps -/

/-- What is stored or was read has been entered, and jobs only come to the dictionary with a
result. -/
structure JobsInv (jobs : List (QemuJob ν)) (s : QemuState ν) : Prop where
  hasResult : ∀ i job, jobs[i]? = some job →
    (s.progress i = .present ∨ ∃ read, s.progress i = .ready read) → job.hasResult = true
  present : ∀ i job, jobs[i]? = some job → s.progress i = .present → job.uid ∈ s.resultsDict
  notFailed : ∀ i, s.progress i ≠ .failed
  entries : ∀ uid, uid ∈ s.resultsDict ↔ ∃ i job, Entered jobs s i job ∧ job.uid = uid
  stored : ∀ uid arch r, s.stored uid arch = some r →
    ∃ i job, Entered jobs s i job ∧ job.uid = uid ∧ job.archSuffix = arch ∧ job.result = r
  read : ∀ i job results arch r, jobs[i]? = some job → s.progress i = .ready (some results) →
    results.get? arch = some r →
    ∃ j job', Entered jobs s j job' ∧ job'.uid = job.uid ∧ job'.archSuffix = arch ∧ job'.result = r

theorem JobsInv.start : JobsInv jobs (.start : QemuState ν) := by
  have hnone : ∀ i job, ¬ Entered jobs (.start : QemuState ν) i job := fun i job h => by
    cases h.finished
  refine ⟨fun i job _ h => ?_, fun i job _ h => ?_, fun i h => ?_, fun uid => ?_,
    fun uid arch r h => ?_, fun i job results arch r _ h _ => ?_⟩
  · obtain h | ⟨read, h⟩ := h <;> cases h
  · cases h
  · cases h
  · exact iff_of_false (Dict.not_mem_empty uid) fun ⟨i, job, h, _⟩ => hnone i job h
  · cases h
  · cases h

/-- A step that leaves the dictionary alone enters nothing. -/
theorem entered_setProgress {p : JobProgress ν} (hjob : jobs[i]? = some job)
    (hold : s.progress i ≠ .finished) (hnew : p = .finished → job.hasResult = false)
    (j : Nat) (job' : QemuJob ν) :
    Entered jobs (s.setProgress i p) j job' ↔ Entered jobs s j job' := by
  rcases eq_or_ne j i with rfl | hne
  · constructor
    · intro h
      have hp : p = .finished := (progress_setProgress_self s j p).symm.trans h.finished
      obtain rfl := Option.some.inj (hjob.symm.trans h.listed)
      exact absurd h.hasResult (by simp [hnew hp])
    · intro h
      exact absurd h.finished hold
  · have hsame := progress_setProgress_of_ne (s := s) hne p
    exact ⟨fun h => ⟨h.listed, hsame ▸ h.finished, h.hasResult⟩,
      fun h => ⟨h.listed, hsame ▸ h.finished, h.hasResult⟩⟩

/-- A write enters the result of its job. -/
theorem entered_write {d : Dict Uid (QemuEntry ν)} {read : Option (ArchResults ν)}
    (hjob : jobs[i]? = some job) (hready : s.progress i = .ready read)
    (hres : job.hasResult = true) (j : Nat) (job' : QemuJob ν) :
    Entered jobs ⟨d, Function.update s.progress i .finished⟩ j job' ↔
      Entered jobs s j job' ∨ (j = i ∧ job' = job) := by
  rcases eq_or_ne j i with rfl | hne
  · constructor
    · intro h
      exact .inr ⟨rfl, Option.some.inj (h.listed.symm.trans hjob)⟩
    · intro h
      rcases h with h | ⟨-, rfl⟩
      · rw [h.finished] at hready
        cases hready
      · exact ⟨hjob, Function.update_self _ _ _, hres⟩
  · have hsame := Function.update_of_ne hne (JobProgress.finished) s.progress
    constructor
    · intro h
      exact .inl ⟨h.listed, hsame ▸ h.finished, h.hasResult⟩
    · intro h
      rcases h with h | ⟨heq, -⟩
      · exact ⟨h.listed, hsame.trans h.finished, h.hasResult⟩
      · exact absurd heq hne

theorem stored_write (d : Dict Uid (QemuEntry ν)) (p : Nat → JobProgress ν) (uid uid' : Uid)
    (path arch : String) (results : ArchResults ν) :
    (⟨d.set uid ⟨path, results⟩, p⟩ : QemuState ν).stored uid' arch =
      if uid' = uid then results.get? arch else (⟨d, p⟩ : QemuState ν).stored uid' arch := by
  unfold QemuState.stored
  rw [Dict.get?_set]
  split <;> rfl

/-- A step that leaves the dictionary alone keeps the invariant, if the new progress does. -/
theorem JobsInv.setProgress (hinv : JobsInv jobs s) {p : JobProgress ν}
    (hjob : jobs[i]? = some job) (hold : s.progress i ≠ .finished)
    (hnew : p = .finished → job.hasResult = false)
    (hres : p = .present ∨ (∃ read, p = .ready read) → job.hasResult = true)
    (hpresent : p = .present → job.uid ∈ s.resultsDict) (hfail : p ≠ .failed)
    (hread : ∀ results arch r, p = .ready (some results) → results.get? arch = some r →
      s.stored job.uid arch = some r) : JobsInv jobs (s.setProgress i p) := by
  have hentered := entered_setProgress hjob hold hnew
  have hself := progress_setProgress_self s i p
  have hother : ∀ j, j ≠ i → (s.setProgress i p).progress j = s.progress j :=
    fun j hne => progress_setProgress_of_ne hne p
  refine ⟨fun j job' hj h => ?_, fun j job' hj h => ?_, fun j h => ?_, fun uid => ?_,
    fun uid arch r h => ?_, fun j job' results arch r hj h hget => ?_⟩
  · rcases eq_or_ne j i with rfl | hne
    · obtain rfl := Option.some.inj (hjob.symm.trans hj)
      rw [hself] at h
      exact hres h
    · rw [hother j hne] at h
      exact hinv.hasResult j job' hj h
  · rcases eq_or_ne j i with rfl | hne
    · obtain rfl := Option.some.inj (hjob.symm.trans hj)
      exact hpresent (hself.symm.trans h)
    · exact hinv.present j job' hj ((hother j hne).symm.trans h)
  · rcases eq_or_ne j i with rfl | hne
    · exact hfail (hself.symm.trans h)
    · exact hinv.notFailed j ((hother j hne).symm.trans h)
  · simp only [hentered]
    exact hinv.entries uid
  · simp only [hentered]
    exact hinv.stored uid arch r h
  · simp only [hentered]
    rcases eq_or_ne j i with rfl | hne
    · obtain rfl := Option.some.inj (hjob.symm.trans hj)
      exact hinv.stored job.uid arch r (hread results arch r (hself.symm.trans h) hget)
    · exact hinv.read j job' results arch r hj ((hother j hne).symm.trans h) hget

/-- A write keeps the invariant. -/
theorem JobsInv.write (hinv : JobsInv jobs s) {read : Option (ArchResults ν)}
    (hjob : jobs[i]? = some job) (hready : s.progress i = .ready read) :
    JobsInv jobs ⟨s.resultsDict.set job.uid ⟨job.filePath, job.tmpDict read⟩,
      Function.update s.progress i .finished⟩ := by
  have hres : job.hasResult = true := hinv.hasResult i job hjob (.inr ⟨read, hready⟩)
  have hentered := entered_write (d := s.resultsDict.set job.uid ⟨job.filePath, job.tmpDict read⟩)
    hjob hready hres
  have hkeep : ∀ {j job'}, Entered jobs s j job' → Entered jobs _ j job' :=
    fun h => (hentered _ _).mpr (.inl h)
  have hown : Entered jobs _ i job := (hentered i job).mpr (.inr ⟨rfl, rfl⟩)
  -- only the job itself has moved, and it is finished
  have hprogress : ∀ j p, Function.update s.progress i .finished j = p → p ≠ .finished →
      s.progress j = p := by
    intro j p h hp
    rcases eq_or_ne j i with rfl | hne
    · exact absurd ((Function.update_self j _ s.progress).symm.trans h) hp.symm
    · exact (Function.update_of_ne hne _ s.progress).symm.trans h
  refine ⟨fun j job' hj h => ?_, fun j job' hj h => ?_, fun j h => ?_, fun uid => ?_,
    fun uid arch r h => ?_, fun j job' results arch r hj h hget => ?_⟩
  · refine hinv.hasResult j job' hj (h.imp (fun h => ?_) fun ⟨read', h⟩ => ⟨read', ?_⟩)
    · exact hprogress j _ h (by simp)
    · exact hprogress j _ h (by simp)
  · exact Dict.mem_set.mpr (.inr (hinv.present j job' hj (hprogress j _ h (by simp))))
  · exact hinv.notFailed j (hprogress j _ h (by simp))
  · rw [Dict.mem_set, hinv.entries]
    constructor
    · intro h
      rcases h with rfl | ⟨j, job', he, huid⟩
      · exact ⟨i, job, hown, rfl⟩
      · exact ⟨j, job', hkeep he, huid⟩
    · intro h
      obtain ⟨j, job', he, huid⟩ := h
      rcases (hentered j job').mp he with he | ⟨-, rfl⟩
      · exact .inr ⟨j, job', he, huid⟩
      · exact .inl huid.symm
  · rw [stored_write] at h
    split at h
    · next huid =>
      subst huid
      rw [get?_tmpDict] at h
      split at h
      · next harch => exact ⟨i, job, hown, rfl, harch.symm, Option.some.inj h⟩
      · obtain ⟨results, rfl, hget⟩ := Option.bind_eq_some_iff.mp h
        obtain ⟨j, job', he, hrest⟩ := hinv.read i job results arch r hjob hready hget
        exact ⟨j, job', hkeep he, hrest⟩
    · obtain ⟨j, job', he, hrest⟩ := hinv.stored uid arch r h
      exact ⟨j, job', hkeep he, hrest⟩
  · have hj' := hprogress j _ h (by simp)
    obtain ⟨k, job'', he, hrest⟩ := hinv.read j job' results arch r hj hj' hget
    exact ⟨k, job'', hkeep he, hrest⟩

theorem JobsInv.step (hinv : JobsInv jobs s) (h : QemuStep jobs s i s') : JobsInv jobs s' := by
  obtain ⟨job, hjob, hstep⟩ := h
  cases processQemuJob_outcome hstep with
  | empty hwait hres =>
    exact hinv.setProgress hjob (by simp [hwait]) (fun _ => hres) (by simp) (by simp) (by simp)
      (by simp)
  | absent hwait hres hmem =>
    exact hinv.setProgress hjob (by simp [hwait]) (by simp) (fun _ => hres) (by simp) (by simp)
      (by simp)
  | found hwait hres hmem =>
    exact hinv.setProgress hjob (by simp [hwait]) (by simp) (fun _ => hres) (fun _ => hmem)
      (by simp) (by simp)
  | @read entry hpresent hget =>
    have hres : job.hasResult = true := hinv.hasResult i job hjob (.inl hpresent)
    refine hinv.setProgress hjob (by simp [hpresent]) (by simp) (fun _ => hres) (by simp)
      (by simp) fun results arch r hp hr => ?_
    cases hp
    simpa [QemuState.stored, hget] using hr
  | fail hpresent hmem => exact absurd (hinv.present i job hjob hpresent) hmem
  | write hready => exact hinv.write hjob hready

/-! ## 4. Lost results -/

/-- A step that leaves the dictionary alone loses nothing. -/
theorem resultsSurvive_setProgress {p : JobProgress ν} (hjob : jobs[i]? = some job)
    (hold : s.progress i ≠ .finished) (hnew : p = .finished → job.hasResult = false)
    (hs : ResultsSurvive jobs s) : ResultsSurvive jobs (s.setProgress i p) := by
  have hentered := entered_setProgress hjob hold hnew
  constructor
  · intro uid
    simp only [hentered]
    exact hs.entries uid
  · intro j job' h
    exact hs.results j job' ((hentered j job').mp h)

/-- A write loses nothing if and only if the job has read all that is stored. -/
theorem resultsSurvive_write_iff (hinv : JobsInv jobs s) {read : Option (ArchResults ν)}
    (hjob : jobs[i]? = some job) (hready : s.progress i = .ready read)
    (hs : ResultsSurvive jobs s) :
    ResultsSurvive jobs ⟨s.resultsDict.set job.uid ⟨job.filePath, job.tmpDict read⟩,
      Function.update s.progress i .finished⟩ ↔ ReadAll jobs s i := by
  have hres : job.hasResult = true := hinv.hasResult i job hjob (.inr ⟨read, hready⟩)
  have hentered := entered_write (d := s.resultsDict.set job.uid ⟨job.filePath, job.tmpDict read⟩)
    hjob hready hres
  constructor
  · intro h job' read' hjob' hready' arch r hstored
    obtain rfl := Option.some.inj (hjob.symm.trans hjob')
    obtain rfl := JobProgress.ready.inj (hready.symm.trans hready')
    -- what is stored was entered by a job whose result is still there after the write
    obtain ⟨j, job', he, huid, rfl, rfl⟩ := hinv.stored job.uid arch r hstored
    have hafter := h.results j job' ((hentered j job').mpr (.inl he))
    rw [huid, stored_write, if_pos rfl, get?_tmpDict] at hafter
    split at hafter
    · next harch => exact .inl ⟨harch, (Option.some.inj hafter).symm⟩
    · next harch => exact .inr ⟨harch, Option.bind_eq_some_iff.mp hafter⟩
  · intro h
    refine ⟨(hinv.write hjob hready).entries, fun j job' he => ?_⟩
    rw [stored_write]
    rcases (hentered j job').mp he with hold | ⟨-, rfl⟩
    · have hbefore := hs.results j job' hold
      split
      · next huid =>
        rw [huid] at hbefore
        rw [get?_tmpDict]
        rcases h job read hjob hready _ _ hbefore with ⟨harch, hr⟩ | ⟨harch, hread⟩
        · rw [if_pos harch, hr]
        · rw [if_neg harch]
          exact Option.bind_eq_some_iff.mpr hread
      · exact hbefore
    · rw [if_pos rfl, get?_tmpDict, if_pos rfl]

/-- A job that does not write meets the condition. -/
theorem readAll_of_not_ready (h : ∀ read, s.progress i ≠ .ready read) : ReadAll jobs s i :=
  fun _ read _ hready => absurd hready (h read)

theorem resultsSurvive_step_iff (hinv : JobsInv jobs s) (hs : ResultsSurvive jobs s)
    (h : QemuStep jobs s i s') : ResultsSurvive jobs s' ↔ ReadAll jobs s i := by
  obtain ⟨job, hjob, hstep⟩ := h
  cases processQemuJob_outcome hstep with
  | empty hwait hres =>
    exact iff_of_true (resultsSurvive_setProgress hjob (by simp [hwait]) (fun _ => hres) hs)
      (readAll_of_not_ready (by simp [hwait]))
  | absent hwait hres hmem =>
    exact iff_of_true (resultsSurvive_setProgress hjob (by simp [hwait]) (by simp) hs)
      (readAll_of_not_ready (by simp [hwait]))
  | found hwait hres hmem =>
    exact iff_of_true (resultsSurvive_setProgress hjob (by simp [hwait]) (by simp) hs)
      (readAll_of_not_ready (by simp [hwait]))
  | read hpresent hget =>
    exact iff_of_true (resultsSurvive_setProgress hjob (by simp [hpresent]) (by simp) hs)
      (readAll_of_not_ready (by simp [hpresent]))
  | fail hpresent hmem => exact absurd (hinv.present i job hjob hpresent) hmem
  | write hready => exact resultsSurvive_write_iff hinv hjob hready hs

theorem QemuStep.unique {s'' : QemuState ν} (h : QemuStep jobs s i s')
    (h' : QemuStep jobs s i s'') : s' = s'' := by
  obtain ⟨job, hjob, hstep⟩ := h
  obtain ⟨job', hjob', hstep'⟩ := h'
  obtain rfl := Option.some.inj (hjob.symm.trans hjob')
  exact Option.some.inj (hstep.symm.trans hstep')

theorem jobsInv_of_run (h : Run (QemuStep jobs) .start es t) : JobsInv jobs t :=
  h.invariant (fun _ _ _ hinv hstep => hinv.step hstep) .start

theorem ResultsSurvive.start : ResultsSurvive jobs (.start : QemuState ν) :=
  ⟨JobsInv.start.entries, fun i job he => by cases he.finished⟩

/-- When all jobs are finished, nothing is missing. -/
theorem ResultsSurvive.allEntered (h : ResultsSurvive jobs s)
    (hall : ∀ i < jobs.length, s.progress i = .finished) : AllEntered jobs s.resultsDict := by
  have hentered : ∀ {i job}, jobs[i]? = some job → job.hasResult = true → Entered jobs s i job :=
    fun hi hres => ⟨hi, hall _ (List.getElem?_eq_some_iff.mp hi).1, hres⟩
  constructor
  · intro uid
    rw [h.entries]
    constructor
    · intro hmem
      obtain ⟨i, job, he, huid⟩ := hmem
      exact ⟨job, List.mem_of_getElem? he.listed, he.hasResult, huid⟩
    · intro hmem
      obtain ⟨job, hjob, hres, huid⟩ := hmem
      obtain ⟨i, hi⟩ := List.mem_iff_getElem?.mp hjob
      exact ⟨i, job, hentered hi hres, huid⟩
  · intro job hjob hres
    obtain ⟨i, hi⟩ := List.mem_iff_getElem?.mp hjob
    exact Option.bind_eq_some_iff.mp (h.results i job (hentered hi hres))

/-- The files with a result have entries, and no job ends with an error, in whatever order the
jobs take their steps. The results are all there at all times if and only if every job has read,
when it writes, what is stored for its file. -/
theorem qemu_results_survive_iff (jobs : List (QemuJob ν)) (es : List Nat) (t : QemuState ν)
    (h : Run (QemuStep jobs) .start es t) :
    (∀ uid, uid ∈ t.resultsDict ↔ ∃ i job, Entered jobs t i job ∧ job.uid = uid) ∧
    (∀ i, t.progress i ≠ .failed) ∧
    ((∀ pre suf m, es = pre ++ suf → Run (QemuStep jobs) .start pre m → ResultsSurvive jobs m) ↔
      Run (Restrict (ReadAll jobs) (QemuStep jobs)) .start es t) ∧
    (Run (Restrict (ReadAll jobs) (QemuStep jobs)) .start es t →
      (∀ i < jobs.length, t.progress i = .finished) → AllEntered jobs t.resultsDict) := by
  have hinv := jobsInv_of_run h
  have hiff : (∀ pre suf m, es = pre ++ suf → Run (QemuStep jobs) .start pre m →
      ResultsSurvive jobs m) ↔ Run (Restrict (ReadAll jobs) (QemuStep jobs)) .start es t := by
    have hstep : ∀ (_ : List Nat) s i s', JobsInv jobs s ∧ ResultsSurvive jobs s →
        QemuStep jobs s i s' →
        (JobsInv jobs s' ∧ ResultsSurvive jobs s' ↔ ReadAll jobs s i) := by
      intro _ s i s' hgood hs
      rw [and_iff_right (hgood.1.step hs)]
      exact resultsSurvive_step_iff hgood.1 hgood.2 hs
    have hdet : ∀ s i s' s'', QemuStep jobs s i s' → QemuStep jobs s i s'' → s' = s'' :=
      fun _ _ _ _ h h' => h.unique h'
    rw [← Run.forall_prefix_iff (fun _ s => JobsInv jobs s ∧ ResultsSurvive jobs s) [] hdet hstep
      ⟨.start, .start⟩ h]
    constructor
    · intro hall pre suf m hes hrun
      exact ⟨jobsInv_of_run hrun, hall pre suf m hes hrun⟩
    · intro hall pre suf m hes hrun
      exact (hall pre suf m hes hrun).2
  refine ⟨hinv.entries, hinv.notFailed, hiff, fun hrun hall => ?_⟩
  exact (hiff.mpr hrun es [] t (List.append_nil es).symm h).allEntered hall

/-- A binary that was run for `arm` and for `armeb`. -/
def armJobs : List (QemuJob String) :=
  [⟨"/bin/ls", "arm", "ls", Dict.ofList [("-h", "usage")]⟩,
    ⟨"/bin/ls", "armeb", "ls", Dict.ofList [("error", "timeout")]⟩]

/-- The first job ends before the second one looks for the entry. -/
theorem armJobs_in_turn : ∃ t, Run (QemuStep armJobs) .start [0, 0, 1, 1, 1] t ∧
    AllEntered armJobs t.resultsDict := by
  have hrun : ∃ t, Run (Restrict (ReadAll armJobs) (QemuStep armJobs)) .start [0, 0, 1, 1, 1] t ∧
      ∀ i < 2, t.progress i = .finished := by
    refine ⟨_, .cons ⟨?_, _, rfl, rfl⟩ (.cons ⟨?_, _, rfl, rfl⟩ (.cons ⟨?_, _, rfl, rfl⟩
      (.cons ⟨?_, _, rfl, rfl⟩ (.cons ⟨?_, _, rfl, rfl⟩ (.nil _))))), ?_⟩
    · exact readAll_of_not_ready fun _ h => by cases h
    · intro job read hjob hready arch r hstored
      cases hstored
    · exact readAll_of_not_ready fun _ h => by cases h
    · exact readAll_of_not_ready fun _ h => by cases h
    · intro job read hjob hready arch r hstored
      cases hjob
      cases hready
      refine .inr ⟨?_, _, rfl, hstored⟩
      rintro rfl
      cases hstored
    · intro i hi
      obtain rfl | rfl : i = 0 ∨ i = 1 := by omega
      · rfl
      · rfl
  obtain ⟨t, hrun, hall⟩ := hrun
  exact ⟨t, hrun.of_restrict,
    (qemu_results_survive_iff armJobs _ t hrun.of_restrict).2.2.2 hrun hall⟩

/-- Both jobs look for the entry before one of them writes it. -/
theorem two_architectures_lose_a_result : ¬ ∀ (jobs : List (QemuJob String)) (es : List Nat)
    (t : QemuState String), Run (QemuStep jobs) .start es t →
      (∀ i < jobs.length, t.progress i = .finished) → AllEntered jobs t.resultsDict := by
  intro hclaim
  have hrun : ∃ t, Run (QemuStep armJobs) .start [0, 1, 0, 1] t ∧
      (∀ i < 2, t.progress i = .finished) ∧ t.stored "ls" "arm" = none := by
    refine ⟨_, .cons ⟨_, rfl, rfl⟩ (.cons ⟨_, rfl, rfl⟩ (.cons ⟨_, rfl, rfl⟩
      (.cons ⟨_, rfl, rfl⟩ (.nil _)))), fun i hi => ?_, rfl⟩
    obtain rfl | rfl : i = 0 ∨ i = 1 := by omega
    · rfl
    · rfl
  obtain ⟨t, hrun, hall, hlost⟩ := hrun
  obtain ⟨entry, hget, hres⟩ :=
    (hclaim armJobs _ t hrun hall).results _ (List.mem_cons_self) rfl
  have hstored : t.stored "ls" "arm" = some _ := Option.bind_eq_some_iff.mpr ⟨entry, hget, hres⟩
  rw [hlost] at hstored
  cases hstored

end Jobs

end FactCore
