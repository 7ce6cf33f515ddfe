import FactCore.Lib.Backlog
import FactCore.Scheduler.PipelineWays

/-!
# The order in which objects come to the database

`_process_next_analysis_task` adds an object to the database when its first turn comes,
and the database refuses an object none of whose parents or none of whose roots is
there. Nothing waits for the parents: the workers of the unpacker put an archive into
the process queue before they put its files into the unpacking queue, and one process
takes the objects from the process queue. That lets the parents come first, however many
workers there are and however slow they are, but for one thing. The archive and its file
come from two workers, and a `multiprocessing.Queue` does not promise to hand out the
archive first. A file that overtakes its archive is lost.

Results:
1. `analysisStep_rows`, `analysisStep_object`: a step takes no row away, and leaves the
   uid and the references of an object as they are.
2. `unpackTask_references`: what an extracted object refers to.
3. `PipelineStep.parentsFirst`: every step keeps the order.
4. `pipeline_parents_first`: an object whose parents are missing when its turn comes is a
   file below an object that could not be added itself, or it overtakes its parents.
-/

namespace FactCore

open Backlog

/-! ## 1. What an object refers to -/

/-- The objects that have to be in the database. -/
def FileObject.references (fo : FileObject) : List Uid := fo.parents ++ fo.parentFirmwareUids

def Task.uid (t : Task) : Uid := t.fo.uid

def Task.references (t : Task) : List Uid := t.fo.references

/-- The object at a place from which it goes on. -/
def Place.object? : Place → Option FileObject
  | .processQueue fo | .inQueue _ fo | .outQueue _ fo => some fo
  | .completed _ | .dropped _ | .crashed _ => none

/-- It is the same file, with the same references. -/
structure SameFile (fo fo' : FileObject) : Prop where
  uid : fo'.uid = fo.uid
  references : fo'.references = fo.references

theorem SameFile.refl (fo : FileObject) : SameFile fo fo := ⟨rfl, rfl⟩

theorem SameFile.trans {fo fo' fo'' : FileObject} (h : SameFile fo fo') (h' : SameFile fo' fo'') :
    SameFile fo fo'' :=
  ⟨h'.uid.trans h.uid, h'.references.trans h.references⟩

section Steps
variable {env : AnalysisEnv} {s s' : AnalysisState} {fo fo' : FileObject} {name : String}
  {plugins : PluginTable}

theorem object?_checkedPlace (h : (checkedPlace fo).object? = some fo') : fo' = fo := by
  unfold checkedPlace at h
  split at h
  · cases h
  · exact (Option.some.inj h).symm

theorem object?_addJob (plugin : Plugin) (name : String) (fo : FileObject) :
    (addJob plugin name fo).object? = some fo := by
  unfold addJob
  split
  · rfl
  · split <;> rfl

theorem object?_of_ended (h : s.Ended) : s.place.object? = none := by
  unfold AnalysisState.Ended at h
  split at h
  · next fo hplace => rw [hplace]; rfl
  · next e hplace => rw [hplace]; rfl
  · exact absurd h id

theorem sameFile_blacklistCheck {db : Db} {plugin : Plugin} {b : Bool}
    (h : blacklistCheck env db name plugin fo = .ok (b, fo')) : SameFile fo fo' := by
  rw [blacklistCheck_others h]
  exact ⟨rfl, rfl⟩

theorem sameFile_runPlugin (env : AnalysisEnv) (now : Rat) (plugin : Plugin) (name : String)
    (fo : FileObject) : SameFile fo (runPlugin env now plugin name fo) := by
  unfold runPlugin
  dsimp only
  split <;> exact ⟨rfl, rfl⟩

theorem sameFile_unscheduleDependent {now : Rat} {failed p : String}
    (h : unscheduleDependent plugins now failed fo p = .ok fo') : SameFile fo fo' := by
  unfold unscheduleDependent at h
  obtain ⟨plugin, -, h⟩ := except_bind_eq_ok h
  split at h
  · cases h
    exact .refl fo
  · obtain ⟨result, -, h⟩ := except_bind_eq_ok h
    cases h
    exact ⟨rfl, rfl⟩

theorem sameFile_foldlM_unscheduleDependent {now : Rat} {failed : String} {names : List String}
    (h : names.foldlM (unscheduleDependent plugins now failed) fo = .ok fo') : SameFile fo fo' := by
  induction names generalizing fo with
  | nil =>
    cases h
    exact .refl _
  | cons p names ih =>
    rw [List.foldlM_cons] at h
    obtain ⟨fo1, h1, h⟩ := except_bind_eq_ok h
    exact (sameFile_unscheduleDependent h1).trans (ih h)

theorem sameFile_rescheduleFailedAnalysisTask {now : Rat}
    (h : rescheduleFailedAnalysisTask plugins now fo = .ok fo') : SameFile fo fo' := by
  unfold rescheduleFailedAnalysisTask at h
  split at h
  · cases h
  · obtain ⟨result, -, h⟩ := except_bind_eq_ok h
    obtain ⟨fo1, hfold, h⟩ := except_bind_eq_ok h
    cases h
    exact ⟨(sameFile_foldlM_unscheduleDependent hfold).uid,
      (sameFile_foldlM_unscheduleDependent hfold).references⟩

/-- An object that goes on is the one that was there. -/
theorem analysisStep_object (h : (analysisStep env s).place.object? = some fo') :
    ∃ fo, s.place.object? = some fo ∧ SameFile fo fo' := by
  have hpop : ∀ {fo : FileObject} {rest : List String} {name : String} {db : Db},
      Pops env s fo rest name db → s.place.object? = some fo := by
    intro fo rest name db hpops
    rw [hpops.place]
    rfl
  cases analysisStep_move env s with
  | ended hend =>
    rw [object?_of_ended hend] at h
    cases h
  | rests hplace hsame =>
    rw [hsame, hplace] at h
    cases h
  | waits _ _ hsame =>
    rw [hsame] at h
    exact ⟨fo', h, .refl fo'⟩
  | unknown hpops _ _ hplace =>
    rw [hplace] at h
    obtain rfl := object?_checkedPlace h
    exact ⟨_, hpop hpops, rfl, rfl⟩
  | upToDate hpops _ _ hfo _ hplace =>
    rw [hplace] at h
    obtain rfl := object?_checkedPlace h
    refine ⟨_, hpop hpops, ?_⟩
    rcases hfo with rfl | rfl <;> exact ⟨rfl, rfl⟩
  | skipped hpops _ _ hlist _ _ hplace =>
    rw [hplace] at h
    obtain rfl := object?_checkedPlace h
    have hsame := sameFile_blacklistCheck hlist
    exact ⟨_, hpop hpops, hsame.uid, hsame.references⟩
  | started hpops _ _ hlist _ hplace =>
    rw [hplace, object?_addJob] at h
    obtain rfl := Option.some.inj h
    have hsame := sameFile_blacklistCheck hlist
    exact ⟨_, hpop hpops, hsame.uid, hsame.references⟩
  | ran hplace _ _ hplace' =>
    rw [hplace'] at h
    obtain rfl := Option.some.inj h
    rw [hplace]
    exact ⟨_, rfl, sameFile_runPlugin _ _ _ _ _⟩
  | notRun hplace _ _ hplace' | collected hplace _ _ _ _ hplace' =>
    rw [hplace'] at h
    obtain rfl := object?_checkedPlace h
    rw [hplace]
    exact ⟨_, rfl, .refl _⟩
  | failed hplace _ _ hfo _ _ hplace' =>
    rw [hplace'] at h
    obtain rfl := object?_checkedPlace h
    rw [hplace]
    exact ⟨_, rfl, sameFile_rescheduleFailedAnalysisTask hfo⟩

/-! ## 2. The rows of a step -/

theorem storeAnalysis_rows {driver : Driver} {db db' : Db} {uid : Uid} {entry : AnalysisEntry}
    (h : storeAnalysis driver db uid name entry = .ok db') : db'.fileObjects = db.fileObjects := by
  unfold storeAnalysis at h
  split at h
  · cases h
  · cases h
  · split at h
    · cases h
    · cases h
      rfl

theorem readWriteSession_rows {db : Db} {body : Except PyException Db}
    (h : ∀ db', body = .ok db' → db'.fileObjects = db.fileObjects) :
    (readWriteSession db body).db.fileObjects = db.fileObjects := by
  cases body with
  | ok db' => exact h db' rfl
  | error e => rfl

theorem addAnalysis_rows (driver : Driver) (db : Db) (uid : Uid) (name : String) (result : PyVal) :
    (addAnalysis driver db uid name result).db.fileObjects = db.fileObjects := by
  have hinsert : (insertAnalysis driver db uid name result).db.fileObjects = db.fileObjects := by
    refine readWriteSession_rows fun db' h => ?_
    split at h
    · cases h
    · split at h
      · cases h
      · exact storeAnalysis_rows h
  have hupdate : (updateAnalysis driver db uid name result).db.fileObjects = db.fileObjects := by
    refine readWriteSession_rows fun db' h => ?_
    split at h
    · cases h
    · split at h
      · cases h
      · cases h
      · exact storeAnalysis_rows h
  unfold addAnalysis
  dsimp only
  split
  · split
    · split <;> assumption
    · split <;> assumption
  · split <;> assumption

theorem checkFurtherProcessOrComplete_rows (env : AnalysisEnv) (s : AnalysisState)
    (fo : FileObject) : (checkFurtherProcessOrComplete env s fo).db.fileObjects = s.db.fileObjects := by
  rw [(checkFurtherProcessOrComplete_spec env s fo).1]

theorem postAnalysisAndCheck_rows (env : AnalysisEnv) (s : AnalysisState) (fo : FileObject)
    (name : String) (result : PyVal) :
    (postAnalysisAndCheck env s fo name result).db.fileObjects = s.db.fileObjects := by
  have hadd := addAnalysis_rows env.driver s.db fo.uid name result
  unfold postAnalysisAndCheck
  dsimp only
  split
  · exact hadd
  · rw [checkFurtherProcessOrComplete_rows]
    exact hadd

theorem startOrSkipAnalysis_rows (env : AnalysisEnv) (s : AnalysisState) (name : String)
    (plugin : Plugin) (fo : FileObject) :
    (startOrSkipAnalysis env s name plugin fo).db.fileObjects = s.db.fileObjects := by
  unfold startOrSkipAnalysis
  split
  · rfl
  · unfold skipUpToDate
    split
    · rfl
    · exact checkFurtherProcessOrComplete_rows _ _ _
  · split
    · rfl
    · exact postAnalysisAndCheck_rows _ _ _ _ _
    · unfold startAnalysis
      split <;> rfl

theorem processAddedObject_rows (env : AnalysisEnv) (s : AnalysisState) (fo : FileObject) :
    (processAddedObject env s fo).db.fileObjects = s.db.fileObjects := by
  unfold processAddedObject
  split
  · rfl
  · dsimp only
    split
    · exact checkFurtherProcessOrComplete_rows _ _ _
    · exact startOrSkipAnalysis_rows _ _ _ _ _

theorem collectResult_rows (env : AnalysisEnv) (s : AnalysisState) (name : String)
    (fo : FileObject) : (collectResult env s name fo).db.fileObjects = s.db.fileObjects := by
  unfold collectResult
  split
  · split
    · rfl
    · exact postAnalysisAndCheck_rows _ _ _ _ _
  · exact checkFurtherProcessOrComplete_rows _ _ _

/-- An object whose turn comes is in the database afterwards, or it is dropped, or the process is
gone. -/
theorem processNextAnalysisTask_rows (env : AnalysisEnv) (s : AnalysisState) (fo : FileObject) :
    (∀ u ∈ s.db.fileObjects, u ∈ (processNextAnalysisTask env s fo).db.fileObjects) ∧
      (fo.uid ∈ (processNextAnalysisTask env s fo).db.fileObjects ∨
        (processNextAnalysisTask env s fo).place = .dropped fo ∨
        (processNextAnalysisTask env s fo).place.isCrashed = true) := by
  unfold processNextAnalysisTask
  dsimp only
  cases hraised : (addObject env.driver s.db fo).raised with
  | none =>
    rw [processAddedObject_rows]
    exact ⟨fun u hu => (mem_fileObjects_addObject hraised).mpr (.inr hu),
      .inl ((mem_fileObjects_addObject hraised).mpr (.inl rfl))⟩
  | some e =>
    have hrows := fileObjects_addObject_of_failed hraised
    dsimp only
    split
    · obtain ⟨tables, hremove⟩ := removeFromCurrentAnalyses_ok env
        { s with db := (addObject env.driver s.db fo).db } fo (.dropped fo)
      rw [hremove]
      exact ⟨fun u hu => hrows ▸ hu, .inr (.inl rfl)⟩
    · exact ⟨fun u hu => hrows ▸ hu, .inr (.inr rfl)⟩

/-- No row is taken away. -/
theorem analysisStep_rows (env : AnalysisEnv) (s : AnalysisState) :
    ∀ u ∈ s.db.fileObjects, u ∈ (analysisStep env s).db.fileObjects := by
  intro u hu
  unfold analysisStep
  dsimp only
  split
  · exact (processNextAnalysisTask_rows _ _ _).1 u hu
  · split <;> exact hu
  · rw [collectResult_rows]
    exact hu
  all_goals exact hu

end Steps

/-! ## 3. What is extracted -/

section Extracted
variable {cfg : PipelineConfig} {w : World} {t : Task} {out : Unpacked} {env : ExtractionEnv}

/-- A file before it is linked to its archive. -/
def LoadedFile.Loose (root : Uid) (file : LoadedFile) : Prop :=
  file.object.parents = [] ∧ file.object.parentFirmwareUids = [root]

theorem addExtractedFile_loose {state state' : ExtractionState} {item : ExtractedFile}
    (h : env.addExtractedFile state item = .ok state')
    (hloose : ∀ uid file, state.extractedFiles.get? uid = some file → file.Loose env.rootUid) :
    ∀ uid file, state'.extractedFiles.get? uid = some file → file.Loose env.rootUid := by
  unfold ExtractionEnv.addExtractedFile at h
  split at h
  · cases h
    exact hloose
  · obtain ⟨parentPath, -, h⟩ := except_bind_eq_ok h
    dsimp only at h
    split at h
    · next known hknown =>
      cases h
      intro uid file hfile
      rw [Dict.get?_set] at hfile
      split at hfile
      · obtain rfl := Option.some.inj hfile
        exact hloose _ known hknown
      · exact hloose uid file hfile
    · cases h
      intro uid file hfile
      rw [Dict.get?_set] at hfile
      split at hfile
      · obtain rfl := Option.some.inj hfile
        exact ⟨rfl, rfl⟩
      · exact hloose uid file hfile

theorem foldlM_addExtractedFile_loose {files : List ExtractedFile} {state state' : ExtractionState}
    (h : files.foldlM env.addExtractedFile state = .ok state')
    (hloose : ∀ uid file, state.extractedFiles.get? uid = some file → file.Loose env.rootUid) :
    ∀ uid file, state'.extractedFiles.get? uid = some file → file.Loose env.rootUid := by
  induction files generalizing state with
  | nil =>
    cases h
    exact hloose
  | cons item files ih =>
    rw [List.foldlM_cons] at h
    obtain ⟨state1, h1, h⟩ := except_bind_eq_ok h
    exact ih h (addExtractedFile_loose h1 hloose)

theorem includeIn_references {root : Uid} {file : LoadedFile} (h : file.Loose root)
    (parent : FileObject) : (file.includeIn root parent).references = [parent.uid, root] := by
  have hroots : (file.addVirtualFilePathIfNoneExists root (parent.getVirtualPathsForOneUid root)
      parent.uid).object.parentFirmwareUids = [root] := by
    unfold LoadedFile.addVirtualFilePathIfNoneExists
    split
    · exact h.2
    · exact h.2
  simp only [FileObject.references, LoadedFile.includeIn, hroots, h.1]
  rfl

theorem addIncludedFilesToObject_references {root : Uid} {files : List LoadedFile}
    (hfiles : ∀ file ∈ files, file.Loose root) (parent : FileObject) :
    SameFile parent (addIncludedFilesToObject root files parent).1 ∧
      ∀ child ∈ (addIncludedFilesToObject root files parent).2,
        child.references = [parent.uid, root] := by
  induction files generalizing parent with
  | nil => exact ⟨.refl parent, fun _ h => absurd h List.not_mem_nil⟩
  | cons file files ih =>
    obtain ⟨hsame, hchildren⟩ := ih (fun f hf => hfiles f (List.mem_cons_of_mem _ hf))
      (parent.includeUid (file.includeIn root parent).uid)
    refine ⟨⟨hsame.uid, hsame.references⟩, fun child hchild => ?_⟩
    rcases List.mem_cons.mp hchild with rfl | hchild
    · exact includeIn_references (hfiles file List.mem_cons_self) parent
    · exact hchildren child hchild

/-- An extracted file refers to its archive and to the root of its archive; the archive refers to
what it did before. -/
theorem unpackTask_references (h : unpackTask cfg w t = .ok out) : SameFile t.fo out.currentFo ∧
    ∀ child ∈ out.objects, child.references = [t.uid, t.rootUid] := by
  unfold unpackTask unpack at h
  split at h
  · cases h
    exact ⟨⟨rfl, rfl⟩, fun _ h => absurd h List.not_mem_nil⟩
  · obtain ⟨files, -, h⟩ := except_bind_eq_ok h
    cases files with
    | none =>
      cases h
      exact ⟨⟨rfl, rfl⟩, fun _ h => absurd h List.not_mem_nil⟩
    | some files =>
      obtain ⟨state, hstate, h⟩ := except_bind_eq_ok h
      have hloose := foldlM_addExtractedFile_loose hstate fun uid file hfile => (by cases hfile)
      have hitems : ∀ file ∈ removeDuplicates state.extractedFiles t.fo.uid,
          file.Loose t.rootUid := by
        intro file hfile
        obtain ⟨uid, hget⟩ := Dict.mem_values_iff.mp hfile
        exact hloose uid file (Dict.get?_of_get?_erase hget)
      obtain ⟨hsame, hchildren⟩ := addIncludedFilesToObject_references hitems t.fo
      cases h
      exact ⟨⟨hsame.uid, hsame.references⟩, hchildren⟩

end Extracted

/-! ## 4. What comes to the process queue -/

section Start
variable {plugins : PluginTable} {env : AnalysisEnv} {s s' : AnalysisState} {fo fo' : FileObject}

/-- With the mandatory plugins, `file_type` is always scheduled: it depends on nothing. -/
theorem fileType_mem_schedule (hplugins : plugins.WellFormed)
    (hmandatory : ∀ p ∈ mandatoryPlugins, p ∈ plugins) {shuffle : Shuffle} {fuel : Nat}
    {request : List String}
    (h : scheduleAnalysisTasks fuel plugins shuffle.run fo request true = some (.ok fo')) :
    "file_type" ∈ fo'.scheduledAnalysis := by
  by_cases hreq : ∀ p ∈ request, p ∈ plugins
  · obtain ⟨closure, hclosure, hmem⟩ :=
      addDependenciesRecursively_spec hplugins.closed hreq (Nat.lt_succ_self _)
    have hregistered : ∀ p ∈ shuffledList closure true, p ∈ plugins := by
      intro p hp
      have hscheduled : IsScheduled plugins request true p :=
        (mem_shuffledList.mp hp).imp_left (hmem p).mp
      exact isScheduled_registered hplugins hreq (fun _ => hmandatory) hscheduled
    obtain ⟨l, hl, -, -, -, hsaturated⟩ :=
      smartShuffleLoop_spec shuffle hregistered (Nat.lt_succ_self _)
    have hlisted : "file_type" ∈ l := hsaturated "file_type"
      (mem_shuffledList.mpr (.inr ⟨rfl, List.mem_cons_self⟩))
      fun d hd => absurd hd (hplugins.fileType d)
    have hsame := (scheduleAnalysisTasks_mono h (Nat.le_max_left fuel _)).symm.trans
      (scheduleAnalysisTasks_of_loops hclosure hl (Nat.le_max_right fuel _))
    obtain rfl := Except.ok.inj (Option.some.inj hsame)
    exact (assureFileTypeIsFirst_perm l).mem_iff.mpr hlisted
  · obtain ⟨p, hp, hno⟩ : ∃ p ∈ request, p ∉ plugins := by simpa using hreq
    obtain ⟨e, hraise⟩ := scheduleAnalysisTasks_unregistered shuffle.run fo true hp hno
    have hsame := (scheduleAnalysisTasks_mono h (Nat.le_max_left fuel 1)).symm.trans
      (hraise _ (Nat.le_max_right fuel 1))
    cases hsame

/-- A new object is put into the process queue, or an exception is raised. -/
theorem startAnalysisOfObject_queued (hplugins : env.plugins.WellFormed)
    (hmandatory : ∀ p ∈ mandatoryPlugins, p ∈ env.plugins) {fuel : Nat}
    (h : startAnalysisOfObject fuel env s fo = some s') : s'.db = s.db ∧
      (s'.place.isCrashed = true ∨ ∃ fo', s'.place = .processQueue fo' ∧ SameFile fo fo') := by
  unfold startAnalysisOfObject at h
  split at h
  · cases h
    exact ⟨rfl, .inl rfl⟩
  · obtain ⟨r, hr, rfl⟩ := Option.map_eq_some_iff.mp h
    cases r with
    | error e => exact ⟨rfl, .inl rfl⟩
    | ok fo' =>
      have hne := List.ne_nil_of_mem (fileType_mem_schedule hplugins hmandatory hr)
      obtain ⟨schedule, hfo'⟩ := scheduleAnalysisTasks_others hr
      obtain ⟨hdb, hplace, -⟩ := checkFurtherProcessOrComplete_spec env s fo'
      refine ⟨(checkFurtherProcessOrComplete_spec env _ fo').1, .inr ⟨fo', ?_, ?_⟩⟩
      · rw [(checkFurtherProcessOrComplete_spec env _ fo').2.1, checkedPlace,
          List.isEmpty_eq_false_iff.mpr hne]
        rfl
      · rw [hfo']
        exact ⟨rfl, rfl⟩

end Start

/-! ## 5. The order -/

namespace Pipeline

/-- The object is in the database, or it was not possible to add it. -/
def Settled (p : Pipeline) (u : Uid) : Prop := u ∈ p.db.fileObjects ∨ ∃ d ∈ p.dropped, d.uid = u

/-- It is settled when the process queue as it is has been worked off once. -/
def SettledSoon (p : Pipeline) (u : Uid) : Prop := Known Task.uid p.Settled p.processQueue u

/-- What holds of an object under way, besides the order of the process queue. The files of an
archive can be unpacked before the turn of the archive comes. -/
def Met (p : Pipeline) : Stage × Task → Prop
  | (.extracted, t) | (.unpackQueue, t) =>
    (∀ u ∈ t.references, p.SettledSoon u) ∧ (t.rootUid = t.uid ∨ p.SettledSoon t.rootUid)
  | (.processQueue, t) | (.inQueue _, t) | (.active _, t) | (.outQueue _, t) =>
    ∀ u ∈ t.references, p.SettledSoon u

/-- Parents come first. -/
structure ParentsFirst (p : Pipeline) : Prop where
  queued : InOrder Task.uid Task.references p.Settled p.processQueue
  met : ∀ x ∈ p.live, p.Met x

end Pipeline

section Keep
variable {cfg : PipelineConfig} {p p' q : Pipeline} {t : Task} {place : Place} {x : Stage × Task}
  {env : AnalysisEnv} {u : Uid} {n : Nat}

theorem settledSoon_of_mem (h : t ∈ p.processQueue) : p.SettledSoon t.uid := .inr ⟨t, h, rfl⟩

theorem Pipeline.Met.mono (h : p.Met x) (hsettled : ∀ u, p.Settled u → p'.Settled u)
    (hqueue : ∀ t ∈ p.processQueue, p'.SettledSoon t.uid) : p'.Met x := by
  have hsoon : ∀ u, p.SettledSoon u → p'.SettledSoon u := fun u hu => Known.mono hu hsettled hqueue
  obtain ⟨stage, t⟩ := x
  cases stage with
  | extracted | unpackQueue =>
    exact ⟨fun u hu => hsoon u (h.1 u hu), h.2.imp_right (hsoon t.rootUid)⟩
  | processQueue | inQueue name | active name | outQueue name => exact fun u hu => hsoon u (h u hu)

/-- The order is kept if the queue is in order and every new object is met. -/
theorem Pipeline.ParentsFirst.of_step (h : p.ParentsFirst)
    (hsettled : ∀ u, p.Settled u → p'.Settled u)
    (hqueue : ∀ t ∈ p.processQueue, p'.SettledSoon t.uid)
    (hordered : InOrder Task.uid Task.references p'.Settled p'.processQueue)
    (hlive : ∀ x ∈ p'.live, x ∈ p.live ∨ p'.Met x) : p'.ParentsFirst where
  queued := hordered
  met x hx := (hlive x hx).elim (fun hold => (h.met x hold).mono hsettled hqueue) id

theorem mem_live {x : Stage × Task} {others : Multiset (Stage × Task)}
    (h : p.live = {x} + others) : x ∈ p.live := by
  rw [h]
  exact Multiset.mem_add.mpr (.inl (Multiset.mem_singleton_self x))

/-- The order is kept if one object moves on to a place where it needs no more than before. -/
theorem Pipeline.ParentsFirst.moved {x y : Stage × Task} {others : Multiset (Stage × Task)}
    (h : p.ParentsFirst) (hlive : p.live = {x} + others) (hlive' : p'.live = {y} + others)
    (hsettled : ∀ u, p.Settled u → p'.Settled u)
    (hqueue : ∀ t ∈ p.processQueue, p'.SettledSoon t.uid)
    (hordered : InOrder Task.uid Task.references p'.Settled p'.processQueue)
    (hmoved : p.Met x → p'.Met y) : p'.ParentsFirst := by
  refine h.of_step hsettled hqueue hordered fun z hz => ?_
  rw [hlive'] at hz
  rcases Multiset.mem_add.mp hz with hz | hz
  · obtain rfl := Multiset.mem_singleton.mp hz
    exact .inr (hmoved (h.met x (mem_live hlive)))
  · refine .inl ?_
    rw [hlive]
    exact Multiset.mem_add.mpr (.inr hz)

theorem settled_deliver (t : Task) (place : Place) (hu : p.Settled u) :
    (p.deliver t place).Settled u := by
  cases place with
  | dropped fo =>
    rcases hu with hu | ⟨d, hd, rfl⟩
    · exact .inl hu
    · exact .inr ⟨d, List.mem_cons_of_mem _ hd, rfl⟩
  | processQueue fo | inQueue name fo | outQueue name fo | completed fo | crashed e => exact hu

theorem processQueue_deliver (p : Pipeline) (t : Task) (place : Place) :
    ((p.deliver t place).processQueue = p.processQueue ∧ ∀ fo, place ≠ .processQueue fo) ∨
      ∃ fo, place = .processQueue fo ∧
        (p.deliver t place).processQueue = p.processQueue ++ [{ t with fo := fo }] := by
  cases place with
  | processQueue fo => exact .inr ⟨fo, rfl, rfl⟩
  | inQueue name fo | outQueue name fo | completed fo | dropped fo | crashed e =>
    exact .inl ⟨rfl, fun fo h => (by cases h)⟩

/-- An object is put behind what it refers to. -/
theorem Pipeline.ParentsFirst.deliver (h : p.ParentsFirst)
    (hsettled : ∀ u, p.Settled u → (q.deliver t place).Settled u)
    (hqueue : ∀ t' ∈ p.processQueue,
      Known Task.uid (q.deliver t place).Settled q.processQueue t'.uid)
    (hordered : InOrder Task.uid Task.references (q.deliver t place).Settled q.processQueue)
    (hlive : ∀ x ∈ q.live, x ∈ p.live)
    (hrefs : ∀ fo, place.object? = some fo → ∀ u ∈ fo.references, p.SettledSoon u) :
    (q.deliver t place).ParentsFirst := by
  have hbefore : ∀ u, p.SettledSoon u → Known Task.uid (q.deliver t place).Settled q.processQueue u :=
    fun u hu => Known.mono hu hsettled hqueue
  have hafter : ∀ u, Known Task.uid (q.deliver t place).Settled q.processQueue u →
      (q.deliver t place).SettledSoon u := by
    intro u hu
    refine Known.mono hu (fun _ h => h) fun t' ht' => settledSoon_of_mem ?_
    rcases processQueue_deliver q t place with ⟨hsame, -⟩ | ⟨fo, -, hsame⟩ <;> rw [hsame]
    · exact ht'
    · exact List.mem_append_left _ ht'
  refine h.of_step hsettled (fun t' ht' => hafter _ (hqueue t' ht')) ?_ fun x hx => ?_
  · rcases processQueue_deliver q t place with ⟨hsame, -⟩ | ⟨fo, hfo, hsame⟩ <;> rw [hsame]
    · exact hordered
    · exact inOrder_concat.mpr
        ⟨hordered, fun u hu => hbefore u (hrefs fo (by rw [hfo]; rfl) u hu)⟩
  · rw [Pipeline.live_deliver] at hx
    rcases Multiset.mem_add.mp hx with hx | hx
    · refine .inr ?_
      cases place with
      | processQueue fo | inQueue name fo | outQueue name fo =>
        obtain rfl := Multiset.mem_singleton.mp hx
        exact fun u hu => hafter u (hbefore u (hrefs fo rfl u hu))
      | completed fo | dropped fo | crashed e => exact absurd hx (Multiset.notMem_zero x)
    · exact .inl (hlive x hx)

/-- A process of the analysis takes an object one step on. -/
theorem Pipeline.ParentsFirst.advance (h : p.ParentsFirst) (hdb : q.db = p.db)
    (hdropped : q.dropped = p.dropped) (hlive : ∀ x ∈ q.live, x ∈ p.live)
    (hobject : place.object? = some t.fo) (hrefs : ∀ u ∈ t.references, p.SettledSoon u)
    (hqueue : ∀ t' ∈ p.processQueue,
      Known Task.uid (q.advance n env t place).Settled q.processQueue t'.uid)
    (hordered : InOrder Task.uid Task.references (q.advance n env t place).Settled q.processQueue) :
    (q.advance n env t place).ParentsFirst := by
  have hsettled : ∀ u, p.Settled u → (q.advance n env t place).Settled u := by
    intro u hu
    refine settled_deliver _ _ ?_
    rcases hu with hu | ⟨d, hd, rfl⟩
    · refine .inl (analysisStep_rows env (q.view place) u ?_)
      rw [← hdb] at hu
      exact hu
    · rw [← hdropped] at hd
      exact .inr ⟨d, hd, rfl⟩
  refine h.deliver hsettled hqueue hordered hlive fun fo hfo u hu => ?_
  obtain ⟨fo0, hfo0, hsame⟩ := analysisStep_object hfo
  obtain rfl := Option.some.inj (hfo0.symm.trans hobject)
  rw [hsame.references] at hu
  exact hrefs u hu

/-- A pipeline with the same database and the same process queue, and nothing new under way. -/
structure Pipeline.SameOrder (p q : Pipeline) : Prop where
  db : q.db = p.db
  dropped : q.dropped = p.dropped
  processQueue : q.processQueue = p.processQueue
  live : ∀ x ∈ q.live, x ∈ p.live

theorem mem_of_live {taken : Multiset (Stage × Task)} (h : p.live = taken + q.live) :
    ∀ x ∈ q.live, x ∈ p.live := by
  intro x hx
  rw [h]
  exact Multiset.mem_add.mpr (.inr hx)

theorem Pipeline.SameOrder.settled (h : p.SameOrder q) : q.Settled = p.Settled := by
  unfold Pipeline.Settled
  rw [h.db, h.dropped]

theorem Pipeline.SameOrder.deliver (h : p.SameOrder q) (hp : p.ParentsFirst)
    (hrefs : ∀ fo, place.object? = some fo → ∀ u ∈ fo.references, p.SettledSoon u) :
    (q.deliver t place).ParentsFirst := by
  have hsettled : ∀ u, p.Settled u → (q.deliver t place).Settled u := by
    intro u hu
    refine settled_deliver t place ?_
    rw [h.settled]
    exact hu
  refine hp.deliver hsettled (fun t' ht' => ?_) ?_ h.live hrefs
  · rw [← h.processQueue] at ht'
    exact .inr ⟨t', ht', rfl⟩
  · rw [h.processQueue]
    exact hp.queued.mono hsettled

/-- A plugin or the collector takes an object on. -/
theorem Pipeline.SameOrder.advance (h : p.SameOrder q) (hp : p.ParentsFirst)
    (hobject : place.object? = some t.fo) (hrefs : ∀ u ∈ t.references, p.SettledSoon u) :
    (q.advance n env t place).ParentsFirst := by
  have hsettled : ∀ u, p.Settled u → (q.advance n env t place).Settled u := by
    intro u hu
    rw [← h.settled] at hu
    refine settled_deliver _ _ ?_
    rcases hu with hu | ⟨d, hd, rfl⟩
    · exact .inl (analysisStep_rows env (q.view place) u hu)
    · exact .inr ⟨d, hd, rfl⟩
  refine hp.advance h.db h.dropped h.live hobject hrefs (fun t' ht' => ?_) ?_
  · rw [← h.processQueue] at ht'
    exact .inr ⟨t', ht', rfl⟩
  · rw [h.processQueue]
    exact hp.queued.mono hsettled

theorem rootUid_numberTasks {process n : Nat} {rootUid : Uid} {fos : List FileObject} {t : Task}
    (h : t ∈ numberTasks process rootUid n fos) : t.rootUid = rootUid := by
  induction fos generalizing n with
  | nil => cases h
  | cons fo fos ih =>
    rcases List.mem_cons.mp h with rfl | h
    · rfl
    · exact ih h

/-- The archive goes behind everything that it refers to, and its files wait for it. -/
theorem Pipeline.ParentsFirst.unpacked (h : p.ParentsFirst) {fo : FileObject}
    {fos : List FileObject} {process : Nat} {others : Multiset (Stage × Task)}
    (hlive : p.live = {(.unpackQueue, t)} + others) (hdb : p'.db = p.db)
    (hdropped : p'.dropped = p.dropped)
    (hqueue : p'.processQueue = p.processQueue ++ [{ t.sentBy process with fo := fo }])
    (hlive' : p'.live = {(.processQueue, { t.sentBy process with fo := fo })} +
      atStage .extracted (numberTasks process t.rootUid n fos) + others) (hsame : SameFile t.fo fo)
    (hchildren : ∀ child ∈ fos, child.references = [t.uid, t.rootUid]) : p'.ParentsFirst := by
  have hsettled : p'.Settled = p.Settled := by
    unfold Pipeline.Settled
    rw [hdb, hdropped]
  have hkept : ∀ t' ∈ p.processQueue, p'.SettledSoon t'.uid := by
    intro t' ht'
    refine settledSoon_of_mem ?_
    rw [hqueue]
    exact List.mem_append_left _ ht'
  have hsoon : ∀ u, p.SettledSoon u → p'.SettledSoon u :=
    fun u hu => Known.mono hu (fun u hu => hsettled ▸ hu) hkept
  have harchive : p'.SettledSoon t.uid := by
    refine .inr ⟨{ t.sentBy process with fo := fo }, ?_, hsame.uid⟩
    rw [hqueue]
    exact List.mem_append_right _ (List.mem_singleton_self _)
  obtain ⟨hrefs, hroot⟩ := h.met _ (mem_live hlive)
  have hroot' : p'.SettledSoon t.rootUid := by
    rcases hroot with heq | hroot
    · rw [heq]
      exact harchive
    · exact hsoon _ hroot
  refine h.of_step (fun u hu => hsettled ▸ hu) hkept ?_ fun x hx => ?_
  · rw [hqueue, hsettled]
    refine inOrder_concat.mpr ⟨h.queued, fun u hu => hrefs u ?_⟩
    rw [Task.references, ← hsame.references]
    exact hu
  · rw [hlive', add_assoc] at hx
    rcases Multiset.mem_add.mp hx with hx | hx
    · obtain rfl := Multiset.mem_singleton.mp hx
      refine .inr fun u hu => hsoon u (hrefs u ?_)
      rw [Task.references, ← hsame.references]
      exact hu
    · rcases Multiset.mem_add.mp hx with hx | hx
      · obtain ⟨child, hchild, rfl⟩ := List.mem_map.mp (Multiset.mem_coe.mp hx)
        refine .inr ⟨fun u hu => ?_, .inr (rootUid_numberTasks hchild ▸ hroot')⟩
        rw [Task.references, hchildren child.fo (mem_numberTasks hchild)] at hu
        rcases List.mem_cons.mp hu with rfl | hu
        · exact harchive
        · rw [List.mem_singleton.mp hu]
          exact hroot'
      · refine .inl ?_
        rw [hlive]
        exact Multiset.mem_add.mpr (.inr hx)

/-- An object is settled by its turn, even if it has overtaken what it refers to. -/
theorem Pipeline.ParentsFirst.processed (h : p.ParentsFirst) {i : Nat}
    (hget : p.processQueue[i]? = some t)
    (halive : (analysisStep env (p.view (.processQueue t.fo))).place.isCrashed = false) :
    ({ p with processQueue := p.processQueue.eraseIdx i }.advance n env t
      (.processQueue t.fo)).ParentsFirst := by
  let q : Pipeline := { p with processQueue := p.processQueue.eraseIdx i }
  have hsettled : ∀ u, p.Settled u → (q.advance n env t (.processQueue t.fo)).Settled u := by
    intro u hu
    refine settled_deliver _ _ ?_
    rcases hu with hu | ⟨d, hd, rfl⟩
    · exact .inl (analysisStep_rows env (p.view (.processQueue t.fo)) u hu)
    · exact .inr ⟨d, hd, rfl⟩
  have hthis : (q.advance n env t (.processQueue t.fo)).Settled t.uid := by
    rcases (processNextAnalysisTask_rows env
      { p.view (.processQueue t.fo) with tick := 1 } t.fo).2 with hrow | hdropped | hcrashed
    · exact settled_deliver _ _ (.inl hrow)
    · refine .inr ⟨t.sentBy n, ?_, rfl⟩
      show _ ∈ (Pipeline.deliver _ (t.sentBy n)
        (analysisStep env (p.view (.processQueue t.fo))).place).dropped
      rw [show (analysisStep env (p.view (.processQueue t.fo))).place = .dropped t.fo from hdropped]
      exact List.mem_cons_self
    · exact absurd (hcrashed.symm.trans halive) Bool.true_eq_false.mp
  have hlive := live_processQueue hget
  have hrefs : ∀ u ∈ t.references, p.SettledSoon u := h.met _ (mem_live hlive)
  refine h.advance rfl rfl (mem_of_live hlive) rfl hrefs (fun t' ht' => ?_)
    (h.queued.taken hget hsettled hthis)
  rcases mem_or_mem_eraseIdx hget ht' with rfl | ht'
  · exact .inl hthis
  · exact .inr ⟨t', ht', rfl⟩

end Keep

/-! ## 6. Whole runs -/

/-- What is asked of the outside: objects that are handed in refer to nothing but what is in the
database, and nothing is deleted from it. -/
def KeepsReferences (p : Pipeline) : PipelineAction × World → Prop
  | (.addTask rootUid fo, _) => (∀ u ∈ fo.references, u ∈ p.db.fileObjects) ∧
      (rootUid = fo.uid ∨ rootUid ∈ p.db.fileObjects)
  | (.update _ fo, _) => ∀ u ∈ fo.references, u ∈ p.db.fileObjects
  | (.others db _ _ _, _) => ∀ u ∈ p.db.fileObjects, u ∈ db.fileObjects
  | _ => True

section Runs
variable {cfg : PipelineConfig} {p p' : Pipeline} {a : PipelineAction} {w : World}

/-- Every step keeps the order, as long as the process at the end of the queue is there. -/
theorem PipelineStep.parentsFirst (h : PipelineStep cfg p (a, w) p')
    (hplugins : cfg.plugins.WellFormed) (hmandatory : ∀ q ∈ mandatoryPlugins, q ∈ cfg.plugins)
    (hkeeps : KeepsReferences p (a, w)) (hp : p.ParentsFirst)
    (halive : p'.runnerAlive = true) : p'.ParentsFirst := by
  have hqueued : ∀ t ∈ p.processQueue, p.SettledSoon t.uid := fun t => settledSoon_of_mem
  cases h with
  | @addTask _ rootUid fo =>
    obtain ⟨hrefs, hroot⟩ := hkeeps
    let t : Task := ⟨p.nextTicket, rootUid, fo, w.process⟩
    have hadded : { p with
        unpackQueue := p.unpackQueue ++ [t]
        nextTicket := p.nextTicket + 1 }.live = {(.unpackQueue, t)} + p.live := by
      simp only [Pipeline.live, atStage_append, atStage_cons, atStage_nil]
      abel
    refine hp.of_step (fun _ hu => hu) hqueued hp.queued fun x hx => ?_
    rw [hadded] at hx
    rcases Multiset.mem_add.mp hx with hx | hx
    · obtain rfl := Multiset.mem_singleton.mp hx
      exact .inr ⟨fun u hu => .inl (.inl (hrefs u hu)), hroot.imp_right fun h => .inl (.inl h)⟩
    · exact .inl hx
  | @update _ rootUid fo s _ hs =>
    obtain ⟨hdb, hplace, -⟩ :=
      checkFurtherProcessOrComplete_spec w.env (p.view (.processQueue fo)) fo
    rw [hs] at hdb hplace
    have hsame : p.SameOrder { p.absorb s with nextTicket := p.nextTicket + 1 } :=
      ⟨hdb, rfl, rfl, fun x hx => hx⟩
    refine hsame.deliver hp fun fo' hfo' u hu => ?_
    rw [hplace] at hfo'
    obtain rfl := object?_checkedPlace hfo'
    exact .inl (.inl (hkeeps u hu))
  | @unpack _ worker i fuel t out s hworld hidle hqueue hout hstart hcrashed =>
    obtain ⟨hsame, hchildren⟩ := unpackTask_references hout
    obtain ⟨hdb, hcrash | ⟨fo', hplace, hfo'⟩⟩ :=
      startAnalysisOfObject_queued (hworld ▸ hplugins) (hworld ▸ hmandatory) hstart
    · rw [hcrash] at hcrashed
      cases hcrashed
    obtain ⟨others, hlive, hlive'⟩ :=
      (shift_unpacked w.process s out.objects s.place hidle hqueue.get).live
    rw [hplace] at hlive' ⊢
    exact hp.unpacked hlive hdb rfl rfl hlive' (hsame.trans hfo') hchildren
  | @unpackRaises _ worker i t e _ _ hqueue _ =>
    have hsame : p.SameOrder { p with unpackQueue := p.unpackQueue.eraseIdx i } :=
      ⟨rfl, rfl, rfl, mem_of_live (live_unpackQueue hqueue.get)⟩
    exact hsame.deliver hp fun fo hfo => (by cases hfo)
  | @startRaises _ worker i _ t out s hworld _ hqueue _ hstart hcrashed =>
    obtain ⟨hdb, -⟩ := startAnalysisOfObject_queued (hworld ▸ hplugins) (hworld ▸ hmandatory) hstart
    have hsame : p.SameOrder { p.absorb s with unpackQueue := p.unpackQueue.eraseIdx i } :=
      ⟨hdb, rfl, rfl, mem_of_live (live_unpackQueue hqueue.get)⟩
    refine hsame.deliver hp fun fo hfo => ?_
    cases hplace : s.place with
    | crashed e => rw [hplace] at hfo; cases hfo
    | processQueue fo | inQueue name fo | outQueue name fo | completed fo | dropped fo =>
      rw [hplace] at hcrashed
      cases hcrashed
  | @schedule _ worker t rest _ hworker =>
    obtain ⟨others, hlive, hlive'⟩ := live_scheduled hworker (t.sentBy w.process)
    exact hp.moved hlive hlive' (fun _ hu => hu) hqueued hp.queued fun hmet => hmet
  | monitor => exact hp.of_step (fun _ hu => hu) hqueued hp.queued fun x hx => .inl hx
  | @process p1 _ i t _ _ hqueue hadvance =>
    subst hadvance
    have hdone : ({ p with processQueue := p.processQueue.eraseIdx i }.advance w.process w.env t
        (.processQueue t.fo)).ParentsFirst :=
      hp.processed hqueue.get (by simpa using halive)
    exact ⟨hdone.queued, hdone.met⟩
  | @start _ name i t _ hqueue _ =>
    obtain ⟨others, hlive, hlive'⟩ := live_started hqueue.get
    exact hp.moved hlive hlive' (fun _ hu => hu) hqueued hp.queued fun hmet => hmet
  | @finish _ name worker t _ _ hworker =>
    have hlive := live_active hworker
    have hsame : p.SameOrder (p.setLane name
        { p.lane name with active := (p.lane name).active.eraseIdx worker }) :=
      ⟨rfl, rfl, rfl, mem_of_live hlive⟩
    have hrefs : ∀ u ∈ t.references, p.SettledSoon u := hp.met _ (mem_live hlive)
    have hobject : (Place.inQueue name t.fo).object? = some t.fo := rfl
    exact hsame.advance hp hobject hrefs
  | @collect p1 _ name i t _ _ _ hqueue hadvance =>
    subst hadvance
    have hlive := live_outQueue hqueue.get
    have hsame : p.SameOrder (p.setLane name
        { p.lane name with outQueue := (p.lane name).outQueue.eraseIdx i }) :=
      ⟨rfl, rfl, rfl, mem_of_live hlive⟩
    have hrefs : ∀ u ∈ t.references, p.SettledSoon u := hp.met _ (mem_live hlive)
    have hobject : (Place.outQueue name t.fo).object? = some t.fo := rfl
    have hdone := @Pipeline.SameOrder.advance _ _ _ _ w.env w.process hsame hp hobject hrefs
    exact ⟨hdone.queued, hdone.met⟩
  | @others _ db files unpackingLocks status =>
    have hsettled : ∀ u, p.Settled u → { p with
        db := db
        files := files
        unpackingLocks := unpackingLocks
        status := status }.Settled u := fun u hu => hu.imp_left (hkeeps u)
    exact hp.of_step hsettled (fun t ht => .inr ⟨t, ht, rfl⟩) (hp.queued.mono hsettled)
      fun x hx => .inl hx

theorem Pipeline.Fresh.parentsFirst (h : p.Fresh) : p.ParentsFirst where
  queued := by
    have hnone : p.processQueue = [] := by
      cases hqueue : p.processQueue with
      | nil => rfl
      | cons t rest =>
        have hfirst : p.processQueue[0]? = some t := by
          rw [hqueue]
          rfl
        have hlive := live_processQueue hfirst
        rw [h.live] at hlive
        exact absurd (hlive ▸ Multiset.mem_add.mpr (.inl (Multiset.mem_singleton_self _)))
          (Multiset.notMem_zero (Stage.processQueue, t))
    rw [hnone]
    trivial
  met x hx := by
    rw [h.live] at hx
    exact absurd hx (Multiset.notMem_zero x)

/-- A process that has ended is not started again. -/
theorem PipelineStep.runnerAlive (h : PipelineStep cfg p (a, w) p')
    (halive : p'.runnerAlive = true) : p.runnerAlive = true := by
  have hdeliver : ∀ (q : Pipeline) (t : Task) (place : Place),
      (q.deliver t place).runnerAlive = q.runnerAlive := by
    intro q t place
    cases place <;> rfl
  cases h with
  | process _ hrunner => exact hrunner
  | update | unpack | unpackRaises | startRaises =>
    rw [hdeliver] at halive
    exact halive
  | finish =>
    rw [Pipeline.advance, hdeliver] at halive
    exact halive
  | @collect p1 _ name t rest _ _ _ _ hadvance =>
    have hrunner : p1.runnerAlive = true := halive
    rw [← hadvance, Pipeline.advance, hdeliver] at hrunner
    exact hrunner
  | addTask | schedule | monitor | start | others => exact halive

theorem parentsFirst_of_run {events : List (PipelineAction × World)}
    (hplugins : cfg.plugins.WellFormed) (hmandatory : ∀ q ∈ mandatoryPlugins, q ∈ cfg.plugins)
    (h : Run (Restrict KeepsReferences (PipelineStep cfg)) p events p')
    (hp : p.runnerAlive = true → p.ParentsFirst) : p'.runnerAlive = true → p'.ParentsFirst := by
  refine h.invariant (I := fun p => p.runnerAlive = true → p.ParentsFirst) ?_ hp
  rintro p ⟨a, w⟩ p' hinv ⟨hkeeps, hstep⟩ halive
  exact hstep.parentsFirst hplugins hmandatory hkeeps (hinv (hstep.runnerAlive halive)) halive

end Runs

/-- What an object in the process queue refers to is in the database, or it could not be added to
it, or it stands before the object. So an object that the database refuses for its references
refers to an object that was dropped before, or to one that it overtakes. -/
theorem pipeline_parents_first {cfg : PipelineConfig} {p0 p : Pipeline} {t : Task} {i : Nat}
    {events : List (PipelineAction × World)} (hplugins : cfg.plugins.WellFormed)
    (hmandatory : ∀ q ∈ mandatoryPlugins, q ∈ cfg.plugins) (hfresh : p0.Fresh)
    (h : Run (Restrict KeepsReferences (PipelineStep cfg)) p0 events p)
    (halive : p.runnerAlive = true) (hget : p.processQueue[i]? = some t) :
    (∀ u ∈ t.fo.references, u ∈ p.db.fileObjects ∨ (∃ d ∈ p.dropped, d.fo.uid = u) ∨
        ∃ before ∈ p.processQueue.take i, before.fo.uid = u) ∧
      (RefsMissing p.db t.fo → (∃ d ∈ p.dropped, d.fo.uid ∈ t.fo.references) ∨
        ∃ overtaken ∈ p.processQueue.take i, overtaken.fo.uid ∈ t.fo.references) := by
  have hordered :=
    (parentsFirst_of_run hplugins hmandatory h (fun _ => hfresh.parentsFirst) halive).queued
  have hrefs : ∀ u ∈ t.fo.references, u ∈ p.db.fileObjects ∨ (∃ d ∈ p.dropped, d.fo.uid = u) ∨
      ∃ before ∈ p.processQueue.take i, before.fo.uid = u :=
    fun u hu => or_assoc.mp (hordered.needs_known hget u hu)
  refine ⟨hrefs, fun hmissing => ?_⟩
  obtain ⟨u, hu, hno⟩ : ∃ u ∈ t.fo.references, u ∉ p.db.fileObjects := by
    rcases hmissing with ⟨hne, hall⟩ | ⟨hne, hall⟩
    · obtain ⟨u, hu⟩ := List.exists_mem_of_ne_nil _ hne
      exact ⟨u, List.mem_append_right _ hu, hall u hu⟩
    · obtain ⟨u, hu⟩ := List.exists_mem_of_ne_nil _ hne
      exact ⟨u, List.mem_append_left _ hu, hall u hu⟩
  rcases (hrefs u hu).resolve_left hno with ⟨d, hd, rfl⟩ | ⟨overtaken, hbefore, rfl⟩
  · exact .inl ⟨d, hd, hu⟩
  · exact .inr ⟨overtaken, hbefore, hu⟩

/-- A worker unpacks the image and another one a file of it. Both are put into the process queue by
different processes, so that the file can overtake the image. -/
theorem file_may_overtake_image : ∃ p t, Run (Restrict KeepsReferences (PipelineStep routerConfig))
      idlePipeline [(.addTask "outer" outerImage, calmWorld),
        (.unpack 0 0, workerWorld 2 (some tarFiles)), (.schedule 0, workerWorld 2 none),
        (.unpack 1 0, workerWorld 3 none)] p ∧
    Receives Task.sender p.processQueue 1 t ∧ t.fo.references = ["outer", "outer"] ∧
    (∀ u ∈ t.fo.references, u ∈ p.db.fileObjects ∨ (∃ d ∈ p.dropped, d.fo.uid = u) ∨
        ∃ before ∈ p.processQueue.take 1, before.fo.uid = u) ∧
      (RefsMissing p.db t.fo → (∃ d ∈ p.dropped, d.fo.uid ∈ t.fo.references) ∨
        ∃ overtaken ∈ p.processQueue.take 1, overtaken.fo.uid ∈ t.fo.references) := by
  obtain ⟨p, t, hrun, halive, hget, hsenders, hreferences⟩ : ∃ p t,
      Run (Restrict KeepsReferences (PipelineStep routerConfig)) idlePipeline
        [(.addTask "outer" outerImage, calmWorld),
          (.unpack 0 0, workerWorld 2 (some tarFiles)), (.schedule 0, workerWorld 2 none),
          (.unpack 1 0, workerWorld 3 none)] p ∧ p.runnerAlive = true ∧
        p.processQueue[1]? = some t ∧ (p.processQueue.take 1).map Task.sender = [2] ∧
        t.sender = 3 ∧ t.fo.references = ["outer", "outer"] :=
    ⟨_, _, .cons ⟨⟨fun _ h => absurd h List.not_mem_nil, .inl rfl⟩, .addTask⟩ <|
      .cons ⟨trivial,
        @PipelineStep.unpack _ _ _ 0 0 30 _ _ _ rfl rfl receives_head rfl rfl rfl⟩ <|
      .cons ⟨trivial, .schedule rfl rfl⟩ <|
      .cons ⟨trivial,
        @PipelineStep.unpack _ _ _ 1 0 30 _ _ _ rfl rfl receives_head rfl rfl rfl⟩ <|
      .nil _, rfl, rfl, rfl, rfl, rfl⟩
  refine ⟨p, t, hrun, ⟨hget, fun y hy hsame => ?_⟩, hreferences.2,
    pipeline_parents_first wellFormed_examplePlugins (by decide) fresh_idlePipeline hrun halive hget⟩
  have hsender : y.sender ∈ (p.processQueue.take 1).map Task.sender := List.mem_map_of_mem hy
  rw [hsenders, List.mem_singleton, hsame, hreferences.1] at hsender
  cases hsender

end FactCore
