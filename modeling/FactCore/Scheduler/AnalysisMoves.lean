import FactCore.Scheduler.AnalysisStep

/-!
# What a step of the scheduler can do

`analysisStep` from any state: the branches of the scheduler process, of a plugin
and of the collector, each with what it leaves behind. Nothing is assumed of the
object, of its schedule or of the database.

Results:
1. `nextAnalysisIsBlacklisted_same`: looking up the file type changes nothing of
   an object but its results.
2. `analysisStep_move`: every step is one of the moves.
-/

namespace FactCore

/-! ## 1. The moves -/

/-- Where `_check_further_process_or_complete` puts an object. -/
def checkedPlace (fo : FileObject) : Place :=
  if fo.scheduledAnalysis.isEmpty then .completed fo else .processQueue fo

/-- The plugin waits for its run, or its result for the collector. -/
def Place.InFlight (name : String) : Place → Prop
  | .inQueue name' _ => name' = name
  | .outQueue name' fo => name' = name ∧ name ∈ fo.processedAnalysis
  | _ => False

/-- The way of the object has ended before its analysis was complete. -/
def AnalysisState.Ended (s : AnalysisState) : Prop :=
  match s.place with
  | .dropped _ | .crashed _ => True
  | _ => False

theorem not_ended_of_completed {s : AnalysisState} {fo : FileObject}
    (h : s.place = .completed fo) : ¬ s.Ended := by
  simp [AnalysisState.Ended, h]

/-- The object is added to the database, and `name` is taken from its schedule. -/
structure Pops (env : AnalysisEnv) (s : AnalysisState) (fo : FileObject) (rest : List String)
    (name : String) (db : Db) : Prop where
  place : s.place = .processQueue fo
  schedule : fo.scheduledAnalysis = rest ++ [name]
  added : addObject env.driver s.db fo = ⟨db, none⟩

/-- The first check on a plugin: whether its result is there and up to date. -/
def upToDateCheck (env : AnalysisEnv) (db : Db) (name : String) (fo : FileObject) :
    Except PyException Bool :=
  if fo.forceUpdate then .ok false else analysisIsAlreadyInDbAndUpToDate env db name fo.uid

/-- The second check: whether the plugin is skipped for the file type of the object. -/
def blacklistCheck (env : AnalysisEnv) (db : Db) (name : String) (plugin : Plugin)
    (fo : FileObject) : Except PyException (Bool × FileObject) :=
  if name ∈ mandatoryPlugins then .ok (false, fo)
  else nextAnalysisIsBlacklisted env db name plugin fo

/-- What a step can do. -/
inductive Move (env : AnalysisEnv) (s s' : AnalysisState) : Prop
  /-- An exception leaves a process, or the object cannot be added. -/
  | ended : s'.Ended → Move env s s'
  /-- The analysis is complete. -/
  | rests {fo : FileObject} : s.place = .completed fo → s' = s → Move env s s'
  /-- Nobody works off the queue of a plugin that does not exist. -/
  | waits {name : String} {fo : FileObject} : s.place = .inQueue name fo → name ∉ env.plugins →
      s'.place = s.place → s'.db = s.db → Move env s s'
  /-- The plugin does not exist. -/
  | unknown {fo : FileObject} {rest : List String} {name : String} {db : Db} :
      Pops env s fo rest name db → name ∉ env.plugins → s'.db = db →
      s'.place = checkedPlace { fo with scheduledAnalysis := rest } → Move env s s'
  /-- The plugin is skipped since its result is up to date. -/
  | upToDate {fo fo' : FileObject} {rest : List String} {name : String} {db : Db} :
      Pops env s fo rest name db → name ∈ env.plugins →
      upToDateCheck env db name { fo with scheduledAnalysis := rest } = .ok true →
      (fo' = { fo with scheduledAnalysis := rest } ∨
        fo' = { fo with
          scheduledAnalysis := rest
          processedAnalysis :=
            fo.processedAnalysis.set name ((getAnalysis db fo.uid name).getD .none) }) →
      s'.db = db → s'.place = checkedPlace fo' → Move env s s'
  /-- The plugin is skipped for the file type. -/
  | skipped {fo fo' : FileObject} {rest : List String} {name : String} {plugin : Plugin}
      {db db' : Db} : Pops env s fo rest name db → env.plugins.get? name = some plugin →
      upToDateCheck env db name { fo with scheduledAnalysis := rest } = .ok false →
      blacklistCheck env db name plugin { fo with scheduledAnalysis := rest } = .ok (true, fo') →
      addAnalysis env.driver db fo'.uid name
        (getSkippedAnalysisResult plugin (env.time (s.tick + 1))) = ⟨db', none⟩ →
      s'.db = db' →
      s'.place = checkedPlace { fo' with
        processedAnalysis := fo'.processedAnalysis.set name
          (getSkippedAnalysisResult plugin (env.time (s.tick + 1))) } → Move env s s'
  /-- The plugin is started. -/
  | started {fo fo' : FileObject} {rest : List String} {name : String} {plugin : Plugin} {db : Db}
      {binary : Option String} : Pops env s fo rest name db → env.plugins.get? name = some plugin →
      upToDateCheck env db name { fo with scheduledAnalysis := rest } = .ok false →
      blacklistCheck env db name plugin { fo with scheduledAnalysis := rest } = .ok (false, fo') →
      s'.db = db → s'.place = addJob plugin name { fo' with sha256 := binary } → Move env s s'
  /-- The plugin runs. -/
  | ran {name : String} {plugin : Plugin} {fo : FileObject} : s.place = .inQueue name fo →
      env.plugins.get? name = some plugin → s'.db = s.db →
      s'.place = .outQueue name (runPlugin env (env.time (s.tick + 1)) plugin name fo) →
      Move env s s'
  /-- The collector gets an object on which the plugin was not run. -/
  | notRun {name : String} {fo : FileObject} : s.place = .outQueue name fo →
      name ∉ fo.processedAnalysis → s'.db = s.db → s'.place = checkedPlace fo → Move env s s'
  /-- The collector gets a result. -/
  | collected {name : String} {fo : FileObject} {result : PyVal} {db : Db} :
      s.place = .outQueue name fo → fo.processedAnalysis.get? name = some result →
      fo.analysisException = none → addAnalysis env.driver s.db fo.uid name result = ⟨db, none⟩ →
      s'.db = db → s'.place = checkedPlace fo → Move env s s'
  /-- The collector gets a failure, and unschedules what depends on the plugin. -/
  | failed {name : String} {fo fo' : FileObject} {db : Db} : s.place = .outQueue name fo →
      name ∈ fo.processedAnalysis → fo.analysisException ≠ none →
      rescheduleFailedAnalysisTask env.plugins (env.time (s.tick + 1)) fo = .ok fo' →
      addAnalysis env.driver s.db fo'.uid name (fo'.processedAnalysis.getD name .none) =
        ⟨db, none⟩ →
      s'.db = db → s'.place = checkedPlace fo' → Move env s s'

section Moves
variable {env : AnalysisEnv} {s s' : AnalysisState} {db : Db} {fo fo' : FileObject}
  {name : String} {plugin : Plugin}

/-! ## 2. The parts of a step -/

theorem checkFurtherProcessOrComplete_spec (env : AnalysisEnv) (s : AnalysisState)
    (fo : FileObject) : (checkFurtherProcessOrComplete env s fo).db = s.db ∧
      (checkFurtherProcessOrComplete env s fo).place = checkedPlace fo ∧
      (checkFurtherProcessOrComplete env s fo).tick = s.tick := by
  unfold checkFurtherProcessOrComplete checkedPlace
  split
  · obtain ⟨tables, hremove⟩ := removeFromCurrentAnalyses_ok env s fo (.completed fo)
    rw [hremove]
    exact ⟨rfl, rfl, rfl⟩
  · exact ⟨rfl, rfl, rfl⟩

theorem ended_of_place (hplace : s'.place = s.place) (h : s.Ended) : s'.Ended := by
  unfold AnalysisState.Ended at h ⊢
  rwa [hplace]

theorem AnalysisState.ended_crash (s : AnalysisState) (e : PyException) : (s.crash e).Ended :=
  trivial

/-- A result is stored and the object goes on, or an exception leaves the process. -/
theorem postAnalysisAndCheck_spec (env : AnalysisEnv) (s : AnalysisState) (fo : FileObject)
    (name : String) (result : PyVal) :
    (postAnalysisAndCheck env s fo name result).Ended ∨
      ∃ db, addAnalysis env.driver s.db fo.uid name result = ⟨db, none⟩ ∧
        (postAnalysisAndCheck env s fo name result).db = db ∧
        (postAnalysisAndCheck env s fo name result).place = checkedPlace fo := by
  unfold postAnalysisAndCheck
  cases hadd : addAnalysis env.driver s.db fo.uid name result with
  | mk db raised =>
    cases raised with
    | some e => exact .inl (AnalysisState.ended_crash _ e)
    | none =>
      obtain ⟨hdb, hplace, -⟩ := checkFurtherProcessOrComplete_spec env { s with db := db } fo
      exact .inr ⟨db, rfl, hdb, hplace⟩

/-- Looking up the file type for a list changes nothing of an object but its results, and of these
only the one of `file_type`. -/
theorem nextAnalysisIsBlacklisted_same {b : Bool}
    (h : nextAnalysisIsBlacklisted env db name plugin fo = .ok (b, fo')) :
    fo' = fo ∨ ("file_type" ∉ fo.processedAnalysis ∧
      fo' = addCompletedAnalysisResultsToFileObject db "file_type" fo) := by
  unfold nextAnalysisIsBlacklisted at h
  dsimp only at h
  split at h
  · cases h
    exact .inl rfl
  · unfold getFileTypeFromObjectOrDb at h
    simp only [bind, Except.bind, pure, Except.pure] at h
    split at h
    · cases h
    · next fileType hlookup =>
      cases h
      split at hlookup
      · cases hlookup
      · next mime hmime =>
        split at hlookup
        · cases hlookup
        · cases hlookup
          split
          · exact .inl rfl
          · next hno => exact .inr ⟨hno, rfl⟩

theorem blacklistCheck_same {b : Bool} (h : blacklistCheck env db name plugin fo = .ok (b, fo')) :
    fo' = fo ∨ ("file_type" ∉ fo.processedAnalysis ∧
      fo' = addCompletedAnalysisResultsToFileObject db "file_type" fo) := by
  unfold blacklistCheck at h
  split at h
  · cases h
    exact .inl rfl
  · exact nextAnalysisIsBlacklisted_same h

/-- So the object keeps everything but its results. -/
theorem blacklistCheck_others {b : Bool} (h : blacklistCheck env db name plugin fo = .ok (b, fo')) :
    fo' = { fo with processedAnalysis := fo'.processedAnalysis } := by
  rcases blacklistCheck_same h with rfl | ⟨-, rfl⟩ <;> rfl

/-- Reading the binary changes nothing but the hash. -/
theorem setBinary_others {files : FileStore} (h : setBinary files fo = .ok fo') :
    fo' = { fo with sha256 := fo'.sha256 } := by
  unfold setBinary at h
  cases hread : files.readBinary fo.uid with
  | error e => rw [hread] at h; cases h
  | ok binary =>
    rw [hread] at h
    cases h
    rfl

/-- A registered plugin that was taken from the schedule is skipped or started. -/
theorem startOrSkipAnalysis_move {rest : List String} {s1 : AnalysisState}
    (hpop : Pops env s fo rest name db) (hplugin : env.plugins.get? name = some plugin)
    (hdb : s1.db = db) (htick : s1.tick = s.tick + 1) :
    Move env s (startOrSkipAnalysis env s1 name plugin { fo with scheduledAnalysis := rest }) := by
  subst hdb
  unfold startOrSkipAnalysis
  cases hcheck : upToDateCheck env s1.db name { fo with scheduledAnalysis := rest } with
  | error e =>
    unfold upToDateCheck at hcheck
    simp only [hcheck]
    exact .ended trivial
  | ok upToDate =>
    cases upToDate with
    | true =>
      have hcheck' := hcheck
      unfold upToDateCheck at hcheck
      simp only [hcheck, skipUpToDate]
      split
      · exact .ended trivial
      · next dependencies hdeps =>
        obtain ⟨hdb, hplace, -⟩ := checkFurtherProcessOrComplete_spec env s1
          (if name ∈ dependencies then addCompletedAnalysisResultsToFileObject s1.db name
            { fo with scheduledAnalysis := rest } else { fo with scheduledAnalysis := rest })
        refine .upToDate hpop (Dict.mem_of_get? hplugin) hcheck' ?_ hdb hplace
        split
        · exact .inr rfl
        · exact .inl rfl
    | false =>
      have hcheck' := hcheck
      unfold upToDateCheck at hcheck
      simp only [hcheck]
      cases hlist : blacklistCheck env s1.db name plugin { fo with scheduledAnalysis := rest } with
      | error e =>
        unfold blacklistCheck at hlist
        simp only [hlist]
        exact .ended trivial
      | ok found =>
        obtain ⟨skip, fo'⟩ := found
        have hlist' := hlist
        unfold blacklistCheck at hlist
        simp only [hlist]
        cases skip with
        | true =>
          simp only [skipBlacklisted, htick]
          rcases postAnalysisAndCheck_spec env s1 _ name
            (getSkippedAnalysisResult plugin (env.time (s.tick + 1))) with
            hend | ⟨db', hadd, hdb', hplace⟩
          · exact .ended hend
          · exact .skipped hpop hplugin hcheck' hlist' hadd hdb' hplace
        | false =>
          simp only [startAnalysis]
          split
          · exact .ended trivial
          · next fo2 hbinary =>
            have hfo2 : fo2 = { fo' with sha256 := fo2.sha256 } := by
              split at hbinary
              · exact setBinary_others hbinary
              · cases hbinary
                rfl
            rw [hfo2]
            exact .started hpop hplugin hcheck' hlist' rfl rfl

/-- The scheduler process takes an object from its queue. -/
theorem processNextAnalysisTask_move {s1 : AnalysisState} (hplace : s.place = .processQueue fo)
    (hdb : s1.db = s.db) (htick : s1.tick = s.tick + 1) :
    Move env s (processNextAnalysisTask env s1 fo) := by
  unfold processNextAnalysisTask
  rw [hdb]
  cases hadd : addObject env.driver s.db fo with
  | mk db raised =>
    cases raised with
    | some e =>
      dsimp only
      split
      · obtain ⟨tables, hremove⟩ :=
          removeFromCurrentAnalyses_ok env { s1 with db := db } fo (.dropped fo)
        rw [hremove]
        exact .ended trivial
      · exact .ended trivial
    | none =>
      simp only [processAddedObject]
      split
      · exact .ended trivial
      · next name hlast =>
        obtain ⟨rest, hrest⟩ := List.getLast?_eq_some_iff.mp hlast
        have hpop : Pops env s fo rest name db := ⟨hplace, hrest, hadd⟩
        have hdrop : fo.scheduledAnalysis.dropLast = rest := by rw [hrest, List.dropLast_concat]
        rw [hdrop]
        cases hplugin : env.plugins.get? name with
        | none =>
          obtain ⟨hdb', hplace', -⟩ := checkFurtherProcessOrComplete_spec env
            { s1 with
              db := db
              unpackingLocks := s1.unpackingLocks.releaseUnpackingLock fo.uid }
            { fo with scheduledAnalysis := rest }
          exact .unknown hpop (Dict.get?_eq_none_iff.mp hplugin) hdb' hplace'
        | some plugin => exact startOrSkipAnalysis_move hpop hplugin rfl htick

/-- The collector gets an object. -/
theorem collectResult_move {s1 : AnalysisState} (hplace : s.place = .outQueue name fo)
    (hdb : s1.db = s.db) (htick : s1.tick = s.tick + 1) :
    Move env s (collectResult env s1 name fo) := by
  unfold collectResult
  cases hresult : fo.processedAnalysis.get? name with
  | none =>
    have hno := Dict.get?_eq_none_iff.mp hresult
    obtain ⟨hdb', hplace', -⟩ := checkFurtherProcessOrComplete_spec env s1 fo
    rw [if_neg hno]
    exact .notRun hplace hno (hdb'.trans hdb) hplace'
  | some result =>
    have hmem := Dict.mem_of_get? hresult
    rw [if_pos hmem]
    cases hexc : fo.analysisException with
    | none =>
      have hgetD : fo.processedAnalysis.getD name .none = result := by
        unfold Dict.getD
        rw [hresult]
        rfl
      simp only [Option.isSome_none, Bool.false_eq_true, if_false, hgetD]
      rcases postAnalysisAndCheck_spec env s1 fo name result with hend | ⟨db, hadd, hdb', hplace'⟩
      · exact .ended hend
      · rw [hdb] at hadd
        exact .collected hplace hresult hexc hadd hdb' hplace'
    | some failure =>
      have hne : fo.analysisException ≠ none := by simp [hexc]
      simp only [Option.isSome_some, if_true, htick]
      cases hre : rescheduleFailedAnalysisTask env.plugins (env.time (s.tick + 1)) fo with
      | error e => exact .ended trivial
      | ok fo' =>
        dsimp only
        rcases postAnalysisAndCheck_spec env s1 fo' name (fo'.processedAnalysis.getD name .none)
          with hend | ⟨db, hadd, hdb', hplace'⟩
        · exact .ended hend
        · rw [hdb] at hadd
          exact .failed hplace hmem hne hre hadd hdb' hplace'

theorem schedule_checkedPlace (fo : FileObject) :
    (checkedPlace fo).schedule = fo.scheduledAnalysis := by
  unfold checkedPlace
  split
  · next hempty => exact (List.isEmpty_iff.mp hempty).symm
  · rfl

theorem inFlight_checkedPlace : ¬ (checkedPlace fo).InFlight name := by
  unfold checkedPlace
  split <;> exact id

theorem schedule_addJob (plugin : Plugin) (name : String) (fo : FileObject) :
    (addJob plugin name fo).schedule = fo.scheduledAnalysis := by
  unfold addJob
  split
  · rfl
  · split <;> rfl

theorem schedule_runPlugin (env : AnalysisEnv) (now : Rat) (plugin : Plugin) (name : String)
    (fo : FileObject) :
    (runPlugin env now plugin name fo).scheduledAnalysis = fo.scheduledAnalysis := by
  unfold runPlugin
  split <;> rfl

/-! ## 3. A step -/

/-- Every step is one of the moves. -/
theorem analysisStep_move (env : AnalysisEnv) (s : AnalysisState) :
    Move env s (analysisStep env s) := by
  unfold analysisStep
  cases hplace : s.place with
  | processQueue fo => exact processNextAnalysisTask_move hplace rfl rfl
  | inQueue name fo =>
    dsimp only
    cases hplugin : env.plugins.get? name with
    | some plugin => exact .ran hplace hplugin rfl rfl
    | none => exact .waits hplace (Dict.get?_eq_none_iff.mp hplugin) hplace.symm rfl
  | outQueue name fo => exact collectResult_move hplace rfl rfl
  | completed fo => exact .rests hplace rfl
  | dropped fo => exact .ended (by simp [AnalysisState.Ended, hplace])
  | crashed e => exact .ended (by simp [AnalysisState.Ended, hplace])

theorem removeFromCurrentAnalyses_tick (env : AnalysisEnv) (s : AnalysisState) (fo : FileObject)
    (place : Place) : (removeFromCurrentAnalyses env s fo place).tick = s.tick := by
  obtain ⟨tables, hremove⟩ := removeFromCurrentAnalyses_ok env s fo place
  rw [hremove]

theorem postAnalysisAndCheck_tick (env : AnalysisEnv) (s : AnalysisState) (fo : FileObject)
    (name : String) (result : PyVal) : (postAnalysisAndCheck env s fo name result).tick = s.tick := by
  unfold postAnalysisAndCheck
  dsimp only
  split
  · rfl
  · exact (checkFurtherProcessOrComplete_spec env _ fo).2.2

theorem startOrSkipAnalysis_tick (env : AnalysisEnv) (s : AnalysisState) (name : String)
    (plugin : Plugin) (fo : FileObject) : (startOrSkipAnalysis env s name plugin fo).tick = s.tick := by
  unfold startOrSkipAnalysis
  split
  · rfl
  · unfold skipUpToDate
    split
    · rfl
    · exact (checkFurtherProcessOrComplete_spec env s _).2.2
  · split
    · rfl
    · exact postAnalysisAndCheck_tick env s _ name _
    · unfold startAnalysis
      split <;> rfl

/-- A way that has ended stays so. -/
theorem analysisStep_ended (env : AnalysisEnv) (h : s.Ended) : (analysisStep env s).Ended := by
  unfold AnalysisState.Ended at h ⊢
  unfold analysisStep
  split at h
  · next fo hplace => simp [hplace]
  · next e hplace => simp [hplace]
  · exact absurd h id

/-- The clock goes on with every step but those of an object that rests. -/
theorem analysisStep_tick (env : AnalysisEnv) (s : AnalysisState) :
    (analysisStep env s).tick = s.tick + 1 ∨ analysisStep env s = s := by
  unfold analysisStep
  cases s.place with
  | processQueue fo =>
    refine .inl ?_
    dsimp only
    unfold processNextAnalysisTask
    dsimp only
    split
    · split
      · exact removeFromCurrentAnalyses_tick env _ fo _
      · rfl
    · unfold processAddedObject
      split
      · rfl
      · dsimp only
        split
        · exact (checkFurtherProcessOrComplete_spec env _ _).2.2
        · exact startOrSkipAnalysis_tick env _ _ _ _
  | inQueue name fo =>
    dsimp only
    split <;> exact .inl rfl
  | outQueue name fo =>
    refine .inl ?_
    dsimp only
    unfold collectResult
    split
    · split
      · rfl
      · exact postAnalysisAndCheck_tick env _ _ name _
    · exact (checkFurtherProcessOrComplete_spec env _ fo).2.2
  | completed fo | dropped fo | crashed e => exact .inr rfl

end Moves

end FactCore
