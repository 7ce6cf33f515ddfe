import FactCore.Scheduler.ObjectWay

/-!
# The exceptions of a step

A step of the scheduler calls other parts of the backend, and five of these calls can
end the way of the object: adding the object to the database, the two checks on a
plugin, reading the binary, and storing a result. Everything else that a step looks up
is there, as long as the schedule names registered plugins only.

Results:
1. `analysisStep_ended_iff`: exactly when a step ends the way of the object.
2. `not_ended_iff_quiet`: exactly when a whole way does not end early.
-/

namespace FactCore

open DependencyOrder

/-! ## 1. The condition on a step -/

/-- The result can be stored. -/
def CanStore (env : AnalysisEnv) (db : Db) (uid : Uid) (name : String) (result : PyVal) : Prop :=
  (addAnalysis env.driver db uid name result).raised = none

/-- The condition on the plugin that is taken from the schedule: whether it has to run can be decided,
and the skipped result can be stored, or the binary is there. -/
structure TakeQuiet (env : AnalysisEnv) (db : Db) (files : FileStore) (now : Rat) (name : String)
    (plugin : Plugin) (fo : FileObject) : Prop where
  dates : ∀ e, upToDateCheck env db name fo ≠ .error e
  mime : upToDateCheck env db name fo = .ok false → ∀ e, blacklistCheck env db name plugin fo ≠ .error e
  skip : ∀ fo', upToDateCheck env db name fo = .ok false →
    blacklistCheck env db name plugin fo = .ok (true, fo') →
    CanStore env db fo.uid name (getSkippedAnalysisResult plugin now)
  binary : ∀ fo', upToDateCheck env db name fo = .ok false →
    blacklistCheck env db name plugin fo = .ok (false, fo') → fo.sha256 = none →
    ∀ e, files.readBinary fo.uid ≠ .error e

/-- The condition on the result that is collected: the plugins that a failure concerns are
registered, and what is left of the result can be stored. -/
def CollectQuiet (env : AnalysisEnv) (db : Db) (now : Rat) (name : String) (fo : FileObject) : Prop :=
  ∃ fo', (if fo.analysisException.isSome then rescheduleFailedAnalysisTask env.plugins now fo
      else .ok fo) = .ok fo' ∧
    CanStore env db fo'.uid name (fo'.processedAnalysis.getD name .none)

/-- The condition on a step, in the state before it. -/
def StepQuiet (env : AnalysisEnv) (s : AnalysisState) : Prop :=
  match s.place with
  | .processQueue fo => (addObject env.driver s.db fo).raised = none ∧
      ∀ rest name plugin, fo.scheduledAnalysis = rest ++ [name] →
        env.plugins.get? name = some plugin →
        TakeQuiet env (addObject env.driver s.db fo).db s.files (env.time (s.tick + 1)) name plugin
          { fo with scheduledAnalysis := rest }
  | .outQueue name fo => name ∈ fo.processedAnalysis →
      CollectQuiet env s.db (env.time (s.tick + 1)) name fo
  | _ => True

/-- The condition on the steps of the object; everything else may go on in any way. -/
def Quiet (w : Way) : WayEvent → Prop
  | .step env => StepQuiet env w.state
  | .others _ _ _ _ => True

/-- Only registered plugins are scheduled, and what is in the process queue has one. -/
structure Place.Regular (plugins : PluginTable) (place : Place) : Prop where
  registered : ∀ p ∈ place.schedule, p ∈ plugins
  nonempty : ∀ fo, place = .processQueue fo → fo.scheduledAnalysis ≠ []

section Steps
variable {env : AnalysisEnv} {s : AnalysisState} {fo : FileObject} {name : String} {plugin : Plugin}
  {result : PyVal}

/-! ## 2. One step -/

theorem ended_iff : s.Ended ↔ (∃ fo, s.place = .dropped fo) ∨ ∃ e, s.place = .crashed e := by
  unfold AnalysisState.Ended
  cases s.place <;> simp

theorem not_ended_checked (env : AnalysisEnv) (s : AnalysisState) (fo : FileObject) :
    ¬ (checkFurtherProcessOrComplete env s fo).Ended := by
  rw [ended_iff, (checkFurtherProcessOrComplete_spec env s fo).2.1, checkedPlace]
  cases fo.scheduledAnalysis.isEmpty <;> simp

theorem not_ended_addJob (s : AnalysisState) (plugin : Plugin) (name : String) (fo : FileObject) :
    ¬ AnalysisState.Ended { s with place := addJob plugin name fo } := by
  rw [ended_iff]
  dsimp only [addJob]
  split
  · simp
  · split <;> simp

theorem postAnalysisAndCheck_ended_iff :
    (postAnalysisAndCheck env s fo name result).Ended ↔ ¬ CanStore env s.db fo.uid name result := by
  unfold postAnalysisAndCheck CanStore
  cases hraised : (addAnalysis env.driver s.db fo.uid name result).raised with
  | some e =>
    simp only [hraised]
    exact iff_of_true (AnalysisState.ended_crash _ e) (by simp)
  | none =>
    simp only [hraised]
    exact iff_of_false (not_ended_checked env _ fo) (by simp)

theorem startAnalysis_ended_iff :
    (startAnalysis s name plugin fo).Ended ↔
      fo.sha256 = none ∧ ∃ e, s.files.readBinary fo.uid = .error e := by
  unfold startAnalysis
  by_cases hbinary : fo.sha256 = none
  · rw [if_pos hbinary, setBinary]
    cases s.files.readBinary fo.uid with
    | error e => exact iff_of_true trivial ⟨hbinary, e, rfl⟩
    | ok content =>
      exact iff_of_false (not_ended_addJob s plugin name _) fun h => by
        obtain ⟨-, e, he⟩ := h
        cases he
  · rw [if_neg hbinary]
    exact iff_of_false (not_ended_addJob s plugin name fo) fun h => hbinary h.1

/-- A plugin that is taken from the schedule ends the way exactly if its condition fails. -/
theorem startOrSkipAnalysis_ended_iff (hreg : ∀ p ∈ fo.scheduledAnalysis, p ∈ env.plugins) :
    (startOrSkipAnalysis env s name plugin fo).Ended ↔
      ¬ TakeQuiet env s.db s.files (env.time s.tick) name plugin fo := by
  have hfirst : (if fo.forceUpdate then .ok false
      else analysisIsAlreadyInDbAndUpToDate env s.db name fo.uid) =
        upToDateCheck env s.db name fo := rfl
  have hsecond : (if name ∈ mandatoryPlugins then .ok (false, fo)
      else nextAnalysisIsBlacklisted env s.db name plugin fo) =
        blacklistCheck env s.db name plugin fo := rfl
  unfold startOrSkipAnalysis
  rw [hfirst, hsecond]
  cases hdates : upToDateCheck env s.db name fo with
  | error e => exact iff_of_true trivial fun h => h.dates e hdates
  | ok upToDate =>
    cases upToDate with
    | true =>
      -- the dependencies of registered plugins are there
      obtain ⟨dependencies, hdeps, -⟩ := getCumulativeRemainingDependencies_ok hreg
      have hlive : ¬ (skipUpToDate env s name fo).Ended := by
        unfold skipUpToDate
        rw [hdeps]
        exact not_ended_checked env s _
      refine iff_of_false hlive (not_not_intro ⟨?_, ?_, ?_, ?_⟩) <;> simp [hdates]
    | false =>
      cases hmime : blacklistCheck env s.db name plugin fo with
      | error e => exact iff_of_true trivial fun h => h.mime hdates e hmime
      | ok found =>
        obtain ⟨skip, fo'⟩ := found
        have huid : fo'.uid = fo.uid := by rw [blacklistCheck_others hmime]
        have hbinary : fo'.sha256 = fo.sha256 := by rw [blacklistCheck_others hmime]
        cases skip with
        | true =>
          dsimp only
          rw [skipBlacklisted, postAnalysisAndCheck_ended_iff]
          dsimp only
          rw [huid]
          refine not_congr ⟨fun hstore => ?_, fun h => h.skip fo' hdates hmime⟩
          exact ⟨by simp [hdates], by simp [hmime], fun _ _ _ => hstore, by simp [hmime]⟩
        | false =>
          dsimp only
          rw [startAnalysis_ended_iff, huid, hbinary]
          constructor
          · rintro ⟨hnone, e, he⟩ h
            exact h.binary fo' hdates hmime hnone e he
          · intro h
            by_contra hfiles
            refine h ⟨by simp [hdates], by simp [hmime], by simp [hmime], ?_⟩
            exact fun _ _ _ hnone e he => hfiles ⟨hnone, e, he⟩

/-- A step from the process queue. -/
theorem processNextAnalysisTask_ended_iff {rest : List String}
    (hschedule : fo.scheduledAnalysis = rest ++ [name]) (hplugin : env.plugins.get? name = some plugin)
    (hreg : ∀ p ∈ rest, p ∈ env.plugins) :
    (processNextAnalysisTask env s fo).Ended ↔
      ¬ ((addObject env.driver s.db fo).raised = none ∧
        TakeQuiet env (addObject env.driver s.db fo).db s.files (env.time s.tick) name plugin
          { fo with scheduledAnalysis := rest }) := by
  unfold processNextAnalysisTask
  cases hadd : (addObject env.driver s.db fo).raised with
  | some e =>
    refine iff_of_true ?_ (by simp)
    obtain ⟨tables, hremove⟩ := removeFromCurrentAnalyses_ok env
      { s with db := (addObject env.driver s.db fo).db } fo (.dropped fo)
    simp only [hadd, hremove]
    split <;> trivial
  | none =>
    have hlast : fo.scheduledAnalysis.getLast? = some name := by rw [hschedule, List.getLast?_concat]
    have hrest : fo.scheduledAnalysis.dropLast = rest := by rw [hschedule, List.dropLast_concat]
    simp only [hadd, processAddedObject, hlast, hplugin, hrest, true_and]
    refine startOrSkipAnalysis_ended_iff ?_
    exact hreg

/-- A step of the collector. -/
theorem collectResult_ended_iff :
    (collectResult env s name fo).Ended ↔
      ¬ (name ∈ fo.processedAnalysis → CollectQuiet env s.db (env.time s.tick) name fo) := by
  unfold collectResult CollectQuiet
  by_cases hname : name ∈ fo.processedAnalysis
  · rw [if_pos hname]
    cases hre : (if fo.analysisException.isSome then
        rescheduleFailedAnalysisTask env.plugins (env.time s.tick) fo else .ok fo) with
    | error e => exact iff_of_true trivial fun h => by obtain ⟨fo', hfo', -⟩ := h hname; cases hfo'
    | ok fo' =>
      dsimp only
      rw [postAnalysisAndCheck_ended_iff]
      refine not_congr ⟨fun hstore _ => ⟨fo', rfl, hstore⟩, fun h => ?_⟩
      obtain ⟨fo2, hfo2, hstore⟩ := h hname
      obtain rfl := Except.ok.inj hfo2
      exact hstore
  · rw [if_neg hname]
    exact iff_of_false (not_ended_checked env s fo) (by simp [hname])

/-- Exactly when a step ends the way of the object. -/
theorem analysisStep_ended_iff (h : s.place.Regular env.plugins) (hlive : ¬ s.Ended) :
    (analysisStep env s).Ended ↔ ¬ StepQuiet env s := by
  unfold analysisStep StepQuiet
  cases hplace : s.place with
  | processQueue fo =>
    obtain ⟨rest, name, hschedule⟩ :=
      (List.eq_nil_or_concat' fo.scheduledAnalysis).resolve_left (h.nonempty fo hplace)
    have hreg : ∀ p ∈ fo.scheduledAnalysis, p ∈ env.plugins := by
      have hall := h.registered
      rw [hplace] at hall
      exact hall
    rw [hschedule] at hreg
    obtain ⟨plugin, hplugin⟩ :=
      Dict.mem_iff.mp (hreg name (List.mem_append_right rest (List.mem_singleton_self name)))
    dsimp only
    rw [processNextAnalysisTask_ended_iff hschedule hplugin fun p hp =>
      hreg p (List.mem_append_left _ hp)]
    refine not_congr (and_congr_right fun _ => ⟨fun hquiet rest' name' plugin' heq hget => ?_,
      fun hall => hall rest name plugin hschedule hplugin⟩)
    obtain ⟨rfl, hname⟩ := List.append_inj' (heq.symm.trans hschedule) rfl
    obtain rfl := List.singleton_inj.mp hname
    obtain rfl := Option.some.inj (hget.symm.trans hplugin)
    exact hquiet
  | inQueue name fo =>
    refine iff_of_false ?_ (not_not_intro trivial)
    dsimp only
    split <;> simp [AnalysisState.Ended]
  | outQueue name fo => exact collectResult_ended_iff
  | completed fo => exact iff_of_false (by simp [AnalysisState.Ended, hplace]) (not_not_intro trivial)
  | dropped fo => exact absurd (by simp [AnalysisState.Ended, hplace]) hlive
  | crashed e => exact absurd (by simp [AnalysisState.Ended, hplace]) hlive

end Steps

/-! ## 3. Whole ways -/

section Ways
variable {plugins : PluginTable} {w w' : Way} {e : WayEvent} {events : List WayEvent}

theorem nonempty_of_checkedPlace {fo fo' : FileObject} (h : checkedPlace fo = .processQueue fo') :
    fo'.scheduledAnalysis ≠ [] := by
  unfold checkedPlace at h
  split at h
  · cases h
  · next hne =>
    cases h
    simpa using hne

theorem regular_checkedPlace {fo : FileObject} (h : ∀ p ∈ fo.scheduledAnalysis, p ∈ plugins) :
    (checkedPlace fo).Regular plugins where
  registered := by rwa [schedule_checkedPlace]
  nonempty _ := nonempty_of_checkedPlace

theorem not_ended_start (s : AnalysisState) (fo : FileObject) : ¬ (Way.start s fo).state.Ended := by
  rw [ended_iff]
  dsimp only [Way.start, checkedPlace]
  split <;> simp

theorem addJob_ne_processQueue (plugin : Plugin) (name : String) (fo fo' : FileObject) :
    addJob plugin name fo ≠ .processQueue fo' := by
  unfold addJob
  split
  · simp
  · split <;> simp

/-- Nothing puts an object without a schedule into the process queue. -/
theorem nonempty_analysisStep {env : AnalysisEnv} {s : AnalysisState}
    (h : ∀ fo, s.place = .processQueue fo → fo.scheduledAnalysis ≠ []) (fo : FileObject)
    (hplace : (analysisStep env s).place = .processQueue fo) : fo.scheduledAnalysis ≠ [] := by
  cases analysisStep_move env s with
  | ended hend =>
    rcases ended_iff.mp hend with ⟨fo', hfo'⟩ | ⟨e, he⟩
    · cases hplace.symm.trans hfo'
    · cases hplace.symm.trans he
  | rests _ hsame => exact h fo (hsame ▸ hplace)
  | waits _ _ hsame => exact h fo (hsame ▸ hplace)
  | unknown _ _ _ hnext => exact nonempty_of_checkedPlace (hnext.symm.trans hplace)
  | upToDate _ _ _ _ _ hnext => exact nonempty_of_checkedPlace (hnext.symm.trans hplace)
  | skipped _ _ _ _ _ _ hnext => exact nonempty_of_checkedPlace (hnext.symm.trans hplace)
  | started _ _ _ _ _ hnext => exact absurd (hnext.symm.trans hplace) (addJob_ne_processQueue _ _ _ _)
  | ran _ _ _ hnext => cases hnext.symm.trans hplace
  | notRun _ _ _ hnext => exact nonempty_of_checkedPlace (hnext.symm.trans hplace)
  | collected _ _ _ _ _ hnext => exact nonempty_of_checkedPlace (hnext.symm.trans hplace)
  | failed _ _ _ _ _ _ hnext => exact nonempty_of_checkedPlace (hnext.symm.trans hplace)

theorem WayStep.regular (h : WayStep plugins w e w') (hw : w.state.place.Regular plugins) :
    w'.state.place.Regular plugins := by
  have hnonempty : ∀ fo, w'.state.place = .processQueue fo → fo.scheduledAnalysis ≠ [] := by
    cases h with
    | others => exact hw.nonempty
    | step henv => exact nonempty_analysisStep hw.nonempty
  by_cases hend : w'.state.Ended
  · refine ⟨fun p hp => ?_, hnonempty⟩
    rw [schedule_of_ended hend] at hp
    cases hp
  · exact ⟨fun p hp => hw.registered p (h.schedule_subset hw.registered hend hp), hnonempty⟩

/-- A step of a way does not end it exactly if it meets its condition. -/
theorem WayStep.not_ended_iff (h : WayStep plugins w e w') (hw : w.state.place.Regular plugins)
    (hlive : ¬ w.state.Ended) : ¬ w'.state.Ended ↔ Quiet w e := by
  cases h with
  | others => exact iff_of_true hlive trivial
  | @step env henv =>
    rw [← henv] at hw
    exact not_iff_comm.mp (analysisStep_ended_iff hw hlive).symm

/-- Exactly when a whole way does not end before the analysis is complete. -/
theorem not_ended_iff_quiet (h : Run (WayStep plugins) w events w')
    (hw : w.state.place.Regular plugins) (hlive : ¬ w.state.Ended) :
    ¬ w'.state.Ended ↔ Run (Restrict Quiet (WayStep plugins)) w events w' := by
  induction h with
  | nil w => exact iff_of_true hlive (.nil w)
  | @cons w w1 w' e events hst htl ih =>
    constructor
    · intro hend
      have hlive1 := not_ended_of_run htl hend
      exact .cons ⟨(hst.not_ended_iff hw hlive).mp hlive1, hst⟩
        ((ih (hst.regular hw) hlive1).mp hend)
    · intro hrun
      cases hrun with
      | cons hst' htl' =>
        obtain rfl := hst.deterministic hst'.2
        have hlive1 := (hst.not_ended_iff hw hlive).mpr hst'.1
        exact (ih (hst.regular hw) hlive1).mpr htl'

end Ways

end FactCore
