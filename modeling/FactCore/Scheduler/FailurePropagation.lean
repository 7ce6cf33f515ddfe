import FactCore.Scheduler.TaskScheduler

/-!
# What the failure of a plugin does to the schedule

When a plugin has failed, `reschedule_failed_analysis_task` gives the plugins
that depend on it a failed result and takes them off the schedule. It reads the
`DEPENDENCIES` of each scheduled plugin once, so a plugin that depends on the
failed one through another plugin stays, and later finds a result of its
dependency that says nothing but that it failed.

Results:
1. `scheduled_registered`: the plugins of a schedule are registered and distinct.
2. `unscheduleDependents_failed`: the results of the plugins that are taken off.
3. `reschedule_propagates_iff`: when the failure reaches all plugins it concerns.
-/

namespace FactCore

open Relation DependencyOrder

variable {plugins : PluginTable} {names : List String} {failed : String}

/-! ## 1. Schedules -/

/-- The plugins of a schedule are registered and distinct. -/
theorem scheduled_registered (hclosed : ∀ p d, plugins.DependsOn p d → d ∈ plugins)
    {shuffle : Shuffle} {fuel : Nat} {fo fo' : FileObject} {request : List String}
    {mandatory : Bool}
    (h : scheduleAnalysisTasks fuel plugins shuffle.run fo request mandatory = some (.ok fo')) :
    fo'.scheduledAnalysis.Nodup ∧ ∀ p ∈ fo'.scheduledAnalysis, p ∈ plugins := by
  -- a name that is not registered would have raised an exception
  have hregistered : ∀ p ∈ shuffledList request mandatory, p ∈ plugins := by
    intro p hp
    by_contra hno
    obtain ⟨n, e, herror⟩ := scheduleAnalysisTasks_raises hclosed shuffle.run fo hp hno
    have hok := scheduleAnalysisTasks_mono h (Nat.le_max_left fuel n)
    rw [herror _ (Nat.le_max_right fuel n)] at hok
    cases Option.some.inj hok
  obtain ⟨n, schedule, hnodup, hreg, hall⟩ := scheduleAnalysisTasks_total hclosed shuffle fo mandatory
    (fun p hp => hregistered p (mem_shuffledList.mpr (.inl hp)))
    fun hyes p hp => hregistered p (mem_shuffledList.mpr (.inr ⟨hyes, hp⟩))
  have hok := scheduleAnalysisTasks_mono h (Nat.le_max_left fuel n)
  rw [hall _ (Nat.le_max_right fuel n)] at hok
  obtain rfl := Except.ok.inj (Option.some.inj hok)
  exact ⟨hnodup, hreg⟩

/-! ## 2. Failed results -/

/-- A result that says that the plugin failed, with the two keys that every row needs. -/
def IsFailedResult (result : PyVal) : Prop :=
  ∃ cause version date, result.get? "failed" = some (.str cause) ∧
    result.get? "plugin_version" = some (.str version) ∧
    result.get? "analysis_date" = some (.num date)

/-- The object has a failed result of the plugin. -/
def HasFailed (fo : FileObject) (p : String) : Prop :=
  ∃ result, fo.processedAnalysis.get? p = some result ∧ IsFailedResult result

theorem isFailedResult_getFailedAnalysisResult {now : Rat} {cause name : String} {result : PyVal}
    (h : getFailedAnalysisResult plugins now cause name = .ok result) : IsFailedResult result := by
  unfold getFailedAnalysisResult at h
  cases hlookup : plugins.lookup name with
  | error e => rw [hlookup] at h; cases h
  | ok plugin =>
    rw [hlookup] at h
    obtain rfl := Except.ok.inj h
    exact ⟨cause, plugin.version, now, rfl, rfl, rfl⟩

/-- A plugin that is taken off the schedule gets a failed result. -/
theorem unscheduleDependent_failed {now : Rat} {fo fo' : FileObject} {p : String}
    (h : unscheduleDependent plugins now failed fo p = .ok fo') (hd : plugins.DependsOn p failed) :
    HasFailed fo' p := by
  obtain ⟨plugin, hplugin, hmem⟩ := hd
  have hlookup : plugins.lookup p = .ok plugin := by rw [PluginTable.lookup, hplugin]
  unfold unscheduleDependent at h
  rw [hlookup] at h
  simp only [bind, Except.bind, if_neg (not_not_intro hmem)] at h
  cases hresult : getFailedAnalysisResult plugins now ("Analysis of dependency " ++ failed ++ " failed")
      p with
  | error e => rw [hresult] at h; cases h
  | ok result =>
    rw [hresult] at h
    obtain rfl := Except.ok.inj h
    exact ⟨result, Dict.get?_set_self _ _ _, isFailedResult_getFailedAnalysisResult hresult⟩

theorem unscheduleDependents_failed {now : Rat} {fo fo' : FileObject}
    (hnodup : fo.scheduledAnalysis.Nodup) (hreg : ∀ p ∈ names, p ∈ plugins)
    (h : names.foldlM (unscheduleDependent plugins now failed) fo = .ok fo') {p : String}
    (hp : p ∈ names) (hd : plugins.DependsOn p failed) : HasFailed fo' p := by
  induction names generalizing fo with
  | nil => cases hp
  | cons q names ih =>
    obtain ⟨fo1, h1, hone⟩ := unscheduleDependent_ok now failed hnodup (hreg q List.mem_cons_self)
    have hnodup1 := hnodup.sublist hone.sublist
    have hreg1 : ∀ p ∈ names, p ∈ plugins := fun p hp => hreg p (List.mem_cons_of_mem q hp)
    rw [List.foldlM_cons, h1] at h
    rcases Decidable.em (p ∈ names) with hin | hout
    · exact ih hnodup1 hreg1 h hin
    · -- the later rounds leave the result alone
      obtain rfl := (List.mem_cons.mp hp).resolve_right hout
      obtain ⟨fo2, h2, hrest⟩ := unscheduleDependents_ok now failed hnodup1 hreg1
      obtain rfl : fo2 = fo' := Except.ok.inj (h2.symm.trans h)
      obtain ⟨result, hresult, hfailed⟩ := unscheduleDependent_failed h1 hd
      exact ⟨result, (hrest.kept p hout).trans hresult, hfailed⟩

/-! ## 3. The failure of a plugin -/

/-- What the failure of a plugin should do to an object:
* no plugin is left that depends on the failed one, directly or not;
* the plugins that are gone do depend on it, and have a failed result;
* the others keep their order;
* the exception is cleared. -/
structure FailurePropagated (plugins : PluginTable) (failed : String) (fo fo' : FileObject) :
    Prop where
  left : ∀ p ∈ fo'.scheduledAnalysis, ¬ TransGen plugins.DependsOn p failed
  gone : ∀ p ∈ fo.scheduledAnalysis, p ∉ fo'.scheduledAnalysis →
    TransGen plugins.DependsOn p failed ∧ HasFailed fo' p
  order : fo'.scheduledAnalysis.Sublist fo.scheduledAnalysis
  cleared : fo'.analysisException = none

/-- What it does: the plugins that depend on the failed one directly are gone. -/
theorem reschedule_unschedules (now : Rat) {fo : FileObject} {cause : String}
    (hexc : fo.analysisException = some (failed, cause)) (hfailed : failed ∈ plugins)
    (hnodup : fo.scheduledAnalysis.Nodup) (hreg : ∀ p ∈ fo.scheduledAnalysis, p ∈ plugins) :
    ∃ fo', rescheduleFailedAnalysisTask plugins now fo = .ok fo' ∧
      fo'.analysisException = none ∧
      fo'.scheduledAnalysis.Sublist fo.scheduledAnalysis ∧
      (∀ p, p ∈ fo'.scheduledAnalysis ↔
        p ∈ fo.scheduledAnalysis ∧ ¬ plugins.DependsOn p failed) ∧
      ∀ p ∈ fo.scheduledAnalysis, plugins.DependsOn p failed → HasFailed fo' p := by
  obtain ⟨version, hresult⟩ := getFailedAnalysisResult_ok hfailed now cause
  let fo1 := { fo with
    analysisException := some (failed, cause)
    processedAnalysis := fo.processedAnalysis.set failed (.dict [("failed", .str cause),
      ("plugin_version", .str version), ("analysis_date", .num now)]) }
  obtain ⟨fo2, hfold, hun⟩ := @unscheduleDependents_ok plugins fo.scheduledAnalysis now failed fo1
    hnodup hreg
  refine ⟨{ fo2 with analysisException := none }, ?_, rfl, hun.sublist, fun p => ?_, fun p hp hd => ?_⟩
  · unfold rescheduleFailedAnalysisTask
    rw [hexc]
    simp only [hresult, bind, Except.bind]
    rw [hfold]
    rfl
  · show p ∈ fo2.scheduledAnalysis ↔ _
    rw [hun.scheduled]
    exact and_congr_right fun hp => not_congr (and_iff_right hp)
  · have hresult : HasFailed fo2 p := @unscheduleDependents_failed _ _ _ now fo1 fo2 hnodup hreg hfold
      p hp hd
    exact hresult

/-- The failure of a plugin that was taken from a schedule reaches all plugins it concerns exactly
when every plugin still scheduled that depends on it does so directly. -/
theorem reschedule_propagates_iff (hclosed : ∀ p d, plugins.DependsOn p d → d ∈ plugins)
    {shuffle : Shuffle} {fuel : Nat} {fo₀ scheduled fo : FileObject} {request : List String}
    {mandatory : Bool}
    (hscheduled : scheduleAnalysisTasks fuel plugins shuffle.run fo₀ request mandatory =
      some (.ok scheduled))
    {popped : List String} (hpop : scheduled.scheduledAnalysis = fo.scheduledAnalysis ++ failed :: popped)
    {cause : String} (hexc : fo.analysisException = some (failed, cause)) (now : Rat) :
    ∃ fo', rescheduleFailedAnalysisTask plugins now fo = .ok fo' ∧
      (FailurePropagated plugins failed fo fo' ↔
        ∀ p ∈ fo.scheduledAnalysis, TransGen plugins.DependsOn p failed →
          plugins.DependsOn p failed) := by
  obtain ⟨hnodup, hreg⟩ := scheduled_registered hclosed hscheduled
  rw [hpop] at hnodup hreg
  obtain ⟨fo', hok, hcleared, hsub, hleft, hgone⟩ := reschedule_unschedules now hexc
    (hreg failed (List.mem_append_right _ List.mem_cons_self)) hnodup.of_append_left
    fun p hp => hreg p (List.mem_append_left _ hp)
  refine ⟨fo', hok, fun h p hp hd => ?_, fun h => ⟨fun p hp hd => ?_, fun p hp hno => ?_, hsub,
    hcleared⟩⟩
  · by_contra hno
    exact h.left p ((hleft p).mpr ⟨hp, hno⟩) hd
  · obtain ⟨hp, hno⟩ := (hleft p).mp hp
    exact hno (h p hp hd)
  · have hd : plugins.DependsOn p failed := by
      by_contra hd
      exact hno ((hleft p).mpr ⟨hp, hd⟩)
    exact ⟨.single hd, hgone p hp hd⟩

/-- A chain of plugins: `c` depends on `b`, and `b` on `a`. -/
def chainPlugins : PluginTable :=
  Dict.ofList [
    ("a", ⟨"1.0", none, [], [], [], true⟩),
    ("b", ⟨"1.0", none, ["a"], [], [], true⟩),
    ("c", ⟨"1.0", none, ["b"], [], [], true⟩)]

/-- The order of the layers is kept. -/
def keepOrder : Shuffle := ⟨fun _ l => l, fun _ l => .refl l⟩

/-- An image from whose schedule `a` was taken, and failed. -/
def imageAfterFailure (scheduled : List String) : FileObject :=
  { outerImage with
    scheduledAnalysis := scheduled
    analysisException := some ("a", "error") }

theorem closed_chainPlugins (p d : String) (hd : chainPlugins.DependsOn p d) : d ∈ chainPlugins := by
  obtain ⟨plugin, hplugin, hd⟩ := hd
  have hall : ∀ e ∈ chainPlugins.entries, ∀ d ∈ e.2.dependencies, d ∈ chainPlugins := by decide
  exact hall _ (Dict.mem_entries_iff.mpr hplugin) d hd

theorem scheduled_b : scheduleAnalysisTasks 4 chainPlugins keepOrder.run outerImage ["b"] false =
    some (.ok { outerImage with scheduledAnalysis := ["b", "a"] }) := rfl

theorem scheduled_c : scheduleAnalysisTasks 4 chainPlugins keepOrder.run outerImage ["c"] false =
    some (.ok { outerImage with scheduledAnalysis := ["c", "b", "a"] }) := rfl

/-- After the failure of `a` the plugin `b` is gone. -/
theorem reschedule_removes_direct_dependent :
    ∃ fo', rescheduleFailedAnalysisTask chainPlugins 1 (imageAfterFailure ["b"]) = .ok fo' ∧
      FailurePropagated chainPlugins "a" (imageAfterFailure ["b"]) fo' ∧
      fo'.scheduledAnalysis = [] := by
  obtain ⟨fo', hok, hiff⟩ : ∃ fo',
      rescheduleFailedAnalysisTask chainPlugins 1 (imageAfterFailure ["b"]) = .ok fo' ∧ _ :=
    reschedule_propagates_iff closed_chainPlugins scheduled_b rfl rfl 1
  have hba : chainPlugins.DependsOn "b" "a" := ⟨_, rfl, List.mem_singleton_self "a"⟩
  have hpropagated : FailurePropagated chainPlugins "a" (imageAfterFailure ["b"]) fo' := by
    refine hiff.mpr fun p hp _ => ?_
    obtain rfl := List.mem_singleton.mp hp
    exact hba
  refine ⟨fo', hok, hpropagated, List.eq_nil_iff_forall_not_mem.mpr fun p hp => ?_⟩
  obtain rfl := List.mem_singleton.mp (hpropagated.order.subset hp)
  exact hpropagated.left "b" hp (.single hba)

/-- After the failure of `a` the plugin `c` stays on the schedule. -/
theorem reschedule_leaves_indirect_dependent :
    (∀ p, ¬ TransGen chainPlugins.DependsOn p p) ∧
    scheduleAnalysisTasks 4 chainPlugins keepOrder.run outerImage ["c"] false =
      some (.ok { outerImage with scheduledAnalysis := ["c", "b", "a"] }) ∧
    ∃ fo', rescheduleFailedAnalysisTask chainPlugins 1 (imageAfterFailure ["c", "b"]) = .ok fo' ∧
      ¬ FailurePropagated chainPlugins "a" (imageAfterFailure ["c", "b"]) fo' := by
  refine ⟨acyclic_of_rank (fun p => if p = "c" then 2 else if p = "b" then 1 else 0) ?_,
    scheduled_c, _, rfl, fun h => ?_⟩
  · rintro p d ⟨plugin, hplugin, hd⟩
    have hall : ∀ e ∈ chainPlugins.entries, ∀ d ∈ e.2.dependencies,
        (if d = "c" then 2 else if d = "b" then 1 else 0) <
          if e.1 = "c" then 2 else if e.1 = "b" then 1 else 0 := by decide
    exact hall _ (Dict.mem_entries_iff.mpr hplugin) d hd
  · have hcb : chainPlugins.DependsOn "c" "b" := ⟨_, rfl, List.mem_singleton_self "b"⟩
    have hba : chainPlugins.DependsOn "b" "a" := ⟨_, rfl, List.mem_singleton_self "a"⟩
    exact h.left "c" (List.mem_singleton_self "c") (.tail (.single hcb) hba)

end FactCore
