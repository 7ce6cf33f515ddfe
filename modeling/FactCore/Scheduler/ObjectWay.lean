import FactCore.Scheduler.AnalysisMoves

/-!
# The way of an object

From the time it gets into the process queue, an object is on its way through the
scheduler, with other objects around it. The processes that have it take it on step by
step; in between, everything that the objects share may change. The way hands one
plugin after the other to `_start_or_skip_analysis`.

Only the schedule of the object matters for the order of the plugins. What is
scheduled or handled is one list, the plan: handing over a plugin leaves it as it is,
and unscheduling takes plugins out of its front.

Results:
1. `WayStep.plan`: what a step does to the plugins that are scheduled or handled.
2. `planKept_of_run`: what a way does to its plan.
3. `dependenciesFirst_iff_of_list`, `handledInOrder_of_run`: which lists are worked
   off in dependency order.
-/

namespace FactCore

open Relation DependencyOrder

/-! ## 1. The way of an object -/

/-- The plugin that the next step hands to `_start_or_skip_analysis`. -/
def handedPlugin (env : AnalysisEnv) (s : AnalysisState) : Option String :=
  match s.place with
  | .processQueue fo =>
    if (addObject env.driver s.db fo).raised = none then
      fo.scheduledAnalysis.getLast?.filter fun name => decide (name ∈ env.plugins)
    else none
  | _ => none

/-- The state of the object, and the plugins that were handed to `_start_or_skip_analysis`, the last
one first. -/
structure Way where
  state : AnalysisState
  handled : List String

/-- What can happen next. -/
inductive WayEvent
  /-- The process that has the object goes on. The plugins may do something else each time. -/
  | step (env : AnalysisEnv)
  /-- Everything else goes on. -/
  | others (db : Db) (files : FileStore) (unpackingLocks : UnpackingLocks) (status : StatusTables)

/-- The step relation. -/
inductive WayStep (plugins : PluginTable) : Way → WayEvent → Way → Prop
  | step {w : Way} {env : AnalysisEnv} : env.plugins = plugins →
      WayStep plugins w (.step env)
        ⟨analysisStep env w.state, (handedPlugin env w.state).toList ++ w.handled⟩
  | others {w : Way} {db : Db} {files : FileStore} {unpackingLocks : UnpackingLocks}
      {status : StatusTables} : WayStep plugins w (.others db files unpackingLocks status)
        ⟨{ w.state with
            db := db
            files := files
            unpackingLocks := unpackingLocks
            status := status }, w.handled⟩

/-- The object gets into the process queue, or is complete at once. -/
def Way.start (s : AnalysisState) (fo : FileObject) : Way :=
  ⟨{ s with place := checkedPlace fo }, []⟩

/-- Every plugin was handled after all plugins it depends on. -/
def HandledInOrder (plugins : PluginTable) (w : Way) : Prop :=
  ∀ later p earlier, w.handled = later ++ p :: earlier →
    ∀ d, TransGen plugins.DependsOn p d → d ∈ earlier

/-- At the end of a way: moreover, the plugins that were handled are those that `requested` says. -/
structure DependenciesFirst (plugins : PluginTable) (requested : String → Prop) (w : Way) : Prop where
  order : HandledInOrder plugins w
  handled : ∀ p, p ∈ w.handled ↔ requested p

/-- If the step collects a failure, the plugins that it unschedules were handled before. -/
def UnschedulesHandled (plugins : PluginTable) (w : Way) : WayEvent → Prop
  | .step _ => ∀ name fo failed cause, w.state.place = .outQueue name fo →
      name ∈ fo.processedAnalysis → fo.analysisException = some (failed, cause) →
      ∀ p ∈ fo.scheduledAnalysis, plugins.DependsOn p failed → p ∈ w.handled
  | .others _ _ _ _ => True

/-- The same for the plugins that `requested` says. -/
def UnschedulesHandledOf (plugins : PluginTable) (requested : String → Prop) (w : Way) :
    WayEvent → Prop
  | .step _ => ∀ name fo failed cause, w.state.place = .outQueue name fo →
      name ∈ fo.processedAnalysis → fo.analysisException = some (failed, cause) →
      ∀ p ∈ fo.scheduledAnalysis, requested p → plugins.DependsOn p failed → p ∈ w.handled
  | .others _ _ _ _ => True

theorem unschedulesHandled_eq (plugins : PluginTable) :
    UnschedulesHandled plugins = UnschedulesHandledOf plugins fun _ => True := by
  funext w e
  cases e <;> simp [UnschedulesHandled, UnschedulesHandledOf]

/-- What is scheduled or handled, in the order in which it is worked off. -/
def Way.plan (w : Way) : List String := w.state.place.schedule ++ w.handled

instance (plugins : PluginTable) (p d : String) : Decidable (plugins.DependsOn p d) :=
  decidable_of_iff (∃ plugin ∈ plugins.get? p, d ∈ plugin.dependencies) Iff.rfl

section Ways
variable {plugins : PluginTable} {env : AnalysisEnv} {s : AnalysisState} {fo : FileObject}
  {w w' : Way} {e : WayEvent} {events : List WayEvent} {name : String}

/-- The step hands the plugin to `_start_or_skip_analysis`. -/
theorem analysisStep_of_handed (h : handedPlugin env s = some name) :
    ∃ s1 plugin fo, env.plugins.get? name = some plugin ∧
      analysisStep env s = startOrSkipAnalysis env s1 name plugin fo := by
  unfold handedPlugin at h
  unfold analysisStep
  split at h
  · next fo hplace =>
    split at h
    · next hadd =>
      obtain ⟨hlast, hmem⟩ := Option.filter_eq_some_iff.mp h
      obtain ⟨plugin, hplugin⟩ := Dict.mem_iff.mp (of_decide_eq_true hmem)
      simp only [hplace, processNextAnalysisTask, hadd, processAddedObject, hlast, hplugin]
      exact ⟨_, plugin, _, rfl, rfl⟩
    · cases h
  · cases h

theorem handedPlugin_of_pops {rest : List String} {db : Db} (h : Pops env s fo rest name db)
    (hname : name ∈ env.plugins) : handedPlugin env s = some name := by
  unfold handedPlugin
  simp [h.place, h.added, h.schedule, hname]

theorem handedPlugin_of_place (h : ∀ fo, s.place ≠ .processQueue fo) : handedPlugin env s = none := by
  unfold handedPlugin
  split
  · next fo hplace => exact absurd hplace (h fo)
  · rfl

/-! ## 2. Unscheduling -/

theorem diff_filter_self {P : String → Bool} (l : List String) :
    l.diff (l.filter P) = l.filter fun p => !P p := by
  induction l with
  | nil => rfl
  | cons p l ih =>
    cases hp : P p with
    | true =>
      rw [List.filter_cons_of_pos hp, List.filter_cons_of_neg (by simp [hp]), List.diff_cons,
        List.erase_cons_head, ih]
    | false =>
      rw [List.filter_cons_of_neg (by simp [hp]), List.filter_cons_of_pos (by simp [hp]),
        List.cons_diff_of_not_mem (fun hmem => by simp [hp] at hmem), ih]

theorem unscheduleDependent_schedule {now : Rat} {failed p : String} {fo fo' : FileObject}
    (h : unscheduleDependent plugins now failed fo p = .ok fo') :
    fo'.scheduledAnalysis = if plugins.DependsOn p failed then fo.scheduledAnalysis.erase p
      else fo.scheduledAnalysis := by
  unfold unscheduleDependent at h
  cases hget : plugins.get? p with
  | none =>
    rw [lookup_of_not_registered (Dict.get?_eq_none_iff.mp hget)] at h
    cases h
  | some plugin =>
    have hdep : plugins.DependsOn p failed ↔ failed ∈ plugin.dependencies := by
      simp [PluginTable.DependsOn, hget]
    have hlookup : plugins.lookup p = .ok plugin := by rw [PluginTable.lookup, hget]
    rw [hlookup] at h
    simp only [bind, Except.bind, getFailedAnalysisResult, hlookup, Except.map] at h
    split at h
    · next hno =>
      cases h
      rw [if_neg (mt hdep.mp hno)]
    · next hyes =>
      cases h
      rw [if_pos (hdep.mpr (not_not.mp hyes))]

theorem unscheduleDependents_schedule {now : Rat} {failed : String} {names : List String}
    {fo fo' : FileObject} (h : names.foldlM (unscheduleDependent plugins now failed) fo = .ok fo') :
    fo'.scheduledAnalysis =
      fo.scheduledAnalysis.diff (names.filter fun p => decide (plugins.DependsOn p failed)) := by
  induction names generalizing fo with
  | nil =>
    cases h
    rfl
  | cons p names ih =>
    rw [List.foldlM_cons] at h
    cases hone : unscheduleDependent plugins now failed fo p with
    | error e =>
      rw [hone] at h
      cases h
    | ok fo1 =>
      rw [hone] at h
      rw [ih h, unscheduleDependent_schedule hone, List.filter_cons]
      split
      · next hyes => rw [if_pos (decide_eq_true hyes), List.diff_cons]
      · next hno => rw [if_neg (by simp [hno])]

/-- A failure takes out of the schedule what depends on the failed plugin, and nothing else. -/
theorem rescheduleFailedAnalysisTask_schedule {now : Rat} {fo fo' : FileObject}
    (h : rescheduleFailedAnalysisTask plugins now fo = .ok fo') :
    ∃ failed cause, fo.analysisException = some (failed, cause) ∧ fo'.scheduledAnalysis =
      fo.scheduledAnalysis.filter fun p => !decide (plugins.DependsOn p failed) := by
  unfold rescheduleFailedAnalysisTask at h
  split at h
  · cases h
  · next failed cause hexc =>
    refine ⟨failed, cause, hexc, ?_⟩
    cases hresult : getFailedAnalysisResult plugins now cause failed with
    | error e =>
      rw [hresult] at h
      cases h
    | ok result =>
      simp only [hresult, bind, Except.bind] at h
      split at h
      · cases h
      · next fo1 hfold =>
        cases h
        show fo1.scheduledAnalysis = _
        rw [unscheduleDependents_schedule hfold]
        exact diff_filter_self fo.scheduledAnalysis

/-! ## 3. One step -/

/-- The plugins that a step takes from the end of the schedule are handled. -/
structure HandsOver (w w' : Way) (popped : List String) : Prop where
  handled : w'.handled = popped ++ w.handled
  schedule : w.state.place.schedule = w'.state.place.schedule ++ popped

/-- A step that takes one plugin from the schedule. -/
theorem HandsOver.of_pops {rest : List String} {db : Db} {handled : List String}
    {s' : AnalysisState} (h : Pops env s fo rest name db) (hname : name ∈ env.plugins)
    (hsched : s'.place.schedule = rest) :
    HandsOver ⟨s, handled⟩ ⟨s', (handedPlugin env s).toList ++ handled⟩ [name] where
  handled := by rw [handedPlugin_of_pops h hname]; rfl
  schedule := by
    dsimp only
    rw [h.place, hsched]
    exact h.schedule

/-- A step of a process that does not take objects from the process queue. -/
theorem HandsOver.of_place (env : AnalysisEnv) {handled : List String} {s' : AnalysisState}
    (h : ∀ fo, s.place ≠ .processQueue fo) (hsched : s'.place.schedule = s.place.schedule) :
    HandsOver ⟨s, handled⟩ ⟨s', (handedPlugin env s).toList ++ handled⟩ [] where
  handled := by rw [handedPlugin_of_place h]; rfl
  schedule := by rw [List.append_nil, hsched]

/-- A step hands over plugins, or it unschedules those that depend on a failed plugin, or the way
ends before the analysis is complete. -/
theorem WayStep.plan (h : WayStep plugins w e w')
    (hreg : ∀ p ∈ w.state.place.schedule, p ∈ plugins) :
    w'.state.Ended ∨ ((∀ requested, UnschedulesHandledOf plugins requested w e) ∧
        ∃ popped, HandsOver w w' popped) ∨
      ∃ failed, w'.handled = w.handled ∧
        w'.state.place.schedule =
          w.state.place.schedule.filter (fun p => !decide (plugins.DependsOn p failed)) ∧
        ∀ requested, UnschedulesHandledOf plugins requested w e ↔
          ∀ p ∈ w.state.place.schedule, requested p → plugins.DependsOn p failed →
            p ∈ w.handled := by
  cases h with
  | others => exact .inr (.inl ⟨fun _ => trivial, [], rfl, (List.append_nil _).symm⟩)
  | @step env henv =>
    subst henv
    obtain ⟨s, handled⟩ := w
    dsimp only at hreg ⊢
    -- a step from the process queue or from the queue of a plugin collects nothing
    have hpops : ∀ {fo rest name db}, Pops env s fo rest name db →
        name ∈ env.plugins ∧
          ∀ requested, UnschedulesHandledOf env.plugins requested ⟨s, handled⟩ (.step env) := by
      intro fo rest name db hpop
      refine ⟨hreg name ?_, fun _ name' fo' failed cause hplace => ?_⟩
      · rw [hpop.place]
        show name ∈ fo.scheduledAnalysis
        rw [hpop.schedule]
        exact List.mem_append_right rest (List.mem_singleton_self name)
      · cases hpop.place.symm.trans hplace
    cases analysisStep_move env s with
    | ended hend => exact .inl hend
    | @rests fo hplace hsame =>
      have hhands : HandsOver ⟨s, handled⟩ _ [] := HandsOver.of_place env
        (fun fo' hq => by cases hplace.symm.trans hq) (congrArg (·.place.schedule) hsame)
      exact .inr (.inl ⟨fun _ name fo' failed cause hq => (by cases hplace.symm.trans hq), _, hhands⟩)
    | @waits name fo hplace hname hsame hdb =>
      have hhands : HandsOver ⟨s, handled⟩ _ [] := HandsOver.of_place env
        (fun fo' hq => by cases hplace.symm.trans hq) (congrArg Place.schedule hsame)
      exact .inr (.inl ⟨fun _ name fo' failed cause hq => (by cases hplace.symm.trans hq), _, hhands⟩)
    | unknown hpop hname => exact absurd (hpops hpop).1 hname
    | @upToDate fo fo' rest name db hpop hname hcheck hfo' hdb hplace =>
      refine .inr (.inl ⟨(hpops hpop).2, _, .of_pops hpop (hpops hpop).1 ?_⟩)
      rw [hplace, schedule_checkedPlace]
      rcases hfo' with rfl | rfl <;> rfl
    | @skipped fo fo' rest name plugin db db' hpop hplugin hcheck hlist hadd hdb hplace =>
      refine .inr (.inl ⟨(hpops hpop).2, _, .of_pops hpop (hpops hpop).1 ?_⟩)
      rw [hplace, schedule_checkedPlace, blacklistCheck_others hlist]
    | @started fo fo' rest name plugin db binary hpop hplugin hcheck hlist hdb hplace =>
      refine .inr (.inl ⟨(hpops hpop).2, _, .of_pops hpop (hpops hpop).1 ?_⟩)
      rw [hplace, schedule_addJob, blacklistCheck_others hlist]
    | @ran name plugin fo hplace hplugin hdb hplace' =>
      have hhands : HandsOver ⟨s, handled⟩ _ [] := HandsOver.of_place env
        (fun fo' hq => by cases hplace.symm.trans hq) (by
          rw [hplace', hplace]
          exact schedule_runPlugin env _ plugin name fo)
      exact .inr (.inl ⟨fun _ name fo' failed cause hq => (by cases hplace.symm.trans hq), _, hhands⟩)
    | @notRun name fo hplace hno hdb hplace' =>
      have hhands : HandsOver ⟨s, handled⟩ _ [] := HandsOver.of_place env
        (fun fo' hq => by cases hplace.symm.trans hq) (by
          rw [hplace', hplace, schedule_checkedPlace]
          rfl)
      refine .inr (.inl ⟨fun _ name' fo' failed cause hq hmem => ?_, _, hhands⟩)
      obtain ⟨rfl, rfl⟩ := Place.outQueue.inj (hplace.symm.trans hq)
      exact absurd hmem hno
    | @collected name fo result db hplace hresult hexc hadd hdb hplace' =>
      have hhands : HandsOver ⟨s, handled⟩ _ [] := HandsOver.of_place env
        (fun fo' hq => by cases hplace.symm.trans hq) (by
          rw [hplace', hplace, schedule_checkedPlace]
          rfl)
      refine .inr (.inl ⟨fun _ name' fo' failed cause hq hmem hexc' => ?_, _, hhands⟩)
      obtain ⟨rfl, rfl⟩ := Place.outQueue.inj (hplace.symm.trans hq)
      cases hexc.symm.trans hexc'
    | @failed name fo fo' db hplace hmem hne hre hadd hdb hplace' =>
      obtain ⟨failed, cause, hexc, hsched⟩ := rescheduleFailedAnalysisTask_schedule hre
      refine .inr (.inr ⟨failed, ?_, ?_, fun requested => ⟨fun hmeets => ?_, fun hall => ?_⟩⟩)
      · rw [handedPlugin_of_place fun fo' hq => by cases hplace.symm.trans hq]
        rfl
      · rw [hplace', schedule_checkedPlace, hsched, hplace]
        rfl
      · rw [hplace]
        exact hmeets name fo failed cause hplace hmem hexc
      · intro name' fo' failed' cause' hq _ hexc'
        obtain ⟨rfl, rfl⟩ := Place.outQueue.inj (hplace.symm.trans hq)
        obtain ⟨rfl, rfl⟩ := Prod.mk.inj (Option.some.inj (hexc.symm.trans hexc'))
        rw [hplace] at hall
        exact hall

/-- A way that has ended stays so. -/
theorem WayStep.ended (h : WayStep plugins w e w') (hend : w.state.Ended) : w'.state.Ended := by
  cases h with
  | others => exact hend
  | @step env henv => exact analysisStep_ended env hend

theorem WayStep.deterministic {w'' : Way} (h : WayStep plugins w e w') (h' : WayStep plugins w e w'') :
    w' = w'' := by
  cases h <;> cases h' <;> rfl

/-! ## 4. The plan of a way -/

/-- The plugins that are scheduled later were scheduled before. -/
theorem WayStep.schedule_subset (h : WayStep plugins w e w')
    (hreg : ∀ p ∈ w.state.place.schedule, p ∈ plugins) (hlive : ¬ w'.state.Ended) {p : String}
    (hp : p ∈ w'.state.place.schedule) : p ∈ w.state.place.schedule := by
  rcases h.plan hreg with hend | ⟨-, popped, hhands⟩ | ⟨failed, -, hsched, -⟩
  · exact absurd hend hlive
  · rw [hhands.schedule]
    exact List.mem_append_left popped hp
  · rw [hsched] at hp
    exact (List.mem_filter.mp hp).1

/-- Nothing comes to the plan, and nothing that is requested leaves it unless a plugin is unscheduled
that was not handled before. -/
theorem WayStep.mem_plan (h : WayStep plugins w e w')
    (hreg : ∀ p ∈ w.state.place.schedule, p ∈ plugins) (hlive : ¬ w'.state.Ended) :
    (∀ p ∈ w'.plan, p ∈ w.plan) ∧ ∀ requested,
      UnschedulesHandledOf plugins requested w e ↔ ∀ p ∈ w.plan, requested p → p ∈ w'.plan := by
  unfold Way.plan
  rcases h.plan hreg with hend | ⟨hmeets, popped, hhands⟩ | ⟨failed, hhandled, hsched, hiff⟩
  · exact absurd hend hlive
  · rw [hhands.schedule, hhands.handled, List.append_assoc]
    exact ⟨fun _ hp => hp, fun requested => iff_of_true (hmeets requested) fun _ hp _ => hp⟩
  · rw [hhandled, hsched]
    constructor
    · intro p hp
      rcases List.mem_append.mp hp with hp | hp
      · exact List.mem_append_left _ (List.mem_filter.mp hp).1
      · exact List.mem_append_right _ hp
    · intro requested
      rw [hiff requested]
      constructor
      · intro hall p hp hreq
        rcases List.mem_append.mp hp with hp | hp
        · rcases Decidable.em (plugins.DependsOn p failed) with hd | hd
          · exact List.mem_append_right _ (hall p hp hreq hd)
          · exact List.mem_append_left _ (List.mem_filter.mpr ⟨hp, by simp [hd]⟩)
        · exact List.mem_append_right _ hp
      · intro hall p hp hreq hd
        rcases List.mem_append.mp (hall p (List.mem_append_left _ hp) hreq) with hmem | hmem
        · simp [hd] at hmem
        · exact hmem

/-- The order of the plan stays as it is. -/
theorem WayStep.plan_order (h : WayStep plugins w e w')
    (hreg : ∀ p ∈ w.state.place.schedule, p ∈ plugins) (hlive : ¬ w'.state.Ended)
    (hmeets : UnschedulesHandled plugins w e) :
    DependenciesBehind plugins.DependsOn w'.plan ↔ DependenciesBehind plugins.DependsOn w.plan := by
  unfold Way.plan
  rcases h.plan hreg with hend | ⟨-, popped, hhands⟩ | ⟨failed, hhandled, hsched, hiff⟩
  · exact absurd hend hlive
  · rw [hhands.schedule, hhands.handled, List.append_assoc]
  · rw [hhandled, hsched]
    rw [unschedulesHandled_eq] at hmeets
    exact DependenciesBehind.filter_append_iff fun p hp hno =>
      (hiff _).mp hmeets p hp trivial (by simpa using hno)

/-! ## 5. Whole ways -/

theorem not_ended_of_run (h : Run (WayStep plugins) w events w') (hlive : ¬ w'.state.Ended) :
    ¬ w.state.Ended := by
  induction h with
  | nil => exact hlive
  | cons hst _ ih => exact fun hend => ih hlive (hst.ended hend)

/-- What a way that does not end early does to its plan. -/
structure PlanKept (plugins : PluginTable) (w : Way) (events : List WayEvent) (w' : Way) : Prop where
  subset : ∀ p ∈ w'.plan, p ∈ w.plan
  steps : ∀ requested,
    Run (Restrict (UnschedulesHandledOf plugins requested) (WayStep plugins)) w events w' ↔
      ∀ p ∈ w.plan, requested p → p ∈ w'.plan
  order : (∀ p ∈ w.plan, p ∈ w'.plan) →
    (DependenciesBehind plugins.DependsOn w'.plan ↔ DependenciesBehind plugins.DependsOn w.plan)

theorem planKept_of_run (h : Run (WayStep plugins) w events w') (hlive : ¬ w'.state.Ended)
    (hreg : ∀ p ∈ w.state.place.schedule, p ∈ plugins) : PlanKept plugins w events w' := by
  induction h with
  | nil w =>
    exact ⟨fun _ hp => hp, fun _ => iff_of_true (.nil w) fun _ hp _ => hp, fun _ => Iff.rfl⟩
  | @cons w w1 w' e events hst htl ih =>
    have hlive1 := not_ended_of_run htl hlive
    have ih := ih hlive fun p hp => hreg p (hst.schedule_subset hreg hlive1 hp)
    obtain ⟨hsub, hkept⟩ := hst.mem_plan hreg hlive1
    -- a plugin that the first step loses does not come back
    have hfirst : ∀ requested, (∀ p ∈ w.plan, requested p → p ∈ w'.plan) →
        UnschedulesHandledOf plugins requested w e := fun requested hall =>
      (hkept requested).mpr fun p hp hreq => ih.subset p (hall p hp hreq)
    refine ⟨fun p hp => hsub p (ih.subset p hp), fun requested => ⟨fun hrun => ?_, fun hall => ?_⟩,
      fun hall => ?_⟩
    · cases hrun with
      | @cons _ w2 _ _ _ hmeets hrun =>
        obtain rfl := hst.deterministic hmeets.2
        intro p hp hreq
        exact (ih.steps requested).mp hrun p ((hkept requested).mp hmeets.1 p hp hreq) hreq
    · exact .cons ⟨hfirst requested hall, hst⟩
        ((ih.steps requested).mpr fun p hp hreq => hall p (hsub p hp) hreq)
    · refine (ih.order fun p hp => hall p (hsub p hp)).trans (hst.plan_order hreg hlive1 ?_)
      rw [unschedulesHandled_eq]
      exact hfirst _ fun p hp _ => hall p hp

/-- The plan at the start is the schedule, and at the end what was handled. -/
theorem plan_start (s : AnalysisState) (fo : FileObject) :
    (Way.start s fo).plan = fo.scheduledAnalysis := by
  unfold Way.plan Way.start
  rw [schedule_checkedPlace, List.append_nil]

theorem plan_completed (h : w.state.place = .completed fo) : w.plan = w.handled := by
  unfold Way.plan
  rw [h]
  rfl

/-- Which lists are worked off in dependency order: those that are in dependency order, if no
failure unschedules a plugin that was not handled before. -/
theorem dependenciesFirst_iff_of_list {requested : String → Prop} {fo' : FileObject}
    (h : Run (WayStep plugins) (Way.start s fo) events w) (hdone : w.state.place = .completed fo')
    (hreg : ∀ p ∈ fo.scheduledAnalysis, p ∈ plugins)
    (hreq : ∀ p ∈ fo.scheduledAnalysis, requested p) :
    DependenciesFirst plugins requested w ↔
      (DependenciesBehind plugins.DependsOn fo.scheduledAnalysis ∧
        ∀ p, requested p → p ∈ fo.scheduledAnalysis) ∧
      Run (Restrict (UnschedulesHandled plugins) (WayStep plugins)) (Way.start s fo) events w := by
  have hlive : ¬ w.state.Ended := not_ended_of_completed hdone
  have hkept := planKept_of_run h hlive (by
    show ∀ p ∈ (checkedPlace fo).schedule, p ∈ plugins
    rwa [schedule_checkedPlace])
  obtain ⟨hsub, hsteps, horder⟩ := hkept
  rw [unschedulesHandled_eq, hsteps]
  rw [plan_start, plan_completed hdone] at hsub horder ⊢
  simp only [forall_const]
  constructor
  · intro hfirst
    have hall : ∀ p ∈ fo.scheduledAnalysis, p ∈ w.handled :=
      fun p hp => (hfirst.handled p).mpr (hreq p hp)
    refine ⟨⟨(horder hall).mp (dependenciesBehind_iff.mpr hfirst.order), fun p hp => ?_⟩, hall⟩
    exact hsub p ((hfirst.handled p).mpr hp)
  · rintro ⟨⟨hbehind, hfull⟩, hall⟩
    exact ⟨dependenciesBehind_iff.mp ((horder hall).mpr hbehind),
      fun p => ⟨fun hp => hreq p (hsub p hp), fun hp => hall p (hfull p hp)⟩⟩

theorem schedule_of_ended (h : s.Ended) : s.place.schedule = [] := by
  unfold AnalysisState.Ended at h
  split at h
  · next fo hplace => rw [hplace]; rfl
  · next e hplace => rw [hplace]; rfl
  · exact absurd h id

/-- What a step has handed over stands at the end of the plan before it. -/
theorem WayStep.handled_suffix (h : WayStep plugins w e w') :
    ∃ front, w.plan = front ++ w'.handled := by
  cases h with
  | others => exact ⟨_, rfl⟩
  | @step env henv =>
    unfold Way.plan
    cases hhanded : handedPlugin env w.state with
    | none => exact ⟨_, rfl⟩
    | some name =>
      unfold handedPlugin at hhanded
      split at hhanded
      · next fo hplace =>
        split at hhanded
        · obtain ⟨rest, hrest⟩ :=
            List.getLast?_eq_some_iff.mp (Option.filter_eq_some_iff.mp hhanded).1
          refine ⟨rest, ?_⟩
          rw [hplace]
          show fo.scheduledAnalysis ++ w.handled = rest ++ ([name] ++ w.handled)
          rw [hrest, List.append_assoc]
        · cases hhanded
      · cases hhanded

/-- A list in dependency order is worked off in this order, whether or not the way gets to its
end. -/
theorem handledInOrder_of_run
    (h : Run (Restrict (UnschedulesHandled plugins) (WayStep plugins)) w events w')
    (hreg : ∀ p ∈ w.state.place.schedule, p ∈ plugins)
    (horder : DependenciesBehind plugins.DependsOn w.plan) : HandledInOrder plugins w' := by
  have hinv : DependenciesBehind plugins.DependsOn w'.handled ∧ (¬ w'.state.Ended →
      DependenciesBehind plugins.DependsOn w'.plan ∧ ∀ p ∈ w'.state.place.schedule, p ∈ plugins) := by
    refine h.invariant (I := fun w => DependenciesBehind plugins.DependsOn w.handled ∧
      (¬ w.state.Ended → DependenciesBehind plugins.DependsOn w.plan ∧
        ∀ p ∈ w.state.place.schedule, p ∈ plugins)) (fun w1 e w2 hw hst => ?_)
      ⟨horder.of_append, fun _ => ⟨horder, hreg⟩⟩
    obtain ⟨hmeets, hst⟩ := hst
    obtain ⟨front, hfront⟩ := hst.handled_suffix
    have hplan : DependenciesBehind plugins.DependsOn w1.plan := by
      rcases Classical.em w1.state.Ended with hend | hlive
      · unfold Way.plan
        rw [schedule_of_ended hend]
        exact hw.1
      · exact (hw.2 hlive).1
    refine ⟨(hfront ▸ hplan).of_append, fun hlive2 => ?_⟩
    have hreg1 := (hw.2 fun hend => hlive2 (hst.ended hend)).2
    exact ⟨(hst.plan_order hreg1 hlive2 hmeets).mpr hplan,
      fun p hp => hreg1 p (hst.schedule_subset hreg1 hlive2 hp)⟩
  exact dependenciesBehind_iff.mp hinv.1

end Ways

end FactCore
