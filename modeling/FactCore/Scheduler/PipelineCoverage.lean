import FactCore.Scheduler.PipelineWays

/-!
# What an analysis that is complete has covered

Plugins may fail. `reschedule_failed_analysis_task` then takes the plugins that depend
on the failed one out of the schedule of the object, and the object goes on without
them. So the plugins that an object was handed to when it is complete are not always
those that were scheduled for it.

Results:
1. `WayStep.covers`: what a step of an object does to its schedule and to the plugins it
   was handed to.
2. `covers_of_run`: a plugin that is no longer planned depends on one that has failed.
3. `pipeline_covers`: every scheduled plugin had its turn once, or one of its own
   dependencies was run and has failed.
-/

namespace FactCore

open Backlog

/-! ## 1. The plugin that has an object -/

/-- The plugin that has the object was handed it, and only this plugin can have failed on it. `Fails`
holds of the plugins whose failure has been seen. -/
def Place.Attended (Fails : String → Prop) (handled : List String) : Place → Prop
  | .processQueue fo => fo.analysisException = none
  | .inQueue name fo => name ∈ handled ∧ fo.analysisException = none
  | .outQueue name fo => name ∈ handled ∧ ∀ failed cause,
      fo.analysisException = some (failed, cause) →
        failed = name ∧ name ∈ fo.processedAnalysis ∧ Fails name
  | .completed _ | .dropped _ | .crashed _ => True

/-- What is left of a plan, and what has become of the rest. -/
structure Covers (plugins : PluginTable) (Fails : String → Prop) (plan : List String) (w : Way) :
    Prop where
  sublist : w.plan.Sublist plan
  covered : ∀ q ∈ plan, q ∈ w.plan ∨ ∃ failed ∈ w.handled, Fails failed ∧ plugins.DependsOn q failed
  registered : ∀ q ∈ w.state.place.schedule, q ∈ plugins
  attended : w.state.place.Attended Fails w.handled

/-- The run of the plugin gives no result. -/
def AnalysisEnv.Fails (env : AnalysisEnv) (name : String) : Prop :=
  ∀ result, env.outcome name ≠ .success result

section Steps
variable {plugins : PluginTable} {env : AnalysisEnv} {s : AnalysisState} {fo fo' : FileObject}
  {w w' : Way} {e : WayEvent} {handled plan : List String} {name : String}
  {Fails Fails' : String → Prop}

theorem Place.Attended.mono {place : Place} (h : place.Attended Fails handled)
    (hfails : ∀ q, Fails q → Fails' q) : place.Attended Fails' handled := by
  cases place with
  | processQueue fo | inQueue name fo => exact h
  | outQueue name fo =>
    refine ⟨h.1, fun failed cause hexc => ?_⟩
    obtain ⟨hsame, hmem, hfailed⟩ := h.2 failed cause hexc
    exact ⟨hsame, hmem, hfails name hfailed⟩
  | completed fo | dropped fo | crashed e => trivial

theorem Covers.mono (h : Covers plugins Fails plan w) (hfails : ∀ q, Fails q → Fails' q) :
    Covers plugins Fails' plan w where
  sublist := h.sublist
  covered q hq := (h.covered q hq).imp_right fun ⟨failed, hmem, hfailed, hdep⟩ =>
    ⟨failed, hmem, hfails failed hfailed, hdep⟩
  registered := h.registered
  attended := h.attended.mono hfails

theorem attended_checkedPlace (h : fo.analysisException = none) :
    (checkedPlace fo).Attended Fails handled := by
  unfold checkedPlace
  split
  · trivial
  · exact h

theorem attended_addJob (plugin : Plugin) (hname : name ∈ handled)
    (h : fo.analysisException = none) : (addJob plugin name fo).Attended Fails handled := by
  have hnone : ∀ failed cause, fo.analysisException = some (failed, cause) →
      failed = name ∧ name ∈ fo.processedAnalysis ∧ Fails name := by
    intro failed cause hexc
    cases h.symm.trans hexc
  unfold addJob
  split
  · exact ⟨hname, hnone⟩
  · split
    · exact ⟨hname, h⟩
    · exact ⟨hname, hnone⟩

theorem attended_runPlugin (env : AnalysisEnv) (now : Rat) (plugin : Plugin)
    (hname : name ∈ handled) (h : fo.analysisException = none)
    (hfails : env.Fails name → Fails name) :
    (Place.outQueue name (runPlugin env now plugin name fo)).Attended Fails handled := by
  refine ⟨hname, fun failed cause hexc => ?_⟩
  unfold AnalysisEnv.Fails at hfails
  unfold runPlugin at hexc ⊢
  cases houtcome : env.outcome name with
  | success result =>
    simp only [houtcome] at hexc
    cases h.symm.trans hexc
  | exception | timeout =>
    simp only [houtcome, handleFailedAnalysis] at hexc ⊢
    obtain ⟨rfl, -⟩ := Prod.mk.inj (Option.some.inj hexc)
    refine ⟨rfl, Dict.mem_set.mpr (.inl rfl), hfails fun result hresult => ?_⟩
    cases houtcome.symm.trans hresult

theorem rescheduleFailedAnalysisTask_exception {now : Rat}
    (h : rescheduleFailedAnalysisTask plugins now fo = .ok fo') : fo'.analysisException = none := by
  unfold rescheduleFailedAnalysisTask at h
  split at h
  · cases h
  · obtain ⟨result, -, h⟩ := except_bind_eq_ok h
    obtain ⟨fo1, -, h⟩ := except_bind_eq_ok h
    cases h
    rfl

/-! ## 2. One step -/

/-- A plugin is handed over: the plan stays as it is. -/
theorem Covers.handsOver {popped : List String} (h : Covers plugins Fails plan w)
    (hhands : HandsOver w w' popped) (hattended : w'.state.place.Attended Fails w'.handled) :
    Covers plugins Fails plan w' := by
  have hplan : w'.plan = w.plan := by
    rw [Way.plan, Way.plan, hhands.handled, hhands.schedule, List.append_assoc]
  refine ⟨by rw [hplan]; exact h.sublist, fun q hq => ?_, fun q hq => h.registered q ?_, hattended⟩
  · rw [hplan]
    refine (h.covered q hq).imp_right ?_
    rintro ⟨failed, hmem, hfailed⟩
    refine ⟨failed, ?_, hfailed⟩
    rw [hhands.handled]
    exact List.mem_append_right _ hmem
  · rw [hhands.schedule]
    exact List.mem_append_left _ hq

/-- A plugin has failed: what depends on it leaves the plan. -/
theorem Covers.unscheduled {failed : String} (h : Covers plugins Fails plan w)
    (hmem : failed ∈ w.handled) (hfailed : Fails failed) (hhandled : w'.handled = w.handled)
    (hschedule : w'.state.place.schedule =
      w.state.place.schedule.filter fun q => !decide (plugins.DependsOn q failed))
    (hattended : w'.state.place.Attended Fails w'.handled) : Covers plugins Fails plan w' := by
  refine ⟨?_, fun q hq => ?_, fun q hq => h.registered q ?_, hattended⟩
  · refine List.Sublist.trans ?_ h.sublist
    rw [Way.plan, Way.plan, hhandled, hschedule]
    exact List.filter_sublist.append_right _
  · rw [Way.plan, hhandled, hschedule]
    rcases h.covered q hq with hplanned | hgone
    · rcases List.mem_append.mp hplanned with hplanned | hplanned
      · rcases Decidable.em (plugins.DependsOn q failed) with hdep | hdep
        · exact .inr ⟨failed, hmem, hfailed, hdep⟩
        · exact .inl (List.mem_append_left _ (List.mem_filter.mpr ⟨hplanned, by simp [hdep]⟩))
      · exact .inl (List.mem_append_right _ hplanned)
    · exact .inr hgone
  · rw [hschedule] at hq
    exact (List.mem_filter.mp hq).1

/-- Every step keeps track of the plan, unless it ends the way before the analysis is complete. -/
theorem WayStep.covers (h : WayStep plugins w e w') (hw : Covers plugins Fails plan w)
    (hfails : ∀ env name fo, e = .step env → w.state.place = .inQueue name fo → env.Fails name →
      Fails name) : w'.state.Ended ∨ Covers plugins Fails plan w' := by
  cases h with
  | others => exact .inr ⟨hw.sublist, hw.covered, hw.registered, hw.attended⟩
  | @step env henv =>
    subst henv
    obtain ⟨s, handled⟩ := w
    have hpops : ∀ {fo rest name db}, Pops env s fo rest name db →
        name ∈ env.plugins ∧ fo.analysisException = none := by
      intro fo rest name db hpop
      refine ⟨hw.registered name ?_, ?_⟩
      · rw [hpop.place]
        show name ∈ fo.scheduledAnalysis
        rw [hpop.schedule]
        exact List.mem_append_right rest (List.mem_singleton_self name)
      · have hattended := hw.attended
        rw [hpop.place] at hattended
        exact hattended
    have hattended := hw.attended
    cases analysisStep_move env s with
    | ended hend => exact .inl hend
    | @rests fo hplace hsame =>
      have hhands : HandsOver ⟨s, handled⟩ _ [] := HandsOver.of_place env
        (fun fo' hq => by cases hplace.symm.trans hq) (congrArg (·.place.schedule) hsame)
      refine .inr (hw.handsOver hhands ?_)
      rw [hsame, hplace]
      trivial
    | @waits name fo hplace hname hsame hdb =>
      have hhands : HandsOver ⟨s, handled⟩ _ [] := HandsOver.of_place env
        (fun fo' hq => by cases hplace.symm.trans hq) (congrArg Place.schedule hsame)
      refine .inr (hw.handsOver hhands ?_)
      rw [hhands.handled, hsame]
      exact hattended
    | unknown hpop hname => exact absurd (hpops hpop).1 hname
    | @upToDate fo fo' rest name db hpop hname hcheck hfo' hdb hplace =>
      obtain ⟨hreg, hnone⟩ := hpops hpop
      refine .inr (hw.handsOver (.of_pops hpop hreg ?_) ?_)
      · rw [hplace, schedule_checkedPlace]
        rcases hfo' with rfl | rfl <;> rfl
      · rw [hplace]
        refine attended_checkedPlace ?_
        rcases hfo' with rfl | rfl <;> exact hnone
    | @skipped fo fo' rest name plugin db db' hpop hplugin hcheck hlist hadd hdb hplace =>
      obtain ⟨hreg, hnone⟩ := hpops hpop
      refine .inr (hw.handsOver (.of_pops hpop hreg ?_) ?_)
      · rw [hplace, schedule_checkedPlace, blacklistCheck_others hlist]
      · rw [hplace, blacklistCheck_others hlist]
        exact attended_checkedPlace hnone
    | @started fo fo' rest name plugin db binary hpop hplugin hcheck hlist hdb hplace =>
      obtain ⟨hreg, hnone⟩ := hpops hpop
      have hhands : HandsOver ⟨s, handled⟩ ⟨analysisStep env s, _⟩ [name] := .of_pops hpop hreg (by
        rw [hplace, schedule_addJob, blacklistCheck_others hlist])
      refine .inr (hw.handsOver hhands ?_)
      rw [hhands.handled, hplace, blacklistCheck_others hlist]
      exact attended_addJob plugin List.mem_cons_self hnone
    | @ran name plugin fo hplace hplugin hdb hplace' =>
      have hhands : HandsOver ⟨s, handled⟩ ⟨analysisStep env s, _⟩ [] := HandsOver.of_place env
        (fun fo' hq => by cases hplace.symm.trans hq) (by
          rw [hplace', hplace]
          exact schedule_runPlugin env _ plugin name fo)
      rw [hplace] at hattended
      refine .inr (hw.handsOver hhands ?_)
      rw [hhands.handled, hplace']
      exact attended_runPlugin env _ plugin hattended.1 hattended.2 (hfails env name fo rfl hplace)
    | @notRun name fo hplace hno hdb hplace' =>
      have hhands : HandsOver ⟨s, handled⟩ ⟨analysisStep env s, _⟩ [] := HandsOver.of_place env
        (fun fo' hq => by cases hplace.symm.trans hq) (by
          rw [hplace', hplace, schedule_checkedPlace]
          rfl)
      rw [hplace] at hattended
      refine .inr (hw.handsOver hhands ?_)
      rw [hplace']
      refine attended_checkedPlace ?_
      cases hexc : fo.analysisException with
      | none => rfl
      | some failure => exact absurd (hattended.2 failure.1 failure.2 hexc).2.1 hno
    | @collected name fo result db hplace hresult hexc hadd hdb hplace' =>
      have hhands : HandsOver ⟨s, handled⟩ ⟨analysisStep env s, _⟩ [] := HandsOver.of_place env
        (fun fo' hq => by cases hplace.symm.trans hq) (by
          rw [hplace', hplace, schedule_checkedPlace]
          rfl)
      refine .inr (hw.handsOver hhands ?_)
      rw [hplace']
      exact attended_checkedPlace hexc
    | @failed name fo fo' db hplace hmem hne hre hadd hdb hplace' =>
      obtain ⟨failed, cause, hexc, hsched⟩ := rescheduleFailedAnalysisTask_schedule hre
      rw [hplace] at hattended
      obtain ⟨rfl, -, hfailed⟩ := hattended.2 failed cause hexc
      refine .inr (hw.unscheduled hattended.1 hfailed ?_ ?_ ?_)
      · rw [handedPlugin_of_place fun fo' hq => by cases hplace.symm.trans hq]
        rfl
      · rw [hplace', schedule_checkedPlace, hsched, hplace]
        rfl
      · rw [hplace']
        exact attended_checkedPlace (rescheduleFailedAnalysisTask_exception hre)

end Steps

/-! ## 3. The pipeline -/

/-- In the run of the events from `p`, a worker of the plugin has the object, and the plugin raises
an exception or takes too long. -/
def FailsOn (cfg : PipelineConfig) (p : Pipeline) (events : List (PipelineAction × World)) (k : Nat)
    (plugin : String) : Prop :=
  ∃ before a w after p1, events = before ++ (a, w) :: after ∧ Run (PipelineStep cfg) p before p1 ∧
    p1.Finishes a k plugin ∧ w.env.Fails plugin

/-- What is no longer planned for an object depends on a plugin that has failed on it. -/
theorem covers_of_run {cfg : PipelineConfig} {p p' : Pipeline} {k : Nat} {way : Way}
    {events : List (PipelineAction × World)} {Fails : String → Prop} {plan : List String}
    (h : Run (PipelineStep cfg) p events p') (hway : OnItsWay p k way)
    (htickets : p.tickets = Multiset.range p.nextTicket)
    (hcovers : way.state.Ended ∨ Covers cfg.plugins Fails plan way) :
    ∃ way', OnItsWay p' k way' ∧ (way'.state.Ended ∨
      Covers cfg.plugins (fun q => Fails q ∨ FailsOn cfg p events k q) plan way') := by
  induction h generalizing way Fails with
  | nil => exact ⟨way, hway, hcovers.imp_right fun h => h.mono fun q hq => .inl hq⟩
  | @cons p p1 p' e events hstep _ ih =>
    obtain ⟨a, w⟩ := e
    obtain ⟨e', way1, hwayStep, hway1, hfinishes⟩ :=
      hway.step (htickets ▸ Multiset.nodup_range _) hstep
    let Fails1 : String → Prop := fun q => Fails q ∨ (p.Finishes a k q ∧ w.env.Fails q)
    have hcovers1 : way1.state.Ended ∨ Covers cfg.plugins Fails1 plan way1 := by
      rcases hcovers with hend | hcovers
      · exact .inl (hwayStep.ended hend)
      · refine hwayStep.covers (hcovers.mono fun q hq => .inl hq) fun env name fo heq hplace hfails => ?_
        obtain ⟨houtcome, hactive⟩ := hfinishes env heq
        refine .inr ⟨hactive name fo hplace, fun result => ?_⟩
        rw [← houtcome]
        exact hfails result
    obtain ⟨way', hway', hcovers'⟩ := ih hway1 (hstep.tickets_range htickets) hcovers1
    refine ⟨way', hway', hcovers'.imp_right fun h => h.mono fun q hq => ?_⟩
    rcases hq with (hq | ⟨hdone, hfails⟩) | ⟨before, a', w', after, p2, rfl, hrun, hdone, hfails⟩
    · exact .inl hq
    · exact .inr ⟨[], a, w, events, p, rfl, .nil p, hdone, hfails⟩
    · exact .inr ⟨(a, w) :: before, a', w', after, p2, rfl, .cons hstep hrun, hdone, hfails⟩

/-- An object is at one place. -/
theorem at_unique {p : Pipeline} {k : Nat} {place place' : Place}
    (htickets : p.tickets = Multiset.range p.nextTicket) (h : p.At k place) (h' : p.At k place') :
    place = place' := by
  have hnodup : (p.whereabouts.map Prod.fst).Nodup := by
    rw [whereabouts_tickets, htickets]
    exact Multiset.nodup_range _
  have heq := Multiset.inj_on_of_nodup_map hnodup _ h _ h' rfl
  exact Option.some.inj (Prod.mk.inj heq).2

/-- Plugins may fail, and anything else may be under way. An object that is complete was handed to
the plugins of its schedule in their order and to none of them twice, and to all of them but those
of which a dependency was run and has failed. -/
theorem pipeline_covers {cfg : PipelineConfig} {p0 p p' : Pipeline} {k : Nat} {fo fo' : FileObject}
    {before events : List (PipelineAction × World)} (hfresh : p0.Fresh)
    (hbefore : Run (PipelineStep cfg) p0 before p) (hat : p.At k (.processQueue fo))
    (hfirst : p.handedTo k = []) (hnone : fo.analysisException = none)
    (hnodup : fo.scheduledAnalysis.Nodup) (hreg : ∀ q ∈ fo.scheduledAnalysis, q ∈ cfg.plugins)
    (h : Run (PipelineStep cfg) p events p') (hdone : p'.At k (.completed fo')) :
    (p'.handedTo k).Nodup ∧ (p'.handedTo k).Sublist fo.scheduledAnalysis ∧
      ∀ q ∈ fo.scheduledAnalysis, q ∈ p'.handedTo k ∨ ∃ failed ∈ p'.handedTo k,
        FailsOn cfg p events k failed ∧ cfg.plugins.DependsOn q failed := by
  have htickets := tickets_of_run hbefore hfresh.tickets
  have hstart : OnItsWay p k ⟨p.view (.processQueue fo), p.handedTo k⟩ :=
    ⟨⟨rfl, rfl, rfl, rfl⟩, hat, rfl⟩
  have hcovers : Covers cfg.plugins (fun _ => False) fo.scheduledAnalysis
      ⟨p.view (.processQueue fo), p.handedTo k⟩ := by
    have hplan : (⟨p.view (.processQueue fo), p.handedTo k⟩ : Way).plan = fo.scheduledAnalysis := by
      rw [Way.plan, hfirst, List.append_nil]
      rfl
    exact ⟨by rw [hplan], fun q hq => .inl (by rw [hplan]; exact hq), hreg, hnone⟩
  obtain ⟨way, hway, hcovered⟩ := covers_of_run h hstart htickets (.inr hcovers)
  have hplace : way.state.place = .completed fo' :=
    at_unique (tickets_of_run h htickets) hway.at_place hdone
  rcases hcovered with hend | hcovered
  · unfold AnalysisState.Ended at hend
    rw [hplace] at hend
    exact absurd hend id
  · have hplan : way.plan = way.handled := by
      rw [Way.plan, hplace]
      rfl
    have hsublist := hcovered.sublist
    have hall := hcovered.covered
    rw [hplan] at hsublist hall
    rw [← hway.handled]
    refine ⟨hnodup.sublist hsublist, hsublist, fun q hq => (hall q hq).imp_right ?_⟩
    rintro ⟨failed, hmem, hfailed, hdep⟩
    exact ⟨failed, hmem, hfailed.resolve_left id, hdep⟩

theorem at_of_mem_finished {p : Pipeline} {t : Task} (h : t ∈ p.finished) :
    p.At t.ticket (.completed t.fo) := by
  refine Multiset.mem_add.mpr (.inr (Multiset.mem_coe.mpr ?_))
  exact List.mem_append_left _ (List.mem_append_left _ (List.mem_map_of_mem h))

/-- An image with all plugins, behind another one. -/
def searchedImage : FileObject :=
  { outerImage with
    scheduledAnalysis := ["file_hashes", "string_evaluator", "printable_strings", "file_type"] }

def searchUpdates : List (PipelineAction × World) :=
  [(.update "second" { secondImage with scheduledAnalysis := ["file_type"] }, workerWorld 6 none),
    (.update "outer" searchedImage, workerWorld 5 none)]

def searchedPipeline : Pipeline :=
  { idlePipeline with
    processQueue := [⟨0, "second", { secondImage with scheduledAnalysis := ["file_type"] }, 6⟩,
      ⟨1, "outer", searchedImage, 5⟩]
    nextTicket := 2 }

/-- The world of a worker whose plugin raises an exception. -/
def failingWorld (process : Nat) : World :=
  { workerWorld process none with
    env := { succeeding with outcome := fun _ => .exception } }

/-- `printable_strings` fails on the image, which goes on without `string_evaluator`. -/
def failedSearch : List (PipelineAction × World) :=
  [(.process 1, workerWorld 1 none), (.start "file_type" 0, workerWorld 7 none),
    (.process 0, workerWorld 1 none), (.start "file_type" 0, workerWorld 8 none),
    (.finish "file_type" 0, workerWorld 7 none), (.collect "file_type" 0, workerWorld 2 none),
    (.process 0, workerWorld 1 none), (.start "printable_strings" 0, workerWorld 9 none),
    (.finish "printable_strings" 0, failingWorld 9),
    (.collect "printable_strings" 0, workerWorld 2 none), (.process 0, workerWorld 1 none),
    (.start "file_hashes" 0, workerWorld 10 none), (.finish "file_hashes" 0, workerWorld 10 none),
    (.collect "file_hashes" 0, workerWorld 2 none)]

theorem failed_search_covered : ∃ p', Run (PipelineStep routerConfig) searchedPipeline failedSearch p' ∧
    p'.handedTo 1 = ["file_hashes", "printable_strings", "file_type"] ∧
    (p'.handedTo 1).Nodup ∧ (p'.handedTo 1).Sublist searchedImage.scheduledAnalysis ∧
      ∀ q ∈ searchedImage.scheduledAnalysis, q ∈ p'.handedTo 1 ∨ ∃ failed ∈ p'.handedTo 1,
        FailsOn routerConfig searchedPipeline failedSearch 1 failed ∧
          examplePlugins.DependsOn q failed := by
  have hbefore : Run (PipelineStep routerConfig) idlePipeline searchUpdates searchedPipeline :=
    .cons (.update rfl rfl) (.cons (.update rfl rfl) (.nil _))
  have hat : searchedPipeline.At 1 (.processQueue searchedImage) := by
    have hsecond : searchedPipeline.processQueue[1]? = some ⟨1, "outer", searchedImage, 5⟩ := rfl
    rw [Pipeline.At, whereabouts_of_live (live_processQueue hsecond) rfl]
    exact Multiset.mem_cons_self _ _
  obtain ⟨p', hrun, hhanded, hfinished⟩ : ∃ p', Run (PipelineStep routerConfig) searchedPipeline
      failedSearch p' ∧ p'.handedTo 1 = ["file_hashes", "printable_strings", "file_type"] ∧
        p'.finished.map Task.ticket = [1] :=
    ⟨_, .cons (.process rfl rfl ⟨rfl, by decide⟩ rfl) <|
      .cons (.start (by decide) receives_head (by decide)) <|
      .cons (.process rfl rfl receives_head rfl) <|
      .cons (.start (by decide) receives_head (by decide)) <|
      .cons (.finish rfl (by decide) rfl) <|
      .cons (.collect rfl (by decide) rfl receives_head rfl) <|
      .cons (.process rfl rfl receives_head rfl) <|
      .cons (.start (by decide) receives_head (by decide)) <|
      .cons (.finish rfl (by decide) rfl) <|
      .cons (.collect rfl (by decide) rfl receives_head rfl) <|
      .cons (.process rfl rfl receives_head rfl) <|
      .cons (.start (by decide) receives_head (by decide)) <|
      .cons (.finish rfl (by decide) rfl) <|
      .cons (.collect rfl (by decide) rfl receives_head rfl) <| .nil _, rfl, rfl⟩
  obtain ⟨t, ht, hticket⟩ := List.mem_map.mp (hfinished ▸ List.mem_singleton_self 1)
  have hdone := at_of_mem_finished ht
  rw [hticket] at hdone
  exact ⟨p', hrun, hhanded, pipeline_covers fresh_idlePipeline hbefore hat rfl rfl (by decide)
    (by decide) hrun hdone⟩

end FactCore
