import FactCore.Scheduler.Pipeline

/-!
# The pipeline gets everything done

The extracted files of an archive wait in the hands of a worker while the load monitor
holds it back, and such a worker takes nothing from the unpacking queue. The pipeline
still cannot stop for good: the workload that the monitor measures is that of the
analysis alone, and the analysis never waits for the unpacking.

This needs a limit above zero, since the workload is compared with `<`.

Results:
1. `PipelineStep.ready`: what every state of the backend has in common.
2. `exists_work`: some process can go on, or the monitor lifts the throttle.
3. `pipeline_drains`: from every state that can be reached, the processes get
   everything done by themselves, unless an exception ends one of them.
-/

namespace FactCore

open DependencyOrder Backlog

/-! ## 1. What all states have in common -/

/-- A configuration with which the backend can work. -/
structure PipelineConfig.Sound (cfg : PipelineConfig) : Prop where
  closed : ∀ p d, cfg.plugins.DependsOn p d → d ∈ cfg.plugins
  mandatory : ∀ p ∈ mandatoryPlugins, p ∈ cfg.plugins
  threads : ∀ p ∈ cfg.plugins, 0 < cfg.threadCount p
  limit : 0 < cfg.unpackThrottleLimit

/-- There is a worker to unpack, and only registered plugins have something to do. -/
structure Pipeline.Ready (cfg : PipelineConfig) (p : Pipeline) : Prop where
  workers : p.unpackWorkers ≠ []
  lanes : ∀ name, name ∉ cfg.plugins → p.lane name = Lane.empty

/-- The plugin in whose lane the place is. -/
def Place.plugin? : Place → Option String
  | .inQueue name _ | .outQueue name _ => some name
  | .processQueue _ | .completed _ | .dropped _ | .crashed _ => none

section Ready
variable {cfg : PipelineConfig} {p p' : Pipeline} {env : AnalysisEnv} {s : AnalysisState} {t : Task}
  {place : Place} {name : String} {a : PipelineAction} {w : World}

theorem Pipeline.lane_setLane (p : Pipeline) (name other : String) (lane : Lane) :
    (p.setLane name lane).lane other = if other = name then lane else p.lane other := by
  unfold Pipeline.lane Pipeline.setLane Dict.getD
  rw [Dict.get?_set]
  split <;> rfl

theorem plugin?_checkedPlace (fo : FileObject) : (checkedPlace fo).plugin? = none := by
  unfold checkedPlace
  split <;> rfl

theorem plugin?_addJob (plugin : Plugin) (name : String) (fo : FileObject) :
    (addJob plugin name fo).plugin? = some name := by
  unfold addJob
  split
  · rfl
  · split <;> rfl

theorem plugin?_of_ended (h : s.Ended) : s.place.plugin? = none := by
  unfold AnalysisState.Ended at h
  split at h
  · next fo hplace => rw [hplace]; rfl
  · next e hplace => rw [hplace]; rfl
  · exact absurd h id

/-- An object gets into the lane of a registered plugin only. -/
theorem plugin?_analysisStep (hplace : ∀ name, s.place.plugin? = some name → name ∈ env.plugins) :
    ∀ name, (analysisStep env s).place.plugin? = some name → name ∈ env.plugins := by
  intro name hname
  cases analysisStep_move env s with
  | ended hend =>
    rw [plugin?_of_ended hend] at hname
    cases hname
  | rests _ hsame =>
    rw [hsame] at hname
    exact hplace name hname
  | waits _ _ hsame _ =>
    rw [hsame] at hname
    exact hplace name hname
  | unknown _ _ _ h | upToDate _ _ _ _ _ h | skipped _ _ _ _ _ _ h | notRun _ _ _ h
  | collected _ _ _ _ _ h | failed _ _ _ _ _ _ h =>
    rw [h, plugin?_checkedPlace] at hname
    cases hname
  | started _ hplugin _ _ _ h =>
    rw [h, plugin?_addJob] at hname
    obtain rfl := Option.some.inj hname
    exact Dict.mem_of_get? hplugin
  | ran _ hplugin _ h =>
    rw [h] at hname
    obtain rfl := Option.some.inj hname
    exact Dict.mem_of_get? hplugin

theorem Pipeline.Ready.setLane (h : p.Ready cfg) (hname : name ∈ cfg.plugins) (lane : Lane) :
    (p.setLane name lane).Ready cfg where
  workers := h.workers
  lanes other hother := by
    have hne : other ≠ name := by
      rintro rfl
      exact hother hname
    rw [Pipeline.lane_setLane, if_neg hne]
    exact h.lanes other hother

theorem Pipeline.Ready.deliver (h : p.Ready cfg)
    (hplace : ∀ name, place.plugin? = some name → name ∈ cfg.plugins) (t : Task) :
    (p.deliver t place).Ready cfg := by
  cases place with
  | inQueue name fo | outQueue name fo => exact h.setLane (hplace name rfl) _
  | processQueue fo | completed fo | dropped fo | crashed e => exact ⟨h.workers, h.lanes⟩

theorem Pipeline.Ready.advance (h : p.Ready cfg) (hplugins : env.plugins = cfg.plugins)
    (hplace : ∀ name, place.plugin? = some name → name ∈ cfg.plugins) (process : Nat) (t : Task) :
    (p.advance process env t place).Ready cfg := by
  have hstep := @plugin?_analysisStep env (p.view place) fun name hname => by
    rw [hplugins]
    exact hplace name hname
  rw [hplugins] at hstep
  exact Pipeline.Ready.deliver (p := { p.absorb _ with handed := _ }) ⟨h.workers, h.lanes⟩ hstep _

theorem plugin?_checkFurtherProcessOrComplete (env : AnalysisEnv) (s : AnalysisState)
    (fo : FileObject) : (checkFurtherProcessOrComplete env s fo).place.plugin? = none := by
  rw [(checkFurtherProcessOrComplete_spec env s fo).2.1, plugin?_checkedPlace]

theorem plugin?_startAnalysisOfObject {fuel : Nat} {fo : FileObject} {s' : AnalysisState}
    (h : startAnalysisOfObject fuel env s fo = some s') : s'.place.plugin? = none := by
  unfold startAnalysisOfObject at h
  split at h
  · cases h
    rfl
  · obtain ⟨r, -, rfl⟩ := Option.map_eq_some_iff.mp h
    cases r with
    | error e => rfl
    | ok fo' => exact plugin?_checkFurtherProcessOrComplete env _ fo'

/-- Every step keeps what the states have in common. -/
theorem PipelineStep.ready (h : PipelineStep cfg p (a, w) p') (hp : p.Ready cfg) : p'.Ready cfg := by
  have hworkers : ∀ {i : Nat} {l : List Task}, p.unpackWorkers.set i l ≠ [] := by
    intro i l hnil
    have hlength := congrArg List.length hnil
    rw [List.length_set] at hlength
    exact hp.workers (List.length_eq_zero_iff.mp hlength)
  have hnone : ∀ {place : Place}, place.plugin? = none →
      ∀ name, place.plugin? = some name → name ∈ cfg.plugins := by
    intro place hplace name hname
    rw [hplace] at hname
    cases hname
  have hlane : ∀ {place : Place} {name : String}, place.plugin? = some name → name ∈ cfg.plugins →
      ∀ other, place.plugin? = some other → other ∈ cfg.plugins := by
    intro place name hplace hname other hother
    rwa [← Option.some.inj (hplace.symm.trans hother)]
  cases h with
  | addTask | monitor | others => exact ⟨hp.workers, hp.lanes⟩
  | update _ hs =>
    subst hs
    exact Pipeline.Ready.deliver (p := { p.absorb _ with nextTicket := _ }) ⟨hp.workers, hp.lanes⟩
      (hnone (plugin?_checkFurtherProcessOrComplete _ _ _)) _
  | unpack _ _ _ _ hs _ =>
    refine Pipeline.Ready.deliver (p := { p.absorb _ with
      unpackQueue := _, unpackWorkers := _, nextTicket := _ }) ⟨hworkers, hp.lanes⟩
      (hnone (plugin?_startAnalysisOfObject hs)) _
  | @unpackRaises _ _ i t e =>
    exact Pipeline.Ready.deliver (p := { p with unpackQueue := p.unpackQueue.eraseIdx i })
      ⟨hp.workers, hp.lanes⟩ (hnone (rfl : (Place.crashed e).plugin? = none)) t
  | startRaises _ _ _ _ hs _ =>
    exact Pipeline.Ready.deliver (p := { p.absorb _ with unpackQueue := _ }) ⟨hp.workers, hp.lanes⟩
      (hnone (plugin?_startAnalysisOfObject hs)) _
  | schedule => exact ⟨hworkers, hp.lanes⟩
  | @process p1 _ i t hplugins _ _ hadvance =>
    subst hadvance
    have hnext := Pipeline.Ready.advance (p := { p with processQueue := p.processQueue.eraseIdx i })
      ⟨hp.workers, hp.lanes⟩ hplugins (hnone (rfl : (Place.processQueue t.fo).plugin? = none))
      w.process t
    exact ⟨hnext.workers, hnext.lanes⟩
  | start hname => exact hp.setLane hname _
  | @finish _ name _ t hplugins hname =>
    exact (hp.setLane hname _).advance hplugins
      (hlane (rfl : (Place.inQueue name t.fo).plugin? = some name) hname) w.process t
  | @collect p1 _ name i t hplugins hname _ _ hadvance =>
    subst hadvance
    have hnext := (hp.setLane hname
      { p.lane name with outQueue := (p.lane name).outQueue.eraseIdx i }).advance hplugins
        (hlane (rfl : (Place.outQueue name t.fo).plugin? = some name) hname) w.process t
    exact ⟨hnext.workers, hnext.lanes⟩

end Ready

/-! ## 2. There is always something to do -/

/-- The action is possible, whatever the world answers. -/
def Enabled (cfg : PipelineConfig) (p : Pipeline) (a : PipelineAction) : Prop :=
  ∀ w : World, w.env.plugins = cfg.plugins → ∃ p', PipelineStep cfg p (a, w) p'

section Work
variable {cfg : PipelineConfig} {p p' : Pipeline} {name : String}

theorem Lane.eq_empty_of_lists {lane : Lane} (hin : lane.inQueue = []) (hactive : lane.active = [])
    (hout : lane.outQueue = []) : lane = Lane.empty := by
  obtain ⟨inQueue, active, outQueue⟩ := lane
  subst hin hactive hout
  rfl

/-- Nothing is under way if all queues are empty and all workers have nothing in hand. -/
theorem live_eq_zero (hunpack : p.unpackQueue = []) (hworkers : ∀ l ∈ p.unpackWorkers, l = [])
    (hprocess : p.processQueue = []) (hlanes : ∀ name, p.lane name = Lane.empty) : p.live = 0 := by
  have hsum : (p.unpackWorkers.map (atStage .extracted)).sum = 0 := by
    refine List.sum_eq_zero fun x hx => ?_
    obtain ⟨l, hl, rfl⟩ := List.mem_map.mp hx
    rw [hworkers l hl, atStage_nil]
  have htotal : p.lanes.total Lane.items = 0 := by
    refine Dict.total_eq_zero Lane.empty fun k => ?_
    show (p.lane k).items k = 0
    rw [hlanes k, Lane.items_empty]
  rw [Pipeline.live, hunpack, hprocess, hsum, htotal, atStage_nil, atStage_nil]
  rfl

/-- Scheduling comes to an end, with a schedule or with an exception. -/
theorem exists_startAnalysisOfObject (hcfg : cfg.Sound) {env : AnalysisEnv}
    (hplugins : env.plugins = cfg.plugins) (s : AnalysisState) (fo : FileObject) :
    ∃ fuel s', startAnalysisOfObject fuel env s fo = some s' := by
  have hready : (Section.addToCurrent fo).Ready s.status := trivial
  obtain ⟨tables, htables⟩ := (Section.run_ok_iff (env.time s.tick)).mpr hready
  have hclosed := hcfg.closed
  have hmandatory := hcfg.mandatory
  rw [← hplugins] at hclosed hmandatory
  have hscheduled : ∃ fuel r, scheduleAnalysisTasks fuel env.plugins env.shuffle.run fo
      fo.scheduledAnalysis true = some r := by
    rcases Classical.em (∀ p ∈ fo.scheduledAnalysis, p ∈ env.plugins) with hreq | hreq
    · obtain ⟨n, schedule, -, -, hok⟩ := scheduleAnalysisTasks_total hclosed env.shuffle fo true hreq
        fun _ => hmandatory
      exact ⟨n, _, hok n (Nat.le_refl n)⟩
    · obtain ⟨p, hp⟩ := not_forall.mp hreq
      obtain ⟨hmem, hno⟩ := Classical.not_imp.mp hp
      have hlist : p ∈ shuffledList fo.scheduledAnalysis true := mem_shuffledList.mpr (.inl hmem)
      obtain ⟨n, e, herr⟩ := scheduleAnalysisTasks_raises hclosed env.shuffle.run fo hlist hno
      exact ⟨n, _, herr n (Nat.le_refl n)⟩
  obtain ⟨fuel, r, hr⟩ := hscheduled
  refine ⟨fuel, ?_⟩
  simp only [startAnalysisOfObject, htables, hr, Option.map_some]
  exact ⟨_, rfl⟩

/-- A waiting worker can take an object from the unpacking queue. -/
theorem enabled_unpack (hcfg : cfg.Sound) {worker : Nat} {t : Task} {rest : List Task}
    (hidle : p.unpackWorkers[worker]? = some []) (hqueue : p.unpackQueue = t :: rest) :
    Enabled cfg p (.unpack worker 0) := by
  intro w hplugins
  have hfirst : Receives Task.sender p.unpackQueue 0 t := hqueue ▸ receives_head
  cases hout : unpackTask cfg w t with
  | error e => exact ⟨_, .unpackRaises hplugins hidle hfirst hout⟩
  | ok out =>
    obtain ⟨fuel, s, hs⟩ := exists_startAnalysisOfObject hcfg hplugins
      ((p.applyUnpacked out).view (.processQueue out.currentFo)) out.currentFo
    cases hcrash : s.place.isCrashed with
    | false => exact ⟨_, .unpack hplugins hidle hfirst hout hs hcrash⟩
    | true => exact ⟨_, .startRaises hplugins hidle hfirst hout hs hcrash⟩

/-- In a lane with something in it, a worker or the collector can go on. -/
theorem exists_work_in_lane (hcfg : cfg.Sound) (hp : p.Ready cfg) (halive : p.collectorAlive = true)
    (hne : p.lane name ≠ Lane.empty) : ∃ a, a.isWork = true ∧ Enabled cfg p a := by
  have hname : name ∈ cfg.plugins := by
    by_contra hno
    exact hne (hp.lanes name hno)
  have hfinish : (p.lane name).active ≠ [] → ∃ a, a.isWork = true ∧ Enabled cfg p a := by
    intro hactive
    obtain ⟨t, ts, hts⟩ := List.exists_cons_of_ne_nil hactive
    refine ⟨.finish name 0, rfl, fun w hplugins => ⟨_, .finish hplugins hname (t := t) ?_⟩⟩
    rw [hts]
    rfl
  cases hin : (p.lane name).inQueue with
  | cons t rest =>
    rcases Nat.lt_or_ge (p.lane name).active.length (cfg.threadCount name) with hfree | hfull
    · exact ⟨.start name 0, rfl, fun w _ => ⟨_, .start hname (hin ▸ receives_head) hfree⟩⟩
    · -- all workers are busy, and there is at least one
      refine hfinish fun hnil => ?_
      rw [hnil] at hfull
      exact absurd (hcfg.threads name hname) (Nat.not_lt.mpr hfull)
  | nil =>
    rcases Classical.em ((p.lane name).active = []) with hactive | hactive
    · cases hout : (p.lane name).outQueue with
      | nil => exact absurd (Lane.eq_empty_of_lists hin hactive hout) hne
      | cons t rest =>
        exact ⟨.collect name 0, rfl,
          fun w hplugins => ⟨_, .collect hplugins hname halive (hout ▸ receives_head) rfl⟩⟩
    · exact hfinish hactive

/-- All that is under way is in the hands of workers that the load monitor holds back, although the
analysis has nothing to do. -/
structure HeldBack (p : Pipeline) : Prop where
  throttle : p.throttleCondition = true
  workload : p.combinedAnalysisWorkload = 0
  waits : ∃ (worker : Nat) (t : Task) (rest : List Task),
    p.unpackWorkers[worker]? = some (t :: rest)

/-- As long as something is under way, some process can go on, or all that stops the processes is a
measurement that is out of date. -/
theorem exists_work (hcfg : cfg.Sound) (hp : p.Ready cfg) (hrunner : p.runnerAlive = true)
    (hcollector : p.collectorAlive = true) (hlive : p.live ≠ 0) :
    (∃ a, a.isWork = true ∧ Enabled cfg p a) ∨ HeldBack p := by
  cases hprocess : p.processQueue with
  | cons t rest =>
    exact .inl ⟨.process 0, rfl,
      fun w hplugins => ⟨_, .process hplugins hrunner (hprocess ▸ receives_head) rfl⟩⟩
  | nil =>
    rcases Classical.em (∀ name, p.lane name = Lane.empty) with hlanes | hlanes
    · rcases Classical.em (∀ l ∈ p.unpackWorkers, l = []) with hworkers | hworkers
      · -- every worker is waiting, so there is something in the unpacking queue
        obtain ⟨l, ls, hls⟩ := List.exists_cons_of_ne_nil hp.workers
        have hidle : p.unpackWorkers[0]? = some [] := by
          rw [hls, hworkers l (hls ▸ List.mem_cons_self)]
          rfl
        cases hunpack : p.unpackQueue with
        | nil => exact absurd (live_eq_zero hunpack hworkers hprocess hlanes) hlive
        | cons t rest => exact .inl ⟨.unpack 0 0, rfl, enabled_unpack hcfg hidle hunpack⟩
      · obtain ⟨l, hl⟩ := not_forall.mp hworkers
        obtain ⟨hmem, hne⟩ := Classical.not_imp.mp hl
        obtain ⟨worker, hworker⟩ := List.mem_iff_getElem?.mp hmem
        obtain ⟨t, rest, rfl⟩ := List.exists_cons_of_ne_nil hne
        cases hthrottle : p.throttleCondition with
        | false => exact .inl ⟨.schedule worker, rfl, fun w _ => ⟨_, .schedule hthrottle hworker⟩⟩
        | true =>
          refine .inr ⟨hthrottle, ?_, worker, t, rest, hworker⟩
          have hzero : (p.lanes.total fun _ lane => lane.inQueue.length) = 0 :=
            Dict.total_eq_zero Lane.empty fun k => by
              show (p.lane k).inQueue.length = 0
              rw [hlanes k]
              rfl
          rw [Pipeline.combinedAnalysisWorkload, hprocess, hzero]
          rfl
    · obtain ⟨name, hname⟩ := not_forall.mp hlanes
      exact .inl (exists_work_in_lane hcfg hp hcollector hname)

end Work

/-! ## 3. The pipeline drains -/

/-- A step that the processes of the pipeline take by themselves, in the world that `oracle` says. -/
def OwnStep (cfg : PipelineConfig) (oracle : Pipeline → PipelineAction → World) (p : Pipeline)
    (e : PipelineAction × World) (p' : Pipeline) : Prop :=
  (e.1.isWork = true ∨ e.1 = .monitor) ∧ e.2 = oracle p e.1 ∧ PipelineStep cfg p e p'

/-- Nothing is under way any more, or an exception has ended a process of the analysis. -/
def Pipeline.Drained (p : Pipeline) : Prop :=
  p.live = 0 ∨ p.runnerAlive = false ∨ p.collectorAlive = false

section Drains
variable {cfg : PipelineConfig} {p : Pipeline} {oracle : Pipeline → PipelineAction → World}

/-- The work that some process can take up, after a new measurement if need be. -/
theorem exists_own_work (hcfg : cfg.Sound) (horacle : ∀ p a, (oracle p a).env.plugins = cfg.plugins)
    (hp : p.Ready cfg) (hundrained : ¬ p.Drained) :
    ∃ events p1 p2 a, Run (OwnStep cfg oracle) p events p1 ∧ p1.live = p.live ∧ a.isWork = true ∧
      PipelineStep cfg p1 (a, oracle p1 a) p2 := by
  obtain ⟨hlive, hrest⟩ := not_or.mp hundrained
  obtain ⟨hrunner, hcollector⟩ := not_or.mp hrest
  rcases exists_work hcfg hp (Bool.not_eq_false _ ▸ hrunner) (Bool.not_eq_false _ ▸ hcollector) hlive
    with ⟨a, hwork, henabled⟩ | hheld
  · obtain ⟨p2, hstep⟩ := henabled (oracle p a) (horacle p a)
    exact ⟨[], p, p2, a, .nil p, rfl, hwork, hstep⟩
  · -- the monitor measures a workload of zero, which is below the limit
    obtain ⟨worker, t, rest, hworker⟩ := hheld.waits
    have hfree : (!decide ((p.combinedAnalysisWorkload : Int) < cfg.unpackThrottleLimit)) = false := by
      rw [hheld.workload, Bool.not_eq_false', decide_eq_true_iff]
      exact hcfg.limit
    exact ⟨[(.monitor, oracle p .monitor)], _, _, .schedule worker,
      .cons ⟨.inr rfl, rfl, .monitor⟩ (.nil _), rfl, rfl, .schedule hfree hworker⟩

theorem drains_of_ready (hcfg : cfg.Sound)
    (horacle : ∀ p a, (oracle p a).env.plugins = cfg.plugins) (hp : p.Ready cfg) :
    ∃ events p', Run (OwnStep cfg oracle) p events p' ∧ p'.Drained := by
  -- by induction on the work that is left, which a measurement does not change
  have hwf := Splits.wellFounded (fun p : Pipeline => p.live.map (rank cfg)) fun _ _ h => h
  induction p using hwf.induction with
  | _ p ih =>
    rcases Classical.em p.Drained with hdrained | hundrained
    · exact ⟨[], p, .nil p, hdrained⟩
    · obtain ⟨events, p1, p2, a, hrun, hlive, hwork, hstep⟩ :=
        exists_own_work hcfg horacle hp hundrained
      have hready1 : p1.Ready cfg := hrun.invariant (fun _ e _ hq hown => hown.2.2.ready hq) hp
      have hsplit := hstep.splits hwork
      rw [hlive] at hsplit
      obtain ⟨events', p', hrun', hdone⟩ := ih p2 hsplit (hstep.ready hready1)
      exact ⟨events ++ (a, oracle p1 a) :: events', p',
        hrun.append (.cons ⟨.inl hwork, rfl, hstep⟩ hrun'), hdone⟩

end Drains

/-- From every state that the backend can get into, the processes of the pipeline get everything done
by themselves, whatever the extractor, the plugins and the database answer. Only an exception that
ends the scheduler process or the collector process stops them. -/
theorem pipeline_drains {cfg : PipelineConfig} (hcfg : cfg.Sound)
    {oracle : Pipeline → PipelineAction → World}
    (horacle : ∀ p a, (oracle p a).env.plugins = cfg.plugins) {p0 p : Pipeline}
    {events : List (PipelineAction × World)} (hstart : p0.Ready cfg)
    (h : Run (PipelineStep cfg) p0 events p) :
    ∃ events' p', Run (OwnStep cfg oracle) p events' p' ∧ p'.Drained :=
  drains_of_ready hcfg horacle (h.invariant (fun _ _ _ hp hstep => hstep.ready hp) hstart)

theorem sound_routerConfig : routerConfig.Sound where
  closed := wellFormed_examplePlugins.closed
  mandatory := by decide
  threads _ _ := Nat.zero_lt_two
  limit := by decide

theorem uploads_drain : ∃ events p', Run (OwnStep routerConfig fun _ _ => calmWorld)
    uploadedPipeline events p' ∧ p'.Drained :=
  pipeline_drains sound_routerConfig (fun _ _ => rfl) ⟨List.cons_ne_nil _ _, fun _ _ => rfl⟩
    run_uploads

end FactCore
