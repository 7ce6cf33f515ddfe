import FactCore.Scheduler.PipelineProgress

/-!
# An object in the pipeline goes its way

`Way` is the way of one object through the analysis, with everything else changing what
the objects share. Here the pipeline is a refinement of it: in every run, what happens to
an object is such a way. So all that holds of the ways holds of every object in the
pipeline, however many objects there are and in whatever order the processes take their
steps.

Results:
1. `analysisStep_sameShared`: a step depends on nothing but what the objects share, the
   place of the object and the time.
2. `PipelineStep.follow`: a step of the pipeline takes an object on or leaves it alone.
3. `pipeline_way`: every object goes a way.
4. `pipeline_in_order`: as long as no plugin fails, every object gets its plugins once,
   and each after all plugins it depends on.
-/

namespace FactCore

open Relation DependencyOrder Backlog

/-! ## 1. What a step depends on -/

/-- The states agree in what the objects share and in the place of the object. -/
structure SameShared (s s' : AnalysisState) : Prop where
  db : s'.db = s.db
  files : s'.files = s.files
  unpackingLocks : s'.unpackingLocks = s.unpackingLocks
  status : s'.status = s.status
  place : s'.place = s.place

/-- The environment with another clock. -/
def AnalysisEnv.withTime (env : AnalysisEnv) (time : Nat → Rat) : AnalysisEnv :=
  { env with time := time }

section Shared
variable {env : AnalysisEnv} {time : Nat → Rat} {s s' : AnalysisState} {fo : FileObject}

theorem SameShared.crash (h : SameShared s s') (e : PyException) : SameShared (s.crash e) (s'.crash e) :=
  ⟨h.db, h.files, h.unpackingLocks, h.status, rfl⟩

theorem removeFromCurrentAnalyses_sameShared (h : SameShared s s')
    (htime : time s'.tick = env.time s.tick) (fo : FileObject) (place : Place) :
    SameShared (removeFromCurrentAnalyses env s fo place)
      (removeFromCurrentAnalyses (env.withTime time) s' fo place) := by
  unfold removeFromCurrentAnalyses
  simp only [AnalysisEnv.withTime, h.status, htime]
  cases (Section.removeFromCurrent fo).run s.status (env.time s.tick) with
  | ok tables => exact ⟨h.db, h.files, h.unpackingLocks, rfl, rfl⟩
  | error e => exact h.crash e

theorem checkFurtherProcessOrComplete_sameShared (h : SameShared s s')
    (htime : time s'.tick = env.time s.tick) (fo : FileObject) :
    SameShared (checkFurtherProcessOrComplete env s fo)
      (checkFurtherProcessOrComplete (env.withTime time) s' fo) := by
  unfold checkFurtherProcessOrComplete
  cases fo.scheduledAnalysis.isEmpty with
  | true => exact removeFromCurrentAnalyses_sameShared h htime fo _
  | false => exact ⟨h.db, h.files, h.unpackingLocks, h.status, rfl⟩

theorem SameShared.setDb (h : SameShared s s') (db : Db) :
    SameShared { s with db := db } { s' with db := db } :=
  ⟨rfl, h.files, h.unpackingLocks, h.status, h.place⟩

theorem postAnalysisAndCheck_sameShared (h : SameShared s s')
    (htime : time s'.tick = env.time s.tick) (fo : FileObject) (name : String) (result : PyVal) :
    SameShared (postAnalysisAndCheck env s fo name result)
      (postAnalysisAndCheck (env.withTime time) s' fo name result) := by
  have hdriver : (env.withTime time).driver = env.driver := rfl
  have hset := h.setDb (addAnalysis env.driver s.db fo.uid name result).db
  unfold postAnalysisAndCheck
  simp only [h.db, hdriver]
  cases (addAnalysis env.driver s.db fo.uid name result).raised with
  | some e => exact hset.crash e
  | none => exact checkFurtherProcessOrComplete_sameShared hset htime fo

/-- Looking up results and file types does not read the clock. -/
theorem checks_withTime (env : AnalysisEnv) (time : Nat → Rat) :
    analysisIsAlreadyInDbAndUpToDate (env.withTime time) = analysisIsAlreadyInDbAndUpToDate env ∧
      nextAnalysisIsBlacklisted (env.withTime time) = nextAnalysisIsBlacklisted env :=
  ⟨rfl, rfl⟩

theorem startOrSkipAnalysis_sameShared (h : SameShared s s')
    (htime : time s'.tick = env.time s.tick) (name : String) (plugin : Plugin) (fo : FileObject) :
    SameShared (startOrSkipAnalysis env s name plugin fo)
      (startOrSkipAnalysis (env.withTime time) s' name plugin fo) := by
  obtain ⟨hpresent, hlisted⟩ := checks_withTime env time
  unfold startOrSkipAnalysis
  rw [hpresent, hlisted, h.db]
  cases (if fo.forceUpdate = true then .ok false
      else analysisIsAlreadyInDbAndUpToDate env s.db name fo.uid : Except PyException Bool) with
  | error e => exact h.crash e
  | ok upToDate =>
    cases upToDate with
    | true =>
      have hplugins : (env.withTime time).plugins = env.plugins := rfl
      dsimp only [skipUpToDate]
      rw [hplugins, h.db]
      cases getCumulativeRemainingDependencies env.plugins fo.scheduledAnalysis with
      | error e => exact h.crash e
      | ok dependencies => exact checkFurtherProcessOrComplete_sameShared h htime _
    | false =>
      dsimp only
      cases (if name ∈ mandatoryPlugins then .ok (false, fo)
          else nextAnalysisIsBlacklisted env s.db name plugin fo :
            Except PyException (Bool × FileObject)) with
      | error e => exact h.crash e
      | ok listed =>
        obtain ⟨skip, fo'⟩ := listed
        cases skip with
        | true =>
          have hnow : (env.withTime time).time s'.tick = env.time s.tick := htime
          dsimp only [skipBlacklisted]
          rw [hnow]
          exact postAnalysisAndCheck_sameShared h htime _ name _
        | false =>
          have hbinary : setBinary s'.files fo' = setBinary s.files fo' := by rw [h.files]
          dsimp only [startAnalysis]
          rw [hbinary]
          have hplace : ∀ place, SameShared { s with place := place } { s' with place := place } :=
            fun _ => ⟨h.db, h.files, h.unpackingLocks, h.status, rfl⟩
          cases (if fo'.sha256 = none then setBinary s.files fo' else .ok fo' :
              Except PyException FileObject) with
          | error e => exact h.crash e
          | ok fo2 => exact hplace _

theorem processAddedObject_sameShared (h : SameShared s s')
    (htime : time s'.tick = env.time s.tick) (fo : FileObject) :
    SameShared (processAddedObject env s fo) (processAddedObject (env.withTime time) s' fo) := by
  have hplugins : (env.withTime time).plugins = env.plugins := rfl
  unfold processAddedObject
  rw [hplugins]
  cases fo.scheduledAnalysis.getLast? with
  | none => exact h.crash _
  | some name =>
    dsimp only
    cases env.plugins.get? name with
    | none => exact checkFurtherProcessOrComplete_sameShared h htime _
    | some plugin => exact startOrSkipAnalysis_sameShared h htime name plugin _

theorem processNextAnalysisTask_sameShared (h : SameShared s s')
    (htime : time s'.tick = env.time s.tick) (fo : FileObject) :
    SameShared (processNextAnalysisTask env s fo)
      (processNextAnalysisTask (env.withTime time) s' fo) := by
  have hdriver : (env.withTime time).driver = env.driver := rfl
  have hset := h.setDb (addObject env.driver s.db fo).db
  have hreleased : SameShared
      { s with
        db := (addObject env.driver s.db fo).db
        unpackingLocks := s.unpackingLocks.releaseUnpackingLock fo.uid }
      { s' with
        db := (addObject env.driver s.db fo).db
        unpackingLocks := s'.unpackingLocks.releaseUnpackingLock fo.uid } :=
    ⟨rfl, h.files, congrArg (UnpackingLocks.releaseUnpackingLock · fo.uid) h.unpackingLocks, h.status,
      h.place⟩
  unfold processNextAnalysisTask
  simp only [h.db, hdriver]
  cases (addObject env.driver s.db fo).raised with
  | some e =>
    dsimp only
    rcases Decidable.em (e.isDbInterfaceError = true) with hdb | hdb
    · rw [if_pos hdb, if_pos hdb]
      exact removeFromCurrentAnalyses_sameShared hset htime fo _
    · rw [if_neg hdb, if_neg hdb]
      exact hset.crash e
  | none => exact processAddedObject_sameShared hreleased htime fo

theorem collectResult_sameShared (h : SameShared s s') (htime : time s'.tick = env.time s.tick)
    (name : String) (fo : FileObject) :
    SameShared (collectResult env s name fo) (collectResult (env.withTime time) s' name fo) := by
  have hplugins : (env.withTime time).plugins = env.plugins := rfl
  have hnow : (env.withTime time).time s'.tick = env.time s.tick := htime
  unfold collectResult
  rw [hplugins, hnow]
  rcases Decidable.em (name ∈ fo.processedAnalysis) with hmem | hmem
  · rw [if_pos hmem, if_pos hmem]
    cases (if fo.analysisException.isSome = true then
        rescheduleFailedAnalysisTask env.plugins (env.time s.tick) fo else .ok fo :
          Except PyException FileObject) with
    | error e => exact h.crash e
    | ok fo' => exact postAnalysisAndCheck_sameShared h htime fo' name _
  · rw [if_neg hmem, if_neg hmem]
    exact checkFurtherProcessOrComplete_sameShared h htime fo

/-- A step depends on nothing but what the objects share, the place of the object and the time. -/
theorem analysisStep_sameShared (h : SameShared s s')
    (htime : time (s'.tick + 1) = env.time (s.tick + 1)) :
    SameShared (analysisStep env s) (analysisStep (env.withTime time) s') := by
  have hnext : SameShared { s with tick := s.tick + 1 } { s' with tick := s'.tick + 1 } :=
    ⟨h.db, h.files, h.unpackingLocks, h.status, h.place⟩
  unfold analysisStep
  rw [h.place]
  cases s.place with
  | processQueue fo => exact processNextAnalysisTask_sameShared hnext htime fo
  | inQueue name fo =>
    have hplugins : (env.withTime time).plugins = env.plugins := rfl
    have hnow : (env.withTime time).time (s'.tick + 1) = env.time (s.tick + 1) := htime
    dsimp only
    rw [hplugins, hnow]
    cases env.plugins.get? name with
    | none => exact ⟨h.db, h.files, h.unpackingLocks, h.status, rfl⟩
    | some plugin => exact ⟨h.db, h.files, h.unpackingLocks, h.status, rfl⟩
  | outQueue name fo => exact collectResult_sameShared hnext htime name fo
  | completed fo | dropped fo | crashed e => exact h

theorem handedPlugin_sameShared (h : SameShared s s') :
    handedPlugin (env.withTime time) s' = handedPlugin env s := by
  unfold handedPlugin
  rw [h.place, h.db]
  rfl

end Shared

/-! ## 2. Following an object -/

/-- The place of an object whose analysis has been started. -/
def itemPlace : Stage × Task → Option Place
  | (.extracted, _) | (.unpackQueue, _) => none
  | (.processQueue, t) => some (.processQueue t.fo)
  | (.inQueue name, t) | (.active name, t) => some (.inQueue name t.fo)
  | (.outQueue name, t) => some (.outQueue name t.fo)

namespace Pipeline

/-- The places of those that have left. -/
def departures (p : Pipeline) : List (Nat × Option Place) :=
  p.finished.map (fun t => (t.ticket, some (.completed t.fo))) ++
    p.dropped.map (fun t => (t.ticket, some (.dropped t.fo))) ++
    p.lost.map fun l => (l.1.ticket, some (.crashed l.2))

/-- All tickets, with the place of the object. -/
def whereabouts (p : Pipeline) : Multiset (Nat × Option Place) :=
  p.live.map (fun x => (x.2.ticket, itemPlace x)) + (p.departures : Multiset (Nat × Option Place))

/-- The object with the ticket is at the place. -/
def At (p : Pipeline) (ticket : Nat) (place : Place) : Prop := (ticket, some place) ∈ p.whereabouts

/-- The plugins that were handed to `_start_or_skip_analysis` for the object, the last one first. -/
def handedTo (p : Pipeline) (ticket : Nat) : List String :=
  (p.handed.filter fun e => decide (e.1 = ticket)).map Prod.snd

end Pipeline

section Follow
variable {cfg : PipelineConfig} {p p' q : Pipeline} {t : Task} {place : Place} {stage : Stage}
  {a : PipelineAction} {w : World} {k : Nat} {x : Stage × Task}

theorem whereabouts_tickets (p : Pipeline) : p.whereabouts.map Prod.fst = p.tickets := by
  have hgone : p.gone = ((p.finished ++ p.dropped ++ p.lost.map Prod.fst : List Task) :
      Multiset Task) := by
    rw [Pipeline.gone, Multiset.coe_add, Multiset.coe_add]
  rw [Pipeline.whereabouts, Pipeline.tickets, Multiset.map_add, Multiset.map_map, hgone,
    Multiset.map_coe, Multiset.map_coe]
  simp [Pipeline.departures, Function.comp_def]

/-- An object that is taken away from its stage. -/
theorem whereabouts_of_live (hlive : p.live = {x} + q.live) (hdepartures : q.departures = p.departures) :
    p.whereabouts = (x.2.ticket, itemPlace x) ::ₘ q.whereabouts := by
  rw [Pipeline.whereabouts, Pipeline.whereabouts, hlive, hdepartures, Multiset.map_add,
    Multiset.map_singleton, add_assoc, Multiset.singleton_add]

theorem whereabouts_deliver (p : Pipeline) (t : Task) (place : Place) :
    (p.deliver t place).whereabouts = (t.ticket, some place) ::ₘ p.whereabouts := by
  cases place with
  | processQueue fo | inQueue name fo | outQueue name fo =>
    rw [Pipeline.whereabouts, Pipeline.live_deliver, Multiset.map_add, add_assoc]
    rfl
  | completed fo | dropped fo | crashed e =>
    rw [← Multiset.singleton_add]
    simp only [Pipeline.whereabouts, Pipeline.deliver, Pipeline.departures, Pipeline.live,
      List.map_cons, ← Multiset.coe_add, ← Multiset.cons_coe, ← Multiset.singleton_add]
    abel

/-- What is shared is that of a state. -/
structure Pipeline.Shares (p : Pipeline) (s : AnalysisState) : Prop where
  db : s.db = p.db
  files : s.files = p.files
  unpackingLocks : s.unpackingLocks = p.unpackingLocks
  status : s.status = p.status

theorem Pipeline.Shares.deliver {s : AnalysisState} (h : p.Shares s) (t : Task) (place : Place) :
    (p.deliver t place).Shares s := by
  cases place <;> exact ⟨h.db, h.files, h.unpackingLocks, h.status⟩

theorem handed_deliver (p : Pipeline) (t : Task) (place : Place) :
    (p.deliver t place).handed = p.handed := by
  cases place <;> rfl

/-- The worker of the plugin that has the object is done with it. -/
def Pipeline.Finishes (p : Pipeline) (a : PipelineAction) (k : Nat) (name : String) : Prop :=
  ∃ worker t, a = .finish name worker ∧ (p.lane name).active[worker]? = some t ∧ t.ticket = k

/-- The object is taken one step on, as it would be alone. -/
structure TakesOn (cfg : PipelineConfig) (a : PipelineAction) (w : World) (p p' : Pipeline) (k : Nat)
    (place : Place) : Prop where
  plugins : w.env.plugins = cfg.plugins
  finishes : ∀ name fo, place = .inQueue name fo → p.Finishes a k name
  at_place : p'.At k (analysisStep w.env (p.view place)).place
  shares : p'.Shares (analysisStep w.env (p.view place))
  handed : p'.handedTo k = (handedPlugin w.env (p.view place)).toList ++ p.handedTo k

/-- The object stays where it is. -/
structure LeavesAlone (p p' : Pipeline) (k : Nat) (place : Place) : Prop where
  at_place : p'.At k place
  handed : p'.handedTo k = p.handedTo k

/-- Nothing of the analysis is taken away. -/
theorem leavesAlone_of_subset (hlive : ∃ taken added rest, p.live = taken + rest ∧
      p'.live = added + rest ∧ ∀ x ∈ taken, itemPlace x = none ∨
        ∃ y ∈ added, y.2.ticket = x.2.ticket ∧ itemPlace y = itemPlace x)
    (hdepartures : p.departures ⊆ p'.departures) (hhanded : p'.handed = p.handed)
    (hat : p.At k place) : LeavesAlone p p' k place where
  at_place := by
    obtain ⟨taken, added, rest, hp, hp', htaken⟩ := hlive
    rcases Multiset.mem_add.mp hat with hmem | hmem
    · obtain ⟨x, hx, heq⟩ := Multiset.mem_map.mp hmem
      rw [hp] at hx
      refine Multiset.mem_add.mpr (.inl ?_)
      rw [hp', ← heq]
      rcases Multiset.mem_add.mp hx with hx | hx
      · rcases htaken x hx with hnone | ⟨y, hy, hticket, hsame⟩
        · rw [Prod.mk.injEq, hnone] at heq
          cases heq.2
        · rw [← hticket, ← hsame]
          exact Multiset.mem_map_of_mem _ (Multiset.mem_add.mpr (.inl hy))
      · exact Multiset.mem_map_of_mem _ (Multiset.mem_add.mpr (.inr hx))
    · exact Multiset.mem_add.mpr (.inr (hdepartures hmem))
  handed := by rw [Pipeline.handedTo, Pipeline.handedTo, hhanded]

/-- A process of the analysis takes an object away and puts it where the step has left it. -/
theorem follow_advance (hplugins : w.env.plugins = cfg.plugins) (hx : itemPlace x = some place)
    (hfinishes : ∀ name fo, place = .inQueue name fo → p.Finishes a x.2.ticket name)
    (hlive : p.live = {x} + q.live) (hdepartures : q.departures = p.departures)
    (hhanded : q.handed = p.handed) (hview : ∀ place, q.view place = p.view place)
    (hnodup : p.tickets.Nodup) {pl : Place} (hat : p.At k pl) :
    TakesOn cfg a w p (q.advance w.process w.env x.2 place) k pl ∨
      LeavesAlone p (q.advance w.process w.env x.2 place) k pl := by
  have hwhere := whereabouts_of_live hlive hdepartures
  rw [hx] at hwhere
  have hwhere' : (q.advance w.process w.env x.2 place).whereabouts =
      (x.2.ticket, some (analysisStep w.env (p.view place)).place) ::ₘ q.whereabouts := by
    rw [← hview place]
    exact whereabouts_deliver _ _ _
  have hhanded' : (q.advance w.process w.env x.2 place).handed =
      ((handedPlugin w.env (p.view place)).toList.map fun name => (x.2.ticket, name)) ++ p.handed := by
    rw [← hview place, ← hhanded]
    exact handed_deliver _ _ _
  rw [← whereabouts_tickets, hwhere, Multiset.map_cons, Multiset.nodup_cons] at hnodup
  unfold Pipeline.At at hat
  rw [hwhere] at hat
  rcases Multiset.mem_cons.mp hat with heq | hmem
  · -- it is the object
    obtain ⟨rfl, hpl⟩ := Prod.mk.injEq .. ▸ heq
    obtain rfl := Option.some.inj hpl
    refine .inl ⟨hplugins, hfinishes, ?_, ?_, ?_⟩
    · rw [Pipeline.At, hwhere']
      exact Multiset.mem_cons_self _ _
    · rw [← hview pl]
      exact Pipeline.Shares.deliver ⟨rfl, rfl, rfl, rfl⟩ _ _
    · rw [Pipeline.handedTo, hhanded', List.filter_append, List.map_append, Pipeline.handedTo]
      congr 1
      rw [List.filter_eq_self.mpr (by simp), List.map_map]
      exact List.map_id _
  · -- it is another one, so it has another ticket
    have hne : x.2.ticket ≠ k := by
      rintro rfl
      exact hnodup.1 (Multiset.mem_map.mpr ⟨_, hmem, rfl⟩)
    refine .inr ⟨?_, ?_⟩
    · rw [Pipeline.At, hwhere']
      exact Multiset.mem_cons_of_mem hmem
    · rw [Pipeline.handedTo, hhanded', List.filter_append, List.map_append, Pipeline.handedTo,
        List.filter_eq_nil_iff.mpr (by simp [hne]), List.map_nil, List.nil_append]

theorem departures_deliver (hsame : q.departures = p.departures) (t : Task) (place : Place) :
    p.departures ⊆ (q.deliver t place).departures := by
  rw [← hsame]
  cases place with
  | processQueue fo | inQueue name fo | outQueue name fo => exact List.Subset.refl _
  | completed fo | dropped fo | crashed e =>
    intro e he
    simp only [Pipeline.departures, Pipeline.deliver, List.map_cons, List.mem_append,
      List.mem_cons] at he ⊢
    rcases he with (he | he) | he <;> simp [he]

/-- What comes to the pipeline leaves an object alone. -/
theorem leavesAlone_of_added (hlive : ∃ added, p'.live = added + p.live)
    (hdepartures : p.departures ⊆ p'.departures) (hhanded : p'.handed = p.handed)
    (hat : p.At k place) : LeavesAlone p p' k place := by
  obtain ⟨added, hadded⟩ := hlive
  exact leavesAlone_of_subset ⟨0, added, p.live, (zero_add _).symm, hadded,
    fun x hx => absurd hx (Multiset.notMem_zero x)⟩ hdepartures hhanded hat

/-- What happens to an object that has not got to the analysis leaves the others alone. -/
theorem leavesAlone_of_taken {added rest : Multiset (Stage × Task)} (hx : itemPlace x = none)
    (hlive : p.live = {x} + rest) (hlive' : p'.live = added + rest)
    (hdepartures : p.departures ⊆ p'.departures) (hhanded : p'.handed = p.handed)
    (hat : p.At k place) : LeavesAlone p p' k place := by
  refine leavesAlone_of_subset ⟨{x}, added, rest, hlive, hlive', fun y hy => .inl ?_⟩ hdepartures
    hhanded hat
  rw [Multiset.mem_singleton.mp hy]
  exact hx

/-- A step of the pipeline takes an object one step on its way, or it leaves the object alone. -/
theorem PipelineStep.follow (h : PipelineStep cfg p (a, w) p') (hnodup : p.tickets.Nodup)
    (hat : p.At k place) : TakesOn cfg a w p p' k place ∨ LeavesAlone p p' k place := by
  cases h with
  | @addTask _ rootUid fo =>
    refine .inr (leavesAlone_of_added
      ⟨{(.unpackQueue, ⟨p.nextTicket, rootUid, fo, w.process⟩)}, ?_⟩ (List.Subset.refl _) rfl hat)
    simp only [Pipeline.live, atStage_append, atStage_cons, atStage_nil]
    abel
  | monitor => exact .inr (leavesAlone_of_added ⟨0, (zero_add _).symm⟩ (List.Subset.refl _) rfl hat)
  | others => exact .inr (leavesAlone_of_added ⟨0, (zero_add _).symm⟩ (List.Subset.refl _) rfl hat)
  | update =>
    exact .inr (leavesAlone_of_added ⟨_, Pipeline.live_deliver _ _ _⟩ (departures_deliver (by rfl) _ _)
      (handed_deliver _ _ _) hat)
  | @unpack _ worker i fuel t out s _ hidle hqueue =>
    obtain ⟨others, hlive, hlive'⟩ :=
      (shift_unpacked w.process s out.objects s.place hidle hqueue.get).live
    exact .inr (leavesAlone_of_taken rfl hlive hlive' (departures_deliver (by rfl) _ _)
      (handed_deliver _ _ _) hat)
  | unpackRaises _ _ hqueue =>
    exact .inr (leavesAlone_of_taken rfl (live_unpackQueue hqueue.get) (Pipeline.live_deliver _ _ _)
      (departures_deliver (by rfl) _ _) (handed_deliver _ _ _) hat)
  | startRaises _ _ hqueue =>
    exact .inr (leavesAlone_of_taken rfl (live_unpackQueue hqueue.get) (Pipeline.live_deliver _ _ _)
      (departures_deliver (by rfl) _ _) (handed_deliver _ _ _) hat)
  | @schedule _ worker t rest _ hworker =>
    obtain ⟨others, hlive, hlive'⟩ := live_scheduled hworker (t.sentBy w.process)
    exact .inr (leavesAlone_of_taken rfl hlive hlive' (List.Subset.refl _) rfl hat)
  | @start _ name i t _ hqueue =>
    -- the place of the object that is taken does not change
    obtain ⟨others, hlive, hlive'⟩ := live_started hqueue.get
    refine .inr (leavesAlone_of_subset ⟨_, _, others, hlive, hlive', fun y hy => .inr ?_⟩
      (List.Subset.refl _) rfl hat)
    rw [Multiset.mem_singleton.mp hy]
    exact ⟨_, Multiset.mem_singleton_self _, rfl, rfl⟩
  | @process p1 _ i t hplugins _ hqueue hadvance =>
    subst hadvance
    have hother : ∀ name fo, Place.processQueue t.fo = .inQueue name fo →
        p.Finishes (.process i) t.ticket name := fun name fo heq => (by cases heq)
    rcases follow_advance hplugins rfl hother (live_processQueue hqueue.get) rfl rfl (fun _ => rfl)
      hnodup hat with h | h
    · exact .inl ⟨h.plugins, h.finishes, h.at_place, ⟨h.shares.db, h.shares.files,
        h.shares.unpackingLocks, h.shares.status⟩, h.handed⟩
    · exact .inr ⟨h.at_place, h.handed⟩
  | @finish _ name worker t hplugins _ hworker =>
    have hthis : ∀ name' fo, Place.inQueue name t.fo = .inQueue name' fo →
        p.Finishes (.finish name worker) t.ticket name' := by
      rintro name' fo heq
      obtain ⟨rfl, -⟩ := Place.inQueue.inj heq
      exact ⟨worker, t, rfl, hworker, rfl⟩
    exact follow_advance hplugins rfl hthis (live_active hworker) rfl rfl (fun _ => rfl) hnodup hat
  | @collect p1 _ name i t hplugins _ _ hqueue hadvance =>
    subst hadvance
    have hother : ∀ name' fo, Place.outQueue name t.fo = .inQueue name' fo →
        p.Finishes (.collect name i) t.ticket name' := fun name' fo heq => (by cases heq)
    rcases follow_advance hplugins rfl hother (live_outQueue hqueue.get) rfl rfl (fun _ => rfl)
      hnodup hat with h | h
    · exact .inl ⟨h.plugins, h.finishes, h.at_place, ⟨h.shares.db, h.shares.files,
        h.shares.unpackingLocks, h.shares.status⟩, h.handed⟩
    · exact .inr ⟨h.at_place, h.handed⟩

end Follow

/-! ## 3. The ways -/

/-- The way has got as far as the object in the pipeline. -/
structure OnItsWay (p : Pipeline) (k : Nat) (way : Way) : Prop where
  shares : p.Shares way.state
  at_place : p.At k way.state.place
  handled : way.handled = p.handedTo k

section Ways
variable {cfg : PipelineConfig} {p p' : Pipeline} {k : Nat} {way : Way}

/-- A step of the pipeline is a step of the object or one of everything else. -/
theorem OnItsWay.step {a : PipelineAction} {w : World} (hway : OnItsWay p k way)
    (hnodup : p.tickets.Nodup) (h : PipelineStep cfg p (a, w) p') :
    ∃ e way', WayStep cfg.plugins way e way' ∧ OnItsWay p' k way' ∧
      ∀ env, e = .step env → env.outcome = w.env.outcome ∧
        ∀ name fo, way.state.place = .inQueue name fo → p.Finishes a k name := by
  obtain ⟨hshares, hat, hhandled⟩ := hway
  rcases h.follow hnodup hat with htakes | hleaves
  · -- the clock of the way shows the time at which the step is taken
    have hsame : SameShared (p.view way.state.place) way.state :=
      ⟨hshares.db, hshares.files, hshares.unpackingLocks, hshares.status, rfl⟩
    have hstep := @analysisStep_sameShared w.env (fun _ => w.env.time 1) _ _ hsame rfl
    have hshares' := htakes.shares
    refine ⟨.step (w.env.withTime fun _ => w.env.time 1), _, .step htakes.plugins, ⟨?_, ?_, ?_⟩, ?_⟩
    · exact ⟨hstep.db.trans hshares'.db, hstep.files.trans hshares'.files,
        hstep.unpackingLocks.trans hshares'.unpackingLocks, hstep.status.trans hshares'.status⟩
    · dsimp only
      rw [hstep.place]
      exact htakes.at_place
    · rw [handedPlugin_sameShared hsame, hhandled, htakes.handed]
    · rintro env heq
      cases heq
      exact ⟨rfl, htakes.finishes⟩
  · exact ⟨.others p'.db p'.files p'.unpackingLocks p'.status, _, .others,
      ⟨⟨rfl, rfl, rfl, rfl⟩, hleaves.at_place, hhandled.trans hleaves.handed.symm⟩,
      fun env heq => (by cases heq)⟩

theorem OnItsWay.run {events : List (PipelineAction × World)} (hway : OnItsWay p k way)
    (htickets : p.tickets = Multiset.range p.nextTicket) (h : Run (PipelineStep cfg) p events p') :
    ∃ wayEvents way', Run (WayStep cfg.plugins) way wayEvents way' ∧ OnItsWay p' k way' ∧
      ∀ env, .step env ∈ wayEvents → ∃ e ∈ events, env.outcome = e.2.env.outcome := by
  induction h generalizing way with
  | nil p => exact ⟨[], way, .nil way, hway, fun env hmem => absurd hmem List.not_mem_nil⟩
  | @cons p p1 p' e events hstep _ ih =>
    obtain ⟨e', way1, hwayStep, hway1, houtcome⟩ :=
      hway.step (htickets ▸ Multiset.nodup_range _) hstep
    obtain ⟨wayEvents, way', hrun, hway', houtcomes⟩ := ih hway1 (hstep.tickets_range htickets)
    refine ⟨e' :: wayEvents, way', .cons hwayStep hrun, hway', fun env hmem => ?_⟩
    rcases List.mem_cons.mp hmem with heq | hmem
    · exact ⟨e, List.mem_cons_self, (houtcome env heq.symm).1⟩
    · obtain ⟨e2, he2, heq⟩ := houtcomes env hmem
      exact ⟨e2, List.mem_cons_of_mem _ he2, heq⟩

end Ways

/-- The pipeline refines the way of every object: whatever else is under way, what happens to an
object of a run is a way from its place at the start to its place at the end, and the plugins that
were handed over for it are those of the way. -/
theorem pipeline_way {cfg : PipelineConfig} {p0 p p' : Pipeline} {k : Nat} {place : Place}
    {before events : List (PipelineAction × World)} (hfresh : p0.Fresh)
    (hbefore : Run (PipelineStep cfg) p0 before p) (hat : p.At k place)
    (h : Run (PipelineStep cfg) p events p') :
    ∃ wayEvents way, Run (WayStep cfg.plugins) ⟨p.view place, p.handedTo k⟩ wayEvents way ∧
      OnItsWay p' k way ∧
      ∀ env, .step env ∈ wayEvents → ∃ e ∈ events, env.outcome = e.2.env.outcome :=
  OnItsWay.run ⟨⟨rfl, rfl, rfl, rfl⟩, hat, rfl⟩
    (tickets_of_run hbefore hfresh.tickets) h

/-- An image with a schedule. -/
def hashedImage : FileObject := { outerImage with scheduledAnalysis := ["file_hashes", "file_type"] }

/-- Two images are to be analysed again. -/
def updates : List (PipelineAction × World) :=
  [(.update "outer" hashedImage, workerWorld 5 none),
    (.update "second" { secondImage with scheduledAnalysis := ["file_type"] }, workerWorld 6 none)]

def updatedPipeline : Pipeline :=
  { idlePipeline with
    processQueue := [⟨0, "outer", hashedImage, 5⟩,
      ⟨1, "second", { secondImage with scheduledAnalysis := ["file_type"] }, 6⟩]
    nextTicket := 2 }

theorem run_updates : Run (PipelineStep routerConfig) idlePipeline updates updatedPipeline :=
  .cons (.update rfl rfl) (.cons (.update rfl rfl) (.nil _))

theorem at_updatedPipeline : updatedPipeline.At 0 (.processQueue hashedImage) := by
  have hfirst : updatedPipeline.processQueue[0]? = some ⟨0, "outer", hashedImage, 5⟩ := rfl
  rw [Pipeline.At, whereabouts_of_live (live_processQueue hfirst) rfl]
  exact Multiset.mem_cons_self _ _

/-- The second image overtakes the first one in the process queue, and the first one the second one
in the queue of the collector. The first one gets both of its plugins. -/
def overtakingImages : List (PipelineAction × World) :=
  [(.process 1, workerWorld 1 none), (.process 0, workerWorld 1 none),
    (.start "file_type" 0, workerWorld 7 none), (.start "file_type" 0, workerWorld 8 none),
    (.finish "file_type" 0, workerWorld 7 none), (.finish "file_type" 0, workerWorld 8 none),
    (.collect "file_type" 1, workerWorld 2 none), (.process 0, workerWorld 1 none),
    (.start "file_hashes" 0, workerWorld 9 none), (.finish "file_hashes" 0, workerWorld 9 none),
    (.collect "file_hashes" 0, workerWorld 2 none)]

theorem exists_run_overtakingImages : ∃ p', Run (PipelineStep routerConfig) updatedPipeline
    overtakingImages p' ∧ p'.handedTo 0 = ["file_hashes", "file_type"] ∧
      p'.finished.map Task.ticket = [0] :=
  ⟨_, .cons (.process rfl rfl ⟨rfl, by decide⟩ rfl) <| .cons (.process rfl rfl receives_head rfl) <|
    .cons (.start (by decide) receives_head (by decide)) <|
    .cons (.start (by decide) receives_head (by decide)) <|
    .cons (.finish rfl (by decide) rfl) <| .cons (.finish rfl (by decide) rfl) <|
    .cons (.collect rfl (by decide) rfl ⟨rfl, by decide⟩ rfl) <|
    .cons (.process rfl rfl receives_head rfl) <|
    .cons (.start (by decide) receives_head (by decide)) <|
    .cons (.finish rfl (by decide) rfl) <|
    .cons (.collect rfl (by decide) rfl receives_head rfl) <| .nil _, rfl, rfl⟩

theorem overtaken_image_way : ∃ p', Run (PipelineStep routerConfig) updatedPipeline overtakingImages
      p' ∧ p'.handedTo 0 = ["file_hashes", "file_type"] ∧
    ∃ wayEvents way, Run (WayStep examplePlugins)
      ⟨updatedPipeline.view (.processQueue hashedImage), []⟩ wayEvents way ∧ OnItsWay p' 0 way ∧
        ∀ env, .step env ∈ wayEvents → ∃ e ∈ overtakingImages, env.outcome = e.2.env.outcome := by
  obtain ⟨p', hrun, hhanded, -⟩ := exists_run_overtakingImages
  exact ⟨p', hrun, hhanded, pipeline_way fresh_idlePipeline run_updates at_updatedPipeline hrun⟩

/-! ## 4. Every plugin once, and in order -/

/-- The object at the place has not failed. -/
def Place.NoFailure : Place → Prop
  | .processQueue fo | .inQueue _ fo | .outQueue _ fo => fo.analysisException = none
  | .completed _ | .dropped _ | .crashed _ => True

/-- Every run of a plugin ends with a result. -/
def AnalysisEnv.Succeeds (env : AnalysisEnv) : Prop :=
  ∀ name, ∃ result, env.outcome name = .success result

section Order
variable {plugins : PluginTable} {env : AnalysisEnv} {s : AnalysisState} {fo : FileObject}
  {way way' : Way} {e : WayEvent} {events : List WayEvent}

theorem noFailure_checkedPlace (h : fo.analysisException = none) : (checkedPlace fo).NoFailure := by
  unfold checkedPlace
  split
  · trivial
  · exact h

theorem noFailure_of_ended (h : s.Ended) : s.place.NoFailure := by
  unfold AnalysisState.Ended at h
  split at h
  · next fo hplace => rw [hplace]; trivial
  · next e hplace => rw [hplace]; trivial
  · exact absurd h id

/-- As long as plugins succeed, no failure is recorded. -/
theorem noFailure_analysisStep (hsucc : env.Succeeds) (h : s.place.NoFailure) :
    (analysisStep env s).place.NoFailure := by
  have hpop : ∀ {fo : FileObject} {rest : List String} {name : String} {db : Db},
      Pops env s fo rest name db → fo.analysisException = none := by
    intro fo rest name db hpop
    rw [hpop.place] at h
    exact h
  cases analysisStep_move env s with
  | ended hend => exact noFailure_of_ended hend
  | rests _ hsame => rwa [hsame]
  | waits _ _ hsame => rwa [hsame]
  | unknown hpops _ _ hplace =>
    have hexc := hpop hpops
    rw [hplace]
    exact noFailure_checkedPlace hexc
  | upToDate hpops _ _ hfo _ hplace =>
    have hexc := hpop hpops
    rw [hplace]
    refine noFailure_checkedPlace ?_
    rcases hfo with rfl | rfl <;> exact hexc
  | skipped hpops _ _ hlist _ _ hplace =>
    have hexc := hpop hpops
    rw [hplace, blacklistCheck_others hlist]
    exact noFailure_checkedPlace hexc
  | started hpops _ _ hlist _ hplace =>
    have hexc := hpop hpops
    rw [hplace, blacklistCheck_others hlist, addJob]
    split
    · exact hexc
    · split <;> exact hexc
  | @ran name plugin fo hplace _ _ hplace' =>
    rw [hplace] at h
    obtain ⟨result, hresult⟩ := hsucc name
    rw [hplace', runPlugin, hresult]
    exact h
  | notRun hplace _ _ hplace' | collected hplace _ _ _ _ hplace' =>
    rw [hplace] at h
    rw [hplace']
    exact noFailure_checkedPlace h
  | failed hplace _ hne =>
    rw [hplace] at h
    exact absurd h hne

/-- On a way on which all plugins succeed, nothing is unscheduled. -/
theorem restrict_of_succeeds (h : Run (WayStep plugins) way events way')
    (hsucc : ∀ env, .step env ∈ events → env.Succeeds) (hnone : way.state.place.NoFailure) :
    Run (Restrict (UnschedulesHandled plugins) (WayStep plugins)) way events way' := by
  induction h with
  | nil => exact .nil _
  | @cons way way1 way' e events hstep _ ih =>
    have hrest := ih fun env hmem => hsucc env (List.mem_cons_of_mem _ hmem)
    cases hstep with
    | @step env hplugins =>
      refine .cons ⟨fun name fo failed cause hplace _ hexc => ?_, .step hplugins⟩
        (hrest (noFailure_analysisStep (hsucc env List.mem_cons_self) hnone))
      rw [hplace] at hnone
      cases hexc.symm.trans hnone
    | others => exact .cons ⟨trivial, .others⟩ (hrest hnone)

/-- What was handed over comes from the schedule, and nothing was handed over twice. -/
theorem handledOnce_of_run (h : Run (WayStep plugins) way events way')
    (hreg : ∀ p ∈ way.state.place.schedule, p ∈ plugins) (hnodup : way.plan.Nodup) :
    way'.handled.Nodup ∧ ∀ p ∈ way'.handled, p ∈ way.plan := by
  have hinv : (way'.handled.Nodup ∧ ∀ p ∈ way'.handled, p ∈ way.plan) ∧ (¬ way'.state.Ended →
      way'.plan.Nodup ∧ (∀ p ∈ way'.plan, p ∈ way.plan) ∧
        ∀ p ∈ way'.state.place.schedule, p ∈ plugins) := by
    refine h.invariant (I := fun w => (w.handled.Nodup ∧ ∀ p ∈ w.handled, p ∈ way.plan) ∧
      (¬ w.state.Ended → w.plan.Nodup ∧ (∀ p ∈ w.plan, p ∈ way.plan) ∧
        ∀ p ∈ w.state.place.schedule, p ∈ plugins)) (fun w1 e w2 hw hst => ?_) ?_
    · obtain ⟨front, hfront⟩ := hst.handled_suffix
      have hplan : w1.plan.Nodup ∧ ∀ p ∈ w1.plan, p ∈ way.plan := by
        rcases Classical.em w1.state.Ended with hend | hlive
        · unfold Way.plan at *
          rw [schedule_of_ended hend]
          exact hw.1
        · exact ⟨(hw.2 hlive).1, (hw.2 hlive).2.1⟩
      rw [hfront] at hplan
      refine ⟨⟨(List.nodup_append.mp hplan.1).2.1,
        fun p hp => hplan.2 p (List.mem_append_right _ hp)⟩, fun hlive2 => ?_⟩
      obtain ⟨hnodup1, hsub1, hreg1⟩ := hw.2 fun hend => hlive2 (hst.ended hend)
      have hsched : ∀ p ∈ w2.state.place.schedule, p ∈ plugins :=
        fun p hp => hreg1 p (hst.schedule_subset hreg1 hlive2 hp)
      rcases hst.plan hreg1 with hend | ⟨-, popped, hhands⟩ | ⟨failed, hhandled, hfilter, -⟩
      · exact absurd hend hlive2
      · have hsame : w2.plan = w1.plan := by
          rw [Way.plan, Way.plan, hhands.handled, hhands.schedule, List.append_assoc]
        rw [hsame]
        exact ⟨hnodup1, hsub1, hsched⟩
      · have hsublist : w2.plan.Sublist w1.plan := by
          rw [Way.plan, Way.plan, hhandled, hfilter]
          exact List.filter_sublist.append_right _
        exact ⟨hnodup1.sublist hsublist, fun p hp => hsub1 p (hsublist.subset hp), hsched⟩
    · exact ⟨⟨(List.nodup_append.mp hnodup).2.1, fun p hp => List.mem_append_right _ hp⟩,
        fun _ => ⟨hnodup, fun _ hp => hp, hreg⟩⟩
  exact hinv.1

end Order

/-- As long as no plugin fails, every object that came to the process queue with a correct schedule
gets each plugin at most once, only plugins of its schedule, and each plugin after all plugins that
it depends on, whatever else is under way. -/
theorem pipeline_in_order {cfg : PipelineConfig} {p0 p p' : Pipeline} {k : Nat} {fo : FileObject}
    {before events : List (PipelineAction × World)} {request : List String} {mandatory : Bool}
    (hfresh : p0.Fresh) (hbefore : Run (PipelineStep cfg) p0 before p)
    (hat : p.At k (.processQueue fo)) (hfirst : p.handedTo k = [])
    (hnone : fo.analysisException = none)
    (hschedule : IsSchedule cfg.plugins request mandatory fo.scheduledAnalysis)
    (hreg : ∀ q ∈ fo.scheduledAnalysis, q ∈ cfg.plugins) (h : Run (PipelineStep cfg) p events p')
    (hsucc : ∀ e ∈ events, e.2.env.Succeeds) :
    (p'.handedTo k).Nodup ∧ (∀ q ∈ p'.handedTo k, q ∈ fo.scheduledAnalysis) ∧
      ∀ later q earlier, p'.handedTo k = later ++ q :: earlier →
        ∀ d, TransGen cfg.plugins.DependsOn q d → d ∈ earlier := by
  have hstart : OnItsWay p k ⟨p.view (.processQueue fo), p.handedTo k⟩ :=
    ⟨⟨rfl, rfl, rfl, rfl⟩, hat, rfl⟩
  obtain ⟨wayEvents, way, hrun, hway, houtcomes⟩ := hstart.run
    (tickets_of_run hbefore hfresh.tickets) h
  have hplan : (⟨p.view (.processQueue fo), p.handedTo k⟩ : Way).plan = fo.scheduledAnalysis := by
    rw [Way.plan, hfirst, List.append_nil]
    rfl
  have hsucceeds : ∀ env, .step env ∈ wayEvents → env.Succeeds := by
    intro env hmem name
    obtain ⟨e, he, hsame⟩ := houtcomes env hmem
    rw [hsame]
    exact hsucc e he name
  obtain ⟨hnodup, hsub⟩ := handledOnce_of_run hrun hreg (by
    rw [hplan]
    exact hschedule.nodup)
  have horder := handledInOrder_of_run (restrict_of_succeeds hrun hsucceeds hnone) hreg (by
    rw [hplan]
    exact dependenciesBehind_iff.mpr hschedule.order)
  rw [hplan] at hsub
  unfold HandledInOrder at horder
  rw [hway.handled] at hnodup hsub horder
  exact ⟨hnodup, hsub, horder⟩

theorem isSchedule_hashedImage :
    IsSchedule examplePlugins [] true hashedImage.scheduledAnalysis where
  nodup := by decide
  contents p := by simp [IsScheduled, hashedImage, mandatoryPlugins, or_comm]
  order := dependenciesBehind_iff.mp ⟨fun d hd => List.mem_singleton.mpr
    (wellFormed_examplePlugins.fileHashes d hd),
    fun d hd => absurd hd (wellFormed_examplePlugins.fileType d), trivial⟩
  fileTypeFirst _ := rfl

theorem overtaken_image_in_order : ∃ p', Run (PipelineStep routerConfig) updatedPipeline
      overtakingImages p' ∧ p'.handedTo 0 = ["file_hashes", "file_type"] ∧
    (p'.handedTo 0).Nodup ∧ (∀ q ∈ p'.handedTo 0, q ∈ hashedImage.scheduledAnalysis) ∧
      ∀ later q earlier, p'.handedTo 0 = later ++ q :: earlier →
        ∀ d, TransGen examplePlugins.DependsOn q d → d ∈ earlier := by
  obtain ⟨p', hrun, hhanded, -⟩ := exists_run_overtakingImages
  refine ⟨p', hrun, hhanded, pipeline_in_order fresh_idlePipeline run_updates at_updatedPipeline rfl
    rfl isSchedule_hashedImage (by decide) hrun fun e he name => ⟨[], ?_⟩⟩
  simp only [overtakingImages, List.mem_cons, List.not_mem_nil, or_false] at he
  rcases he with rfl | rfl | rfl | rfl | rfl | rfl | rfl | rfl | rfl | rfl | rfl <;> rfl

end FactCore
