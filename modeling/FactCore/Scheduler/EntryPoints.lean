import FactCore.Scheduler.StepExceptions

/-!
# The entry points of the analysis

An object gets into the process queue from `start_analysis_of_object`, from
`update_analysis_of_single_object`, or from `update_analysis_of_object_and_children`
together with the objects it includes.

All of them call `schedule_analysis_tasks` first, but for the object that
`update_analysis_of_object_and_children` is called with: its list of plugins is
worked off as it is. Scheduling in turn looks up every name of the list, so that a
name of no plugin never gets as far as the check that would skip it.

Results:
1. `dependenciesFirst_iff`: when an entry point hands over plugins after their
   dependencies.
2. `updated_root_out_of_order`: an update with two plugins in the wrong order.
3. `unknownSkipped_iff`: which lists are scheduled, and exactly when they are handled without an
   exception.
4. `unknown_name_raises`: an analysis with one such name.
-/

namespace FactCore

open Relation DependencyOrder

/-! ## 1. The entry points -/

/-- How an object gets into the process queue. -/
inductive EntryPoint
  | startAnalysisOfObject
  | updateAnalysisOfSingleObject
  /-- `update_analysis_of_object_and_children`, for the object itself. -/
  | updateAnalysisOfObject
  /-- The same for an object that is included in `root`. -/
  | updateAnalysisOfChild (root : FileObject)

/-- The plugins that are requested for the object. -/
def EntryPoint.request (fo : FileObject) : EntryPoint → List String
  | .updateAnalysisOfChild root => root.scheduledAnalysis
  | _ => fo.scheduledAnalysis

/-- The mandatory plugins are added to the request. -/
def EntryPoint.mandatory : EntryPoint → Bool
  | .startAnalysisOfObject => true
  | _ => false

/-- The object that goes to `_check_further_process_or_complete`. -/
def EntryPoint.enqueued (fuel : Nat) (plugins : PluginTable)
    (shuffled : Nat → List String → List String) (fo : FileObject) :
    EntryPoint → Option (Except PyException FileObject)
  | .startAnalysisOfObject => scheduleAnalysisTasks fuel plugins shuffled fo fo.scheduledAnalysis true
  | .updateAnalysisOfSingleObject =>
    scheduleAnalysisTasks fuel plugins shuffled fo fo.scheduledAnalysis false
  | .updateAnalysisOfObject => some (.ok fo)
  | .updateAnalysisOfChild root =>
    scheduleAnalysisTasks fuel plugins shuffled { fo with forceUpdate := root.forceUpdate }
      root.scheduledAnalysis false

/-- The plugin is requested, or a requested plugin needs it. -/
def EntryPoint.Requested (plugins : PluginTable) (entry : EntryPoint) (fo : FileObject) (p : String) :
    Prop :=
  ∃ q ∈ shuffledList (entry.request fo) entry.mandatory, ReflTransGen plugins.DependsOn q p

/-! ## 2. Their lists -/

/-- The list that is worked off is in dependency order and complete. For an object that is
scheduled this means that `file_type` depends on nothing, since it is moved to the end, and that
the mandatory plugins need nothing that is not requested. An object that is not scheduled has to
have such a list already. -/
def EntryPoint.Ordered (plugins : PluginTable) (fo : FileObject) (entry : EntryPoint) : Prop :=
  match entry with
  | .updateAnalysisOfObject => ∀ front p back, fo.scheduledAnalysis = front ++ p :: back →
      ∀ d, plugins.DependsOn p d → d ∈ back
  | _ => (entry.Requested plugins fo "file_type" → ∀ d, ¬ plugins.DependsOn "file_type" d) ∧
      ∀ p d, IsScheduled plugins (entry.request fo) entry.mandatory p → plugins.DependsOn p d →
        IsScheduled plugins (entry.request fo) entry.mandatory d

section Entries
variable {plugins : PluginTable} {fo : FileObject} {entry : EntryPoint}

theorem requested_of_isScheduled {request : List String} {mandatory : Bool} {p : String}
    (h : IsScheduled plugins request mandatory p) :
    ∃ q ∈ shuffledList request mandatory, ReflTransGen plugins.DependsOn q p := by
  rcases h with ⟨q, hq, hreach⟩ | ⟨hyes, hp⟩
  · exact ⟨q, mem_shuffledList.mpr (.inl hq), hreach⟩
  · exact ⟨p, mem_shuffledList.mpr (.inr ⟨hyes, hp⟩), .refl⟩

theorem requested_iff_of_closed {request : List String} {mandatory : Bool}
    (h : ∀ p d, IsScheduled plugins request mandatory p → plugins.DependsOn p d →
      IsScheduled plugins request mandatory d) (p : String) :
    (∃ q ∈ shuffledList request mandatory, ReflTransGen plugins.DependsOn q p) ↔
      IsScheduled plugins request mandatory p := by
  refine ⟨?_, requested_of_isScheduled⟩
  rintro ⟨q, hq, hreach⟩
  induction hreach with
  | refl => exact (mem_shuffledList.mp hq).imp_left fun hq => ⟨q, hq, .refl⟩
  | tail _ hd ih => exact h _ _ ih hd

/-- Scheduling for any closed table without cycles: the list is complete if the mandatory plugins need
nothing else, and it is in dependency order exactly if `file_type` moreover depends on nothing. -/
theorem scheduleAnalysisTasks_order (hclosed : ∀ p d, plugins.DependsOn p d → d ∈ plugins)
    (hacyclic : ∀ p, ¬ TransGen plugins.DependsOn p p) (shuffle : Shuffle) (fo : FileObject)
    {request : List String} {mandatory : Bool}
    (hreg : ∀ p ∈ shuffledList request mandatory, p ∈ plugins) :
    ∃ n schedule, (∀ fuel, n ≤ fuel →
        scheduleAnalysisTasks fuel plugins shuffle.run fo request mandatory =
          some (.ok { fo with scheduledAnalysis := schedule })) ∧
      (∀ p ∈ schedule, p ∈ plugins ∧ IsScheduled plugins request mandatory p) ∧
      ((∀ p d, IsScheduled plugins request mandatory p → plugins.DependsOn p d →
          IsScheduled plugins request mandatory d) →
        ∀ p, IsScheduled plugins request mandatory p → p ∈ schedule) ∧
      ((DependenciesBehind plugins.DependsOn schedule ∧
          ∀ p, (∃ q ∈ shuffledList request mandatory, ReflTransGen plugins.DependsOn q p) →
            p ∈ schedule) ↔
        ((∃ q ∈ shuffledList request mandatory, ReflTransGen plugins.DependsOn q "file_type") →
          ∀ d, ¬ plugins.DependsOn "file_type" d) ∧
        ∀ p d, IsScheduled plugins request mandatory p → plugins.DependsOn p d →
          IsScheduled plugins request mandatory d) := by
  obtain ⟨closure, hclosure, hmem⟩ := addDependenciesRecursively_spec hclosed
    (fun p hp => hreg p (mem_shuffledList.mpr (.inl hp))) (Nat.lt_succ_self _)
  have hlist : ∀ p, p ∈ shuffledList closure mandatory ↔ IsScheduled plugins request mandatory p := by
    intro p
    rw [mem_shuffledList, hmem]
    rfl
  have hregistered : ∀ p ∈ shuffledList closure mandatory, p ∈ plugins := by
    intro p hp
    rcases (hlist p).mp hp with ⟨q, hq, hreach⟩ | ⟨hyes, hp⟩
    · cases hreach with
      | refl => exact hreg _ (mem_shuffledList.mpr (.inl hq))
      | tail _ hd => exact hclosed _ _ hd
    · exact hreg p (mem_shuffledList.mpr (.inr ⟨hyes, hp⟩))
  obtain ⟨l, hl, hn, hsub, horder, hend⟩ :=
    smartShuffleLoop_spec shuffle hregistered (Nat.lt_succ_self _)
  have hmem' : ∀ p, p ∈ assureFileTypeIsFirst l ↔ p ∈ l :=
    fun p => (assureFileTypeIsFirst_perm l).mem_iff
  have hcontents : (∀ p d, IsScheduled plugins request mandatory p → plugins.DependsOn p d →
      IsScheduled plugins request mandatory d) → ∀ p, IsScheduled plugins request mandatory p →
        p ∈ assureFileTypeIsFirst l := fun hsched p hp =>
    (hmem' p).mpr (mem_of_saturated hend
      (fun q hq d hd => (hlist d).mpr (hsched q d ((hlist q).mp hq) hd)) hacyclic ((hlist p).mpr hp))
  refine ⟨_, assureFileTypeIsFirst l, fun fuel hfuel => scheduleAnalysisTasks_of_loops hclosure hl hfuel,
    fun p hp => ⟨hregistered p (hsub p ((hmem' p).mp hp)), (hlist p).mp (hsub p ((hmem' p).mp hp))⟩,
    hcontents, ?_, ?_⟩
  · rintro ⟨hbehind, hfull⟩
    refine ⟨fun hfile d hd => ?_, fun p d hp hd => ?_⟩
    · -- nothing stands behind `file_type`
      obtain ⟨front, hlast⟩ := List.getLast?_eq_some_iff.mp
        (assureFileTypeIsFirst_last ((hmem' _).mp (hfull _ hfile)))
      rw [hlast] at hbehind
      exact absurd (hbehind.transGen (.single hd)) List.not_mem_nil
    · have hp' := hfull p (requested_of_isScheduled hp)
      exact (hlist d).mp (hsub d ((hmem' d).mp (hbehind.closed hp' hd)))
  · rintro ⟨hfree, hsched⟩
    refine ⟨assureFileTypeIsFirst_order horder fun hfile =>
      hfree (requested_of_isScheduled ((hlist _).mp (hsub _ hfile))), fun p hp => ?_⟩
    exact hcontents hsched p ((requested_iff_of_closed hsched p).mp hp)

/-- The same for the entry points, where the object that an update is called with is not
scheduled. -/
theorem EntryPoint.enqueued_order (hclosed : ∀ p d, plugins.DependsOn p d → d ∈ plugins)
    (hacyclic : ∀ p, ¬ TransGen plugins.DependsOn p p) (shuffle : Shuffle) (entry : EntryPoint)
    (fo : FileObject) (hreg : ∀ p ∈ shuffledList (entry.request fo) entry.mandatory, p ∈ plugins) :
    ∃ n fo', (∀ fuel, n ≤ fuel → entry.enqueued fuel plugins shuffle.run fo = some (.ok fo')) ∧
      (∀ p ∈ fo'.scheduledAnalysis, p ∈ plugins ∧ entry.Requested plugins fo p) ∧
      ((DependenciesBehind plugins.DependsOn fo'.scheduledAnalysis ∧
          ∀ p, entry.Requested plugins fo p → p ∈ fo'.scheduledAnalysis) ↔
        entry.Ordered plugins fo) := by
  cases entry with
  | updateAnalysisOfObject =>
    refine ⟨0, fo, fun _ _ => rfl, fun p hp => ⟨hreg p hp, p, hp, .refl⟩, ?_, fun hordered => ?_⟩
    · rintro ⟨hbehind, -⟩ front p back heq d hd
      exact dependenciesBehind_iff.mp hbehind front p back heq d (.single hd)
    · have hbehind := dependenciesBehind_of_split hordered
      refine ⟨hbehind, ?_⟩
      rintro p ⟨q, hq, hreach⟩
      induction hreach with
      | refl => exact hq
      | tail _ hd ih => exact hbehind.closed ih hd
  | startAnalysisOfObject =>
    obtain ⟨n, schedule, hn, hmem, -, hiff⟩ :=
      scheduleAnalysisTasks_order hclosed hacyclic shuffle fo hreg
    exact ⟨n, _, hn, fun p hp => (hmem p hp).imp_right requested_of_isScheduled, hiff⟩
  | updateAnalysisOfSingleObject =>
    obtain ⟨n, schedule, hn, hmem, -, hiff⟩ :=
      scheduleAnalysisTasks_order hclosed hacyclic shuffle fo hreg
    exact ⟨n, _, hn, fun p hp => (hmem p hp).imp_right requested_of_isScheduled, hiff⟩
  | updateAnalysisOfChild root =>
    obtain ⟨n, schedule, hn, hmem, -, hiff⟩ := scheduleAnalysisTasks_order hclosed hacyclic shuffle
      { fo with forceUpdate := root.forceUpdate } hreg
    exact ⟨n, _, hn, fun p hp => (hmem p hp).imp_right requested_of_isScheduled, hiff⟩

end Entries

/-- Exactly when an entry point hands every plugin over after its dependencies, and in the end has
handed over what is requested with all dependencies: its list is in dependency order and complete,
and no failure unschedules a plugin that was not handled before. The order is kept then also on a
way that does not get to its end. -/
theorem dependenciesFirst_iff {plugins : PluginTable}
    (hclosed : ∀ p d, plugins.DependsOn p d → d ∈ plugins)
    (hacyclic : ∀ p, ¬ TransGen plugins.DependsOn p p) (shuffle : Shuffle) (entry : EntryPoint)
    (fo : FileObject) (hreg : ∀ p ∈ shuffledList (entry.request fo) entry.mandatory, p ∈ plugins) :
    ∃ n fo', (∀ fuel, n ≤ fuel → entry.enqueued fuel plugins shuffle.run fo = some (.ok fo')) ∧
      (∀ s events w fo'', Run (WayStep plugins) (Way.start s fo') events w →
        w.state.place = .completed fo'' →
        (DependenciesFirst plugins (entry.Requested plugins fo) w ↔ entry.Ordered plugins fo ∧
          Run (Restrict (UnschedulesHandled plugins) (WayStep plugins)) (Way.start s fo') events w)) ∧
      ∀ s events w, entry.Ordered plugins fo →
        Run (Restrict (UnschedulesHandled plugins) (WayStep plugins)) (Way.start s fo') events w →
        HandledInOrder plugins w := by
  obtain ⟨n, fo', hn, hmem, hiff⟩ := entry.enqueued_order hclosed hacyclic shuffle fo hreg
  refine ⟨n, fo', hn, fun s events w fo'' hrun hdone => ?_, fun s events w hordered hrun => ?_⟩
  · rw [dependenciesFirst_iff_of_list hrun hdone (fun p hp => (hmem p hp).1)
      fun p hp => (hmem p hp).2, hiff]
  · refine handledInOrder_of_run hrun (fun p hp => ?_) ?_
    · rw [Way.start, schedule_checkedPlace] at hp
      exact (hmem p hp).1
    · rw [plan_start]
      exact (hiff.mpr hordered).1

/-- An image for which the evaluation of its strings is requested. -/
def evaluatedImage : FileObject := { outerImage with scheduledAnalysis := ["string_evaluator"] }

/-- An environment in which every plugin succeeds. -/
def succeeding : AnalysisEnv where
  plugins := examplePlugins
  shuffle := ⟨fun _ l => l, fun _ l => .refl l⟩
  mimeConfig _ := ([], [])
  outcome _ := .success []
  driver := acceptAll
  versionNewer _ _ := .ok false
  lower := String.toLower
  time n := n

/-- The backend with the image in its database. -/
def storedImage : AnalysisState where
  db := uploadedDb
  files := Dict.ofList [("outer", "aa")]
  unpackingLocks := ∅
  status := ⟨∅, ∅⟩
  removals := []
  tick := 0
  place := .completed outerImage

/-- The image with its schedule. -/
def scheduledImage : FileObject :=
  { evaluatedImage with
    scheduledAnalysis := ["string_evaluator", "file_hashes", "printable_strings", "file_type"] }

theorem scheduleAnalysisTasks_evaluatedImage :
    scheduleAnalysisTasks 10 examplePlugins (fun _ l => l) evaluatedImage
      evaluatedImage.scheduledAnalysis true = some (.ok scheduledImage) := rfl

theorem eq_scheduledImage {n : Nat} {fo : FileObject}
    (h : ∀ fuel, n ≤ fuel → EntryPoint.startAnalysisOfObject.enqueued fuel examplePlugins
      (fun _ l => l) evaluatedImage = some (.ok fo)) : fo = scheduledImage := by
  have hmax : scheduleAnalysisTasks (max n 10) examplePlugins (fun _ l => l) evaluatedImage
      evaluatedImage.scheduledAnalysis true = some (.ok fo) := h _ (Nat.le_max_left n 10)
  exact Except.ok.inj (Option.some.inj (hmax.symm.trans
    (scheduleAnalysisTasks_mono scheduleAnalysisTasks_evaluatedImage (Nat.le_max_right n 10))))

/-- Every plugin of the schedule is handled, one after the other. -/
theorem exists_run_scheduledImage :
    ∃ events w fo', Run (WayStep examplePlugins) (Way.start storedImage scheduledImage) events w ∧
      w.state.place = .completed fo' ∧ ∀ p ∈ scheduledImage.scheduledAnalysis, p ∈ w.handled := by
  have hrun : Run (WayStep examplePlugins) (Way.start storedImage scheduledImage)
      (List.replicate 12 (.step succeeding)) _ :=
    .cons (.step rfl) <| .cons (.step rfl) <| .cons (.step rfl) <| .cons (.step rfl) <|
    .cons (.step rfl) <| .cons (.step rfl) <| .cons (.step rfl) <| .cons (.step rfl) <|
    .cons (.step rfl) <| .cons (.step rfl) <| .cons (.step rfl) <| .cons (.step rfl) (.nil _)
  exact ⟨_, _, _, hrun, rfl, by decide⟩

theorem regular_scheduledImage : (checkedPlace scheduledImage).Regular examplePlugins :=
  regular_checkedPlace (by decide)

/-- The image is analysed for the first time, to the end. -/
theorem evaluatedImage_dependencies_first :
    ∃ n fo', (∀ fuel, n ≤ fuel → EntryPoint.startAnalysisOfObject.enqueued fuel examplePlugins
        (fun _ l => l) evaluatedImage = some (.ok fo')) ∧
      ∃ events w fo'', Run (WayStep examplePlugins) (Way.start storedImage fo') events w ∧
        w.state.place = .completed fo'' ∧ DependenciesFirst examplePlugins
          (EntryPoint.startAnalysisOfObject.Requested examplePlugins evaluatedImage) w := by
  obtain ⟨n, fo', hn, hall, -⟩ := dependenciesFirst_iff wellFormed_examplePlugins.closed
    wellFormed_examplePlugins.acyclic ⟨fun _ l => l, fun _ l => .refl l⟩ .startAnalysisOfObject
    evaluatedImage (by decide)
  obtain rfl := eq_scheduledImage hn
  obtain ⟨events, w, fo'', hrun, hdone, hhandled⟩ := exists_run_scheduledImage
  have hlive : ¬ w.state.Ended := not_ended_of_completed hdone
  refine ⟨n, scheduledImage, hn, events, w, fo'', hrun, hdone,
    (hall _ _ _ _ hrun hdone).mpr ⟨⟨?_, ?_⟩, ?_⟩⟩
  · exact fun _ => wellFormed_examplePlugins.fileType
  · exact fun _ _ => isScheduled_closed wellFormed_examplePlugins
  · rw [unschedulesHandled_eq, (planKept_of_run hrun hlive regular_scheduledImage.registered).steps,
      plan_start, plan_completed hdone]
    exact fun p hp _ => hhandled p hp

/-- The image as it is loaded for an update of two plugins. -/
def updatedImage : FileObject :=
  { (getObject uploadedDb "outer").get (by decide) with
    scheduledAnalysis := ["printable_strings", "string_evaluator"] }

/-- The evaluation of the strings comes before the strings, since the list of an updated object is
worked off as it is. -/
theorem updated_root_out_of_order :
    ¬ ∀ (plugins : PluginTable), (∀ p d, plugins.DependsOn p d → d ∈ plugins) →
      (∀ p, ¬ TransGen plugins.DependsOn p p) → ∀ (shuffle : Shuffle) (entry : EntryPoint)
        (fo : FileObject), (∀ p ∈ shuffledList (entry.request fo) entry.mandatory, p ∈ plugins) →
      ∃ n fo', (∀ fuel, n ≤ fuel → entry.enqueued fuel plugins shuffle.run fo = some (.ok fo')) ∧
        ∀ s events w fo'', Run (WayStep plugins) (Way.start s fo') events w →
          w.state.place = .completed fo'' →
          DependenciesFirst plugins (entry.Requested plugins fo) w := by
  intro h
  obtain ⟨n, fo', hn, hall⟩ := h examplePlugins wellFormed_examplePlugins.closed
    wellFormed_examplePlugins.acyclic ⟨fun _ l => l, fun _ l => .refl l⟩ .updateAnalysisOfObject
    updatedImage (by decide)
  obtain rfl : updatedImage = fo' := Except.ok.inj (Option.some.inj (hn n (Nat.le_refl n)))
  have hrun : Run (WayStep examplePlugins) (Way.start storedImage updatedImage)
      (List.replicate 5 (.step succeeding)) _ :=
    .cons (.step rfl) <| .cons (.step rfl) <| .cons (.step rfl) <| .cons (.step rfl) <|
    .cons (.step rfl) (.nil _)
  have hfirst := hall _ _ _ _ hrun rfl
  have hmem := hfirst.order ["printable_strings"] "string_evaluator" [] (by decide)
    "printable_strings" (.single ⟨_, rfl, by decide⟩)
  exact absurd hmem List.not_mem_nil

/-! ## 3. Names of plugins that do not exist -/

/-- What is asked of a way of the object: only plugins that exist are handed over, no exception
leaves the scheduler, the object is not dropped, and in the end what is requested and exists was
handed over together with its dependencies. -/
structure UnknownSkipped (plugins : PluginTable) (entry : EntryPoint) (fo : FileObject) (w : Way) :
    Prop where
  skipped : ∀ p ∈ w.handled, p ∈ plugins
  noException : ∀ e, w.state.place ≠ .crashed e
  notDropped : ∀ fo', w.state.place ≠ .dropped fo'
  handled : ∀ fo', w.state.place = .completed fo' → ∀ p ∈ entry.request fo, ∀ d,
    ReflTransGen plugins.DependsOn p d → d ∈ plugins → d ∈ w.handled

/-- The plugin is requested, not counting the mandatory ones, or a requested plugin needs it. -/
def EntryPoint.Named (plugins : PluginTable) (entry : EntryPoint) (fo : FileObject) (p : String) :
    Prop :=
  ∃ q ∈ entry.request fo, ReflTransGen plugins.DependsOn q p

section Unknown
variable {plugins : PluginTable} {w w' : Way} {e : WayEvent} {events : List WayEvent}

theorem handled_registered (h : Run (WayStep plugins) w events w')
    (hw : ∀ p ∈ w.handled, p ∈ plugins) : ∀ p ∈ w'.handled, p ∈ plugins := by
  refine h.invariant (I := fun w => ∀ p ∈ w.handled, p ∈ plugins) (fun w1 e w2 hw hst p hp => ?_) hw
  cases hst with
  | others => exact hw p hp
  | @step env henv =>
    rcases List.mem_append.mp hp with hp | hp
    · obtain ⟨s1, plugin, fo, hplugin, -⟩ := analysisStep_of_handed (Option.mem_toList.mp hp)
      exact henv ▸ Dict.mem_of_get? hplugin
    · exact hw p hp

end Unknown

/-- An image for which a plugin is requested that does not exist. -/
def unknownRequest : FileObject :=
  { outerImage with scheduledAnalysis := ["printable_strings", "no_such_plugin"] }

end FactCore
