import Mathlib.Data.List.Dedup
import FactCore.Lib.DependencyOrder
import FactCore.Lib.WhileLoop
import FactCore.Unpacker

/-!
# The schedule of an object

`src/src/scheduler/task_scheduler.py`. A request for plugins is closed under
dependencies, and put in an order in which the plugins are taken from the end of
the list. Both are fixpoint loops; the second one puts a layer of plugins whose
dependencies are met in front of the list, in random order, until none remains.

A Python set is a list without duplicates here. The order in which a set is
iterated over does not matter, since each layer is shuffled anyway.

When the run of a plugin has failed, the plugins that depend on it are taken out of
the schedule.

Results:
1. `addDependenciesRecursively_spec`: the closure of the request.
2. `smartShuffleLoop_spec`: a dependency order of a list of plugins, which leaves
   out no plugin that it could hold.
3. `scheduleAnalysisTasks_spec`: the whole of `schedule_analysis_tasks`.
4. `scheduleAnalysisTasks_total`, `scheduleAnalysisTasks_raises`: when scheduling
   raises no exception.
5. `rescheduleFailedAnalysisTask_ok`: what is left of the schedule after a failure.
-/

namespace FactCore

open Relation DependencyOrder WhileLoop

/-- What the schedulers read of an analysis plugin. -/
structure Plugin where
  version : String
  systemVersion : Option String
  dependencies : List String
  mimeBlacklist : List String
  mimeWhitelist : List String
  recursive : Bool

/-- The plugins by their names. -/
abbrev PluginTable := Dict String Plugin

/-- `MANDATORY_PLUGINS`. -/
def mandatoryPlugins : List String := ["file_type", "file_hashes"]

namespace PluginTable

/-- `self.plugins[name]`. -/
def lookup (plugins : PluginTable) (name : String) : Except PyException Plugin :=
  match plugins.get? name with
  | some plugin => .ok plugin
  | none => .error (.keyError name)

/-- The plugin `name` names `dependency` in its `DEPENDENCIES`. -/
def DependsOn (plugins : PluginTable) (name dependency : String) : Prop :=
  ∃ plugin, plugins.get? name = some plugin ∧ dependency ∈ plugin.dependencies

end PluginTable

/-! ## 1. Definitions -/

/-- The plugins of the list all of whose dependencies are in `scheduledPlugins`. -/
def getPluginsWithMetDependencies (plugins : PluginTable) (scheduledPlugins : List String) :
    List String → Except PyException (List String)
  | [] => .ok []
  | name :: remainingPlugins => do
    let plugin ← plugins.lookup name
    let met ← getPluginsWithMetDependencies plugins scheduledPlugins remainingPlugins
    return if plugin.dependencies.all fun d => decide (d ∈ scheduledPlugins) then name :: met else met

/-- The dependencies of the plugins of the list, one after the other. -/
def cumulativeDependencies (plugins : PluginTable) : List String → Except PyException (List String)
  | [] => .ok []
  | name :: names => do
    let plugin ← plugins.lookup name
    let dependencies ← cumulativeDependencies plugins names
    return plugin.dependencies ++ dependencies

/-- `get_cumulative_remaining_dependencies`. -/
def getCumulativeRemainingDependencies (plugins : PluginTable) (scheduledAnalyses : List String) :
    Except PyException (List String) :=
  (cumulativeDependencies plugins scheduledAnalyses).map fun dependencies =>
    dependencies.dedup.filter fun d => decide (d ∉ scheduledAnalyses)

/-- One round of `_add_dependencies_recursively`. -/
def addDependenciesRound (plugins : PluginTable) (scheduledAnalysesSet : List String) :
    Except PyException (Round (List String) (List String)) := do
  let newDependencies ← getCumulativeRemainingDependencies plugins scheduledAnalysesSet
  return if newDependencies.isEmpty then .done scheduledAnalysesSet
    else .next (scheduledAnalysesSet ++ newDependencies)

/-- `_add_dependencies_recursively`. -/
def addDependenciesRecursively (fuel : Nat) (plugins : PluginTable)
    (scheduledAnalyses : List String) : Option (Except PyException (List String)) :=
  whileLoop (addDependenciesRound plugins) fuel scheduledAnalyses.dedup

/-- The variables of the loop in `_smart_shuffle`, and the number of the round. -/
structure Shuffling where
  round : Nat
  scheduledPlugins : List String
  remainingPlugins : List String

/-- One round of the loop in `_smart_shuffle`; `shuffled n` is the behaviour of `shuffled` in the
round `n`. -/
def smartShuffleRound (plugins : PluginTable) (shuffled : Nat → List String → List String)
    (s : Shuffling) : Except PyException (Round Shuffling (List String)) :=
  if s.remainingPlugins.isEmpty then .ok (.done s.scheduledPlugins)
  else do
    let nextPlugins ← getPluginsWithMetDependencies plugins s.scheduledPlugins s.remainingPlugins
    return if nextPlugins.isEmpty then .done s.scheduledPlugins
      else .next {
        round := s.round + 1
        scheduledPlugins := shuffled s.round nextPlugins ++ s.scheduledPlugins
        remainingPlugins := s.remainingPlugins.filter fun p => decide (p ∉ nextPlugins) }

/-- The end of `_smart_shuffle`: `file_type` is moved to the end of the list. -/
def assureFileTypeIsFirst (scheduledPlugins : List String) : List String :=
  if "file_type" ∈ scheduledPlugins ∧ scheduledPlugins.getLast? ≠ some "file_type" then
    scheduledPlugins.erase "file_type" ++ ["file_type"]
  else scheduledPlugins

/-- `_smart_shuffle`. -/
def smartShuffle (fuel : Nat) (plugins : PluginTable) (shuffled : Nat → List String → List String)
    (pluginList : List String) : Option (Except PyException (List String)) :=
  (whileLoop (smartShuffleRound plugins shuffled) fuel ⟨0, [], pluginList.dedup⟩).map fun r =>
    r.map assureFileTypeIsFirst

/-- `schedule_analysis_tasks`. -/
def scheduleAnalysisTasks (fuel : Nat) (plugins : PluginTable)
    (shuffled : Nat → List String → List String) (fo : FileObject) (scheduledAnalysis : List String)
    (mandatory : Bool) : Option (Except PyException FileObject) :=
  match addDependenciesRecursively fuel plugins scheduledAnalysis with
  | none => none
  | some (.error e) => some (.error e)
  | some (.ok scheduled) =>
    (smartShuffle fuel plugins shuffled
      (if mandatory then scheduled ++ mandatoryPlugins else scheduled)).map fun r =>
        r.map fun schedule => { fo with scheduledAnalysis := schedule }

/-- `_get_failed_analysis_result`. -/
def getFailedAnalysisResult (plugins : PluginTable) (now : Rat) (cause plugin : String) :
    Except PyException PyVal :=
  (plugins.lookup plugin).map fun p =>
    .dict [("failed", .str cause), ("plugin_version", .str p.version), ("analysis_date", .num now)]

/-- One round of the loop in `reschedule_failed_analysis_task`. -/
def unscheduleDependent (plugins : PluginTable) (now : Rat) (failedPlugin : String)
    (fwObject : FileObject) (plugin : String) : Except PyException FileObject := do
  let p ← plugins.lookup plugin
  if failedPlugin ∉ p.dependencies then return fwObject
  else
    let result ← getFailedAnalysisResult plugins now
      ("Analysis of dependency " ++ failedPlugin ++ " failed") plugin
    return { fwObject with
      scheduledAnalysis := fwObject.scheduledAnalysis.erase plugin
      processedAnalysis := fwObject.processedAnalysis.set plugin result }

/-- `reschedule_failed_analysis_task`. -/
def rescheduleFailedAnalysisTask (plugins : PluginTable) (now : Rat) (fwObject : FileObject) :
    Except PyException FileObject :=
  match fwObject.analysisException with
  | none => .error (.typeError "cannot unpack non-iterable NoneType object")
  | some (failedPlugin, cause) => do
    let result ← getFailedAnalysisResult plugins now cause failedPlugin
    let fo ← fwObject.scheduledAnalysis.foldlM (unscheduleDependent plugins now failedPlugin)
      { fwObject with processedAnalysis := fwObject.processedAnalysis.set failedPlugin result }
    return { fo with analysisException := none }

/-! ## 2. What is assumed and what is shown -/

/-- The plugin table: every dependency is a plugin, there are no cycles, and the mandatory plugins
depend on nothing but `file_type`. -/
structure PluginTable.WellFormed (plugins : PluginTable) : Prop where
  closed : ∀ p d, plugins.DependsOn p d → d ∈ plugins
  acyclic : ∀ p, ¬ TransGen plugins.DependsOn p p
  fileType : ∀ d, ¬ plugins.DependsOn "file_type" d
  fileHashes : ∀ d, plugins.DependsOn "file_hashes" d → d = "file_type"

/-- What `shuffled` may do: permute the list of each round. -/
structure Shuffle where
  run : Nat → List String → List String
  perm : ∀ n l, (run n l).Perm l

/-- The plugin is requested or needed by a request, or mandatory. -/
def IsScheduled (plugins : PluginTable) (request : List String) (mandatory : Bool) (p : String) :
    Prop :=
  (∃ q ∈ request, ReflTransGen plugins.DependsOn q p) ∨ (mandatory = true ∧ p ∈ mandatoryPlugins)

/-- A correct schedule for a request. It is worked off from its end. -/
structure IsSchedule (plugins : PluginTable) (request : List String) (mandatory : Bool)
    (schedule : List String) : Prop where
  nodup : schedule.Nodup
  contents : ∀ p, p ∈ schedule ↔ IsScheduled plugins request mandatory p
  order : ∀ later p earlier, schedule = later ++ p :: earlier →
    ∀ d, TransGen plugins.DependsOn p d → d ∈ earlier
  fileTypeFirst : "file_type" ∈ schedule → schedule.getLast? = some "file_type"

section Specs
variable {plugins : PluginTable} {names scheduled : List String}

/-! ## 3. Reading the plugin table -/

theorem lookup_ok {name : String} (h : name ∈ plugins) :
    ∃ plugin, plugins.lookup name = .ok plugin ∧
      ∀ d, plugins.DependsOn name d ↔ d ∈ plugin.dependencies := by
  obtain ⟨plugin, hplugin⟩ := Dict.mem_iff.mp h
  refine ⟨plugin, by rw [PluginTable.lookup, hplugin], fun d => ⟨?_, fun hd => ⟨plugin, hplugin, hd⟩⟩⟩
  rintro ⟨plugin', hplugin', hd⟩
  obtain rfl := Option.some.inj (hplugin.symm.trans hplugin')
  exact hd

theorem lookup_of_not_registered {name : String} (h : name ∉ plugins) :
    plugins.lookup name = .error (.keyError name) := by
  rw [PluginTable.lookup, Dict.get?_eq_none_iff.mpr h]

theorem getPluginsWithMetDependencies_ok (h : ∀ p ∈ names, p ∈ plugins) :
    ∃ met, getPluginsWithMetDependencies plugins scheduled names = .ok met ∧ met.Sublist names ∧
      ∀ p, p ∈ met ↔ p ∈ names ∧ ∀ d, plugins.DependsOn p d → d ∈ scheduled := by
  induction names with
  | nil => exact ⟨[], rfl, List.Sublist.refl [], by simp⟩
  | cons name names ih =>
    obtain ⟨plugin, hlookup, hdep⟩ := lookup_ok (h name List.mem_cons_self)
    obtain ⟨met, hmet, hsub, hmem⟩ := ih fun p hp => h p (List.mem_cons_of_mem _ hp)
    have hall : (plugin.dependencies.all fun d => decide (d ∈ scheduled)) = true ↔
        ∀ d, plugins.DependsOn name d → d ∈ scheduled := by
      simp [hdep]
    unfold getPluginsWithMetDependencies
    rw [hlookup, hmet]
    refine ⟨_, rfl, ?_⟩
    split
    · next hyes =>
      refine ⟨hsub.cons_cons name, fun p => ?_⟩
      rw [List.mem_cons, List.mem_cons, hmem, or_and_right]
      refine or_congr_left ⟨?_, And.left⟩
      rintro rfl
      exact ⟨rfl, hall.mp hyes⟩
    · next hno =>
      refine ⟨hsub.cons name, fun p => ?_⟩
      rw [hmem, List.mem_cons, or_and_right]
      refine (or_iff_right ?_).symm
      rintro ⟨rfl, hmeets⟩
      exact hno (hall.mpr hmeets)

theorem cumulativeDependencies_ok (h : ∀ p ∈ names, p ∈ plugins) :
    ∃ dependencies, cumulativeDependencies plugins names = .ok dependencies ∧
      ∀ d, d ∈ dependencies ↔ ∃ p ∈ names, plugins.DependsOn p d := by
  induction names with
  | nil => exact ⟨[], rfl, by simp⟩
  | cons name names ih =>
    obtain ⟨plugin, hlookup, hdep⟩ := lookup_ok (h name List.mem_cons_self)
    obtain ⟨rest, hrest, hmem⟩ := ih fun p hp => h p (List.mem_cons_of_mem _ hp)
    refine ⟨plugin.dependencies ++ rest, ?_, fun d => ?_⟩
    · rw [cumulativeDependencies, hlookup, hrest]
      rfl
    · rw [List.mem_append, hmem, ← hdep, List.exists_mem_cons_iff]

/-- A loop that looks up each of its names raises an exception at one that is not registered. -/
theorem getPluginsWithMetDependencies_raises {p : String} (hp : p ∈ names) (h : p ∉ plugins) :
    ∃ e, getPluginsWithMetDependencies plugins scheduled names = .error e := by
  induction names with
  | nil => cases hp
  | cons name names ih =>
    unfold getPluginsWithMetDependencies
    rcases Decidable.em (name ∈ plugins) with hname | hname
    · obtain ⟨plugin, hlookup, -⟩ := lookup_ok hname
      obtain ⟨e, he⟩ := ih ((List.mem_cons.mp hp).resolve_left fun heq => h (heq ▸ hname))
      exact ⟨e, by rw [hlookup, he]; rfl⟩
    · exact ⟨_, by rw [lookup_of_not_registered hname]; rfl⟩

theorem cumulativeDependencies_raises {p : String} (hp : p ∈ names) (h : p ∉ plugins) :
    ∃ e, cumulativeDependencies plugins names = .error e := by
  induction names with
  | nil => cases hp
  | cons name names ih =>
    unfold cumulativeDependencies
    rcases Decidable.em (name ∈ plugins) with hname | hname
    · obtain ⟨plugin, hlookup, -⟩ := lookup_ok hname
      obtain ⟨e, he⟩ := ih ((List.mem_cons.mp hp).resolve_left fun heq => h (heq ▸ hname))
      exact ⟨e, by rw [hlookup, he]; rfl⟩
    · exact ⟨_, by rw [lookup_of_not_registered hname]; rfl⟩

theorem getCumulativeRemainingDependencies_ok (h : ∀ p ∈ names, p ∈ plugins) :
    ∃ dependencies, getCumulativeRemainingDependencies plugins names = .ok dependencies ∧
      dependencies.Nodup ∧
      ∀ d, d ∈ dependencies ↔ (∃ p ∈ names, plugins.DependsOn p d) ∧ d ∉ names := by
  obtain ⟨dependencies, hdeps, hmem⟩ := cumulativeDependencies_ok h
  unfold getCumulativeRemainingDependencies
  rw [hdeps]
  refine ⟨_, rfl, (List.nodup_dedup dependencies).filter _, fun d => ?_⟩
  rw [List.mem_filter, List.mem_dedup, hmem, decide_eq_true_iff]

/-! ## 4. The closure of a request -/

/-- What is known before each round: registered plugins, reached from the request. -/
structure PartialClosure (plugins : PluginTable) (request s : List String) : Prop where
  nodup : s.Nodup
  registered : ∀ p ∈ s, p ∈ plugins
  requested : ∀ p ∈ request, p ∈ s
  reached : ∀ p ∈ s, ∃ q ∈ request, ReflTransGen plugins.DependsOn q p

theorem PartialClosure.length_le {request s : List String} (h : PartialClosure plugins request s) :
    s.length ≤ plugins.keys.length :=
  (List.subperm_of_subset h.nodup h.registered).length_le

/-- New dependencies extend a partial closure. -/
theorem PartialClosure.append {request s new : List String} (h : PartialClosure plugins request s)
    (hclosed : ∀ p d, plugins.DependsOn p d → d ∈ plugins) (hn : new.Nodup)
    (hnew : ∀ d, d ∈ new ↔ (∃ p ∈ s, plugins.DependsOn p d) ∧ d ∉ s) :
    PartialClosure plugins request (s ++ new) where
  nodup := h.nodup.append hn fun d hds hdn => ((hnew d).mp hdn).2 hds
  registered p hp := by
    rcases List.mem_append.mp hp with hp | hp
    · exact h.registered p hp
    · obtain ⟨⟨q, -, hdep⟩, -⟩ := (hnew p).mp hp
      exact hclosed q p hdep
  requested p hp := List.mem_append_left new (h.requested p hp)
  reached p hp := by
    rcases List.mem_append.mp hp with hp | hp
    · exact h.reached p hp
    · obtain ⟨⟨q, hq, hdep⟩, -⟩ := (hnew p).mp hp
      obtain ⟨r, hr, hreach⟩ := h.reached q hq
      exact ⟨r, hr, hreach.tail hdep⟩

/-- A partial closure without new dependencies is the closure. -/
theorem PartialClosure.mem_iff {request s : List String} (h : PartialClosure plugins request s)
    (hend : ∀ p ∈ s, ∀ d, plugins.DependsOn p d → d ∈ s) (p : String) :
    p ∈ s ↔ ∃ q ∈ request, ReflTransGen plugins.DependsOn q p := by
  refine ⟨h.reached p, ?_⟩
  rintro ⟨q, hq, hreach⟩
  induction hreach with
  | refl => exact h.requested q hq
  | tail _ hdep ih => exact hend _ ih _ hdep

/-- The request is closed under dependencies, in at most as many rounds as there are plugins. -/
theorem addDependenciesRecursively_spec {request : List String} {fuel : Nat}
    (hclosed : ∀ p d, plugins.DependsOn p d → d ∈ plugins) (hreq : ∀ p ∈ request, p ∈ plugins)
    (hfuel : plugins.keys.length < fuel) :
    ∃ l, addDependenciesRecursively fuel plugins request = some (.ok l) ∧
      ∀ p, p ∈ l ↔ ∃ q ∈ request, ReflTransGen plugins.DependsOn q p := by
  have hstart : PartialClosure plugins request request.dedup :=
    ⟨request.nodup_dedup, fun p hp => hreq p (List.mem_dedup.mp hp),
      fun p hp => List.mem_dedup.mpr hp, fun p hp => ⟨p, List.mem_dedup.mp hp, .refl⟩⟩
  refine whileLoop_total (fun s => plugins.keys.length - s.length) (fun s hs => ?_) hstart
    (by omega)
  obtain ⟨new, hnew, hn, hmem⟩ := getCumulativeRemainingDependencies_ok hs.registered
  unfold addDependenciesRound
  rw [hnew]
  cases new with
  | nil =>
    -- nothing is missing: the closure is complete
    refine .inr ⟨s, rfl, hs.mem_iff fun p hp d hd => ?_⟩
    by_contra hds
    exact List.not_mem_nil ((hmem d).mpr ⟨⟨p, hp, hd⟩, hds⟩)
  | cons d new =>
    -- the closure grows, and no more than there are plugins
    have hnext := hs.append hclosed hn hmem
    have hlen := hnext.length_le
    rw [List.length_append, List.length_cons] at hlen
    refine .inl ⟨_, rfl, hnext, ?_⟩
    rw [List.length_append, List.length_cons]
    omega

/-! ## 5. Shuffling in dependency order -/

/-- What is known before each round: the list is split into an ordered part and the rest. -/
structure PartialSchedule (plugins : PluginTable) (pluginList : List String) (s : Shuffling) :
    Prop where
  scheduledNodup : s.scheduledPlugins.Nodup
  remainingNodup : s.remainingPlugins.Nodup
  disjoint : ∀ p ∈ s.scheduledPlugins, p ∉ s.remainingPlugins
  contents : ∀ p, p ∈ pluginList ↔ p ∈ s.scheduledPlugins ∨ p ∈ s.remainingPlugins
  order : DependenciesBehind plugins.DependsOn s.scheduledPlugins

/-- A layer of plugins with met dependencies extends a partial schedule. -/
theorem PartialSchedule.next {pluginList met : List String} {s : Shuffling}
    (h : PartialSchedule plugins pluginList s) (shuffle : Shuffle)
    (hsub : met.Sublist s.remainingPlugins)
    (hmet : ∀ p ∈ met, ∀ d, plugins.DependsOn p d → d ∈ s.scheduledPlugins) :
    PartialSchedule plugins pluginList {
      round := s.round + 1
      scheduledPlugins := shuffle.run s.round met ++ s.scheduledPlugins
      remainingPlugins := s.remainingPlugins.filter fun p => decide (p ∉ met) } := by
  have hperm := shuffle.perm s.round met
  refine ⟨?_, h.remainingNodup.filter _, fun p hp => ?_, fun p => ?_, ?_⟩
  · refine (hperm.nodup_iff.mpr (h.remainingNodup.sublist hsub)).append h.scheduledNodup ?_
    exact fun p hp hps => h.disjoint p hps (hsub.subset (hperm.mem_iff.mp hp))
  · simp only [List.mem_filter, decide_eq_true_eq, not_and, not_not]
    rcases List.mem_append.mp hp with hp | hp
    · exact fun _ => hperm.mem_iff.mp hp
    · exact fun hrem => absurd hrem (h.disjoint p hp)
  · rw [h.contents, List.mem_append, hperm.mem_iff, List.mem_filter, decide_eq_true_iff]
    rcases Decidable.em (p ∈ met) with hp | hp
    · exact iff_of_true (.inr (hsub.subset hp)) (.inl (.inl hp))
    · simp [hp]
  · exact h.order.layer fun p hp => hmet p (hperm.mem_iff.mp hp)

theorem PartialSchedule.start (pluginList : List String) :
    PartialSchedule plugins pluginList ⟨0, [], pluginList.dedup⟩ where
  scheduledNodup := List.nodup_nil
  remainingNodup := pluginList.nodup_dedup
  disjoint _ hp := absurd hp List.not_mem_nil
  contents p := by simp
  order := trivial

/-- A list of registered plugins is brought into dependency order, in at most as many rounds as it
has plugins. No plugin is left out whose dependencies are there. -/
theorem smartShuffleLoop_spec {pluginList : List String} {fuel : Nat} (shuffle : Shuffle)
    (hregistered : ∀ p ∈ pluginList, p ∈ plugins) (hfuel : pluginList.length < fuel) :
    ∃ l, whileLoop (smartShuffleRound plugins shuffle.run) fuel ⟨0, [], pluginList.dedup⟩ =
        some (.ok l) ∧
      l.Nodup ∧ (∀ p ∈ l, p ∈ pluginList) ∧ DependenciesBehind plugins.DependsOn l ∧
      Saturated plugins.DependsOn pluginList l := by
  have hlen : pluginList.dedup.length ≤ pluginList.length := pluginList.dedup_sublist.length_le
  refine whileLoop_total (fun s => s.remainingPlugins.length) (fun s hs => ?_)
    (@PartialSchedule.start plugins pluginList) (Nat.lt_of_le_of_lt hlen hfuel)
  have hsub : ∀ p ∈ s.scheduledPlugins, p ∈ pluginList := fun p hp => (hs.contents p).mpr (.inl hp)
  have hmember : ∀ p ∈ s.remainingPlugins, p ∈ pluginList :=
    fun p hp => (hs.contents p).mpr (.inr hp)
  unfold smartShuffleRound
  rcases Decidable.em (s.remainingPlugins = []) with hrem | hne
  · -- the loop ends with everything scheduled
    rw [hrem]
    refine .inr ⟨s.scheduledPlugins, rfl, hs.scheduledNodup, hsub, hs.order, fun p hp _ => ?_⟩
    exact ((hs.contents p).mp hp).resolve_right (hrem ▸ List.not_mem_nil)
  · obtain ⟨met, hmet, hmetSub, hmem⟩ := @getPluginsWithMetDependencies_ok plugins
      s.remainingPlugins s.scheduledPlugins fun p hp => hregistered p (hmember p hp)
    rw [hmet, List.isEmpty_eq_false_iff.mpr hne]
    cases hmetEq : met with
    | nil =>
      -- the loop gives up on the rest
      refine .inr ⟨s.scheduledPlugins, rfl, hs.scheduledNodup, hsub, hs.order, fun p hp hdeps => ?_⟩
      refine ((hs.contents p).mp hp).resolve_right fun hrem => ?_
      have hpmet : p ∈ met := (hmem p).mpr ⟨hrem, hdeps⟩
      rw [hmetEq] at hpmet
      cases hpmet
    | cons p met' =>
      rw [← hmetEq]
      have hpmet : p ∈ met := hmetEq ▸ List.mem_cons_self
      have hmetne : met.isEmpty = false := List.isEmpty_eq_false_iff.mpr (List.ne_nil_of_mem hpmet)
      refine .inl ⟨_, ?_, hs.next shuffle hmetSub fun p hp => ((hmem p).mp hp).2, ?_⟩
      · simp only [Bool.false_eq_true, if_false, bind, Except.bind, hmetne]
        rfl
      · exact List.length_filter_lt_length_iff_exists.mpr
          ⟨p, hmetSub.subset hpmet, by simpa using hpmet⟩

theorem assureFileTypeIsFirst_perm (l : List String) : (assureFileTypeIsFirst l).Perm l := by
  unfold assureFileTypeIsFirst
  split
  · next h => exact (List.perm_append_singleton _ _).trans (List.perm_cons_erase h.1).symm
  · exact .refl l

theorem assureFileTypeIsFirst_last {l : List String} (h : "file_type" ∈ l) :
    (assureFileTypeIsFirst l).getLast? = some "file_type" := by
  unfold assureFileTypeIsFirst
  split
  · exact List.getLast?_concat
  · next hno =>
    by_contra hlast
    exact hno ⟨h, hlast⟩

/-- Moving `file_type` to the end keeps a schedule in dependency order. -/
theorem assureFileTypeIsFirst_order {l : List String}
    (horder : DependenciesBehind plugins.DependsOn l)
    (hfree : "file_type" ∈ l → ∀ d, ¬ plugins.DependsOn "file_type" d) :
    DependenciesBehind plugins.DependsOn (assureFileTypeIsFirst l) := by
  unfold assureFileTypeIsFirst
  split
  · next h => exact horder.moveToEnd (hfree h.1)
  · exact horder

/-! ## 6. The list that is shuffled -/

/-- The plugins that are scheduled are registered, and so is what they depend on. -/
theorem isScheduled_registered (h : plugins.WellFormed) {request : List String} {mandatory : Bool}
    (hreq : ∀ p ∈ request, p ∈ plugins)
    (hmandatory : mandatory = true → ∀ p ∈ mandatoryPlugins, p ∈ plugins) {p : String}
    (hp : IsScheduled plugins request mandatory p) : p ∈ plugins := by
  rcases hp with ⟨q, hq, hreach⟩ | ⟨hyes, hp⟩
  · cases hreach with
    | refl => exact hreq _ hq
    | tail _ hdep => exact h.closed _ _ hdep
  · exact hmandatory hyes p hp

theorem isScheduled_closed (h : plugins.WellFormed) {request : List String} {mandatory : Bool}
    {p d : String} (hp : IsScheduled plugins request mandatory p) (hd : plugins.DependsOn p d) :
    IsScheduled plugins request mandatory d := by
  rcases hp with ⟨q, hq, hreach⟩ | ⟨hyes, hp⟩
  · exact .inl ⟨q, hq, hreach.tail hd⟩
  · rcases List.mem_cons.mp hp with rfl | hp
    · exact absurd hd (h.fileType d)
    · obtain rfl := List.mem_singleton.mp hp
      exact .inr ⟨hyes, by simp [h.fileHashes d hd, mandatoryPlugins]⟩

/-! ## 7. The whole of scheduling -/

/-- The list that `schedule_analysis_tasks` shuffles. -/
def shuffledList (closure : List String) (mandatory : Bool) : List String :=
  if mandatory then closure ++ mandatoryPlugins else closure

theorem mem_shuffledList {closure : List String} {mandatory : Bool} {p : String} :
    p ∈ shuffledList closure mandatory ↔ p ∈ closure ∨ (mandatory = true ∧ p ∈ mandatoryPlugins) := by
  cases mandatory <;> simp [shuffledList]

/-- The outcome of scheduling from the outcomes of its two loops. -/
theorem scheduleAnalysisTasks_of_loops {shuffled : Nat → List String → List String}
    {fo : FileObject} {request closure : List String} {mandatory : Bool} {fuel₁ fuel₂ fuel : Nat}
    {r : Except PyException (List String)}
    (h1 : addDependenciesRecursively fuel₁ plugins request = some (.ok closure))
    (h2 : whileLoop (smartShuffleRound plugins shuffled) fuel₂
      ⟨0, [], (shuffledList closure mandatory).dedup⟩ = some r) (hfuel : max fuel₁ fuel₂ ≤ fuel) :
    scheduleAnalysisTasks fuel plugins shuffled fo request mandatory =
      some (r.map fun l => { fo with scheduledAnalysis := assureFileTypeIsFirst l }) := by
  have h1' : addDependenciesRecursively fuel plugins request = some (.ok closure) :=
    whileLoop_mono h1 (by omega)
  have h2' : whileLoop (smartShuffleRound plugins shuffled) fuel
      ⟨0, [], (shuffledList closure mandatory).dedup⟩ = some r := whileLoop_mono h2 (by omega)
  simp only [scheduleAnalysisTasks, h1', smartShuffle]
  unfold shuffledList at h2'
  rw [h2']
  cases r <;> rfl

theorem scheduleAnalysisTasks_others {fuel : Nat} {shuffled : Nat → List String → List String}
    {fo fo' : FileObject} {request : List String} {mandatory : Bool}
    (h : scheduleAnalysisTasks fuel plugins shuffled fo request mandatory = some (.ok fo')) :
    ∃ schedule, fo' = { fo with scheduledAnalysis := schedule } := by
  unfold scheduleAnalysisTasks at h
  split at h
  · cases h
  · cases h
  · obtain ⟨r, -, hr⟩ := Option.map_eq_some_iff.mp h
    cases r with
    | error e => cases hr
    | ok schedule => exact ⟨schedule, (Except.ok.inj hr).symm⟩

/-- More rounds do not change the outcome of scheduling. -/
theorem scheduleAnalysisTasks_mono {shuffled : Nat → List String → List String} {fo : FileObject}
    {request : List String} {mandatory : Bool} {fuel fuel' : Nat}
    {r : Except PyException FileObject}
    (h : scheduleAnalysisTasks fuel plugins shuffled fo request mandatory = some r)
    (hle : fuel ≤ fuel') :
    scheduleAnalysisTasks fuel' plugins shuffled fo request mandatory = some r := by
  unfold scheduleAnalysisTasks at h ⊢
  cases hclosure : addDependenciesRecursively fuel plugins request with
  | none => rw [hclosure] at h; cases h
  | some closure =>
    have hclosure' : addDependenciesRecursively fuel' plugins request = some closure :=
      whileLoop_mono hclosure hle
    rw [hclosure] at h
    rw [hclosure']
    cases closure with
    | error e => exact h
    | ok scheduled =>
      obtain ⟨l, hl, rfl⟩ := Option.map_eq_some_iff.mp h
      obtain ⟨r, hr, rfl⟩ := Option.map_eq_some_iff.mp hl
      refine Option.map_eq_some_iff.mpr ⟨_, ?_, rfl⟩
      exact Option.map_eq_some_iff.mpr ⟨r, whileLoop_mono hr hle, rfl⟩

/-- Scheduling registered plugins ends without an exception if the table is closed. -/
theorem scheduleAnalysisTasks_total (hclosed : ∀ p d, plugins.DependsOn p d → d ∈ plugins)
    (shuffle : Shuffle) (fo : FileObject) {request : List String} (mandatory : Bool)
    (hreq : ∀ p ∈ request, p ∈ plugins)
    (hmandatory : mandatory = true → ∀ p ∈ mandatoryPlugins, p ∈ plugins) :
    ∃ n schedule, schedule.Nodup ∧ (∀ p ∈ schedule, p ∈ plugins) ∧ ∀ fuel, n ≤ fuel →
      scheduleAnalysisTasks fuel plugins shuffle.run fo request mandatory =
        some (.ok { fo with scheduledAnalysis := schedule }) := by
  obtain ⟨closure, hclosure, hmem⟩ :=
    addDependenciesRecursively_spec hclosed hreq (Nat.lt_succ_self _)
  have hregistered : ∀ p ∈ shuffledList closure mandatory, p ∈ plugins := by
    intro p hp
    rcases mem_shuffledList.mp hp with hp | ⟨hyes, hp⟩
    · obtain ⟨q, hq, hreach⟩ := (hmem p).mp hp
      cases hreach with
      | refl => exact hreq p hq
      | tail _ hdep => exact hclosed _ _ hdep
    · exact hmandatory hyes p hp
  obtain ⟨l, hl, hn, hsub, -⟩ := smartShuffleLoop_spec shuffle hregistered (Nat.lt_succ_self _)
  have hperm := assureFileTypeIsFirst_perm l
  exact ⟨_, assureFileTypeIsFirst l, hperm.nodup_iff.mpr hn,
    fun p hp => hregistered p (hsub p (hperm.mem_iff.mp hp)),
    fun fuel hfuel => scheduleAnalysisTasks_of_loops hclosure hl hfuel⟩

/-- Scheduling raises an exception if a requested plugin is not registered, since the first round of
the closure looks up every plugin of the request. -/
theorem scheduleAnalysisTasks_unregistered (shuffled : Nat → List String → List String)
    (fo : FileObject) {request : List String} (mandatory : Bool) {p : String} (hp : p ∈ request)
    (h : p ∉ plugins) : ∃ e, ∀ fuel, 1 ≤ fuel →
      scheduleAnalysisTasks fuel plugins shuffled fo request mandatory = some (.error e) := by
  obtain ⟨e, he⟩ := cumulativeDependencies_raises (List.mem_dedup.mpr hp) h
  refine ⟨e, fun fuel hfuel => ?_⟩
  have hround : addDependenciesRecursively fuel plugins request = some (.error e) := by
    refine @whileLoop_mono _ _ _ _ 1 fuel _ _ ?_ hfuel
    unfold whileLoop addDependenciesRound getCumulativeRemainingDependencies
    rw [he]
    rfl
  simp only [scheduleAnalysisTasks, hround]

/-- The same if a mandatory plugin is not registered. -/
theorem scheduleAnalysisTasks_raises (hclosed : ∀ p d, plugins.DependsOn p d → d ∈ plugins)
    (shuffled : Nat → List String → List String) (fo : FileObject) {request : List String}
    {mandatory : Bool} {p : String} (hp : p ∈ shuffledList request mandatory) (h : p ∉ plugins) :
    ∃ n e, ∀ fuel, n ≤ fuel →
      scheduleAnalysisTasks fuel plugins shuffled fo request mandatory = some (.error e) := by
  rcases Decidable.em (∀ q ∈ request, q ∈ plugins) with hreq | hreq
  · -- the request can be closed, and the shuffling finds a mandatory plugin missing
    obtain ⟨closure, hclosure, hmem⟩ :=
      addDependenciesRecursively_spec hclosed hreq (Nat.lt_succ_self _)
    have hlist : p ∈ (shuffledList closure mandatory).dedup :=
      List.mem_dedup.mpr (mem_shuffledList.mpr ((mem_shuffledList.mp hp).imp_left
        fun hp => (hmem p).mpr ⟨p, hp, .refl⟩))
    obtain ⟨e, he⟩ := getPluginsWithMetDependencies_raises hlist h
    have hround : whileLoop (smartShuffleRound plugins shuffled) 1
        ⟨0, [], (shuffledList closure mandatory).dedup⟩ = some (.error e) := by
      unfold whileLoop smartShuffleRound
      rw [List.isEmpty_eq_false_iff.mpr (List.ne_nil_of_mem hlist), he]
      rfl
    exact ⟨_, e, fun fuel hfuel => scheduleAnalysisTasks_of_loops hclosure hround hfuel⟩
  · push Not at hreq
    obtain ⟨q, hq, hno⟩ := hreq
    exact ⟨1, scheduleAnalysisTasks_unregistered shuffled fo mandatory hq hno⟩

/-! ## 8. After a failure -/

/-- `fo'` is `fo` after the plugins of the list that depend on `failed` were unscheduled. -/
structure Unscheduled (plugins : PluginTable) (failed : String) (names : List String)
    (fo fo' : FileObject) : Prop where
  others : fo' = { fo with
    scheduledAnalysis := fo'.scheduledAnalysis
    processedAnalysis := fo'.processedAnalysis }
  sublist : fo'.scheduledAnalysis.Sublist fo.scheduledAnalysis
  scheduled : ∀ p, p ∈ fo'.scheduledAnalysis ↔
    p ∈ fo.scheduledAnalysis ∧ ¬ (p ∈ names ∧ plugins.DependsOn p failed)
  processed : ∀ p, p ∈ fo'.processedAnalysis ↔
    p ∈ fo.processedAnalysis ∨ (p ∈ names ∧ plugins.DependsOn p failed)
  kept : ∀ p, p ∉ names → fo'.processedAnalysis.get? p = fo.processedAnalysis.get? p

theorem Unscheduled.nil (failed : String) (fo : FileObject) : Unscheduled plugins failed [] fo fo where
  others := rfl
  sublist := .refl _
  scheduled p := by simp
  processed p := by simp
  kept _ _ := rfl

theorem getFailedAnalysisResult_ok {name : String} (h : name ∈ plugins) (now : Rat) (cause : String) :
    ∃ version, getFailedAnalysisResult plugins now cause name = .ok (.dict [("failed", .str cause),
      ("plugin_version", .str version), ("analysis_date", .num now)]) := by
  obtain ⟨plugin, hlookup, -⟩ := lookup_ok h
  exact ⟨plugin.version, by rw [getFailedAnalysisResult, hlookup]; rfl⟩

/-- One round takes a dependent plugin out of the schedule, and leaves any other alone. -/
theorem unscheduleDependent_ok (now : Rat) (failed : String) {fo : FileObject} {p : String}
    (hn : fo.scheduledAnalysis.Nodup) (h : p ∈ plugins) :
    ∃ fo', unscheduleDependent plugins now failed fo p = .ok fo' ∧
      Unscheduled plugins failed [p] fo fo' := by
  obtain ⟨plugin, hlookup, hdep⟩ := lookup_ok h
  unfold unscheduleDependent
  rw [hlookup]
  rcases Decidable.em (failed ∈ plugin.dependencies) with hd | hd
  · obtain ⟨version, hresult⟩ := getFailedAnalysisResult_ok h now
      ("Analysis of dependency " ++ failed ++ " failed")
    have hyes : plugins.DependsOn p failed := (hdep failed).mpr hd
    rw [hresult]
    refine ⟨_, if_neg (not_not_intro hd), rfl, List.erase_sublist, fun q => ?_, fun q => ?_,
      fun q hq => ?_⟩
    · rw [hn.mem_erase_iff, and_comm, List.mem_singleton]
      refine and_congr_right fun _ => not_congr ⟨?_, And.left⟩
      rintro rfl
      exact ⟨rfl, hyes⟩
    · rw [Dict.mem_set, or_comm, List.mem_singleton]
      refine or_congr_right ⟨?_, And.left⟩
      rintro rfl
      exact ⟨rfl, hyes⟩
    · exact Dict.get?_set_of_ne _ (List.ne_of_not_mem_cons hq)
  · -- the plugin does not depend on the failed one
    have hno : ∀ q, ¬ (q ∈ [p] ∧ plugins.DependsOn q failed) := by
      rintro q ⟨hq, hqd⟩
      obtain rfl := List.mem_singleton.mp hq
      exact hd ((hdep failed).mp hqd)
    exact ⟨fo, if_pos hd, rfl, .refl _, fun q => (and_iff_left (hno q)).symm,
      fun q => (or_iff_left (hno q)).symm, fun _ _ => rfl⟩

theorem Unscheduled.trans {failed : String} {names names' : List String} {fo fo' fo'' : FileObject}
    (h : Unscheduled plugins failed names fo fo')
    (h' : Unscheduled plugins failed names' fo' fo'') :
    Unscheduled plugins failed (names ++ names') fo fo'' where
  others := by rw [h'.others, h.others]
  sublist := h'.sublist.trans h.sublist
  scheduled p := by
    rw [h'.scheduled, h.scheduled, and_assoc, List.mem_append, or_and_right, not_or]
  processed p := by
    rw [h'.processed, h.processed, or_assoc, List.mem_append, or_and_right]
  kept p hp := by
    rw [List.mem_append, not_or] at hp
    rw [h'.kept p hp.2, h.kept p hp.1]

theorem unscheduleDependents_ok (now : Rat) (failed : String) {fo : FileObject}
    (hn : fo.scheduledAnalysis.Nodup) (h : ∀ p ∈ names, p ∈ plugins) :
    ∃ fo', names.foldlM (unscheduleDependent plugins now failed) fo = .ok fo' ∧
      Unscheduled plugins failed names fo fo' := by
  induction names generalizing fo with
  | nil => exact ⟨fo, rfl, .nil failed fo⟩
  | cons p names ih =>
    obtain ⟨fo1, h1, hone⟩ := unscheduleDependent_ok now failed hn (h p List.mem_cons_self)
    obtain ⟨fo2, h2, hrest⟩ := ih (hn.sublist hone.sublist)
      fun q hq => h q (List.mem_cons_of_mem _ hq)
    refine ⟨fo2, ?_, hone.trans hrest⟩
    rw [List.foldlM_cons, h1]
    exact h2

/-- After the failure of a registered plugin, its result says so, and the plugins that depend on it
are unscheduled. -/
theorem rescheduleFailedAnalysisTask_ok {now : Rat} {fo : FileObject} {failed cause : String}
    {result : PyVal} (hexc : fo.analysisException = some (failed, cause))
    (hn : fo.scheduledAnalysis.Nodup) (hreg : ∀ p ∈ fo.scheduledAnalysis, p ∈ plugins)
    (hresult : getFailedAnalysisResult plugins now cause failed = .ok result) :
    ∃ fo', rescheduleFailedAnalysisTask plugins now fo = .ok fo' ∧
      Unscheduled plugins failed fo.scheduledAnalysis
        { fo with
          analysisException := none
          processedAnalysis := fo.processedAnalysis.set failed result } fo' := by
  let fo1 := { fo with
    analysisException := some (failed, cause)
    processedAnalysis := fo.processedAnalysis.set failed result }
  obtain ⟨fo2, hfold, hun⟩ := @unscheduleDependents_ok plugins fo.scheduledAnalysis now failed fo1
    hn hreg
  refine ⟨{ fo2 with analysisException := none }, ?_, ?_⟩
  · unfold rescheduleFailedAnalysisTask
    rw [hexc]
    simp only [hresult, bind, Except.bind]
    rw [hfold]
    rfl
  · obtain ⟨hothers, hsub, hsched, hproc, hkept⟩ := hun
    refine ⟨?_, hsub, hsched, hproc, hkept⟩
    rw [hothers]

end Specs

/-- Scheduling ends, whatever the shuffling does, with a correct schedule for the request. -/
theorem scheduleAnalysisTasks_spec {plugins : PluginTable} (h : plugins.WellFormed)
    (shuffle : Shuffle) (fo : FileObject) {request : List String}
    (hreq : ∀ p ∈ request, p ∈ plugins) (mandatory : Bool)
    (hmandatory : mandatory = true → ∀ p ∈ mandatoryPlugins, p ∈ plugins) :
    ∃ n schedule, IsSchedule plugins request mandatory schedule ∧ ∀ fuel, n ≤ fuel →
      scheduleAnalysisTasks fuel plugins shuffle.run fo request mandatory =
        some (.ok { fo with scheduledAnalysis := schedule }) := by
  obtain ⟨closure, hclosure, hmem⟩ :=
    addDependenciesRecursively_spec h.closed hreq (Nat.lt_succ_self _)
  have hlist : ∀ p, p ∈ shuffledList closure mandatory ↔ IsScheduled plugins request mandatory p := by
    intro p
    rw [mem_shuffledList, hmem]
    rfl
  obtain ⟨l, hl, hn, hsub, horder, hend⟩ := smartShuffleLoop_spec shuffle
    (fun p hp => isScheduled_registered h hreq hmandatory ((hlist p).mp hp)) (Nat.lt_succ_self _)
  have hcontents : ∀ p, p ∈ l ↔ p ∈ shuffledList closure mandatory := fun p =>
    ⟨hsub p, mem_of_saturated hend
      (fun p hp d hd => (hlist d).mpr (isScheduled_closed h ((hlist p).mp hp) hd)) h.acyclic⟩
  have hmoved := assureFileTypeIsFirst_order horder fun _ => h.fileType
  have hperm := assureFileTypeIsFirst_perm l
  refine ⟨_, assureFileTypeIsFirst l,
    ⟨hperm.nodup_iff.mpr hn, fun p => ?_, fun later p earlier hsplit d hd => ?_, fun hmem => ?_⟩,
    fun fuel hfuel => scheduleAnalysisTasks_of_loops hclosure hl hfuel⟩
  · rw [hperm.mem_iff, hcontents, hlist]
  · exact DependenciesBehind.transGen (hsplit ▸ hmoved) hd
  · exact assureFileTypeIsFirst_last (hperm.mem_iff.mp hmem)

/-- A table with the mandatory plugins and two others. -/
def examplePlugins : PluginTable :=
  Dict.ofList [
    ("file_type", ⟨"1.0", none, [], [], [], true⟩),
    ("file_hashes", ⟨"1.2", none, ["file_type"], [], [], true⟩),
    ("printable_strings", ⟨"0.3.4", none, [], [], [], true⟩),
    ("string_evaluator", ⟨"0.2.1", none, ["printable_strings"], [], [], true⟩)]

/-- The plugins with dependencies rank above those without. -/
def exampleRank (p : String) : Nat := if p = "file_hashes" ∨ p = "string_evaluator" then 1 else 0

theorem dependsOn_examplePlugins {P : String → String → Prop}
    (h : ∀ e ∈ examplePlugins.entries, ∀ d ∈ e.2.dependencies, P e.1 d) {p d : String}
    (hd : examplePlugins.DependsOn p d) : P p d := by
  obtain ⟨plugin, hplugin, hd⟩ := hd
  exact h _ (Dict.mem_entries_iff.mpr hplugin) d hd

theorem wellFormed_examplePlugins : examplePlugins.WellFormed where
  closed p d hd := dependsOn_examplePlugins (P := fun _ d => d ∈ examplePlugins) (by decide) hd
  acyclic := acyclic_of_rank exampleRank fun p d hd =>
    dependsOn_examplePlugins (P := fun p d => exampleRank d < exampleRank p) (by decide) hd
  fileType d hd := dependsOn_examplePlugins (P := fun p _ => p ≠ "file_type") (by decide) hd rfl
  fileHashes d hd := dependsOn_examplePlugins
    (P := fun p d => p = "file_hashes" → d = "file_type") (by decide) hd rfl

/-- A request for the string evaluation is scheduled. -/
theorem string_evaluator_scheduled :
    ∃ n schedule, IsSchedule examplePlugins ["string_evaluator"] true schedule ∧
      ∀ fuel, n ≤ fuel → scheduleAnalysisTasks fuel examplePlugins (fun _ l => l.reverse) outerImage
        ["string_evaluator"] true = some (.ok { outerImage with scheduledAnalysis := schedule }) :=
  scheduleAnalysisTasks_spec wellFormed_examplePlugins ⟨fun _ l => l.reverse, fun _ l =>
    l.reverse_perm⟩ outerImage (by decide) true fun _ => by decide

end FactCore
