import FactCore.Scheduler.TaskScheduler

/-!
# Layers of plugins

`_smart_shuffle` on any list of registered plugins, also when their dependencies
have cycles, name what is no plugin, or are not in the list. The loop puts layer
on layer until no remaining plugin has its dependencies met; what remains then is
logged and left out.

Results:
1. `smartShuffle_layers`: the plugins that are scheduled, and their order.
-/

namespace FactCore

open Relation DependencyOrder WhileLoop

/-- The end of `_smart_shuffle` moves `file_type`, away from what it depends on. -/
def FileTypeRelocated (scheduledPlugins : List String) : Prop :=
  "file_type" ∈ scheduledPlugins ∧ scheduledPlugins.getLast? ≠ some "file_type"

instance (scheduledPlugins : List String) : Decidable (FileTypeRelocated scheduledPlugins) :=
  inferInstanceAs (Decidable (_ ∧ _))

/-- What stands behind a plugin after `file_type` was moved. -/
theorem mem_behind_assureFileTypeIsFirst {plugins : PluginTable} {scheduled front back : List String}
    {p d : String} (horder : DependenciesBehind plugins.DependsOn scheduled)
    (hsplit : assureFileTypeIsFirst scheduled = front ++ p :: back)
    (hp : p = "file_type" → ¬ FileTypeRelocated scheduled) (hd : plugins.DependsOn p d) :
    d ∈ back := by
  unfold assureFileTypeIsFirst at hsplit
  split at hsplit
  · next hmoved => exact horder.moveToEnd_of_ne hsplit (fun heq => hp heq hmoved) hd
  · exact (hsplit ▸ horder).of_append.1 d hd

/-- `_smart_shuffle` ends for any table and any list of registered plugins, whatever the shuffling
does:
* it schedules each plugin once;
* it schedules the least set whose listed plugins are those with all their dependencies in the set;
* each plugin is taken after all its dependencies, unless it is `file_type` and was moved. -/
theorem smartShuffle_layers {plugins : PluginTable} {pluginList : List String} (shuffle : Shuffle)
    (hregistered : ∀ p ∈ pluginList, p ∈ plugins) :
    ∃ scheduled schedule, schedule = assureFileTypeIsFirst scheduled ∧
      (∀ fuel, pluginList.length < fuel →
        whileLoop (smartShuffleRound plugins shuffle.run) fuel ⟨0, [], pluginList.dedup⟩ =
            some (.ok scheduled) ∧
          smartShuffle fuel plugins shuffle.run pluginList = some (.ok schedule)) ∧
      schedule.Nodup ∧
      IsLeast {S : Set String | ∀ p ∈ pluginList, p ∈ S ↔ ∀ d, plugins.DependsOn p d → d ∈ S}
        {p | p ∈ schedule} ∧
      ∀ front p back, schedule = front ++ p :: back →
        (p = "file_type" → ¬ FileTypeRelocated scheduled) →
          ∀ d, plugins.DependsOn p d → d ∈ back := by
  obtain ⟨scheduled, hloop, hnodup, hsub, horder, hend⟩ :=
    smartShuffleLoop_spec shuffle hregistered (Nat.lt_succ_self _)
  have hperm := assureFileTypeIsFirst_perm scheduled
  refine ⟨scheduled, assureFileTypeIsFirst scheduled, rfl, fun fuel hfuel => ?_,
    hperm.nodup_iff.mpr hnodup, ?_, fun front p back hsplit hp d hd =>
      mem_behind_assureFileTypeIsFirst horder hsplit hp hd⟩
  · have hrun := whileLoop_mono hloop hfuel
    exact ⟨hrun, by rw [smartShuffle, hrun]; rfl⟩
  · have hsame : {p | p ∈ assureFileTypeIsFirst scheduled} = {p | p ∈ scheduled} :=
      Set.ext fun p => hperm.mem_iff
    rw [hsame]
    exact isLeast_of_saturated horder hsub hend

/-- A table with a cycle, a plugin that needs what is not registered, and one for `file_type`. -/
def cyclicPlugins : PluginTable :=
  Dict.ofList [
    ("file_type", ⟨"1.0", none, ["base"], [], [], true⟩),
    ("base", ⟨"1.0", none, [], [], [], true⟩),
    ("a", ⟨"1.0", none, ["b"], [], [], true⟩),
    ("b", ⟨"1.0", none, ["a"], [], [], true⟩),
    ("c", ⟨"1.0", none, ["missing"], [], [], true⟩)]

def cyclicRequest : List String := ["c", "a", "b", "base", "file_type"]

/-- Each layer is put in reverse order. -/
def reverseShuffle : Shuffle := ⟨fun _ l => l.reverse, fun _ l => l.reverse_perm⟩

example :
    smartShuffle 6 cyclicPlugins reverseShuffle.run cyclicRequest =
      some (.ok ["base", "file_type"]) := by
  decide

theorem smartShuffle_layers_cyclicPlugins :
    ∃ scheduled schedule, schedule = assureFileTypeIsFirst scheduled ∧
      (∀ fuel, cyclicRequest.length < fuel →
        whileLoop (smartShuffleRound cyclicPlugins reverseShuffle.run) fuel
            ⟨0, [], cyclicRequest.dedup⟩ = some (.ok scheduled) ∧
          smartShuffle fuel cyclicPlugins reverseShuffle.run cyclicRequest = some (.ok schedule)) ∧
      schedule.Nodup ∧
      IsLeast {S : Set String | ∀ p ∈ cyclicRequest, p ∈ S ↔ ∀ d, cyclicPlugins.DependsOn p d → d ∈ S}
        {p | p ∈ schedule} ∧
      ∀ front p back, schedule = front ++ p :: back →
        (p = "file_type" → ¬ FileTypeRelocated scheduled) →
          ∀ d, cyclicPlugins.DependsOn p d → d ∈ back :=
  smartShuffle_layers reverseShuffle (by decide)

end FactCore
