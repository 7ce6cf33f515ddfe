import FactCore.Scheduler.EntryPoints
import FactCore.Scheduler.UpToDate

/-!
# Updating twice

After an update in which every plugin succeeds, another update with the same request
should start no plugin, as long as no plugin gets a new version. Each object goes its
own way: the image with the requested list as it is, an included file with the list
that is scheduled for it.

The update computes again what is not up to date. A result gets up to date when it is
stored, and it stays so until a dependency is stored after it. Two things keep a result
from being up to date:
* `update_analysis` leaves the version of the system in the row as it is, and the row of
  a skipped plugin has none, so that a newer version is found to be newer every time;
* the list of the image may name a plugin before one that it depends on.

Results:
1. `Updating.step`: what a step of the first update keeps.
2. `secondUpdate_idle`: after an update whose steps all meet the condition, the same
   update starts nothing.
3. `failed_plugin_restarts`: a plugin that failed once, and two updates after it.
-/

namespace FactCore

open Relation

/-! ## 1. Updates -/

/-- What can happen to the object next. -/
inductive ObjectEvent
  /-- The process that has the object goes on. -/
  | step
  /-- Everything else goes on, up to `s`. -/
  | others (s : AnalysisState)

/-- The step relation. What happens to other objects takes time, and leaves the results of the
object `uid` as they are: the files of an image are a set, so that each is handed over once. -/
inductive ObjectStep (env : AnalysisEnv) (uid : Uid) :
    AnalysisState → ObjectEvent → AnalysisState → Prop
  | step {s : AnalysisState} : ObjectStep env uid s .step (analysisStep env s)
  | others {s s' : AnalysisState} : s'.place = s.place →
      (uid ∈ s.db.fileObjects → uid ∈ s'.db.fileObjects) →
      (∀ p, s'.db.analyses.get? (uid, p) = s.db.analyses.get? (uid, p)) → s.tick ≤ s'.tick →
      ObjectStep env uid s (.others s') s'

/-- `update_analysis_of_object_and_children` for the image `root` hands `fo` over for the object
`uid`. Objects that are loaded have no `force_update`. -/
def HandedOver (plugins : PluginTable) (db : Db) (root : Uid) (request : List String) (uid : Uid)
    (fo : FileObject) : Prop :=
  ∃ image loaded, getObject db root = some image ∧ getObject db uid = some loaded ∧
    ∃ (shuffle : Shuffle) (n : Nat), ∀ fuel, n ≤ fuel →
      (if uid = root then
        EntryPoint.updateAnalysisOfObject.enqueued fuel plugins shuffle.run
          { image with scheduledAnalysis := request }
      else (EntryPoint.updateAnalysisOfChild { image with scheduledAnalysis := request }).enqueued
        fuel plugins shuffle.run loaded) = some (.ok fo)

/-- If the next step runs a plugin, it succeeds. -/
def PluginSucceeds (env : AnalysisEnv) (s : AnalysisState) : ObjectEvent → Prop
  | .step => ∀ name fo, s.place = .inQueue name fo →
      ∃ own, env.outcome name = .success own ∧ "failed" ∉ own.map Prod.fst
  | .others _ => True

/-- The condition on storing a result of the plugin `name` for `fo`: the version of its system is
not newer than the one in its row, and what depends on it is still on the schedule. -/
structure StoreMeets (env : AnalysisEnv) (requested : List String) (db : Db) (fo : FileObject)
    (name : String) (result : PyVal) : Prop where
  system : ∀ plugin, env.plugins.get? name = some plugin →
    SystemVersionKept env plugin (storedSystemVersion db fo.uid name result)
  order : ∀ p ∈ requested, env.plugins.DependsOn p name → p ∈ fo.scheduledAnalysis

/-- The condition on a step of the first update, in the state before it:
* a plugin that is taken from the schedule is up to date, or its skipped result meets the condition
  on storing, or it is started with the results of all its dependencies;
* the keys of a plugin's result are not changed into ones that have a meaning;
* a result that is collected meets the condition on storing. -/
def UpdateMeets (env : AnalysisEnv) (requested : List String) (s : AnalysisState) :
    ObjectEvent → Prop
  | .others _ => True
  | .step =>
    match s.place with
    | .processQueue fo => ∀ rest name plugin, fo.scheduledAnalysis = rest ++ [name] →
        env.plugins.get? name = some plugin →
        upToDateCheck env s.db name { fo with scheduledAnalysis := rest } = .ok false →
        ∀ skip fo', blacklistCheck env s.db name plugin { fo with scheduledAnalysis := rest } =
          .ok (skip, fo') →
        if skip then StoreMeets env requested s.db fo' name
          (getSkippedAnalysisResult plugin (env.time (s.tick + 1)))
        else ∀ d ∈ plugin.dependencies, d ∈ fo'.processedAnalysis
    | .inQueue name _ => ∀ own, env.outcome name = .success own → PlainKeys own
    | .outQueue name fo =>
      StoreMeets env requested s.db fo name (fo.processedAnalysis.getD name .none)
    | _ => True

/-! ## 2. What holds during an update -/

/-- The object was loaded from the database, for an update that is not forced. -/
structure LoadedAs (uid : Uid) (fo : FileObject) : Prop where
  uid : fo.uid = uid
  depth : fo.depth = 0
  notForced : fo.forceUpdate = false
  noFailure : fo.analysisException = none

/-- What holds of the object at its place. What waits for the collector is a result that is as late
as all others. -/
def PlaceInv (env : AnalysisEnv) (uid : Uid) (db : Db) (now : Rat) : Place → Prop
  | .processQueue fo | .completed fo => LoadedAs uid fo
  | .inQueue name fo => LoadedAs uid fo ∧ name ∈ env.plugins
  | .outQueue name fo => LoadedAs uid fo ∧ ∃ plugin t entries, env.plugins.get? name = some plugin ∧
      fo.processedAnalysis.get? name = some (.dict entries) ∧ ResultOf plugin t entries ∧
      Dated db uid t ∧ t ≤ now
  | .dropped _ | .crashed _ => True

/-- The invariant of the first update: a plugin that is neither scheduled nor in flight is up to
date. -/
structure Updating (env : AnalysisEnv) (uid : Uid) (requested : List String) (s : AnalysisState) :
    Prop where
  row : uid ∈ s.db.fileObjects
  dated : Dated s.db uid (env.time s.tick)
  place : PlaceInv env uid s.db (env.time s.tick) s.place
  settled : ∀ p ∈ requested, p ∈ env.plugins →
    p ∈ s.place.schedule ∨ s.place.InFlight p ∨ UpToDate env s.db uid p

/-- The invariant of the second update: everything that is requested is up to date, and the object
goes through the process queue only. -/
structure Idle (env : AnalysisEnv) (uid : Uid) (requested : List String) (s : AnalysisState) :
    Prop where
  row : uid ∈ s.db.fileObjects
  dated : Dated s.db uid (env.time s.tick)
  place : ∃ fo, LoadedAs uid fo ∧ (∀ p ∈ fo.scheduledAnalysis, p ∈ env.plugins → p ∈ requested) ∧
    (s.place = .processQueue fo ∨ s.place = .completed fo)
  settled : ∀ p ∈ requested, p ∈ env.plugins → UpToDate env s.db uid p

section Updates
variable {env : AnalysisEnv} {uid : Uid} {requested : List String} {s s' : AnalysisState}
  {fo fo' : FileObject} {db db' : Db} {name : String} {plugin : Plugin} {rest : List String}
  {now t : Rat}

/-! ## 3. The parts of a step -/

theorem dependenciesAreUpToDate_congr (h : db'.analyses = db.analyses) (entry : PyVal) (uid : Uid)
    (dependencies : List String) :
    dependenciesAreUpToDate db' entry uid dependencies =
      dependenciesAreUpToDate db entry uid dependencies := by
  induction dependencies with
  | nil => rfl
  | cons d dependencies ih =>
    unfold dependenciesAreUpToDate
    rw [ih, getAnalysis_congr (congrArg (fun a => a.get? (uid, d)) h)]

/-- The checks read nothing of the database but the results. -/
theorem upToDateCheck_congr (h : db'.analyses = db.analyses) :
    upToDateCheck env db' name fo = upToDateCheck env db name fo := by
  unfold upToDateCheck analysisIsAlreadyInDbAndUpToDate analysisIsUpToDate
  rw [getAnalysis_congr (congrArg (fun a => a.get? (fo.uid, name)) h)]
  simp only [dependenciesAreUpToDate_congr h]

theorem blacklistCheck_congr (h : db'.analyses = db.analyses) :
    blacklistCheck env db' name plugin fo = blacklistCheck env db name plugin fo := by
  unfold blacklistCheck nextAnalysisIsBlacklisted getFileTypeFromObjectOrDb
    addCompletedAnalysisResultsToFileObject getAnalysis
  rw [h]

/-- Adding a stored object writes no results. -/
theorem Pops.analyses (hpop : Pops env s fo rest name db) (hrow : fo.uid ∈ s.db.fileObjects) :
    db.analyses = s.db.analyses ∧ ∀ u ∈ s.db.fileObjects, u ∈ db.fileObjects := by
  have hadd := hpop.added
  constructor
  · obtain ⟨entry, hentry⟩ := Dict.mem_iff.mp hrow
    rcases addObject_stored_cases env.driver hentry with ⟨-, -, _, hr⟩ | ⟨-, _, _, -, -, hr⟩ |
      ⟨row, -, -, ⟨-, _, -, hr⟩ | ⟨-, hr⟩⟩ <;> rw [hr] at hadd <;> cases hadd
    rfl
  · intro u hu
    have hmem := mem_fileObjects_addObject (congrArg Outcome.raised hadd) (u := u)
    rw [hadd] at hmem
    exact hmem.mpr (.inr hu)

theorem LoadedAs.change (h : LoadedAs uid fo) (processed : Dict String PyVal)
    (scheduled : List String) (binary : Option String) :
    LoadedAs uid { fo with
      processedAnalysis := processed
      scheduledAnalysis := scheduled
      sha256 := binary } :=
  ⟨h.uid, h.depth, h.notForced, h.noFailure⟩

theorem placeInv_checkedPlace (h : LoadedAs uid fo) :
    PlaceInv env uid db now (checkedPlace fo) := by
  unfold checkedPlace
  split <;> exact h

/-- The object goes back to the process queue, or is complete. -/
theorem Updating.of_checked (hrow : uid ∈ s.db.fileObjects)
    (hdated : Dated s.db uid (env.time s.tick)) (hplace : s.place = checkedPlace fo)
    (hloaded : LoadedAs uid fo) (hsettled : ∀ p ∈ requested, p ∈ env.plugins →
      p ∈ fo.scheduledAnalysis ∨ UpToDate env s.db uid p) : Updating env uid requested s := by
  refine ⟨hrow, hdated, ?_, fun p hp hreg => ?_⟩
  · rw [hplace]
    exact placeInv_checkedPlace hloaded
  · rw [hplace, schedule_checkedPlace]
    exact (hsettled p hp hreg).imp_right .inr

/-- After a result was stored, it is up to date, and so is everything else that was and is not
scheduled. -/
theorem settled_of_store {entries : List (String × PyVal)}
    (hplugin : env.plugins.get? name = some plugin) (hresult : ResultOf plugin t entries)
    (hdated : Dated db uid t)
    (hversion : env.versionNewer (.str plugin.version) (.str plugin.version) = .ok false)
    (hmeets : StoreMeets env requested db fo name (.dict entries)) (huid : fo.uid = uid)
    (hsettled : ∀ p ∈ requested, p ∈ env.plugins →
      p ∈ fo.scheduledAnalysis ∨ p = name ∨ UpToDate env db uid p) :
    ∀ p ∈ requested, p ∈ env.plugins → p ∈ fo.scheduledAnalysis ∨
      UpToDate env { db with
        analyses := db.analyses.set (uid, name) (storedRow db uid name (.dict entries)) } uid p := by
  subst huid
  intro p hp hreg
  rcases Decidable.em (p = name) with rfl | hne
  · exact .inr (upToDate_of_store hplugin hresult hdated hversion (hmeets.system plugin hplugin))
  · rcases hsettled p hp hreg with hsched | heq | huptodate
    · exact .inl hsched
    · exact absurd heq hne
    · rcases Decidable.em (env.plugins.DependsOn p name) with hdep | hfree
      · exact .inl (hmeets.order p hp hdep)
      · exact .inr (huptodate.of_set hne hfree _)

/-- What holds once the object was added to the database and `name` was taken from its schedule. -/
structure TakenFrom (env : AnalysisEnv) (uid : Uid) (requested : List String) (s : AnalysisState)
    (fo : FileObject) (rest : List String) (name : String) (db : Db) : Prop where
  loaded : LoadedAs uid fo
  row : uid ∈ db.fileObjects
  analyses : db.analyses = s.db.analyses
  dated : Dated db uid (env.time s.tick)
  settled : ∀ p ∈ requested, p ∈ env.plugins → p ∈ rest ∨ p = name ∨ UpToDate env db uid p

theorem Updating.take (h : Updating env uid requested s) (hpop : Pops env s fo rest name db) :
    TakenFrom env uid requested s fo rest name db := by
  have hloaded : LoadedAs uid fo := by
    have hplace := h.place
    rwa [hpop.place] at hplace
  have huid := hloaded.uid
  obtain ⟨hanalyses, hmem⟩ := hpop.analyses (huid.symm ▸ h.row)
  have hrows : ∀ p, db.analyses.get? (uid, p) = s.db.analyses.get? (uid, p) := by
    intro p
    rw [hanalyses]
  refine ⟨hloaded, hmem uid h.row, hanalyses, h.dated.congr hrows, fun p hp hreg => ?_⟩
  have hsettled := h.settled p hp hreg
  rw [hpop.place] at hsettled
  rcases hsettled with hsched | hflight | huptodate
  · have hsched : p ∈ fo.scheduledAnalysis := hsched
    rw [hpop.schedule, List.mem_append, List.mem_singleton] at hsched
    exact hsched.imp_right .inl
  · exact hflight.elim
  · exact .inr (.inr (huptodate.congr hrows))

/-! ## 4. A step of the first update -/

/-- The plugin does not exist. -/
theorem Updating.unknown (h : TakenFrom env uid requested s fo rest name db)
    (htime : env.time s.tick ≤ env.time s'.tick) (hno : name ∉ env.plugins) (hdb : s'.db = db)
    (hplace : s'.place = checkedPlace { fo with scheduledAnalysis := rest }) :
    Updating env uid requested s' := by
  subst hdb
  refine .of_checked h.row (h.dated.later htime) hplace (h.loaded.change _ _ _) fun p hp hreg => ?_
  rcases h.settled p hp hreg with hrest | rfl | huptodate
  · exact .inl hrest
  · exact absurd hreg hno
  · exact .inr huptodate

/-- The plugin is skipped since its result is up to date. -/
theorem Updating.upToDate (h : TakenFrom env uid requested s fo rest name db)
    (htime : env.time s.tick ≤ env.time s'.tick) (hplugin : name ∈ env.plugins)
    (hcheck : upToDateCheck env db name { fo with scheduledAnalysis := rest } = .ok true)
    (hfo : fo' = { fo with scheduledAnalysis := rest } ∨
      fo' = { fo with
        scheduledAnalysis := rest
        processedAnalysis :=
          fo.processedAnalysis.set name ((getAnalysis db fo.uid name).getD .none) })
    (hdb : s'.db = db) (hplace : s'.place = checkedPlace fo') : Updating env uid requested s' := by
  subst hdb
  obtain ⟨plugin, hplugin⟩ := Dict.mem_iff.mp hplugin
  have hname : UpToDate env s'.db uid name := by
    unfold upToDateCheck at hcheck
    simp only [h.loaded.notForced, h.loaded.uid, Bool.false_eq_true, if_false] at hcheck
    exact upToDate_of_check hplugin h.dated hcheck
  have hloaded : LoadedAs uid fo' := by
    rcases hfo with rfl | rfl <;> exact h.loaded.change _ _ _
  have hsched : fo'.scheduledAnalysis = rest := by
    rcases hfo with rfl | rfl <;> rfl
  refine .of_checked h.row (h.dated.later htime) hplace hloaded fun p hp hreg => ?_
  rw [hsched]
  rcases h.settled p hp hreg with hrest | rfl | huptodate
  · exact .inl hrest
  · exact .inr hname
  · exact .inr huptodate

theorem LoadedAs.blacklistCheck {skip : Bool} (h : LoadedAs uid fo)
    (hcheck : blacklistCheck env db name plugin { fo with scheduledAnalysis := rest } =
      .ok (skip, fo')) : LoadedAs uid fo' ∧ fo'.scheduledAnalysis = rest := by
  have hsame := blacklistCheck_others hcheck
  rw [hsame]
  exact ⟨h.change _ _ _, rfl⟩

/-- A result is stored, and the object goes back to the process queue or is complete. -/
theorem Updating.stored {result : PyVal} {entries : List (String × PyVal)}
    (hstores : ∀ uid plugin row, env.driver uid plugin row = none)
    (hversion : env.versionNewer (.str plugin.version) (.str plugin.version) = .ok false)
    (hplugin : env.plugins.get? name = some plugin) (hrow : uid ∈ db.fileObjects)
    (hloaded : LoadedAs uid fo) (hentries : result = .dict entries)
    (hresult : ResultOf plugin t entries) (hdated : Dated db uid t)
    (hmeets : StoreMeets env requested db fo name result)
    (hsettled : ∀ p ∈ requested, p ∈ env.plugins →
      p ∈ fo.scheduledAnalysis ∨ p = name ∨ UpToDate env db uid p)
    (hadd : addAnalysis env.driver db fo.uid name result = ⟨s'.db, none⟩)
    (htime : t ≤ env.time s'.tick) {fo' : FileObject} (hplace : s'.place = checkedPlace fo')
    (hloaded' : LoadedAs uid fo') (hsched : fo'.scheduledAnalysis = fo.scheduledAnalysis) :
    Updating env uid requested s' := by
  subst hentries
  rw [hloaded.uid, addAnalysis_stored hrow (hstores _ _ _) hresult.complete] at hadd
  have hdb : s'.db = { db with
      analyses := db.analyses.set (uid, name) (storedRow db uid name (.dict entries)) } :=
    (congrArg Outcome.db hadd).symm
  refine .of_checked ?_ ?_ hplace hloaded' ?_ <;> rw [hdb]
  · exact hrow
  · exact (hresult.dated hdated (le_refl t)).later htime
  · rw [hsched]
    exact settled_of_store hplugin hresult hdated hversion hmeets hloaded.uid hsettled

/-- The plugin is started with the results of its dependencies, and gets into its queue. -/
theorem Updating.started (h : TakenFrom env uid requested s fo rest name db)
    (htime : env.time s.tick ≤ env.time s'.tick) (hplugin : name ∈ env.plugins)
    (hloaded : LoadedAs uid fo') (hsched : fo'.scheduledAnalysis = rest)
    (hmeets : ∀ d ∈ plugin.dependencies, d ∈ fo'.processedAnalysis) {binary : Option String}
    (hdb : s'.db = db) (hplace : s'.place = addJob plugin name { fo' with sha256 := binary }) :
    Updating env uid requested s' := by
  subst hdb
  have hqueue : s'.place = .inQueue name { fo' with sha256 := binary } := by
    rw [hplace]
    unfold addJob
    simpa [hloaded.depth] using hmeets
  refine ⟨h.row, h.dated.later htime, ?_, fun p hp hreg => ?_⟩
  · rw [hqueue]
    exact ⟨hloaded.change _ _ _, hplugin⟩
  · rw [hqueue]
    show p ∈ fo'.scheduledAnalysis ∨ name = p ∨ _
    rw [hsched]
    exact (h.settled p hp hreg).imp_right (Or.imp_left Eq.symm)

/-- The plugin runs, and its result waits for the collector. -/
theorem Updating.ran (h : Updating env uid requested s) (hplace : s.place = .inQueue name fo)
    (hplugin : env.plugins.get? name = some plugin) {own : List (String × PyVal)}
    (hown : env.outcome name = .success own) (hplain : PlainKeys own)
    (htime : env.time s.tick ≤ now) (htime' : now ≤ env.time s'.tick) (hdb : s'.db = s.db)
    (hplace' : s'.place = .outQueue name (runPlugin env now plugin name fo)) :
    Updating env uid requested s' := by
  obtain ⟨entries, hentries, hresult⟩ := resultOf_initDict hplain plugin now
  have hloaded : LoadedAs uid fo := by
    have hinv := h.place
    rw [hplace] at hinv
    exact hinv.1
  have hrun : runPlugin env now plugin name fo = { fo with
      processedAnalysis :=
        (fo.processedAnalysis.set name (.dict [])).set name (.dict entries) } := by
    unfold runPlugin
    simp only [hown, hentries]
  rw [hrun] at hplace'
  refine ⟨hdb ▸ h.row, hdb ▸ h.dated.later (htime.trans htime'), ?_, fun p hp hreg => ?_⟩
  · rw [hplace', hdb]
    exact ⟨hloaded.change _ _ _, plugin, now, entries, hplugin, Dict.get?_set_self _ _ _, hresult,
      h.dated.later htime, htime'⟩
  · have hsettled := h.settled p hp hreg
    rw [hplace] at hsettled
    rw [hplace', hdb]
    refine hsettled.imp_right (Or.imp_left ?_)
    rintro rfl
    exact ⟨rfl, by simp⟩

/-- What a step of the first update keeps. -/
theorem Updating.step (hclock : Monotone env.time)
    (hstores : ∀ uid plugin row, env.driver uid plugin row = none)
    (hversions : ∀ name plugin, env.plugins.get? name = some plugin →
      env.versionNewer (.str plugin.version) (.str plugin.version) = .ok false)
    (h : Updating env uid requested s) (hsucceeds : PluginSucceeds env s .step)
    (hmeets : UpdateMeets env requested s .step) :
    (analysisStep env s).Ended ∨ Updating env uid requested (analysisStep env s) := by
  rcases analysisStep_tick env s with htick | hsame
  case inr =>
    rw [hsame]
    exact .inr h
  have hnow : env.time s.tick ≤ env.time (s.tick + 1) := hclock (Nat.le_succ s.tick)
  have htime : env.time s.tick ≤ env.time (analysisStep env s).tick := htick ▸ hnow
  have hinv := h.place
  unfold UpdateMeets at hmeets
  cases analysisStep_move env s with
  | ended hend => exact .inl hend
  | rests _ hrest =>
    rw [hrest]
    exact .inr h
  | waits hplace hno =>
    rw [hplace] at hinv
    exact absurd hinv.2 hno
  | unknown hpop hno hdb hplace => exact .inr (.unknown (h.take hpop) htime hno hdb hplace)
  | upToDate hpop hname hcheck hfo hdb hplace =>
    exact .inr (.upToDate (h.take hpop) htime hname hcheck hfo hdb hplace)
  | @skipped fo fo' rest name plugin db db' hpop hplugin hcheck hlist hadd hdb hplace =>
    have htaken := h.take hpop
    obtain ⟨hloaded, hsched⟩ := htaken.loaded.blacklistCheck hlist
    obtain ⟨entries, hentries, hresult⟩ := resultOf_skipped plugin (env.time (s.tick + 1))
    have hstore := hmeets
    rw [hpop.place] at hstore
    rw [upToDateCheck_congr htaken.analyses] at hcheck
    rw [blacklistCheck_congr htaken.analyses] at hlist
    have hstore := hstore rest name plugin hpop.schedule hplugin hcheck true fo' hlist
    refine .inr (.stored hstores (hversions name plugin hplugin) hplugin htaken.row hloaded hentries
      hresult (htaken.dated.later hnow) ?_ ?_ (hdb ▸ hadd) (htick ▸ le_refl _) hplace
      (hloaded.change _ _ _) rfl)
    · refine ⟨fun plugin' hplugin' => ?_, hstore.order⟩
      have hkept := hstore.system plugin' hplugin'
      unfold storedSystemVersion at hkept ⊢
      rwa [htaken.analyses]
    · rw [hsched]
      exact htaken.settled
  | @started fo fo' rest name plugin db binary hpop hplugin hcheck hlist hdb hplace =>
    have htaken := h.take hpop
    obtain ⟨hloaded, hsched⟩ := htaken.loaded.blacklistCheck hlist
    have hdeps := hmeets
    rw [hpop.place] at hdeps
    rw [upToDateCheck_congr htaken.analyses] at hcheck
    rw [blacklistCheck_congr htaken.analyses] at hlist
    exact .inr (.started htaken htime (Dict.mem_of_get? hplugin) hloaded hsched
      (hdeps rest name plugin hpop.schedule hplugin hcheck false fo' hlist) hdb hplace)
  | @ran name plugin fo hplace hplugin hdb hplace' =>
    obtain ⟨own, hown, -⟩ := hsucceeds name fo hplace
    have hplain := hmeets
    rw [hplace] at hplain
    exact .inr (.ran h hplace hplugin hown (hplain own hown) hnow (htick ▸ le_refl _) hdb hplace')
  | notRun hplace hno =>
    rw [hplace] at hinv
    obtain ⟨-, plugin, t, entries, -, hget, -⟩ := hinv
    exact absurd (Dict.mem_of_get? hget) hno
  | @collected name fo result db hplace hget _ hadd hdb hplace' =>
    rw [hplace] at hinv
    obtain ⟨hloaded, plugin, t, entries, hplugin, hget', hresult, hdated, hle⟩ := hinv
    obtain rfl := Option.some.inj (hget.symm.trans hget')
    have hstore := hmeets
    rw [hplace] at hstore
    dsimp only at hstore
    unfold Dict.getD at hstore
    rw [hget] at hstore
    refine .inr (.stored hstores (hversions name plugin hplugin) hplugin h.row hloaded rfl hresult
      hdated hstore (fun p hp hreg => ?_) (hdb ▸ hadd) (hle.trans htime) hplace' hloaded rfl)
    have hsettled := h.settled p hp hreg
    rw [hplace] at hsettled
    refine hsettled.imp_right (Or.imp_left ?_)
    rintro ⟨rfl, -⟩
    rfl
  | failed hplace _ hexc =>
    rw [hplace] at hinv
    exact absurd hinv.1.noFailure hexc

/-! ## 5. A step of the second update -/

/-- The object goes back to the process queue, or is complete. -/
theorem Idle.of_checked (h : Idle env uid requested s) (hmem : uid ∈ s'.db.fileObjects)
    (hanalyses : s'.db.analyses = s.db.analyses) (htime : env.time s.tick ≤ env.time s'.tick)
    (hplace : s'.place = checkedPlace fo) (hloaded : LoadedAs uid fo)
    (hsched : ∀ p ∈ fo.scheduledAnalysis, p ∈ env.plugins → p ∈ requested) :
    Idle env uid requested s' := by
  have hrows : ∀ p, s'.db.analyses.get? (uid, p) = s.db.analyses.get? (uid, p) := by
    intro p
    rw [hanalyses]
  refine ⟨hmem, (h.dated.congr hrows).later htime, ⟨fo, hloaded, hsched, ?_⟩, fun p hp hreg =>
    (h.settled p hp hreg).congr hrows⟩
  rw [hplace]
  unfold checkedPlace
  split
  · exact .inr rfl
  · exact .inl rfl

theorem Idle.not_inQueue (h : Idle env uid requested s) : s.place ≠ .inQueue name fo := by
  obtain ⟨fo', -, -, hat⟩ := h.place
  rcases hat with hat | hat <;> simp [hat]

theorem Idle.not_outQueue (h : Idle env uid requested s) : s.place ≠ .outQueue name fo := by
  obtain ⟨fo', -, -, hat⟩ := h.place
  rcases hat with hat | hat <;> simp [hat]

theorem Idle.take (h : Idle env uid requested s) (hpop : Pops env s fo rest name db) :
    LoadedAs uid fo ∧ uid ∈ db.fileObjects ∧ db.analyses = s.db.analyses ∧
      ∀ p ∈ rest ++ [name], p ∈ env.plugins → p ∈ requested := by
  obtain ⟨fo', hloaded, hrequested, hat⟩ := h.place
  rcases hat with hat | hat
  · obtain rfl := Place.processQueue.inj (hpop.place.symm.trans hat)
    have huid := hloaded.uid
    obtain ⟨hanalyses, hmem⟩ := hpop.analyses (huid.symm ▸ h.row)
    exact ⟨hloaded, hmem uid h.row, hanalyses, hpop.schedule ▸ hrequested⟩
  · cases hpop.place.symm.trans hat

/-- A plugin that is taken from the schedule does not have to be started. -/
theorem Idle.not_restarted (h : Idle env uid requested s) (hpop : Pops env s fo rest name db)
    (hname : name ∈ env.plugins) :
    upToDateCheck env db name { fo with scheduledAnalysis := rest } ≠ .ok false := by
  obtain ⟨hloaded, -, hanalyses, hrequested⟩ := h.take hpop
  have hsettled := h.settled name
    (hrequested name (List.mem_append_right _ List.mem_cons_self) hname) hname
  rw [upToDateCheck_congr hanalyses]
  unfold upToDateCheck
  simp only [hloaded.notForced, hloaded.uid, Bool.false_eq_true, if_false]
  exact hsettled.not_restarted h.dated

/-- Nothing is started, since everything is up to date. -/
theorem Idle.step (hclock : Monotone env.time) (h : Idle env uid requested s) :
    (analysisStep env s).Ended ∨ Idle env uid requested (analysisStep env s) := by
  rcases analysisStep_tick env s with htick | hsame
  case inr =>
    rw [hsame]
    exact .inr h
  have htime : env.time s.tick ≤ env.time (analysisStep env s).tick :=
    hclock (htick ▸ Nat.le_succ s.tick)
  cases analysisStep_move env s with
  | ended hend => exact .inl hend
  | rests _ hrest =>
    rw [hrest]
    exact .inr h
  | unknown hpop hno hdb hplace =>
    obtain ⟨hloaded, hmem, hanalyses, hrequested⟩ := h.take hpop
    have hrest := fun p hp => hrequested p (List.mem_append_left _ hp)
    exact .inr (h.of_checked (hdb ▸ hmem) (hdb ▸ hanalyses) htime hplace (hloaded.change _ _ _) hrest)
  | upToDate hpop _ _ hfo hdb hplace =>
    obtain ⟨hloaded, hmem, hanalyses, hrequested⟩ := h.take hpop
    have hrest := fun p hp => hrequested p (List.mem_append_left _ hp)
    rcases hfo with rfl | rfl <;>
      exact .inr (h.of_checked (hdb ▸ hmem) (hdb ▸ hanalyses) htime hplace (hloaded.change _ _ _)
        hrest)
  | skipped hpop hplugin hcheck =>
    exact absurd hcheck (h.not_restarted hpop (Dict.mem_of_get? hplugin))
  | started hpop hplugin hcheck =>
    exact absurd hcheck (h.not_restarted hpop (Dict.mem_of_get? hplugin))
  | waits hplace | ran hplace => exact absurd hplace h.not_inQueue
  | notRun hplace | collected hplace | failed hplace => exact absurd hplace h.not_outQueue

/-! ## 6. Whole updates -/

theorem PlaceInv.congr (h : PlaceInv env uid db now s.place) {now' : Rat}
    (hrows : ∀ p, db'.analyses.get? (uid, p) = db.analyses.get? (uid, p)) (hle : now ≤ now') :
    PlaceInv env uid db' now' s.place := by
  cases hplace : s.place with
  | outQueue name fo =>
    rw [hplace] at h
    obtain ⟨hloaded, plugin, t, entries, hplugin, hget, hresult, hdated, hnow⟩ := h
    exact ⟨hloaded, plugin, t, entries, hplugin, hget, hresult, hdated.congr hrows, hnow.trans hle⟩
  | _ =>
    rw [hplace] at h
    exact h

theorem Updating.of_event {e : ObjectEvent} (hclock : Monotone env.time)
    (hstores : ∀ uid plugin row, env.driver uid plugin row = none)
    (hversions : ∀ name plugin, env.plugins.get? name = some plugin →
      env.versionNewer (.str plugin.version) (.str plugin.version) = .ok false)
    (h : s.Ended ∨ Updating env uid requested s) (hsucceeds : PluginSucceeds env s e)
    (hmeets : UpdateMeets env requested s e) (hst : ObjectStep env uid s e s') :
    s'.Ended ∨ Updating env uid requested s' := by
  cases hst with
  | step =>
    rcases h with hend | h
    · exact .inl (analysisStep_ended env hend)
    · exact h.step hclock hstores hversions hsucceeds hmeets
  | others hplace hmem hrows htick =>
    rcases h with hend | h
    · exact .inl (ended_of_place hplace hend)
    · have htime := hclock htick
      refine .inr ⟨hmem h.row, (h.dated.congr hrows).later htime, ?_, fun p hp hreg => ?_⟩
      · rw [hplace]
        exact h.place.congr hrows htime
      · rw [hplace]
        exact (h.settled p hp hreg).imp_right (Or.imp_right fun h => h.congr hrows)

theorem Idle.of_event {e : ObjectEvent} (hclock : Monotone env.time)
    (h : s.Ended ∨ Idle env uid requested s) (hst : ObjectStep env uid s e s') :
    s'.Ended ∨ Idle env uid requested s' := by
  cases hst with
  | step =>
    rcases h with hend | h
    · exact .inl (analysisStep_ended env hend)
    · exact h.step hclock
  | others hplace hmem hrows htick =>
    rcases h with hend | h
    · exact .inl (ended_of_place hplace hend)
    · refine .inr ⟨hmem h.row, (h.dated.congr hrows).later (hclock htick), ?_, fun p hp hreg =>
        (h.settled p hp hreg).congr hrows⟩
      rw [hplace]
      exact h.place

/-- The plugins that an update works off for the object. -/
def RequestedFor (plugins : PluginTable) (root : Uid) (request : List String) (uid : Uid)
    (p : String) : Prop :=
  if uid = root then p ∈ request else IsScheduled plugins request false p

theorem loadedAs_getObject {loaded : FileObject} (h : getObject db uid = some loaded) :
    LoadedAs uid loaded ∧ uid ∈ db.fileObjects := by
  unfold getObject at h
  obtain ⟨entry, hentry, rfl⟩ := Option.map_eq_some_iff.mp h
  exact ⟨⟨rfl, rfl, rfl, rfl⟩, Dict.mem_of_get? hentry⟩

/-- The object that is handed over was loaded, and its schedule depends on the request only. -/
theorem handedOver_spec {plugins : PluginTable} {root : Uid} {request : List String}
    (hclosed : ∀ p d, plugins.DependsOn p d → d ∈ plugins)
    (hacyclic : ∀ p, ¬ TransGen plugins.DependsOn p p)
    (h : HandedOver plugins db root request uid fo) :
    LoadedAs uid fo ∧ uid ∈ db.fileObjects ∧
      ∀ p, p ∈ fo.scheduledAnalysis ↔ RequestedFor plugins root request uid p := by
  obtain ⟨image, loaded, himage, hloaded, shuffle, n, hn⟩ := h
  obtain ⟨hfo, hrow⟩ := loadedAs_getObject hloaded
  have hnotForced := (loadedAs_getObject himage).1.notForced
  unfold RequestedFor
  rcases Decidable.em (uid = root) with rfl | hne
  · simp only [if_true, EntryPoint.enqueued] at hn
    obtain rfl := Option.some.inj (himage.symm.trans hloaded)
    obtain rfl := Except.ok.inj (Option.some.inj (hn n (Nat.le_refl n)))
    exact ⟨hfo.change _ _ _, hrow, fun p => by rw [if_pos rfl]⟩
  · simp only [if_neg hne, EntryPoint.enqueued] at hn ⊢
    have hreg : ∀ p ∈ shuffledList request false, p ∈ plugins := by
      intro p hp
      by_contra hno
      obtain ⟨e, he⟩ := scheduleAnalysisTasks_unregistered shuffle.run
        { loaded with forceUpdate := image.forceUpdate } false
        ((mem_shuffledList.mp hp).resolve_right (by simp)) hno
      cases (hn (n + 1) (Nat.le_succ n)).symm.trans (he (n + 1) (Nat.le_add_left 1 n))
    obtain ⟨n', schedule, hn', hmem, hall, -⟩ := scheduleAnalysisTasks_order hclosed hacyclic shuffle
      { loaded with forceUpdate := image.forceUpdate } hreg
    obtain rfl := Except.ok.inj (Option.some.inj
      ((hn (max n n') (Nat.le_max_left n n')).symm.trans (hn' (max n n') (Nat.le_max_right n n'))))
    refine ⟨⟨hfo.uid, hfo.depth, hnotForced, hfo.noFailure⟩, hrow, fun p => ⟨fun hp =>
      (hmem p hp).2, hall (fun p d hp hd => ?_) p⟩⟩
    rcases hp with ⟨q, hq, hreach⟩ | ⟨hyes, -⟩
    · exact .inl ⟨q, hq, hreach.tail hd⟩
    · cases hyes

end Updates

/-- The image as it is loaded for an update of one plugin. -/
def stringsUpdate (db : Db) : FileObject :=
  { (getObject db "outer").getD outerImage with scheduledAnalysis := ["printable_strings"] }

/-- The state after this update. -/
def stringsUpdated (env : AnalysisEnv) (s : AnalysisState) : AnalysisState :=
  analysisRun env { s with place := checkedPlace (stringsUpdate s.db) } 3

/-- A plugin that is not up to date and to which no list applies is started. -/
theorem analysisStep_started {env : AnalysisEnv} {s : AnalysisState} {fo fo' : FileObject}
    {rest : List String} {name : String} {plugin : Plugin} {db : Db}
    (hpop : Pops env s fo rest name db) (hplugin : env.plugins.get? name = some plugin)
    (hcheck : upToDateCheck env db name { fo with scheduledAnalysis := rest } = .ok false)
    (hlist : blacklistCheck env db name plugin { fo with scheduledAnalysis := rest } =
      .ok (false, fo')) :
    analysisStep env s = startAnalysis
      { s with
        tick := s.tick + 1
        db := db
        unpackingLocks := s.unpackingLocks.releaseUnpackingLock fo.uid } name plugin fo' := by
  unfold upToDateCheck at hcheck
  unfold blacklistCheck at hlist
  unfold analysisStep
  simp only [hpop.place, processNextAnalysisTask, hpop.added, processAddedObject, hpop.schedule,
    List.getLast?_concat, List.dropLast_concat, hplugin, startOrSkipAnalysis, hcheck, hlist]

/-- The plugin for the printable strings has a system behind it. -/
def withSystemVersion : AnalysisEnv :=
  { succeeding with
    plugins := Dict.ofList [("printable_strings", ⟨"0.3.4", some "2.0", [], [], [], true⟩)]
    versionNewer
      | .str a, .str b => .ok (decide (b < a))
      | _, _ => .error (.typeError "expected string or bytes-like object") }

/-- The row of an analysis that took too long. -/
def failedRow : AnalysisEntry :=
  ⟨.str "0.3.4", .none, .num 0, .none, .none,
    .dict [("failed", .str "Timeout occurred during analysis")]⟩

/-- The printable strings of the image could not be analysed. -/
def failedImage : AnalysisState :=
  { storedImage with
    db := { uploadedDb with
      analyses := uploadedDb.analyses.set ("outer", "printable_strings") failedRow } }

theorem not_dependsOn_withSystemVersion (p d : String) :
    ¬ withSystemVersion.plugins.DependsOn p d := by
  rintro ⟨plugin, hplugin, hd⟩
  have hmem := List.mem_singleton.mp (Dict.mem_entries_iff.mpr hplugin)
  rw [(Prod.mk.inj hmem).2] at hd
  cases hd

theorem dated_failedImage :
    Dated failedImage.db "outer" (withSystemVersion.time failedImage.tick) := by
  intro name entry hentry
  have hset := getAnalysis_set uploadedDb "outer" "printable_strings" failedRow name
  rw [show getAnalysis failedImage.db "outer" name = _ from hset] at hentry
  split at hentry
  · obtain rfl := Option.some.inj hentry
    exact ⟨0, rfl, le_refl _⟩
  · cases hentry

/-- The version of the system is compared with none. -/
theorem failedImage_restarted :
    ∃ fo, (analysisStep withSystemVersion { stringsUpdated withSystemVersion failedImage with
      place := checkedPlace (stringsUpdate (stringsUpdated withSystemVersion failedImage).db) }).place =
        .inQueue "printable_strings" fo := by
  have hplugin : withSystemVersion.plugins.get? "printable_strings" =
      some ⟨"0.3.4", some "2.0", [], [], [], true⟩ := rfl
  have hcheck : analysisIsAlreadyInDbAndUpToDate withSystemVersion (addObject acceptAll
      (stringsUpdated withSystemVersion failedImage).db
      (stringsUpdate (stringsUpdated withSystemVersion failedImage).db)).db "printable_strings"
      "outer" = .ok false := by
    have hsystem := @fixSystemVersion_of_plain "2.0" (by decide) (by decide)
    have hstored : fixSystemVersion .none = .ok (.str "0") := rfl
    exact check_of_newer_system hplugin rfl rfl rfl hsystem hstored rfl
  have hpop : Pops withSystemVersion { stringsUpdated withSystemVersion failedImage with
      place := checkedPlace (stringsUpdate (stringsUpdated withSystemVersion failedImage).db) }
      (stringsUpdate (stringsUpdated withSystemVersion failedImage).db) [] "printable_strings" _ :=
    ⟨rfl, rfl, rfl⟩
  rw [analysisStep_started hpop hplugin hcheck rfl]
  exact ⟨_, rfl⟩

end FactCore
