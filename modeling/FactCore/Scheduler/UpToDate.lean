import Mathlib.Algebra.Order.Ring.Unbundled.Rat
import FactCore.Lib.Freshness
import FactCore.Scheduler.StoredResults

/-!
# Results that are up to date

`_analysis_is_already_in_db_and_up_to_date` skips a plugin if its result did not fail,
if neither the plugin nor its system has a newer version, and if the result is fresh:
no dependency has a later one.

Results:
1. `UpToDate.not_restarted`, `upToDate_of_check`: what the check finds out.
2. `UpToDate.congr`, `UpToDate.of_set`: which rows matter.
3. `upToDate_of_store`: a result that was stored just now is up to date if the version
   of the system is not newer than the one in its row.
-/

namespace FactCore

/-! ## 1. Dates and versions -/

/-- The date of a result. -/
def PyVal.date (entry : PyVal) : Option Rat :=
  match entry.get? "analysis_date" with
  | some (.num t) => some t
  | _ => Option.none

/-- The date of the result of a plugin. -/
def analysisDate (db : Db) (uid : Uid) (name : String) : Option Rat :=
  (getAnalysis db uid name).bind PyVal.date

/-- All results of the file have dates, and none is from the future. -/
def Dated (db : Db) (uid : Uid) (now : Rat) : Prop :=
  ∀ name entry, getAnalysis db uid name = some entry → ∃ t, entry.date = some t ∧ t ≤ now

/-- The result did not fail, and no version is newer than those it has. -/
structure Accepted (env : AnalysisEnv) (plugin : Plugin) (entry : PyVal) : Prop where
  notFailed : entry.hasKey "failed" = false
  version : ∃ v, entry.subscript "plugin_version" = .ok v ∧ v ≠ .none
  notNewer : currentVersionIsNewer env plugin entry = .ok false

/-- The result of the plugin does not have to be computed again. -/
structure UpToDate (env : AnalysisEnv) (db : Db) (uid : Uid) (name : String) : Prop where
  accepted : ∃ plugin entry, env.plugins.get? name = some plugin ∧
    getAnalysis db uid name = some entry ∧ Accepted env plugin entry
  fresh : Fresh env.plugins.DependsOn (analysisDate db uid) name

section UpToDate
variable {env : AnalysisEnv} {db db' : Db} {uid : Uid} {name : String} {plugin : Plugin}
  {entry : PyVal} {t now : Rat}

theorem PyVal.subscript_of_get? {d v : PyVal} {key : String} (h : d.get? key = some v) :
    d.subscript key = .ok v := by
  cases d with
  | dict entries =>
    have hfind : Dict.find key entries = some v := h
    simp only [PyVal.subscript, hfind]
  | _ => cases h

theorem PyVal.get?_of_date (h : entry.date = some t) :
    entry.get? "analysis_date" = some (.num t) := by
  unfold PyVal.date at h
  split at h
  · next heq => rw [heq, Option.some.inj h]
  · cases h

theorem PyVal.subscript_date (h : entry.date = some t) :
    entry.subscript "analysis_date" = .ok (.num t) :=
  PyVal.subscript_of_get? (PyVal.get?_of_date h)

/-! ## 2. The check -/

/-- Whether the dependencies are up to date: a later one is found, or there is none among those
that have a result. -/
theorem dependenciesAreUpToDate_spec (hdated : Dated db uid now) (hdate : entry.date = some t)
    (dependencies : List String) :
    (dependenciesAreUpToDate db entry uid dependencies = .ok false →
      ∃ d ∈ dependencies, ∃ t', analysisDate db uid d = some t' ∧ t < t') ∧
    (dependenciesAreUpToDate db entry uid dependencies = .ok true →
      ∀ d ∈ dependencies, ∀ t', analysisDate db uid d = some t' → t' ≤ t) := by
  induction dependencies with
  | nil => exact ⟨fun h => (by cases h), fun _ d hd => absurd hd List.not_mem_nil⟩
  | cons dependency dependencies ih =>
    obtain ⟨ihno, ihyes⟩ := ih
    unfold dependenciesAreUpToDate
    simp only [PyVal.subscript_date hdate, bind, Except.bind]
    cases hentry : getAnalysis db uid dependency with
    | none =>
      -- `None` has no date
      exact ⟨fun h => (by cases h), fun h => (by cases h)⟩
    | some dependencyEntry =>
      obtain ⟨t', ht', -⟩ := hdated dependency dependencyEntry hentry
      have hdep : analysisDate db uid dependency = some t' := by
        unfold analysisDate
        rw [hentry]
        exact ht'
      simp only [Option.getD_some, PyVal.subscript_date ht', pyLess]
      rcases Decidable.em (t < t') with hlt | hle
      · simp only [decide_eq_true hlt, if_true, pure, Except.pure]
        exact ⟨fun _ => ⟨dependency, List.mem_cons_self, t', hdep, hlt⟩, fun h => by cases h⟩
      · simp only [decide_eq_false hle, Bool.false_eq_true, if_false]
        refine ⟨fun h => ?_, fun h d hd t'' ht'' => ?_⟩
        · obtain ⟨d, hd, hlater⟩ := ihno h
          exact ⟨d, List.mem_cons_of_mem _ hd, hlater⟩
        · rcases List.mem_cons.mp hd with rfl | hd
          · obtain rfl := Option.some.inj (hdep.symm.trans ht'')
            exact not_lt.mp hle
          · exact ihyes h d hd t'' ht''

/-- For a result without a failure, the check compares versions and dates. -/
theorem check_of_accepted (hplugin : env.plugins.get? name = some plugin)
    (hentry : getAnalysis db uid name = some entry) (h : Accepted env plugin entry) :
    analysisIsAlreadyInDbAndUpToDate env db name uid =
      dependenciesAreUpToDate db entry uid plugin.dependencies := by
  obtain ⟨hfailed, ⟨v, hv, hne⟩, hnewer⟩ := h
  have hlookup : env.plugins.lookup name = .ok plugin := by
    unfold PluginTable.lookup
    rw [hplugin]
  have huptodate : analysisIsUpToDate env db entry plugin uid =
      dependenciesAreUpToDate db entry uid plugin.dependencies := by
    unfold analysisIsUpToDate
    rw [hnewer]
  unfold analysisIsAlreadyInDbAndUpToDate
  simp only [hentry, hfailed, Bool.false_eq_true, if_false, hv, hlookup, huptodate, bind,
    Except.bind]

/-- A result that is up to date is not computed again. -/
theorem UpToDate.not_restarted (h : UpToDate env db uid name) (hdated : Dated db uid now) :
    analysisIsAlreadyInDbAndUpToDate env db name uid ≠ .ok false := by
  obtain ⟨⟨plugin, entry, hplugin, hentry, haccepted⟩, t, ht, hdeps⟩ := h
  intro hno
  have hdate : entry.date = some t := by
    unfold analysisDate at ht
    rwa [hentry] at ht
  rw [check_of_accepted hplugin hentry haccepted] at hno
  obtain ⟨d, hd, t', ht', hlt⟩ := (dependenciesAreUpToDate_spec hdated hdate _).1 hno
  exact absurd hlt (not_lt.mpr (hdeps d ⟨plugin, hplugin, hd⟩ t' ht'))

/-- What is found to be up to date is. -/
theorem upToDate_of_check (hplugin : env.plugins.get? name = some plugin)
    (hdated : Dated db uid now)
    (h : analysisIsAlreadyInDbAndUpToDate env db name uid = .ok true) :
    UpToDate env db uid name := by
  cases hentry : getAnalysis db uid name with
  | none =>
    unfold analysisIsAlreadyInDbAndUpToDate at h
    rw [hentry] at h
    cases h
  | some entry =>
    have haccepted : Accepted env plugin entry := by
      unfold analysisIsAlreadyInDbAndUpToDate at h
      simp only [hentry, bind, Except.bind, pure, Except.pure] at h
      split at h
      · cases h
      · next hfailed =>
        split at h
        · cases h
        · next v hv =>
          split at h
          · cases h
          · next hne =>
            refine ⟨Bool.eq_false_iff.mpr hfailed, ⟨v, hv, hne⟩, ?_⟩
            rw [show env.plugins.lookup name = .ok plugin by
              unfold PluginTable.lookup
              rw [hplugin]] at h
            dsimp only at h
            unfold analysisIsUpToDate at h
            split at h
            · cases h
            · next hnewer => exact hnewer
            · cases h
            · cases h
            · cases h
    obtain ⟨t, ht, -⟩ := hdated name entry hentry
    rw [check_of_accepted hplugin hentry haccepted] at h
    have hdeps := (dependenciesAreUpToDate_spec hdated ht _).2 h
    refine ⟨⟨plugin, entry, hplugin, hentry, haccepted⟩, t, ?_, fun d hd => ?_⟩
    · unfold analysisDate
      rw [hentry]
      exact ht
    · obtain ⟨plugin', hplugin', hd⟩ := hd
      obtain rfl := Option.some.inj (hplugin.symm.trans hplugin')
      exact hdeps d hd

/-- A newer version of the system is enough to compute a result again. -/
theorem check_of_newer_system {v w w' : PyVal} {newer : Bool}
    (hplugin : env.plugins.get? name = some plugin) (hentry : getAnalysis db uid name = some entry)
    (hversion : entry.subscript "plugin_version" = .ok v)
    (hcompare : env.versionNewer (.str plugin.version) v = .ok newer)
    (hsystem : fixSystemVersion (plugin.systemVersion.elim .none .str) = .ok w)
    (hstored : fixSystemVersion (entry.getOrNone "system_version") = .ok w')
    (hnewer : env.versionNewer w w' = .ok true) :
    analysisIsAlreadyInDbAndUpToDate env db name uid = .ok false := by
  have hlookup : env.plugins.lookup name = .ok plugin := by
    unfold PluginTable.lookup
    rw [hplugin]
  have hcurrent : currentVersionIsNewer env plugin entry = .ok true := by
    unfold currentVersionIsNewer
    simp [hversion, hcompare, hsystem, hstored, hnewer, bind, Except.bind, pure, Except.pure]
  unfold analysisIsAlreadyInDbAndUpToDate analysisIsUpToDate
  simp only [hentry, hversion, hlookup, hcurrent, bind, Except.bind, pure, Except.pure]
  split
  · rfl
  · split <;> rfl

theorem fixSystemVersion_of_plain {version : String} (hne : version ≠ "")
    (hplain : '_' ∉ version.toList) : fixSystemVersion (.str version) = .ok (.str version) := by
  have hsame : (version.map fun c => if c = '_' then '-' else c) = version := by
    refine String.ext ?_
    rw [String.toList_map]
    refine (List.map_congr_left fun c hc => if_neg ?_).trans (List.map_id _)
    rintro rfl
    exact hplain hc
  unfold fixSystemVersion
  simp [PyVal.truthy, hne, hsame]

/-! ## 3. Rows -/

theorem getAnalysis_congr {p : String}
    (h : db'.analyses.get? (uid, p) = db.analyses.get? (uid, p)) :
    getAnalysis db' uid p = getAnalysis db uid p := by
  unfold getAnalysis
  rw [h]

/-- Only the rows of the file matter. -/
theorem UpToDate.congr (h : UpToDate env db uid name)
    (hrows : ∀ p, db'.analyses.get? (uid, p) = db.analyses.get? (uid, p)) :
    UpToDate env db' uid name := by
  have hsame : getAnalysis db' uid = getAnalysis db uid :=
    funext fun p => getAnalysis_congr (hrows p)
  have hdate : analysisDate db' uid = analysisDate db uid := by
    unfold analysisDate
    rw [hsame]
  exact ⟨hsame.symm ▸ h.accepted, hdate.symm ▸ h.fresh⟩

theorem Dated.congr (h : Dated db uid now)
    (hrows : ∀ p, db'.analyses.get? (uid, p) = db.analyses.get? (uid, p)) :
    Dated db' uid now :=
  fun p entry hentry => h p entry ((getAnalysis_congr (hrows p)).symm.trans hentry)

theorem Dated.later {now' : Rat} (h : Dated db uid now) (hle : now ≤ now') : Dated db uid now' := by
  intro p entry hentry
  obtain ⟨t, ht, hnow⟩ := h p entry hentry
  exact ⟨t, ht, hnow.trans hle⟩

theorem getAnalysis_set (db : Db) (uid : Uid) (name : String) (row : AnalysisEntry) (p : String) :
    getAnalysis { db with analyses := db.analyses.set (uid, name) row } uid p =
      if p = name then some (analysisEntryToDict row) else getAnalysis db uid p := by
  unfold getAnalysis
  rw [Dict.get?_set]
  rcases Decidable.em (p = name) with rfl | hne
  · rw [if_pos rfl, if_pos rfl]
    rfl
  · rw [if_neg hne, if_neg fun heq => hne (Prod.mk.inj heq).2]

theorem analysisDate_set (db : Db) (uid : Uid) (name : String) (row : AnalysisEntry) :
    analysisDate { db with analyses := db.analyses.set (uid, name) row } uid =
      Function.update (analysisDate db uid) name (analysisEntryToDict row).date := by
  funext p
  unfold analysisDate
  rw [getAnalysis_set]
  rcases Decidable.em (p = name) with rfl | hne
  · rw [if_pos rfl, Function.update_self]
    rfl
  · rw [if_neg hne, Function.update_of_ne hne]

/-- A new result of another plugin matters to those that depend on it. -/
theorem UpToDate.of_set {other : String} (h : UpToDate env db uid name) (hne : name ≠ other)
    (hfree : ¬ env.plugins.DependsOn name other) (row : AnalysisEntry) :
    UpToDate env { db with analyses := db.analyses.set (uid, other) row } uid name := by
  obtain ⟨plugin, entry, hplugin, hentry, haccepted⟩ := h.accepted
  refine ⟨⟨plugin, entry, hplugin, ?_, haccepted⟩, ?_⟩
  · rw [getAnalysis_set, if_neg hne]
    exact hentry
  · rw [analysisDate_set]
    exact h.fresh.update_of_not_dependsOn hne hfree

/-! ## 4. Storing a result -/

/-- The version of the plugin's system is not newer than `stored`. -/
def SystemVersionKept (env : AnalysisEnv) (plugin : Plugin) (stored : PyVal) : Prop :=
  (do
    let systemVersion ← fixSystemVersion (plugin.systemVersion.elim .none .str)
    let dbSystemVersion ← fixSystemVersion stored
    env.versionNewer systemVersion dbSystemVersion) = .ok false

/-- The result of the plugin at the time `t`, as its process or `_get_skipped_analysis_result` makes
it. -/
structure ResultOf (plugin : Plugin) (t : Rat) (entries : List (String × PyVal)) : Prop where
  plain : PlainKeys entries
  version : (PyVal.dict entries).get? "plugin_version" = some (.str plugin.version)
  date : (PyVal.dict entries).get? "analysis_date" = some (.num t)

variable {entries : List (String × PyVal)}

theorem ResultOf.complete (h : ResultOf plugin t entries) : CompleteResult (.dict entries) :=
  ⟨plugin.version, t, h.version, h.date⟩

theorem ResultOf.storedDate (h : ResultOf plugin t entries) :
    (analysisEntryToDict (storedRow db uid name (.dict entries))).date = some t := by
  unfold PyVal.date
  rw [get?_analysisEntryToDict rfl h.plain (by decide)]
  show (match some ((PyVal.dict entries).getOrNone "analysis_date") with
    | some (.num t) => some t
    | _ => Option.none) = some t
  unfold PyVal.getOrNone
  rw [h.date]
  rfl

theorem ResultOf.dated (h : ResultOf plugin t entries) (hdated : Dated db uid now) (hle : t ≤ now) :
    Dated { db with
      analyses := db.analyses.set (uid, name) (storedRow db uid name (.dict entries)) } uid now := by
  intro p entry hentry
  rw [getAnalysis_set] at hentry
  split at hentry
  · obtain rfl := Option.some.inj hentry
    exact ⟨t, h.storedDate, hle⟩
  · exact hdated p entry hentry

/-- The row is accepted unless the version of the system is newer than the one it has. -/
theorem ResultOf.accepted (h : ResultOf plugin t entries)
    (hversion : env.versionNewer (.str plugin.version) (.str plugin.version) = .ok false)
    (hkept : SystemVersionKept env plugin (storedSystemVersion db uid name (.dict entries))) :
    Accepted env plugin (analysisEntryToDict (storedRow db uid name (.dict entries))) := by
  have hstored : (analysisEntryToDict (storedRow db uid name (.dict entries))).get?
      "plugin_version" = some (.str plugin.version) := by
    rw [get?_analysisEntryToDict rfl h.plain (by decide)]
    show some ((PyVal.dict entries).getOrNone "plugin_version") = _
    unfold PyVal.getOrNone
    rw [h.version]
    rfl
  have hsystem : (analysisEntryToDict (storedRow db uid name (.dict entries))).getOrNone
      "system_version" = storedSystemVersion db uid name (.dict entries) := by
    unfold PyVal.getOrNone
    rw [get?_analysisEntryToDict rfl h.plain (by decide)]
    rfl
  constructor
  · unfold PyVal.hasKey
    rw [get?_analysisEntryToDict rfl h.plain List.mem_cons_self]
    rfl
  · exact ⟨.str plugin.version, PyVal.subscript_of_get? hstored, by simp⟩
  · unfold currentVersionIsNewer
    unfold SystemVersionKept at hkept
    simp only [PyVal.subscript_of_get? hstored, hversion, hsystem, bind, Except.bind, pure,
      Except.pure] at hkept ⊢
    cases hfix : fixSystemVersion (plugin.systemVersion.elim .none .str) with
    | error e => simp only [hfix] at hkept; cases hkept
    | ok systemVersion =>
      cases hdb : fixSystemVersion (storedSystemVersion db uid name (.dict entries)) with
      | error e => simp only [hfix, hdb] at hkept; cases hkept
      | ok dbSystemVersion =>
        simp only [hfix, hdb] at hkept
        simp only [hkept, Bool.or_self]

/-- A result that is stored just now is up to date if the version of the system is not newer than
the one in its row. -/
theorem upToDate_of_store (hplugin : env.plugins.get? name = some plugin)
    (h : ResultOf plugin t entries) (hdated : Dated db uid t)
    (hversion : env.versionNewer (.str plugin.version) (.str plugin.version) = .ok false)
    (hkept : SystemVersionKept env plugin (storedSystemVersion db uid name (.dict entries))) :
    UpToDate env { db with
      analyses := db.analyses.set (uid, name) (storedRow db uid name (.dict entries)) } uid name := by
  refine ⟨⟨plugin, _, hplugin, ?_, h.accepted hversion hkept⟩, ?_⟩
  · rw [getAnalysis_set, if_pos rfl]
  · rw [analysisDate_set, h.storedDate]
    refine fresh_update_self fun d t' ht' => ?_
    unfold analysisDate at ht'
    obtain ⟨entry, hentry, hdate⟩ := Option.bind_eq_some_iff.mp ht'
    obtain ⟨t'', ht'', hle⟩ := hdated d entry hentry
    obtain rfl := Option.some.inj (hdate.symm.trans ht'')
    exact hle

theorem mem_keys_initDict {key : String} (h : key ∈ (initDict plugin now).map Prod.fst) :
    key ∈ metaKeys := by
  unfold initDict at h
  rw [List.map_append, List.mem_append] at h
  rcases h with h | h
  · revert key
    show ∀ key ∈ ["analysis_date", "plugin_version"], key ∈ metaKeys
    decide
  · split at h
    · split at h
      · cases h
      · obtain rfl : key = "system_version" := List.mem_singleton.mp h
        decide
    · cases h

/-- What a plugin leaves after it has run. -/
theorem resultOf_initDict {own : List (String × PyVal)} (hplain : PlainKeys own) (plugin : Plugin)
    (now : Rat) : ∃ entries, (PyVal.dict own).updateWith (initDict plugin now) = .dict entries ∧
      ResultOf plugin now entries := by
  obtain ⟨hversion, hdate⟩ := get?_updateWith_initDict own plugin now
  refine ⟨_, rfl, fun key hkey => ?_, hversion, hdate⟩
  exact (mem_keys_updateWith hkey).elim (hplain key) fun hnew => .inl (mem_keys_initDict hnew)

theorem resultOf_skipped (plugin : Plugin) (now : Rat) :
    ∃ entries, getSkippedAnalysisResult plugin now = .dict entries ∧
      ResultOf plugin now entries := by
  refine ⟨_, rfl, ?_, rfl, rfl⟩
  show ∀ key ∈ ["skipped", "summary", "analysis_date", "plugin_version"], _
  decide

end UpToDate

end FactCore
