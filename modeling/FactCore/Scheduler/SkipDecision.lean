import FactCore.Scheduler.UpToDate
import FactCore.Storage.AnalysisRoundTrip

/-!
# The decision to skip a plugin

Whether a plugin runs again is decided from the stored rows of the file: the row of
the plugin itself, with versions that may be missing or no versions at all, and the
rows of its dependencies, some of which may not exist. Versions that cannot be
compared are caught, and the plugin runs. A dependency without a row is not: its
entry is `None`, which has no date, and the exception leaves the scheduler.

What `parse_version` makes of a text is a parameter, values of any linear order.

Results:
1. `analysisIsUpToDate_of_versions`, `analysisIsUpToDate_of_not_versions`: the versions.
2. `dependenciesAreUpToDate_cases`: the first dependency that decides.
3. `skipDecision_iff`: when the decision is right and raises nothing.
-/

namespace FactCore

/-! ## 1. Versions -/

section Versions
variable {V : Type} [LinearOrder V]

/-- `versionNewer` compares what `parse` makes of two texts; a text that is no version raises
`InvalidVersion`. -/
structure ComparesVersions (env : AnalysisEnv) (parse : String → Option V) : Prop where
  compares : ∀ a b x y, parse a = some x → parse b = some y →
    env.versionNewer (.str a) (.str b) = .ok (decide (y < x))
  invalidLeft : ∀ a b, parse a = none → env.versionNewer (.str a) b = .error (.invalidVersion a)
  invalidRight : ∀ a b x, parse a = some x → parse b = none →
    env.versionNewer (.str a) (.str b) = .error (.invalidVersion b)

/-- Both texts are versions, and the second one is not older. -/
def NotOlder (parse : String → Option V) (current stored : String) : Prop :=
  ∃ x y, parse current = some x ∧ parse stored = some y ∧ x ≤ y

/-- A column or an attribute that may be missing. -/
def optStr (v : Option String) : PyVal := v.elim .none .str

/-- A system version as it is compared: `0` where there is none, with `-` for `_`. -/
def normalizedSystemVersion (systemVersion : Option String) : String :=
  systemVersion.elim "0" fun s => if s = "" then "0" else s.map fun c => if c = '_' then '-' else c

theorem fixSystemVersion_optStr (v : Option String) :
    fixSystemVersion (optStr v) = .ok (.str (normalizedSystemVersion v)) := by
  cases v with
  | none => rfl
  | some s =>
    rcases Decidable.em (s = "") with rfl | hne
    · rfl
    · show fixSystemVersion (.str s) = .ok (.str (if s = "" then "0" else _))
      rw [if_neg hne, fixSystemVersion, PyVal.truthy, decide_eq_true hne]
      rfl

variable {env : AnalysisEnv} {parse : String → Option V} {plugin : Plugin} {db : Db} {uid : Uid}
  {name : String} {entry : PyVal} {version : String} {system : Option String}

/-- The versions of an entry are valid and not older than those of the plugin. -/
def VersionsUpToDate (parse : String → Option V) (plugin : Plugin) (version : String)
    (system : Option String) : Prop :=
  NotOlder parse plugin.version version ∧
    NotOlder parse (normalizedSystemVersion plugin.systemVersion) (normalizedSystemVersion system)

/-- What the comparison of two texts leads to. -/
theorem versionNewer_cases (hparse : ComparesVersions env parse) (current stored : String) :
    (NotOlder parse current stored ∧ env.versionNewer (.str current) (.str stored) = .ok false) ∨
    (¬ NotOlder parse current stored ∧
      (env.versionNewer (.str current) (.str stored) = .ok true ∨
        ∃ text, env.versionNewer (.str current) (.str stored) = .error (.invalidVersion text))) := by
  cases hcurrent : parse current with
  | none =>
    refine .inr ⟨fun ⟨x, _, hx, _⟩ => ?_, .inr ⟨current, hparse.invalidLeft _ _ hcurrent⟩⟩
    rw [hcurrent] at hx
    cases hx
  | some x =>
    cases hstored : parse stored with
    | none =>
      refine .inr ⟨fun ⟨_, y, _, hy, _⟩ => ?_, .inr ⟨stored, hparse.invalidRight _ _ x hcurrent hstored⟩⟩
      rw [hstored] at hy
      cases hy
    | some y =>
      rw [hparse.compares _ _ x y hcurrent hstored]
      rcases le_or_gt x y with hle | hlt
      · exact .inl ⟨⟨x, y, hcurrent, hstored, hle⟩, by rw [decide_eq_false (not_lt.mpr hle)]⟩
      · refine .inr ⟨fun ⟨x', y', hx', hy', hle⟩ => ?_, .inl (by rw [decide_eq_true hlt])⟩
        obtain rfl := Option.some.inj (hcurrent.symm.trans hx')
        obtain rfl := Option.some.inj (hstored.symm.trans hy')
        exact absurd hlt (not_lt.mpr hle)

/-- Both comparisons of `_current_version_is_newer`, for an entry with a version. -/
theorem currentVersionIsNewer_eq (hversion : entry.get? "plugin_version" = some (.str version))
    (hsystem : entry.get? "system_version" = some (optStr system)) :
    currentVersionIsNewer env plugin entry =
      (do
        let pluginNewer ← env.versionNewer (.str plugin.version) (.str version)
        let systemNewer ← env.versionNewer (.str (normalizedSystemVersion plugin.systemVersion))
          (.str (normalizedSystemVersion system))
        return pluginNewer || systemNewer) := by
  unfold currentVersionIsNewer
  rw [PyVal.subscript_of_get? hversion, PyVal.getOrNone, hsystem, Option.getD_some,
    fixSystemVersion_optStr]
  rw [show fixSystemVersion (plugin.systemVersion.elim .none .str) =
    .ok (.str (normalizedSystemVersion plugin.systemVersion)) from fixSystemVersion_optStr _]
  rfl

theorem analysisIsUpToDate_of_versions (hparse : ComparesVersions env parse)
    (hversion : entry.get? "plugin_version" = some (.str version))
    (hsystem : entry.get? "system_version" = some (optStr system))
    (h : VersionsUpToDate parse plugin version system) :
    analysisIsUpToDate env db entry plugin uid =
      dependenciesAreUpToDate db entry uid plugin.dependencies := by
  have hnewer : currentVersionIsNewer env plugin entry = .ok false := by
    have hp := (versionNewer_cases hparse _ _).resolve_right fun hno => hno.1 h.1
    have hs := (versionNewer_cases hparse _ _).resolve_right fun hno => hno.1 h.2
    rw [currentVersionIsNewer_eq hversion hsystem, hp.2, hs.2]
    rfl
  unfold analysisIsUpToDate
  rw [hnewer]

/-- A newer version, or one that cannot be compared: the plugin runs. -/
theorem analysisIsUpToDate_of_not_versions (hparse : ComparesVersions env parse)
    (hversion : entry.get? "plugin_version" = some (.str version))
    (hsystem : entry.get? "system_version" = some (optStr system))
    (h : ¬ VersionsUpToDate parse plugin version system) :
    analysisIsUpToDate env db entry plugin uid = .ok false := by
  have hnewer : currentVersionIsNewer env plugin entry = .ok true ∨
      ∃ text, currentVersionIsNewer env plugin entry = .error (.invalidVersion text) := by
    rw [currentVersionIsNewer_eq hversion hsystem]
    rcases versionNewer_cases hparse plugin.version version with
      ⟨hp, heq⟩ | ⟨-, heq | ⟨text, heq⟩⟩
    · have hs := (versionNewer_cases hparse (normalizedSystemVersion plugin.systemVersion)
        (normalizedSystemVersion system)).resolve_left fun hs => h ⟨hp, hs.1⟩
      rw [heq]
      rcases hs.2 with hs | ⟨text, hs⟩
      · rw [hs]
        exact .inl rfl
      · rw [hs]
        exact .inr ⟨text, rfl⟩
    · rw [heq]
      rcases versionNewer_cases hparse (normalizedSystemVersion plugin.systemVersion)
        (normalizedSystemVersion system) with ⟨-, hs⟩ | ⟨-, hs | ⟨text, hs⟩⟩
      · rw [hs]
        exact .inl rfl
      · rw [hs]
        exact .inl rfl
      · rw [hs]
        exact .inr ⟨text, rfl⟩
    · rw [heq]
      exact .inr ⟨text, rfl⟩
  unfold analysisIsUpToDate
  rcases hnewer with hnewer | ⟨text, hnewer⟩
  · rw [hnewer]
  · rw [hnewer]

end Versions

/-! ## 2. Rows -/

/-- A row as the columns allow it: versions that may be missing, a date, and a result without the
keys that have columns. -/
structure TypedRow (row : AnalysisEntry) : Prop where
  pluginVersion : ∃ v, row.pluginVersion = optStr v
  systemVersion : ∃ v, row.systemVersion = optStr v
  analysisDate : ∃ t, row.analysisDate = .num t
  result : ∃ entries, row.result = .dict entries ∧ (entries.map Prod.fst).Nodup ∧
    ∀ key ∈ entries.map Prod.fst, key ∉ metaKeys

section Rows
variable {row : AnalysisEntry} {db : Db} {uid : Uid} {name : String} {entry : PyVal} {t : Rat}

/-- Keys with a column are read from it, all others from the result. -/
theorem TypedRow.get?_analysisEntryToDict (h : TypedRow row) (k : String) :
    (analysisEntryToDict row).get? k =
      if k ∈ metaKeys then Dict.find k (columns row) else row.result.get? k := by
  obtain ⟨entries, hresult, hnodup, hplain⟩ := h.result
  unfold analysisEntryToDict
  rw [hresult]
  show Dict.find k (List.foldl _ (columns row) _) = _
  rw [find_updateWith hnodup]
  split
  · next hmeta =>
    rw [Dict.find_eq_none_iff.mpr fun hin => hplain k hin hmeta, Option.none_or]
  · next hmeta =>
    rw [find_columns_of_not_mem hmeta, Option.or_none]
    rfl

theorem TypedRow.get?_pluginVersion (h : TypedRow row) :
    (analysisEntryToDict row).get? "plugin_version" = some row.pluginVersion :=
  (h.get?_analysisEntryToDict _).trans rfl

theorem TypedRow.get?_systemVersion (h : TypedRow row) :
    (analysisEntryToDict row).get? "system_version" = some row.systemVersion :=
  (h.get?_analysisEntryToDict _).trans rfl

theorem TypedRow.date (h : TypedRow row) (hdate : row.analysisDate = .num t) :
    (analysisEntryToDict row).date = some t := by
  have hget : (analysisEntryToDict row).get? "analysis_date" = some (.num t) :=
    (h.get?_analysisEntryToDict _).trans (congrArg some hdate)
  rw [PyVal.date, hget]

theorem TypedRow.hasKey_failed (h : TypedRow row) :
    (analysisEntryToDict row).hasKey "failed" = row.result.hasKey "failed" := by
  rw [PyVal.hasKey, h.get?_analysisEntryToDict, if_neg (by decide), PyVal.hasKey]

/-! ## 3. Dependencies -/

/-- The plugin has a row for the file whose date is in `dates`. -/
def HasRowDated (db : Db) (uid : Uid) (name : String) (dates : Rat → Prop) : Prop :=
  ∃ row t, db.analyses.get? (uid, name) = some row ∧ row.analysisDate = .num t ∧ dates t

/-- The row of a plugin is not both later and not later. -/
theorem HasRowDated.false {d : String} (h : HasRowDated db uid d (· ≤ t))
    (h' : HasRowDated db uid d (t < ·)) : False := by
  obtain ⟨row, t₁, hrow, hdate, hle⟩ := h
  obtain ⟨row', t₂, hrow', hdate', hlt⟩ := h'
  obtain rfl := Option.some.inj (hrow.symm.trans hrow')
  obtain rfl := PyVal.num.inj (hdate.symm.trans hdate')
  exact absurd hlt (not_lt.mpr hle)

theorem HasRowDated.ne_none {d : String} {dates : Rat → Prop} (h : HasRowDated db uid d dates) :
    db.analyses.get? (uid, d) ≠ none := by
  obtain ⟨row, -, hrow, -⟩ := h
  rw [hrow]
  exact Option.some_ne_none row

/-- An element that lacks a property stands behind one that it has up to there. -/
theorem mem_before_of_splits {α : Type} (P : α → Prop) {l before after before' after' : List α}
    {x y : α} (hx : l = before ++ x :: after) (hy : l = before' ++ y :: after') (hno : ¬ P x)
    (hyes : P y) (hbefore : ∀ z ∈ before', P z) : y ∈ before := by
  rw [hx] at hy
  rcases List.append_eq_append_iff.mp hy with ⟨mid, rfl, hmid⟩ | ⟨mid, rfl, hmid⟩
  · cases mid with
    | nil =>
      obtain rfl := (List.cons.inj hmid).1
      exact absurd hyes hno
    | cons z mid =>
      obtain rfl := (List.cons.inj hmid).1
      exact absurd (hbefore x (by simp)) hno
  · cases mid with
    | nil =>
      obtain rfl := (List.cons.inj hmid).1
      exact absurd hyes hno
    | cons z mid =>
      obtain rfl := (List.cons.inj hmid).1
      simp

/-- The first dependency without a row that is not later decides; if there is none, all
dependencies are up to date. -/
theorem dependenciesAreUpToDate_cases
    (htyped : ∀ name row, db.analyses.get? (uid, name) = some row → TypedRow row)
    (hdate : entry.date = some t) (dependencies : List String) :
    (dependenciesAreUpToDate db entry uid dependencies = .ok true ∧
      ∀ d ∈ dependencies, HasRowDated db uid d (· ≤ t)) ∨
    ∃ before d after, dependencies = before ++ d :: after ∧
      (∀ e ∈ before, HasRowDated db uid e (· ≤ t)) ∧
      ((dependenciesAreUpToDate db entry uid dependencies = .ok false ∧
          HasRowDated db uid d (t < ·)) ∨
        (dependenciesAreUpToDate db entry uid dependencies =
            .error (.typeError "'NoneType' object is not subscriptable") ∧
          db.analyses.get? (uid, d) = none)) := by
  induction dependencies with
  | nil => exact .inl ⟨rfl, fun _ hd => absurd hd List.not_mem_nil⟩
  | cons dependency dependencies ih =>
    unfold dependenciesAreUpToDate
    simp only [PyVal.subscript_date hdate, bind, Except.bind]
    cases hrow : db.analyses.get? (uid, dependency) with
    | none =>
      -- `None` has no date
      have hentry : getAnalysis db uid dependency = none := by rw [getAnalysis, hrow]; rfl
      refine .inr ⟨[], dependency, dependencies, rfl, fun _ he => absurd he List.not_mem_nil,
        .inr ⟨?_, hrow⟩⟩
      rw [hentry]
      rfl
    | some row =>
      obtain ⟨t', ht'⟩ := (htyped dependency row hrow).analysisDate
      have hentry : getAnalysis db uid dependency = some (analysisEntryToDict row) := by
        rw [getAnalysis, hrow]
        rfl
      have hsub := PyVal.subscript_date ((htyped dependency row hrow).date ht')
      simp only [hentry, Option.getD_some, hsub, pyLess]
      rcases le_or_gt t' t with hle | hlt
      · simp only [decide_eq_false (not_lt.mpr hle), Bool.false_eq_true, if_false]
        have hfirst : HasRowDated db uid dependency (· ≤ t) := ⟨row, t', hrow, ht', hle⟩
        rcases ih with ⟨hyes, hall⟩ | ⟨before, d, after, hsplit, hbefore, hd⟩
        · exact .inl ⟨hyes, List.forall_mem_cons.mpr ⟨hfirst, hall⟩⟩
        · exact .inr ⟨dependency :: before, d, after, by rw [hsplit]; rfl,
            List.forall_mem_cons.mpr ⟨hfirst, hbefore⟩, hd⟩
      · simp only [decide_eq_true hlt, if_true]
        exact .inr ⟨[], dependency, dependencies, rfl, fun _ he => absurd he List.not_mem_nil,
          .inl ⟨rfl, row, t', hrow, ht', hlt⟩⟩

end Rows

/-! ## 4. The decision -/

section Decision
variable {V : Type} [LinearOrder V]

/-- The row of a plugin that did not fail and whose versions are up to date. -/
def CurrentRow (parse : String → Option V) (plugin : Plugin) (db : Db) (uid : Uid) (name : String)
    (row : AnalysisEntry) : Prop :=
  db.analyses.get? (uid, name) = some row ∧ row.result.hasKey "failed" = false ∧
    ∃ version system, row.pluginVersion = .str version ∧ row.systemVersion = optStr system ∧
      VersionsUpToDate parse plugin version system

/-- The plugin may be skipped: it has a current row, and every dependency has a row that is not
later. -/
def MayBeSkipped (parse : String → Option V) (plugin : Plugin) (db : Db) (uid : Uid)
    (name : String) : Prop :=
  ∃ row t, CurrentRow parse plugin db uid name row ∧ row.analysisDate = .num t ∧
    ∀ d ∈ plugin.dependencies, HasRowDated db uid d (· ≤ t)

variable {env : AnalysisEnv} {parse : String → Option V} {plugin : Plugin} {db : Db} {uid : Uid}
  {name : String} {row : AnalysisEntry} {t : Rat}

/-- Without a current row the plugin runs. -/
theorem check_of_not_current (hparse : ComparesVersions env parse)
    (hplugin : env.plugins.get? name = some plugin)
    (htyped : ∀ name row, db.analyses.get? (uid, name) = some row → TypedRow row)
    (h : ∀ row, ¬ CurrentRow parse plugin db uid name row) :
    analysisIsAlreadyInDbAndUpToDate env db name uid = .ok false := by
  have hlookup : env.plugins.lookup name = .ok plugin := by rw [PluginTable.lookup, hplugin]
  unfold analysisIsAlreadyInDbAndUpToDate
  cases hrow : db.analyses.get? (uid, name) with
  | none =>
    rw [getAnalysis, hrow]
    rfl
  | some row =>
    have hrowTyped := htyped name row hrow
    rw [getAnalysis, hrow]
    simp only [Option.map_some, hrowTyped.hasKey_failed]
    cases hfailed : row.result.hasKey "failed" with
    | true => rfl
    | false =>
      obtain ⟨version, hversion⟩ := hrowTyped.pluginVersion
      obtain ⟨system, hsystem⟩ := hrowTyped.systemVersion
      have hget := hrowTyped.get?_pluginVersion
      rw [hversion] at hget
      simp only [Bool.false_eq_true, if_false, PyVal.subscript_of_get? hget, bind, Except.bind]
      cases version with
      | none => rfl
      | some version =>
        have hnot : ¬ VersionsUpToDate parse plugin version system :=
          fun hv => h row ⟨hrow, hfailed, version, system, hversion, hsystem, hv⟩
        simp only [optStr, Option.elim_some, hlookup]
        exact analysisIsUpToDate_of_not_versions hparse hget (hrowTyped.get?_systemVersion.trans
          (congrArg some hsystem)) hnot

/-- With a current row the dependencies decide. -/
theorem check_of_current (hparse : ComparesVersions env parse)
    (hplugin : env.plugins.get? name = some plugin)
    (htyped : ∀ name row, db.analyses.get? (uid, name) = some row → TypedRow row)
    (h : CurrentRow parse plugin db uid name row) :
    analysisIsAlreadyInDbAndUpToDate env db name uid =
      dependenciesAreUpToDate db (analysisEntryToDict row) uid plugin.dependencies := by
  obtain ⟨hrow, hfailed, version, system, hversion, hsystem, hv⟩ := h
  have hrowTyped := htyped name row hrow
  have hlookup : env.plugins.lookup name = .ok plugin := by rw [PluginTable.lookup, hplugin]
  have hget := hrowTyped.get?_pluginVersion
  rw [hversion] at hget
  unfold analysisIsAlreadyInDbAndUpToDate
  rw [getAnalysis, hrow]
  simp only [Option.map_some, hrowTyped.hasKey_failed, hfailed, Bool.false_eq_true, if_false,
    PyVal.subscript_of_get? hget, bind, Except.bind, hlookup]
  exact analysisIsUpToDate_of_versions hparse hget
    (hrowTyped.get?_systemVersion.trans (congrArg some hsystem)) hv

theorem CurrentRow.unique {row' : AnalysisEntry} (h : CurrentRow parse plugin db uid name row)
    (h' : CurrentRow parse plugin db uid name row') : row = row' :=
  Option.some.inj (h.1.symm.trans h'.1)

/-- The decision raises nothing, and is to skip exactly the plugins that may be skipped. -/
def DecidesCorrectly (env : AnalysisEnv) (parse : String → Option V) (plugin : Plugin) (db : Db)
    (uid : Uid) (name : String) : Prop :=
  ∃ skip, analysisIsAlreadyInDbAndUpToDate env db name uid = .ok skip ∧
    (skip = true ↔ MayBeSkipped parse plugin db uid name)

/-- The decision is right exactly when, for a plugin with a current row, no dependency without a row
is reached: before each of them in `DEPENDENCIES` stands one with a later row. -/
theorem skipDecision_iff (hparse : ComparesVersions env parse)
    (hplugin : env.plugins.get? name = some plugin)
    (htyped : ∀ name row, db.analyses.get? (uid, name) = some row → TypedRow row) :
    DecidesCorrectly env parse plugin db uid name ↔
      ∀ row t, CurrentRow parse plugin db uid name row → row.analysisDate = .num t →
        ∀ before d after, plugin.dependencies = before ++ d :: after →
          db.analyses.get? (uid, d) = none → ∃ e ∈ before, HasRowDated db uid e (t < ·) := by
  constructor
  · rintro ⟨skip, hskip, -⟩ row t hcurrent ht before d after hsplit hnone
    have hdate := (htyped name row hcurrent.1).date ht
    rw [check_of_current hparse hplugin htyped hcurrent] at hskip
    rcases dependenciesAreUpToDate_cases htyped hdate plugin.dependencies with
      ⟨-, hall⟩ | ⟨before', d', after', hsplit', hbefore', ⟨-, hlater⟩ | ⟨herror, -⟩⟩
    · exact absurd hnone (hall d (hsplit ▸ List.mem_append_right _ List.mem_cons_self)).ne_none
    · -- the one without a row is not reached
      refine ⟨d', ?_, hlater⟩
      exact mem_before_of_splits (fun e => db.analyses.get? (uid, e) ≠ none) hsplit hsplit'
        (not_not_intro hnone) hlater.ne_none fun e he => (hbefore' e he).ne_none
    · rw [herror] at hskip
      cases hskip
  · intro hcond
    rcases Classical.em (∃ row, CurrentRow parse plugin db uid name row) with ⟨row, hcurrent⟩ | hno
    · obtain ⟨t, ht⟩ := (htyped name row hcurrent.1).analysisDate
      have hdate := (htyped name row hcurrent.1).date ht
      have hcheck := check_of_current hparse hplugin htyped hcurrent
      rcases dependenciesAreUpToDate_cases htyped hdate plugin.dependencies with
        ⟨hyes, hall⟩ | ⟨before, d, after, hsplit, hbefore, ⟨hfalse, hlater⟩ | ⟨-, hnone⟩⟩
      · exact ⟨true, hcheck.trans hyes, fun _ => ⟨row, t, hcurrent, ht, hall⟩, fun _ => rfl⟩
      · refine ⟨false, hcheck.trans hfalse, fun h => absurd h Bool.false_ne_true, ?_⟩
        rintro ⟨row', t', hcurrent', ht', hdeps⟩
        obtain rfl := hcurrent.unique hcurrent'
        obtain rfl := PyVal.num.inj (ht.symm.trans ht')
        exact ((hdeps d (hsplit ▸ List.mem_append_right _ List.mem_cons_self)).false hlater).elim
      · obtain ⟨e, he, hlater⟩ := hcond row t hcurrent ht before d after hsplit hnone
        exact ((hbefore e he).false hlater).elim
    · refine ⟨false, check_of_not_current hparse hplugin htyped fun row h => hno ⟨row, h⟩,
        fun h => absurd h Bool.false_ne_true, ?_⟩
      rintro ⟨row, -, hcurrent, -⟩
      exact absurd ⟨row, hcurrent⟩ hno

end Decision

/-- Three texts that are versions. -/
def exampleParse (text : String) : Option Nat :=
  if text = "0" then some 0 else if text = "0.2.1" then some 21 else if text = "0.3" then some 30
  else none

/-- `parse_version(a) > parse_version(b)` for a given `parse_version`. -/
def compareVersions (parse : String → Option Nat) : PyVal → PyVal → Except PyException Bool
  | .str a, .str b =>
    match parse a, parse b with
    | none, _ => .error (.invalidVersion a)
    | _, none => .error (.invalidVersion b)
    | some x, some y => .ok (decide (y < x))
  | .str a, _ =>
    match parse a with
    | none => .error (.invalidVersion a)
    | some _ => .error (.typeError "expected string or bytes-like object")
  | _, _ => .error (.typeError "expected string or bytes-like object")

def comparingEnv : AnalysisEnv where
  plugins := examplePlugins
  shuffle := ⟨fun _ l => l, fun _ l => .refl l⟩
  mimeConfig _ := ([], [])
  outcome _ := .success []
  driver := acceptAll
  versionNewer := compareVersions exampleParse
  lower := String.toLower
  time n := n

theorem comparesVersions_comparingEnv : ComparesVersions comparingEnv exampleParse where
  compares a b x y hx hy := by
    show compareVersions exampleParse (.str a) (.str b) = _
    simp only [compareVersions, hx, hy]
  invalidLeft a b ha := by
    show compareVersions exampleParse (.str a) b = _
    cases b <;> simp only [compareVersions, ha]
  invalidRight a b x hx hb := by
    show compareVersions exampleParse (.str a) (.str b) = _
    simp only [compareVersions, hx, hb]

/-- The string evaluation was stored; the row of its dependency may be there. -/
def evaluatedDb (dependency : Option AnalysisEntry) : Db :=
  { Db.empty with
    analyses := Dict.ofList
      ((("uid", "string_evaluator"), ⟨.str "0.2.1", .none, .num 2, .none, .none, .dict []⟩) ::
        dependency.toList.map fun row => (("uid", "printable_strings"), row)) }

def stringEvaluator : Plugin := ⟨"0.2.1", none, ["printable_strings"], [], [], true⟩

def stringsRow : AnalysisEntry := ⟨.str "0.3", .none, .num 1, .none, .none, .dict []⟩

theorem typedRow_of_empty {v s : Option String} {t : Rat} {summary tags : PyVal} :
    TypedRow ⟨optStr v, optStr s, .num t, summary, tags, .dict []⟩ where
  pluginVersion := ⟨v, rfl⟩
  systemVersion := ⟨s, rfl⟩
  analysisDate := ⟨t, rfl⟩
  result := ⟨[], rfl, List.nodup_nil, fun _ h => absurd h List.not_mem_nil⟩

theorem typedRow_evaluatedDb (name : String) (row : AnalysisEntry)
    (h : (evaluatedDb (some stringsRow)).analyses.get? ("uid", name) = some row) : TypedRow row := by
  have hmem := Dict.mem_entries_iff.mpr h
  rw [show (evaluatedDb (some stringsRow)).analyses.entries =
    [(("uid", "string_evaluator"), ⟨.str "0.2.1", .none, .num 2, .none, .none, .dict []⟩),
      (("uid", "printable_strings"), stringsRow)] from rfl] at hmem
  rcases List.mem_cons.mp hmem with heq | hmem
  · obtain ⟨-, rfl⟩ := Prod.mk.inj heq
    exact typedRow_of_empty (v := some "0.2.1") (s := none)
  · obtain ⟨-, rfl⟩ := Prod.mk.inj (List.mem_singleton.mp hmem)
    exact typedRow_of_empty (v := some "0.3") (s := none)

/-- The only dependency has an earlier row: the string evaluation may be skipped, and it is. -/
theorem stringEvaluator_skipped :
    analysisIsAlreadyInDbAndUpToDate comparingEnv (evaluatedDb (some stringsRow)) "string_evaluator"
        "uid" = .ok true ∧
      MayBeSkipped exampleParse stringEvaluator (evaluatedDb (some stringsRow)) "uid"
        "string_evaluator" := by
  have hskipped : analysisIsAlreadyInDbAndUpToDate comparingEnv (evaluatedDb (some stringsRow))
      "string_evaluator" "uid" = .ok true := rfl
  have hright : DecidesCorrectly comparingEnv exampleParse stringEvaluator
      (evaluatedDb (some stringsRow)) "uid" "string_evaluator" := by
    refine (skipDecision_iff comparesVersions_comparingEnv rfl typedRow_evaluatedDb).mpr ?_
    intro row t _ _ before d after hsplit hnone
    have hd : d ∈ stringEvaluator.dependencies := by
      rw [hsplit]
      exact List.mem_append_right before List.mem_cons_self
    rw [List.mem_singleton.mp hd] at hnone
    cases hnone
  obtain ⟨skip, hskip, hiff⟩ := hright
  obtain rfl : skip = true := Except.ok.inj (hskip.symm.trans hskipped)
  exact ⟨hskipped, hiff.mp rfl⟩

/-- The dependency was never stored: the decision raises an exception. -/
theorem skipDecision_raises_typeError :
    ¬ DecidesCorrectly comparingEnv exampleParse stringEvaluator (evaluatedDb none) "uid"
      "string_evaluator" := by
  rintro ⟨skip, hskip, -⟩
  have hraises : analysisIsAlreadyInDbAndUpToDate comparingEnv (evaluatedDb none) "string_evaluator"
      "uid" = .error (.typeError "'NoneType' object is not subscriptable") := rfl
  rw [hraises] at hskip
  cases hskip

end FactCore
