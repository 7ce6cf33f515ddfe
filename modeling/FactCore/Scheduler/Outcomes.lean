import FactCore.Scheduler.AnalysisRun
import FactCore.Scheduler.AnalysisMoves

/-!
# What becomes of the scheduled plugins

Every plugin on the schedule of a new object should leave an entry in the database
by the time the analysis is complete: its result, a skipped entry or a failed entry.

A plugin leaves the schedule in four ways. It is skipped for the file type or it
runs, and both write an entry. A task whose dependencies have no result is handed
to the collector without a result, and nothing is written. A plugin that is
unscheduled because a dependency failed gets a failed entry, but only on the object:
the collector stores the entry of the failed dependency alone, and adding the object
to the database again writes no analyses.

Results:
1. `accounted_step`: a step accounts for every plugin but the ones it loses.
2. `noOutcomeLost_iff`: a complete analysis has all entries exactly if no step of it
   loses one.
3. `unscheduled_plugin_lost`: a failed dependency loses the plugin behind it.
-/

namespace FactCore

/-! ## 1. What is shown -/

/-- The plugin is not for files that come from unpacking, and the object is one. -/
def Excepted (env : AnalysisEnv) (fo : FileObject) (name : String) : Prop :=
  ∃ plugin, env.plugins.get? name = some plugin ∧ plugin.recursive = false ∧ fo.depth ≠ 0

/-- What a plugin can leave: its own result, a skipped entry or a failed entry. -/
def OutcomeResult (env : AnalysisEnv) (name : String) (result : PyVal) : Prop :=
  ∃ plugin now, env.plugins.get? name = some plugin ∧
    ((∃ own, env.outcome name = .success own ∧
        result = (PyVal.dict own).updateWith (initDict plugin now)) ∨
      result = getSkippedAnalysisResult plugin now ∨
      ∃ cause, getFailedAnalysisResult env.plugins now cause name = .ok result)

/-- Every plugin that is scheduled in `s0` has an entry in the database, but for the excepted
ones. -/
def NoOutcomeLost (env : AnalysisEnv) (fo : FileObject) (s0 s : AnalysisState) : Prop :=
  ∀ name ∈ s0.place.schedule, ¬ Excepted env fo name → ∃ result, OutcomeResult env name result ∧
    s.db.analyses.get? (fo.uid, name) = some (analysisRow result)

/-- The plugin is skipped for the file type of the object. -/
def SkippedFor (env : AnalysisEnv) (name : String) (plugin : Plugin) (fo : FileObject) : Prop :=
  HasMimeLists env name plugin ∧ ∃ mime, HasMime fo mime ∧
    isBlacklisted (getBlacklistAndWhitelist env name plugin).1
      (getBlacklistAndWhitelist env name plugin).2 (env.lower mime) = true

/-- The next step loses the outcome of `name`: the plugin is taken from the schedule while a
dependency of it has no result and it is not skipped, or it is scheduled behind a plugin whose
failure is collected. -/
def LosesOutcome (env : AnalysisEnv) (s : AnalysisState) (name : String) : Prop :=
  match s.place with
  | .processQueue fo => fo.scheduledAnalysis.getLast? = some name ∧
      ∃ plugin, env.plugins.get? name = some plugin ∧ ¬ SkippedFor env name plugin fo ∧
        ∃ d ∈ plugin.dependencies, d ∉ fo.processedAnalysis
  | .outQueue _ fo => name ∈ fo.scheduledAnalysis ∧ ∃ failed cause,
      fo.analysisException = some (failed, cause) ∧ env.plugins.DependsOn name failed
  | _ => False

/-! ## 2. Where an outcome is -/

/-- The plugin is still scheduled, in flight, or it has an entry. -/
def Accounted (fo0 : FileObject) (s : AnalysisState) (name : String) : Prop :=
  name ∈ s.place.schedule ∨ s.place.InFlight name ∨ (fo0.uid, name) ∈ s.db.analyses

/-- The entries of plugins are outcomes, what waits for the collector without a failure is one, and
an object that has results of plugins is in the database. -/
structure OutcomesInv (env : AnalysisEnv) (fo0 : FileObject) (s : AnalysisState) : Prop where
  rows : ∀ name ∈ env.plugins, ∀ row, s.db.analyses.get? (fo0.uid, name) = some row →
    ∃ result, OutcomeResult env name result ∧ row = analysisRow result
  queued : ∀ fo, s.place = .processQueue fo → fo0.uid ∈ s.db.fileObjects ∨
    ∀ name ∈ env.plugins, name ∉ fo.processedAnalysis
  result : ∀ name fo r, s.place = .outQueue name fo → fo.analysisException = none →
    fo.processedAnalysis.get? name = some r → OutcomeResult env name r

/-- The step keeps the invariant, and it accounts for the plugins but the ones it loses. -/
structure Accounts (env : AnalysisEnv) (fo0 : FileObject) (s s' : AnalysisState) : Prop where
  inv : OutcomesInv env fo0 s'
  accounted : ∀ name ∈ env.plugins, ¬ Excepted env fo0 name →
    (Accounted fo0 s' name ↔ Accounted fo0 s name ∧ ¬ LosesOutcome env s name)

section Outcomes
variable {env : AnalysisEnv} {fo0 fo fo' : FileObject} {s s' : AnalysisState} {db : Db}
  {name : String} {plugin : Plugin} {rest : List String}

/-- An object that goes back to the process queue or is complete, and is stored. -/
theorem OutcomesInv.of_checked (hplace : s.place = checkedPlace fo)
    (hrows : ∀ name ∈ env.plugins, ∀ row, s.db.analyses.get? (fo0.uid, name) = some row →
      ∃ result, OutcomeResult env name result ∧ row = analysisRow result)
    (hstored : fo0.uid ∈ s.db.fileObjects) : OutcomesInv env fo0 s where
  rows := hrows
  queued _ _ := .inl hstored
  result name fo' r hout := by
    rw [hplace] at hout
    unfold checkedPlace at hout
    split at hout <;> cases hout

theorem Excepted.of_same (h : SameObject fo0 fo) (hplugin : env.plugins.get? name = some plugin)
    (hrec : plugin.recursive = false) (hdepth : fo.depth ≠ 0) : Excepted env fo0 name := by
  unfold SameObject at h
  rw [h] at hdepth
  exact ⟨plugin, hplugin, hrec, hdepth⟩

/-! ## 3. The scheduler process -/

/-- Adding the object to the database writes no entry of a plugin. -/
theorem Pops.get?_analyses (hpop : Pops env s fo rest name db) (h : UnderWay env fo0 s.db fo)
    (hout : OutcomesInv env fo0 s) {p : String} (hp : p ∈ env.plugins) :
    db.analyses.get? (fo0.uid, p) = s.db.analyses.get? (fo0.uid, p) := by
  have hadd := hpop.added
  rcases hout.queued fo hpop.place with hstored | hfresh
  · -- a stored object is updated, its analyses are not
    obtain ⟨entry, hentry⟩ := Dict.mem_iff.mp (h.same.uid ▸ hstored)
    rcases addObject_stored_cases env.driver hentry with ⟨-, -, _, hr⟩ | ⟨-, _, _, -, -, hr⟩ |
      ⟨row, -, -, ⟨-, _, -, hr⟩ | ⟨-, hr⟩⟩ <;> rw [hr] at hadd <;> cases hadd
    rfl
  · have hadded := addObject_added (congrArg Outcome.raised hadd)
    rw [hadd] at hadded
    have hno : (fo0.uid, p) ∉ s.db.analyses := fun hrow => hfresh p hp (h.rows p hrow)
    have hno' : (fo0.uid, p) ∉ db.analyses := fun hrow =>
      (hadded.analyses _ hrow).elim hno fun hnew => hfresh p hp hnew.2
    rw [Dict.get?_eq_none_iff.mpr hno, Dict.get?_eq_none_iff.mpr hno']

/-- What is taken from the process queue. -/
theorem Queued.taken (h : Queued env fo0 s.db fo) (hpop : Pops env s fo rest name db) :
    Taken env fo0 db name { fo with scheduledAnalysis := rest } := by
  have htaken := h.take hpop.schedule
  rwa [hpop.added] at htaken

/-- Looking for a list of file types leaves a new object alone, and decides whether the plugin is
skipped. -/
theorem Taken.blacklistCheck_iff (h : Taken env fo0 db name fo) {skip : Bool}
    (hcheck : blacklistCheck env db name plugin fo = .ok (skip, fo')) :
    fo' = fo ∧ (skip = true ↔ SkippedFor env name plugin fo) := by
  have hrows : (fo.uid, "file_type") ∈ db.analyses → "file_type" ∈ fo.processedAnalysis := by
    rw [h.same.uid]
    exact h.rows "file_type"
  unfold blacklistCheck at hcheck
  rcases @nextAnalysisIsBlacklisted_cases env db fo name plugin hrows with
    ⟨hrun, hlisted⟩ | ⟨hskip, hlists, hmime⟩ | ⟨⟨e, herr⟩, -⟩
  · obtain ⟨rfl, rfl⟩ := Prod.mk.inj (Except.ok.inj (hrun.symm.trans hcheck))
    refine ⟨rfl, fun hno => (by cases hno), ?_⟩
    rintro ⟨hlists, mime, ⟨result, hresult, hget⟩, hyes⟩
    obtain ⟨mime', ⟨result', hresult', hget'⟩, hfree⟩ := hlisted hlists
    obtain rfl := Option.some.inj (hresult.symm.trans hresult')
    obtain rfl := PyVal.str.inj (Option.some.inj (hget.symm.trans hget'))
    exact hfree.symm.trans hyes
  · obtain ⟨rfl, rfl⟩ := Prod.mk.inj (Except.ok.inj (hskip.symm.trans hcheck))
    exact ⟨rfl, fun _ => ⟨hlists, hmime⟩, fun _ => rfl⟩
  · rw [herr] at hcheck
    cases hcheck

/-- The plugin that is taken is the only one that can be lost. -/
theorem losesOutcome_of_pops (hpop : Pops env s fo rest name db)
    (hplugin : env.plugins.get? name = some plugin) {p : String} :
    LosesOutcome env s p ↔ p = name ∧ ¬ SkippedFor env name plugin fo ∧
      ∃ d ∈ plugin.dependencies, d ∉ fo.processedAnalysis := by
  unfold LosesOutcome
  rw [hpop.place]
  dsimp only
  rw [hpop.schedule, List.getLast?_concat]
  constructor
  · rintro ⟨hlast, plugin', hplugin', hlost⟩
    obtain rfl := Option.some.inj hlast
    obtain rfl := Option.some.inj (hplugin.symm.trans hplugin')
    exact ⟨rfl, hlost⟩
  · rintro ⟨rfl, hlost⟩
    exact ⟨rfl, plugin, hplugin, hlost⟩

/-- Before the plugin `name` is taken. -/
theorem accounted_of_pops (hpop : Pops env s fo rest name db) (h : UnderWay env fo0 s.db fo)
    (hout : OutcomesInv env fo0 s) {p : String} (hp : p ∈ env.plugins) :
    Accounted fo0 s p ↔ p ∈ rest ∨ p = name ∨ (fo0.uid, p) ∈ db.analyses := by
  have hrow : (fo0.uid, p) ∈ db.analyses ↔ (fo0.uid, p) ∈ s.db.analyses := by
    rw [Dict.mem_iff, Dict.mem_iff, hpop.get?_analyses h hout hp]
  unfold Accounted
  rw [hpop.place, hrow]
  show p ∈ fo.scheduledAnalysis ∨ False ∨ _ ↔ _
  rw [hpop.schedule, List.mem_append, List.mem_singleton, or_assoc, false_or]

/-- The rows of an object under way after it was added to the database. -/
theorem Pops.rows (hpop : Pops env s fo rest name db) (h : UnderWay env fo0 s.db fo)
    (hout : OutcomesInv env fo0 s) : ∀ p ∈ env.plugins, ∀ row,
      db.analyses.get? (fo0.uid, p) = some row →
        ∃ result, OutcomeResult env p result ∧ row = analysisRow result := by
  intro p hp row hrow
  rw [hpop.get?_analyses h hout hp] at hrow
  exact hout.rows p hp row hrow

/-- A new entry for an outcome. -/
theorem rows_set {analyses : Dict (Uid × String) AnalysisEntry} {result : PyVal}
    (h : ∀ p ∈ env.plugins, ∀ row, analyses.get? (fo0.uid, p) = some row →
      ∃ result, OutcomeResult env p result ∧ row = analysisRow result)
    (hresult : OutcomeResult env name result) : ∀ p ∈ env.plugins, ∀ row,
      (analyses.set (fo0.uid, name) (analysisRow result)).get? (fo0.uid, p) = some row →
        ∃ result, OutcomeResult env p result ∧ row = analysisRow result := by
  intro p hp row hrow
  rw [Dict.get?_set] at hrow
  split at hrow
  · next heq =>
    obtain rfl := (Prod.mk.inj heq).2
    exact ⟨result, hresult, (Option.some.inj hrow).symm⟩
  · exact h p hp row hrow

/-- The plugin is skipped for the file type. -/
theorem accounts_skipped (h : Queued env fo0 s.db fo) (hout : OutcomesInv env fo0 s)
    (hstores : ∀ uid plugin row, env.driver uid plugin row = none)
    (hpop : Pops env s fo rest name db) (hplugin : env.plugins.get? name = some plugin)
    {skipped : PyVal} {now : Rat} (hskipped : skipped = getSkippedAnalysisResult plugin now)
    (hlist : blacklistCheck env db name plugin { fo with scheduledAnalysis := rest } =
      .ok (true, fo'))
    (hadd : addAnalysis env.driver db fo'.uid name skipped = ⟨s'.db, none⟩)
    (hplace : s'.place = checkedPlace { fo' with
      processedAnalysis := fo'.processedAnalysis.set name skipped }) : Accounts env fo0 s s' := by
  have htaken := h.taken hpop
  obtain ⟨rfl, hskip⟩ := htaken.blacklistCheck_iff hlist
  subst hskipped
  rw [htaken.same.uid, addAnalysis_first htaken.stored.row htaken.noRow
    (getSkippedAnalysisResult_complete plugin now), hstores] at hadd
  have hdb := (congrArg Outcome.db hadd).symm
  dsimp only at hdb
  constructor
  · refine .of_checked hplace ?_ ?_
    · rw [hdb]
      exact rows_set (hpop.rows h.toUnderWay hout) ⟨plugin, now, hplugin, .inr (.inl rfl)⟩
    · rw [hdb]
      exact htaken.stored.row
  · intro p hp _
    have hnot : ¬ LosesOutcome env s p := fun hlost =>
      ((losesOutcome_of_pops hpop hplugin).mp hlost).2.1 (hskip.mp rfl)
    rw [accounted_of_pops hpop h.toUnderWay hout hp, and_iff_left hnot]
    unfold Accounted
    rw [hplace, schedule_checkedPlace, hdb, Dict.mem_set, Prod.mk.injEq]
    simp only [inFlight_checkedPlace, false_or, true_and]

/-- The plugin is started: it gets into its queue, or to the collector without a result. -/
theorem accounts_started (h : Queued env fo0 s.db fo) (hout : OutcomesInv env fo0 s)
    (hpop : Pops env s fo rest name db) (hplugin : env.plugins.get? name = some plugin)
    (hlist : blacklistCheck env db name plugin { fo with scheduledAnalysis := rest } =
      .ok (false, fo')) {binary : Option String} (hdb : s'.db = db)
    (hplace : s'.place = addJob plugin name { fo' with sha256 := binary }) :
    Accounts env fo0 s s' := by
  have htaken := h.taken hpop
  obtain ⟨rfl, hskip⟩ := htaken.blacklistCheck_iff hlist
  have hnoskip : ¬ SkippedFor env name plugin fo := fun hyes => by cases hskip.mpr hyes
  constructor
  · refine ⟨?_, fun fo' hq => ?_, fun name' fo' r hq _ hr => ?_⟩
    · rw [hdb]
      exact hpop.rows h.toUnderWay hout
    · rw [hplace] at hq
      unfold addJob at hq
      split at hq <;> [skip; split at hq] <;> cases hq
    · -- only a task without a result gets to the collector
      rw [hplace] at hq
      unfold addJob at hq
      split at hq <;> [skip; split at hq] <;> cases hq <;>
        exact absurd (Dict.mem_of_get? hr) htaken.notProcessed
  · intro p hp hexc
    rw [accounted_of_pops hpop h.toUnderWay hout hp, losesOutcome_of_pops hpop hplugin]
    unfold Accounted
    rw [hplace, schedule_addJob, hdb]
    show p ∈ rest ∨ _ ↔ _
    have hrest : p ∈ rest → p ≠ name := fun hmem heq => htaken.notScheduled (heq ▸ hmem)
    have hrow : (fo0.uid, p) ∈ db.analyses → p ≠ name := fun hmem heq => htaken.noRow (heq ▸ hmem)
    unfold addJob
    split
    · next hmissing =>
      have hmissing : ∃ d ∈ plugin.dependencies, d ∉ fo.processedAnalysis := by
        simpa using hmissing
      have hflight : ¬ (Place.outQueue name { fo with
          scheduledAnalysis := rest
          sha256 := binary }).InFlight p := fun ⟨heq, hmem⟩ => htaken.notProcessed (heq ▸ hmem)
      grind
    · next hmissing =>
      have hmissing : ¬ ∃ d ∈ plugin.dependencies, d ∉ fo.processedAnalysis := by
        simpa using hmissing
      split
      · have hflight : (Place.inQueue name { fo with
            scheduledAnalysis := rest
            sha256 := binary }).InFlight p ↔ p = name := eq_comm
        grind
      · next hrec =>
        -- the plugin is not for this object
        have hne : p ≠ name := by
          rintro rfl
          simp only [Bool.or_eq_true, beq_iff_eq, not_or, Bool.not_eq_true] at hrec
          exact hexc (Excepted.of_same h.same hplugin hrec.1 hrec.2)
        have hflight : ¬ (Place.outQueue name { fo with
            scheduledAnalysis := rest
            sha256 := binary }).InFlight p := fun ⟨heq, hmem⟩ => htaken.notProcessed (heq ▸ hmem)
        grind

/-! ## 4. Plugins and the collector -/

/-- A plugin runs. -/
theorem accounts_ran (hout : OutcomesInv env fo0 s)
    (hplace : s.place = .inQueue name fo) (hplugin : env.plugins.get? name = some plugin)
    {now : Rat} (hdb : s'.db = s.db)
    (hplace' : s'.place = .outQueue name (runPlugin env now plugin name fo)) :
    Accounts env fo0 s s' := by
  have hran : name ∈ (runPlugin env now plugin name fo).processedAnalysis := by
    unfold runPlugin handleFailedAnalysis
    split <;> simp
  constructor
  · refine ⟨?_, fun fo' hq => (by rw [hplace'] at hq; cases hq), fun name' fo' r hq hexc hr => ?_⟩
    · rw [hdb]
      exact hout.rows
    · -- without a failure, the result is what the plugin left
      rw [hplace'] at hq
      cases hq
      unfold runPlugin at hexc hr
      split at hr
      · next own hown =>
        rw [Dict.get?_set_self] at hr
        exact ⟨plugin, now, hplugin, .inl ⟨own, hown, (Option.some.inj hr).symm⟩⟩
      · next hown => simp [hown, handleFailedAnalysis] at hexc
      · next hown => simp [hown, handleFailedAnalysis] at hexc
  · intro p _ _
    have hnot : ¬ LosesOutcome env s p := by
      unfold LosesOutcome
      rw [hplace]
      exact id
    rw [and_iff_left hnot]
    unfold Accounted
    rw [hplace, hplace', hdb]
    show p ∈ (runPlugin env now plugin name fo).scheduledAnalysis ∨ _ ↔ _
    rw [schedule_runPlugin]
    refine or_congr_right (or_congr_left ⟨And.left, ?_⟩)
    rintro rfl
    exact ⟨rfl, hran⟩

/-- Before the result of `name` is collected. -/
theorem accounted_of_outQueue (hplace : s.place = .outQueue name fo)
    (hmem : name ∈ fo.processedAnalysis) {p : String} :
    Accounted fo0 s p ↔ p ∈ fo.scheduledAnalysis ∨ p = name ∨ (fo0.uid, p) ∈ s.db.analyses := by
  unfold Accounted
  rw [hplace]
  refine or_congr_right (or_congr_left ⟨fun h => h.1.symm, ?_⟩)
  rintro rfl
  exact ⟨rfl, hmem⟩

theorem losesOutcome_of_outQueue (hplace : s.place = .outQueue name fo) {p : String} :
    LosesOutcome env s p ↔ p ∈ fo.scheduledAnalysis ∧ ∃ failed cause,
      fo.analysisException = some (failed, cause) ∧ env.plugins.DependsOn p failed := by
  unfold LosesOutcome
  rw [hplace]

/-- The collector gets an object on which the plugin was not run. -/
theorem accounts_notRun (h : Done env fo0 s.db name fo) (hout : OutcomesInv env fo0 s)
    (hplace : s.place = .outQueue name fo) (hno : name ∉ fo.processedAnalysis)
    (hdb : s'.db = s.db) (hplace' : s'.place = checkedPlace fo) : Accounts env fo0 s s' := by
  constructor
  · refine .of_checked hplace' ?_ ?_ <;> rw [hdb]
    · exact hout.rows
    · exact h.stored.row
  · intro p _ _
    have hnot : ¬ LosesOutcome env s p := by
      rw [losesOutcome_of_outQueue hplace]
      rintro ⟨-, failed, cause, hexc, -⟩
      exact hno (h.failure failed cause hexc).2
    have hflight : ¬ s.place.InFlight p := by
      rw [hplace]
      rintro ⟨rfl, hmem⟩
      exact hno hmem
    rw [and_iff_left hnot]
    unfold Accounted
    rw [hplace', schedule_checkedPlace, hdb]
    simp only [inFlight_checkedPlace, hflight, false_or]
    rw [hplace]
    rfl

/-- The collector stores a result, and nothing is unscheduled but what is lost. -/
theorem accounts_stored (h : Done env fo0 s.db name fo) (hout : OutcomesInv env fo0 s)
    (hstores : ∀ uid plugin row, env.driver uid plugin row = none)
    (hplace : s.place = .outQueue name fo) (hmem : name ∈ fo.processedAnalysis) {result : PyVal}
    (hresult : OutcomeResult env name result) (hcomplete : CompleteResult result)
    (hadd : addAnalysis env.driver s.db fo0.uid name result = ⟨s'.db, none⟩)
    (hplace' : s'.place = checkedPlace fo')
    (hsched : ∀ p, p ∈ fo'.scheduledAnalysis ↔
      p ∈ fo.scheduledAnalysis ∧ ¬ LosesOutcome env s p) : Accounts env fo0 s s' := by
  rw [addAnalysis_first h.stored.row h.noRow hcomplete, hstores] at hadd
  have hdb := (congrArg Outcome.db hadd).symm
  dsimp only at hdb
  constructor
  · refine .of_checked hplace' ?_ ?_ <;> rw [hdb]
    · exact rows_set hout.rows hresult
    · exact h.stored.row
  · intro p _ _
    -- what is lost is scheduled, so that it is neither the plugin nor has it an entry
    have hlost : LosesOutcome env s p → p ∈ fo.scheduledAnalysis := fun hlost =>
      ((losesOutcome_of_outQueue hplace).mp hlost).1
    have hname : p ∈ fo.scheduledAnalysis → p ≠ name := fun hp heq => h.notScheduled (heq ▸ hp)
    have hrow : p ∈ fo.scheduledAnalysis → (fo0.uid, p) ∉ s.db.analyses := fun hp hrow =>
      h.unprocessed p hp (h.rows p hrow)
    rw [accounted_of_outQueue hplace hmem]
    unfold Accounted
    rw [hplace', schedule_checkedPlace, hsched, hdb, Dict.mem_set, Prod.mk.injEq]
    simp only [inFlight_checkedPlace, false_or, true_and]
    constructor
    · rintro (⟨hp, hkept⟩ | hp)
      · exact ⟨.inl hp, hkept⟩
      · refine ⟨.inr hp, fun hbad => ?_⟩
        exact hp.elim (hname (hlost hbad)) (hrow (hlost hbad))
    · rintro ⟨hp | hp, hkept⟩
      · exact .inl ⟨hp, hkept⟩
      · exact .inr hp

/-- A result is collected. -/
theorem accounts_collected (h : Done env fo0 s.db name fo) (hout : OutcomesInv env fo0 s)
    (hstores : ∀ uid plugin row, env.driver uid plugin row = none)
    (hplace : s.place = .outQueue name fo) {result : PyVal}
    (hresult : fo.processedAnalysis.get? name = some result) (hexc : fo.analysisException = none)
    (hadd : addAnalysis env.driver s.db fo.uid name result = ⟨s'.db, none⟩)
    (hplace' : s'.place = checkedPlace fo) : Accounts env fo0 s s' := by
  rw [h.same.uid] at hadd
  refine accounts_stored h hout hstores hplace (Dict.mem_of_get? hresult)
    (hout.result name fo result hplace hexc hresult) (h.result result hexc hresult) hadd hplace'
    fun p => (and_iff_left ?_).symm
  rw [losesOutcome_of_outQueue hplace]
  rintro ⟨-, failed, cause, hexc', -⟩
  cases hexc.symm.trans hexc'

/-- A failure is collected: its own entry is stored, and what depends on the plugin is lost. -/
theorem accounts_failed (h : Done env fo0 s.db name fo) (hout : OutcomesInv env fo0 s)
    (hstores : ∀ uid plugin row, env.driver uid plugin row = none)
    (hplace : s.place = .outQueue name fo) (hmem : name ∈ fo.processedAnalysis)
    (hexc : fo.analysisException ≠ none) {now : Rat}
    (hre : rescheduleFailedAnalysisTask env.plugins now fo = .ok fo')
    (hadd : addAnalysis env.driver s.db fo'.uid name (fo'.processedAnalysis.getD name .none) =
      ⟨s'.db, none⟩)
    (hplace' : s'.place = checkedPlace fo') : Accounts env fo0 s s' := by
  obtain ⟨⟨failed, cause⟩, hexc⟩ := Option.ne_none_iff_exists'.mp hexc
  obtain ⟨rfl, -⟩ := h.failure failed cause hexc
  obtain ⟨version, hfailed⟩ := getFailedAnalysisResult_ok h.isPlugin now cause
  obtain ⟨fo1, hok, hun⟩ := rescheduleFailedAnalysisTask_ok hexc h.nodup h.registered hfailed
  obtain rfl := Except.ok.inj (hre.symm.trans hok)
  obtain ⟨plugin, hplugin⟩ := Dict.mem_iff.mp h.isPlugin
  have hkept := (hun.kept failed h.notScheduled).trans (Dict.get?_set_self _ _ _)
  have huid : fo'.uid = fo0.uid := by rw [hun.others, ← h.same.uid]
  unfold Dict.getD at hadd
  rw [huid, hkept] at hadd
  refine accounts_stored h hout hstores hplace hmem
    ⟨plugin, now, hplugin, .inr (.inr ⟨cause, hfailed⟩)⟩ ⟨version, now, rfl, rfl⟩ hadd hplace'
    fun p => ?_
  rw [hun.scheduled, losesOutcome_of_outQueue hplace, hexc]
  refine and_congr_right fun _ => not_congr (and_congr_right fun _ => ⟨fun hdep => ?_, ?_⟩)
  · exact ⟨failed, cause, rfl, hdep⟩
  · rintro ⟨failed', cause', heq, hdep⟩
    obtain ⟨rfl, -⟩ := Prod.mk.inj (Option.some.inj heq)
    exact hdep

/-! ## 5. Steps and runs -/

/-- A step that does not end the analysis accounts for every plugin but the ones it loses. -/
theorem accounted_step (hinv : AnalysisInv env fo0 s) (hout : OutcomesInv env fo0 s)
    (hstores : ∀ uid plugin row, env.driver uid plugin row = none)
    (hnext : ¬ (analysisStep env s).Ended) : Accounts env fo0 s (analysisStep env s) := by
  unfold AnalysisInv at hinv
  cases analysisStep_move env s with
  | ended hend => exact absurd hend hnext
  | @rests fo hplace hsame =>
    rw [hsame]
    refine ⟨hout, fun p _ _ => (and_iff_left ?_).symm⟩
    unfold LosesOutcome
    rw [hplace]
    exact id
  | @waits name fo hplace hname =>
    rw [hplace] at hinv
    exact absurd hinv.1.isPlugin hname
  | @unknown fo rest name db hpop hname =>
    rw [hpop.place] at hinv
    exact absurd (hinv.1.taken hpop).isPlugin hname
  | @upToDate fo fo' rest name db hpop hname hcheck =>
    -- a new object has no entry that could be up to date
    rw [hpop.place] at hinv
    have htaken := hinv.1.taken hpop
    unfold upToDateCheck analysisIsAlreadyInDbAndUpToDate at hcheck
    rw [htaken.same.uid, getAnalysis_of_not_mem htaken.noRow] at hcheck
    split at hcheck <;> cases hcheck
  | @skipped fo fo' rest name plugin db db' hpop hplugin hcheck hlist hadd hdb hplace =>
    rw [hpop.place] at hinv
    rw [← hdb] at hadd
    exact accounts_skipped hinv.1 hout hstores hpop hplugin rfl hlist hadd hplace
  | @started fo fo' rest name plugin db binary hpop hplugin hcheck hlist hdb hplace =>
    rw [hpop.place] at hinv
    exact accounts_started hinv.1 hout hpop hplugin hlist hdb hplace
  | @ran name plugin fo hplace hplugin hdb hplace' =>
    exact accounts_ran hout hplace hplugin hdb hplace'
  | @notRun name fo hplace hno hdb hplace' =>
    rw [hplace] at hinv
    exact accounts_notRun hinv.1 hout hplace hno hdb hplace'
  | @collected name fo result db hplace hresult hexc hadd hdb hplace' =>
    rw [hplace] at hinv
    rw [← hdb] at hadd
    exact accounts_collected hinv.1 hout hstores hplace hresult hexc hadd hplace'
  | @failed name fo fo' db hplace hmem hexc hre hadd hdb hplace' =>
    rw [hplace] at hinv
    rw [← hdb] at hadd
    exact accounts_failed hinv.1 hout hstores hplace hmem hexc hre hadd hplace'

theorem LosesOutcome.scheduled (h : LosesOutcome env s name) : name ∈ s.place.schedule := by
  unfold LosesOutcome at h
  split at h
  · next hplace =>
    rw [hplace]
    exact List.mem_of_getLast? h.1
  · next hplace =>
    rw [hplace]
    exact h.1
  · exact absurd h id

theorem AnalysisInv.registered (h : AnalysisInv env fo0 s) :
    ∀ p ∈ s.place.schedule, p ∈ env.plugins := by
  unfold AnalysisInv at h
  cases hplace : s.place with
  | processQueue fo => rw [hplace] at h; exact h.1.registered
  | inQueue name fo => rw [hplace] at h; exact h.1.registered
  | outQueue name fo => rw [hplace] at h; exact h.1.registered
  | completed fo => exact fun p hp => absurd hp List.not_mem_nil
  | dropped fo => exact fun p hp => absurd hp List.not_mem_nil
  | crashed e => exact fun p hp => absurd hp List.not_mem_nil

theorem AnalysisInv.not_ended (h : AnalysisInv env fo0 s) : ¬ s.Ended := by
  unfold AnalysisInv at h
  unfold AnalysisState.Ended
  split
  · next hplace =>
    rw [hplace] at h
    exact absurd h id
  · next hplace =>
    rw [hplace] at h
    exact absurd h id
  · exact id

/-- In a run without an exception, exactly the plugins that no step loses stay accounted for. -/
theorem accounted_run (hinv : ∀ n, AnalysisInv env fo0 (analysisRun env s n))
    (hout : OutcomesInv env fo0 s) (hstores : ∀ uid plugin row, env.driver uid plugin row = none)
    (n : Nat) : OutcomesInv env fo0 (analysisRun env s n) ∧
      ∀ name ∈ env.plugins, ¬ Excepted env fo0 name →
        (Accounted fo0 (analysisRun env s n) name ↔
          Accounted fo0 s name ∧ ∀ j < n, ¬ LosesOutcome env (analysisRun env s j) name) := by
  induction n with
  | zero =>
    refine ⟨hout, fun name _ _ => ?_⟩
    simp only [Nat.not_lt_zero, false_imp_iff, implies_true, and_true]
    rfl
  | succ n ih =>
    obtain ⟨hout', hall⟩ := ih
    have hnext := (hinv (n + 1)).not_ended
    rw [analysisRun_succ] at hnext ⊢
    have hstep := accounted_step (hinv n) hout' hstores hnext
    refine ⟨hstep.inv, fun name hname hexc => ?_⟩
    rw [hstep.accounted name hname hexc, hall name hname hexc, and_assoc]
    refine and_congr_right fun _ => ⟨?_, fun h => ⟨fun j hj => h j (Nat.lt_succ_of_lt hj), h n ?_⟩⟩
    · rintro ⟨hbefore, hlast⟩ j hj
      rcases Nat.lt_succ_iff_lt_or_eq.mp hj with hj | rfl
      · exact hbefore j hj
      · exact hlast
    · exact Nat.lt_succ_self n

theorem analysisRun_crashed {e : PyException} (hplace : s.place = .crashed e) (n : Nat) :
    analysisRun env s n = s := by
  refine Function.iterate_fixed ?_ n
  unfold analysisStep
  rw [hplace]

/-- A run that completes raises no exception, neither before nor afterwards. -/
theorem noException_of_completed {k : Nat} (hdone : (analysisRun env s k).place = .completed fo)
    (n : Nat) (e : PyException) : (analysisRun env s n).place ≠ .crashed e := by
  intro hcrash
  rcases Nat.le_total n k with hle | hle
  · obtain ⟨d, rfl⟩ := Nat.exists_eq_add_of_le' hle
    rw [analysisRun_add, analysisRun_crashed hcrash, hcrash] at hdone
    cases hdone
  · obtain ⟨d, rfl⟩ := Nat.exists_eq_add_of_le' hle
    rw [analysisRun_add, analysisRun_completed hdone, hdone] at hcrash
    cases hcrash

/-- An analysis of a new object that is completed has started with the invariant. -/
theorem analysisInv_of_completed (h : NewAnalysis env s fo) {fuel k : Nat} {s0 : AnalysisState}
    (hstart : startAnalysisOfObject fuel env s fo = some s0)
    (hdone : (analysisRun env s0 k).place = .completed fo') : AnalysisInv env fo s0 := by
  rcases Decidable.em (∀ p ∈ shuffledList fo.scheduledAnalysis true, p ∈ env.plugins) with
    hreg | hreg
  · obtain ⟨n, s1, hstart', hinv⟩ := startAnalysisOfObject_inv h hreg
    have hmax := startAnalysisOfObject_mono hstart (Nat.le_max_left fuel n)
    obtain rfl := Option.some.inj (hmax.symm.trans (hstart' _ (Nat.le_max_right fuel n)))
    exact hinv
  · obtain ⟨p, hp, hno⟩ : ∃ p ∈ shuffledList fo.scheduledAnalysis true, p ∉ env.plugins := by
      simpa using hreg
    obtain ⟨n, s1, hstart', e, hcrash⟩ := startAnalysisOfObject_raises h hp hno
    have hmax := startAnalysisOfObject_mono hstart (Nat.le_max_left fuel n)
    obtain rfl := Option.some.inj (hmax.symm.trans (hstart' _ (Nat.le_max_right fuel n)))
    exact absurd hcrash (noException_of_completed hdone 0 e)

/-- The start of a new analysis. -/
theorem outcomesInv_start (h : NewAnalysis env s fo) {fuel : Nat} {s0 : AnalysisState}
    (hstart : startAnalysisOfObject fuel env s fo = some s0) : OutcomesInv env fo s0 := by
  -- the database is not touched, and the object still has the results it came with
  have hkept : s0.db = s.db ∧ (∀ name fo', s0.place ≠ .outQueue name fo') ∧
      ∀ fo', s0.place = .processQueue fo' → fo'.processedAnalysis = fo.processedAnalysis := by
    unfold startAnalysisOfObject at hstart
    split at hstart
    · cases hstart
      exact ⟨rfl, fun _ _ hq => (by cases hq), fun _ hq => by cases hq⟩
    · next tables _ =>
      obtain ⟨r, hr, rfl⟩ := Option.map_eq_some_iff.mp hstart
      cases r with
      | error e => exact ⟨rfl, fun _ _ hq => (by cases hq), fun _ hq => by cases hq⟩
      | ok fo1 =>
        obtain ⟨schedule, rfl⟩ := scheduleAnalysisTasks_others hr
        obtain ⟨hdb, hplace, -⟩ := checkFurtherProcessOrComplete_spec env { s with status := tables }
          { fo with scheduledAnalysis := schedule }
        refine ⟨hdb, fun name fo' hq => ?_, fun fo' hq => ?_⟩ <;>
          · rw [hplace] at hq
            unfold checkedPlace at hq
            split at hq <;> cases hq
            try rfl
  obtain ⟨hdb, hplace, hprocessed⟩ := hkept
  refine ⟨fun name _ row hrow => ?_, fun fo' hq => .inr fun name hname => ?_,
    fun name fo' r hq => absurd hq (hplace name fo')⟩
  · rw [hdb] at hrow
    exact absurd (Dict.mem_of_get? hrow) (h.noResults name)
  · rw [hprocessed fo' hq]
    exact h.unprocessed name hname

end Outcomes

/-- A completed analysis of a new object has left an entry for every plugin that was scheduled
exactly if no step of it has lost one. -/
theorem noOutcomeLost_iff {env : AnalysisEnv} {s s0 : AnalysisState} {fo fo' : FileObject}
    {fuel k : Nat} (h : NewAnalysis env s fo)
    (hstores : ∀ uid plugin row, env.driver uid plugin row = none)
    (hstart : startAnalysisOfObject fuel env s fo = some s0)
    (hdone : (analysisRun env s0 k).place = .completed fo') :
    NoOutcomeLost env fo s0 (analysisRun env s0 k) ↔
      ∀ j name, ¬ Excepted env fo name → ¬ LosesOutcome env (analysisRun env s0 j) name := by
  have hstart0 := analysisInv_of_completed h hstart hdone
  have hinv : ∀ n, AnalysisInv env fo (analysisRun env s0 n) := fun n =>
    (stepMeets_of_noException hstart0 h.binary (noException_of_completed hdone) n).1
  have hmeets := fun n =>
    (stepMeets_of_noException hstart0 h.binary (noException_of_completed hdone) n).2
  have hreg : ∀ name ∈ s0.place.schedule, name ∈ env.plugins := hstart0.registered
  obtain ⟨hout, hall⟩ := accounted_run hinv (outcomesInv_start h hstart) hstores k
  constructor
  · intro hkept j name hexc hlost
    -- what is lost was scheduled from the start, and it is lost before the end
    have hsched := (SafeRun.run ⟨hstart0, hmeets⟩ h.binary j).2.1.subset hlost.scheduled
    have hj : j < k := by
      by_contra hle
      obtain ⟨d, rfl⟩ := Nat.exists_eq_add_of_le' (Nat.le_of_not_lt hle)
      rw [analysisRun_add, analysisRun_completed hdone] at hlost
      unfold LosesOutcome at hlost
      rw [hdone] at hlost
      exact hlost
    obtain ⟨result, -, hrow⟩ := hkept name hsched hexc
    have hacc : Accounted fo (analysisRun env s0 k) name := .inr (.inr (Dict.mem_of_get? hrow))
    exact ((hall name (hreg name hsched) hexc).mp hacc).2 j hj hlost
  · intro hkept name hsched hexc
    have hacc := (hall name (hreg name hsched) hexc).mpr ⟨.inl hsched, fun j _ => hkept j name hexc⟩
    unfold Accounted at hacc
    rw [hdone] at hacc
    rcases hacc with hin | hin | hrow
    · exact absurd hin List.not_mem_nil
    · exact absurd hin id
    · obtain ⟨row, hrow⟩ := Dict.mem_iff.mp hrow
      obtain ⟨result, hresult, rfl⟩ := hout.rows name (hreg name hsched) row hrow
      exact ⟨result, hresult, hrow⟩

/-- An environment in which the search for printable strings raises an exception. -/
def failingStrings : AnalysisEnv where
  plugins := examplePlugins
  shuffle := ⟨fun _ l => l, fun _ l => .refl l⟩
  mimeConfig _ := ([], [])
  outcome name := if name = "printable_strings" then .exception else .success []
  driver := acceptAll
  versionNewer _ _ := .ok false
  lower := String.toLower
  time n := n

/-- A new image. -/
def newImage (scheduled : List String) : FileObject :=
  newFirmware ⟨"outer", "aa", "outer.bin", 2⟩ routerMeta scheduled

theorem newAnalysis_newImage (scheduled : List String) :
    NewAnalysis failingStrings idleBackend (newImage scheduled) where
  closed := wellFormed_examplePlugins.closed
  unprocessed _ _ := Dict.not_mem_empty _
  noResults _ := Dict.not_mem_empty _
  noFailure := rfl
  binary := by simp [newImage, newFirmware]
  addable := rfl
  references := by simp [RefsMissing, newImage, newFirmware]
  readable fw hfw := by
    obtain rfl := Option.some.inj hfw
    exact ⟨_, rfl⟩
  notRemoved := rfl

/-- The start of an analysis in which the search for strings fails. -/
def failedSearchStart : AnalysisState :=
  (startAnalysisOfObject 10 failingStrings idleBackend (newImage ["printable_strings"])).get rfl

/-- The failed search for strings leaves an entry like the other plugins, and no step loses one. -/
theorem failed_strings_kept :
    (∃ fo', (analysisRun failingStrings failedSearchStart 9).place = .completed fo') ∧
      NoOutcomeLost failingStrings (newImage ["printable_strings"]) failedSearchStart
        (analysisRun failingStrings failedSearchStart 9) ∧
      ∀ j name, ¬ LosesOutcome failingStrings (analysisRun failingStrings failedSearchStart j) name := by
  have hiff := @noOutcomeLost_iff failingStrings idleBackend failedSearchStart
    (newImage ["printable_strings"]) _ 10 9 (newAnalysis_newImage _) (fun _ _ _ => rfl) rfl rfl
  have hexcepted : ∀ name, ¬ Excepted failingStrings (newImage ["printable_strings"]) name := by
    rintro name ⟨plugin, -, -, hdepth⟩
    exact hdepth rfl
  have hkept : NoOutcomeLost failingStrings (newImage ["printable_strings"]) failedSearchStart
      (analysisRun failingStrings failedSearchStart 9) := by
    intro name hname _
    have hschedule : name ∈ ["file_hashes", "printable_strings", "file_type"] := hname
    rcases List.mem_cons.mp hschedule with rfl | hschedule
    · exact ⟨_, ⟨_, _, rfl, .inl ⟨[], rfl, rfl⟩⟩, rfl⟩
    rcases List.mem_pair.mp hschedule with rfl | rfl
    · exact ⟨_, ⟨_, _, rfl, .inr (.inr ⟨_, rfl⟩)⟩, rfl⟩
    · exact ⟨_, ⟨_, _, rfl, .inl ⟨[], rfl, rfl⟩⟩, rfl⟩
  exact ⟨⟨_, rfl⟩, hkept, fun j name => hiff.mp hkept j name (hexcepted name)⟩

/-- The evaluation of the strings is unscheduled when the search for them has failed, and has no
entry when the analysis is complete. -/
theorem unscheduled_plugin_lost :
    ¬ ∀ (env : AnalysisEnv) (s s0 : AnalysisState) (fo fo' : FileObject) (fuel k : Nat),
      env.plugins.WellFormed → NewAnalysis env s fo →
      (∀ uid plugin row, env.driver uid plugin row = none) →
      startAnalysisOfObject fuel env s fo = some s0 →
      (analysisRun env s0 k).place = .completed fo' →
      NoOutcomeLost env fo s0 (analysisRun env s0 k) := by
  intro h
  have hkept := h failingStrings idleBackend _ (newImage ["string_evaluator"]) _ 10 9
    wellFormed_examplePlugins (newAnalysis_newImage _) (fun _ _ _ => rfl) rfl rfl
  obtain ⟨result, -, hrow⟩ := hkept "string_evaluator" (by decide) (by
    rintro ⟨plugin, -, -, hdepth⟩
    exact hdepth rfl)
  cases hrow.symm.trans rfl

end FactCore
