import FactCore.Scheduler.Analysis
import FactCore.Storage.Histories

/-!
# The steps of the analysis of a new object

An object that has no results yet is taken from the process queue, is skipped or runs,
and is collected. Every step either brings it closer to the end or raises an exception
that nothing catches, and two steps can do the latter: looking up the file type for a
black- or whitelist, and storing a result that the database driver cannot handle.

Results:
1. `addAnalysis_new`: when storing a first result succeeds.
2. `startOrSkipAnalysis_cases`, `processNextAnalysisTask_cases`: the scheduler process.
3. `runPlugin_done`: a plugin process.
4. `collectResult_cases`: the collector.
-/

namespace FactCore

/-! ## 1. Conditions on a step -/

/-- The result of `file_type` names a MIME type. -/
def HasMime (fo : FileObject) (mime : String) : Prop :=
  ∃ result, fo.processedAnalysis.get? "file_type" = some result ∧
    result.get? "mime" = some (.str mime)

/-- A black- or a whitelist applies to the plugin. -/
def HasMimeLists (env : AnalysisEnv) (name : String) (plugin : Plugin) : Prop :=
  name ∉ mandatoryPlugins ∧ ((getBlacklistAndWhitelist env name plugin).1.isEmpty &&
    (getBlacklistAndWhitelist env name plugin).2.isEmpty) = false

/-- The driver stores the row of the result, or raises an error that the session handles. -/
def Storable (driver : Driver) (uid : Uid) (plugin : String) (result : PyVal) : Prop :=
  ∀ e, driver uid plugin (analysisRow result) = some e → e.isSessionError = true

/-- The condition on taking the plugin `name` from the schedule. If a list applies to it, the MIME
type of the object is known; if it is skipped for the MIME type, the skipped result can be
stored. -/
def TakeMeets (env : AnalysisEnv) (now : Rat) (name : String) (plugin : Plugin) (fo : FileObject) :
    Prop :=
  HasMimeLists env name plugin → ∃ mime, HasMime fo mime ∧
    (isBlacklisted (getBlacklistAndWhitelist env name plugin).1
        (getBlacklistAndWhitelist env name plugin).2 (env.lower mime) = true →
      Storable env.driver fo.uid name (getSkippedAnalysisResult plugin now))

/-- The condition on collecting a result: the result of the plugin, or the one that says why it
failed, can be stored. -/
def CollectMeets (env : AnalysisEnv) (now : Rat) (name : String) (fo : FileObject) : Prop :=
  match fo.analysisException with
  | none => ∀ result, fo.processedAnalysis.get? name = some result →
    Storable env.driver fo.uid name result
  | some (_, cause) => ∀ result, getFailedAnalysisResult env.plugins now cause name = .ok result →
    Storable env.driver fo.uid name result

/-- The condition on a step, in the state before it. -/
def StepMeets (env : AnalysisEnv) (s : AnalysisState) : Prop :=
  match s.place with
  | .processQueue fo => ∀ name plugin, fo.scheduledAnalysis.getLast? = some name →
    env.plugins.get? name = some plugin → TakeMeets env (env.time (s.tick + 1)) name plugin fo
  | .outQueue name fo => CollectMeets env (env.time (s.tick + 1)) name fo
  | _ => True

/-! ## 2. Results that can be stored -/

/-- A result with the two keys that every row needs. -/
def CompleteResult (result : PyVal) : Prop :=
  ∃ version date, result.get? "plugin_version" = some (.str version) ∧
    result.get? "analysis_date" = some (.num date)

/-- The version and the date of a result are those of its plugin and of the clock. -/
theorem get?_updateWith_initDict (result : List (String × PyVal)) (plugin : Plugin) (now : Rat) :
    ((PyVal.dict result).updateWith (initDict plugin now)).get? "plugin_version" =
        some (.str plugin.version) ∧
      ((PyVal.dict result).updateWith (initDict plugin now)).get? "analysis_date" =
        some (.num now) := by
  constructor <;>
    simp only [PyVal.updateWith, PyVal.get?, initDict, List.foldl_append, List.foldl_cons,
      List.foldl_nil]
  · split
    · split <;> simp [find_setEntry]
    · simp [find_setEntry]
  · split
    · split <;> simp [find_setEntry]
    · simp [find_setEntry]

theorem completeResult_initDict (result : List (String × PyVal)) (plugin : Plugin) (now : Rat) :
    CompleteResult ((PyVal.dict result).updateWith (initDict plugin now)) :=
  ⟨plugin.version, now, get?_updateWith_initDict result plugin now⟩

section AddAnalysis
variable {driver : Driver} {db : Db} {uid : Uid} {plugin : String} {result : PyVal}

/-- Storing a first result is up to the driver. -/
theorem addAnalysis_first (hrow : uid ∈ db.fileObjects) (hnew : (uid, plugin) ∉ db.analyses)
    (hresult : CompleteResult result) : addAnalysis driver db uid plugin result =
      match driver uid plugin (analysisRow result) with
      | none => ⟨{ db with analyses := db.analyses.set (uid, plugin) (analysisRow result) }, none⟩
      | some e => ⟨db, if e.isSessionError then none else some (sessionError e)⟩ := by
  obtain ⟨version, date, hversion, hdate⟩ := hresult
  have hkeys : (result.hasKey "plugin_version" && result.hasKey "analysis_date") = true := by
    simp [PyVal.hasKey, hversion, hdate]
  have hinsert : insertAnalysis driver db uid plugin result =
      readWriteSession db (storeAnalysis driver db uid plugin (analysisRow result)) := by
    unfold insertAnalysis
    rw [if_neg (not_not_intro hrow), hkeys]
    rfl
  have hv : (analysisRow result).pluginVersion = .str version := by
    show (result.get? "plugin_version").getD .none = _
    rw [hversion]
    rfl
  have hd : (analysisRow result).analysisDate = .num date := by
    show (result.get? "analysis_date").getD .none = _
    rw [hdate]
    rfl
  have hexists : analysisExists db uid plugin = false := decide_eq_false hnew
  unfold addAnalysis
  rw [hexists, hinsert]
  cases hdriver : driver uid plugin (analysisRow result) with
  | none =>
    have hstore : storeAnalysis driver db uid plugin (analysisRow result) =
        .ok { db with analyses := db.analyses.set (uid, plugin) (analysisRow result) } := by
      simp [storeAnalysis, hv, hd, hdriver]
    rw [hstore]
    rfl
  | some e =>
    have hstore : storeAnalysis driver db uid plugin (analysisRow result) = .error e := by
      simp [storeAnalysis, hv, hd, hdriver]
    have he := sessionError_isDbInterfaceError e
    rw [hstore]
    cases hs : e.isSessionError <;> simp [he, hs]

/-- A new result is stored, or the driver raises an error that the session handles, or the error
leaves `add_analysis`. -/
theorem addAnalysis_new (hrow : uid ∈ db.fileObjects) (hnew : (uid, plugin) ∉ db.analyses)
    (hresult : CompleteResult result) :
    ((addAnalysis driver db uid plugin result).raised = none ↔ Storable driver uid plugin result) ∧
      ((addAnalysis driver db uid plugin result).db = db ∨
        (addAnalysis driver db uid plugin result).db =
          { db with analyses := db.analyses.set (uid, plugin) (analysisRow result) }) := by
  rw [addAnalysis_first hrow hnew hresult]
  unfold Storable
  cases hdriver : driver uid plugin (analysisRow result) with
  | none => exact ⟨by simp, .inr rfl⟩
  | some e => exact ⟨by simp, .inl rfl⟩

end AddAnalysis

/-! ## 3. Adding the object again -/

/-- The object is in the database, and adding it again succeeds. -/
structure Stored (driver : Driver) (db : Db) (fo : FileObject) : Prop where
  row : fo.uid ∈ db.fileObjects
  firmware : UpdatesFirmware driver db fo
  references : ¬ RefsMissing db fo

section Stored
variable {driver : Driver} {db : Db} {fo : FileObject}

theorem Stored.addObject_raised (h : Stored driver db fo) : (addObject driver db fo).raised = none :=
  (addObject_stored_raised_iff driver h.row).mpr ⟨h.firmware, h.references⟩

/-- An object that was added without an exception is stored. -/
theorem stored_addObject (h : (addObject driver db fo).raised = none) (hrefs : ¬ RefsMissing db fo)
    (hdate : ReadsDate driver fo) : Stored driver (addObject driver db fo).db fo := by
  have hmem : ∀ u, u ∈ db.fileObjects → u ∈ (addObject driver db fo).db.fileObjects :=
    fun u hu => (mem_fileObjects_addObject h).mpr (.inr hu)
  have hrow : fo.isFirmware = true → fo.uid ∈ (addObject driver db fo).db.firmware :=
    fun hyes => (mem_firmware_addObject_self h).mpr (.inl hyes)
  refine ⟨(mem_fileObjects_addObject h).mpr (.inl rfl), ⟨hrow, hdate⟩, fun hmiss => hrefs ?_⟩
  · exact hmiss.imp (And.imp_right fun h u hu => mt (hmem u) (h u hu))
      (And.imp_right fun h u hu => mt (hmem u) (h u hu))

end Stored

/-! ## 4. The file type -/

section FileType
variable {env : AnalysisEnv} {db : Db} {fo : FileObject} {name : String} {plugin : Plugin}

theorem getAnalysis_of_not_mem {uid : Uid} (h : (uid, name) ∉ db.analyses) :
    getAnalysis db uid name = none := by
  unfold getAnalysis
  rw [Dict.get?_eq_none_iff.mpr h]
  rfl

/-- `result['mime'].lower()` raises an exception unless a text stands under the key. -/
theorem mime_cases (lower : String → String) (result : PyVal) :
    (∃ mime, result.get? "mime" = some (.str mime) ∧
      (result.subscript "mime" >>= pyLower lower) = .ok (lower mime)) ∨
    ((∀ mime, result.get? "mime" ≠ some (.str mime)) ∧
      ∃ e, (result.subscript "mime" >>= pyLower lower) = .error e) := by
  cases result with
  | dict entries =>
    simp only [PyVal.get?, PyVal.subscript]
    cases Dict.find "mime" entries with
    | none => exact .inr ⟨fun mime h => (by cases h), _, rfl⟩
    | some v =>
      cases v with
      | str mime => exact .inl ⟨mime, rfl, rfl⟩
      | _ => exact .inr ⟨fun mime h => (by cases h), _, rfl⟩
  | _ => exact .inr ⟨fun mime h => (by cases h), _, rfl⟩

theorem getFileTypeFromObjectOrDb_of_mem {result : PyVal} (lower : String → String)
    (hresult : fo.processedAnalysis.get? "file_type" = some result) :
    getFileTypeFromObjectOrDb lower db fo =
      (result.subscript "mime" >>= pyLower lower).map fun fileType => (fileType, fo) := by
  have hgetD : fo.processedAnalysis.getD "file_type" .none = result := by
    unfold Dict.getD
    rw [hresult]
    rfl
  unfold getFileTypeFromObjectOrDb
  simp only [if_pos (Dict.mem_of_get? hresult), hgetD]
  cases result.subscript "mime" with
  | error e => rfl
  | ok mime =>
    show (pyLower lower mime >>= fun fileType => pure (fileType, fo)) =
      (pyLower lower mime).map fun fileType => (fileType, fo)
    cases pyLower lower mime <;> rfl

/-- Looking up the file type succeeds exactly if the object has a result with a MIME type. -/
theorem getFileType_cases (lower : String → String)
    (hstored : (fo.uid, "file_type") ∈ db.analyses → "file_type" ∈ fo.processedAnalysis) :
    (∃ mime, HasMime fo mime ∧ getFileTypeFromObjectOrDb lower db fo = .ok (lower mime, fo)) ∨
      ((∀ mime, ¬ HasMime fo mime) ∧ ∃ e, getFileTypeFromObjectOrDb lower db fo = .error e) := by
  cases hresult : fo.processedAnalysis.get? "file_type" with
  | some result =>
    -- the key is there: all depends on what stands under `mime`
    rw [getFileTypeFromObjectOrDb_of_mem lower hresult]
    rcases mime_cases lower result with ⟨mime, hmime, hok⟩ | ⟨hno, e, herr⟩
    · rw [hok]
      exact .inl ⟨mime, ⟨result, hresult, hmime⟩, rfl⟩
    · rw [herr]
      refine .inr ⟨fun mime => ?_, e, rfl⟩
      rintro ⟨result', hresult', hmime⟩
      obtain rfl := Option.some.inj (hresult.symm.trans hresult')
      exact hno mime hmime
  | none =>
    -- neither the object nor the database has a result: the object gets `None`
    have hmem : "file_type" ∉ fo.processedAnalysis := Dict.get?_eq_none_iff.mp hresult
    have hdb := getAnalysis_of_not_mem (mt hstored hmem)
    refine .inr ⟨fun mime => ?_, .typeError "'NoneType' object is not subscriptable", ?_⟩
    · rintro ⟨result, hresult', -⟩
      rw [hresult] at hresult'
      cases hresult'
    · unfold getFileTypeFromObjectOrDb
      simp only [if_neg hmem, addCompletedAnalysisResultsToFileObject, hdb, Option.getD_none,
        Dict.getD, Dict.get?_set_self, Option.getD_some]
      rfl

/-- The decision whether a plugin is skipped for the file type. -/
theorem nextAnalysisIsBlacklisted_cases
    (hstored : (fo.uid, "file_type") ∈ db.analyses → "file_type" ∈ fo.processedAnalysis) :
    ((if name ∈ mandatoryPlugins then .ok (false, fo)
        else nextAnalysisIsBlacklisted env db name plugin fo) = .ok (false, fo) ∧
      (HasMimeLists env name plugin → ∃ mime, HasMime fo mime ∧
        isBlacklisted (getBlacklistAndWhitelist env name plugin).1
          (getBlacklistAndWhitelist env name plugin).2 (env.lower mime) = false)) ∨
    ((if name ∈ mandatoryPlugins then .ok (false, fo)
        else nextAnalysisIsBlacklisted env db name plugin fo) = .ok (true, fo) ∧
      HasMimeLists env name plugin ∧ ∃ mime, HasMime fo mime ∧
        isBlacklisted (getBlacklistAndWhitelist env name plugin).1
          (getBlacklistAndWhitelist env name plugin).2 (env.lower mime) = true) ∨
    ((∃ e, (if name ∈ mandatoryPlugins then .ok (false, fo)
        else nextAnalysisIsBlacklisted env db name plugin fo) = .error e) ∧
      HasMimeLists env name plugin ∧ ∀ mime, ¬ HasMime fo mime) := by
  unfold HasMimeLists
  rcases Decidable.em (name ∈ mandatoryPlugins) with hmand | hmand
  · rw [if_pos hmand]
    exact .inl ⟨rfl, fun h => absurd hmand h.1⟩
  · rw [if_neg hmand]
    unfold nextAnalysisIsBlacklisted
    cases hlists : (getBlacklistAndWhitelist env name plugin).1.isEmpty &&
        (getBlacklistAndWhitelist env name plugin).2.isEmpty with
    | true => exact .inl ⟨by simp [hlists, pure, Except.pure], fun h => absurd h.2 (by simp)⟩
    | false =>
      -- a list is not empty, so that the file type is looked up
      rcases getFileType_cases env.lower hstored with ⟨mime, hmime, hok⟩ | ⟨hno, e, herr⟩
      · simp only [hlists, hok, bind, Except.bind, pure, Except.pure]
        cases hb : isBlacklisted (getBlacklistAndWhitelist env name plugin).1
            (getBlacklistAndWhitelist env name plugin).2 (env.lower mime) with
        | false => exact .inl ⟨rfl, fun _ => ⟨mime, hmime, hb⟩⟩
        | true => exact .inr (.inl ⟨rfl, ⟨hmand, trivial⟩, mime, hmime, hb⟩)
      · simp only [hlists, herr, bind, Except.bind]
        exact .inr (.inr ⟨⟨e, rfl⟩, ⟨hmand, trivial⟩, hno⟩)

end FileType

/-! ## 5. The invariant -/

/-- `fo` is the object `fo0`, with other results and another schedule. -/
def SameObject (fo0 fo : FileObject) : Prop :=
  fo = { fo0 with
    processedAnalysis := fo.processedAnalysis
    scheduledAnalysis := fo.scheduledAnalysis
    analysisException := fo.analysisException }

/-- What holds of an object under way: its schedule names different registered plugins that have
no result yet, and only plugins with a result have a row. -/
structure UnderWay (env : AnalysisEnv) (fo0 : FileObject) (db : Db) (fo : FileObject) : Prop where
  same : SameObject fo0 fo
  nodup : fo.scheduledAnalysis.Nodup
  registered : ∀ p ∈ fo.scheduledAnalysis, p ∈ env.plugins
  unprocessed : ∀ p ∈ fo.scheduledAnalysis, p ∉ fo.processedAnalysis
  rows : ∀ p, (fo0.uid, p) ∈ db.analyses → p ∈ fo.processedAnalysis

/-- The object is in the process queue. -/
structure Queued (env : AnalysisEnv) (fo0 : FileObject) (db : Db) (fo : FileObject) : Prop
    extends UnderWay env fo0 db fo where
  noFailure : fo.analysisException = none
  nonempty : fo.scheduledAnalysis ≠ []
  addable : (addObject env.driver db fo).raised = none
  references : ¬ RefsMissing db fo
  readable : ReadsDate env.driver fo

/-- The plugin `name` was taken from the schedule and has not run yet. -/
structure Taken (env : AnalysisEnv) (fo0 : FileObject) (db : Db) (name : String) (fo : FileObject) :
    Prop extends UnderWay env fo0 db fo where
  noFailure : fo.analysisException = none
  stored : Stored env.driver db fo0
  isPlugin : name ∈ env.plugins
  notScheduled : name ∉ fo.scheduledAnalysis
  notProcessed : name ∉ fo.processedAnalysis

/-- The plugin `name` is done with the object. -/
structure Done (env : AnalysisEnv) (fo0 : FileObject) (db : Db) (name : String) (fo : FileObject) :
    Prop extends UnderWay env fo0 db fo where
  stored : Stored env.driver db fo0
  isPlugin : name ∈ env.plugins
  notScheduled : name ∉ fo.scheduledAnalysis
  noRow : (fo0.uid, name) ∉ db.analyses
  result : ∀ r, fo.analysisException = none → fo.processedAnalysis.get? name = some r →
    CompleteResult r
  failure : ∀ failed cause, fo.analysisException = some (failed, cause) →
    failed = name ∧ name ∈ fo.processedAnalysis

/-- The invariant of the analysis of `fo0`. -/
def AnalysisInv (env : AnalysisEnv) (fo0 : FileObject) (s : AnalysisState) : Prop :=
  match s.place with
  | .processQueue fo => Queued env fo0 s.db fo ∧ s.removals = []
  | .inQueue name fo => Taken env fo0 s.db name fo ∧ s.removals = []
  | .outQueue name fo => Done env fo0 s.db name fo ∧ s.removals = []
  | .completed fo => fo.uid = fo0.uid ∧ fo.scheduledAnalysis = [] ∧ s.removals = [fo0.uid]
  | .dropped _ => False
  | .crashed _ => False

/-- What is left to do. -/
def Place.schedule : Place → List String
  | .processQueue fo | .inQueue _ fo | .outQueue _ fo => fo.scheduledAnalysis
  | .completed _ | .dropped _ | .crashed _ => []

/-- A bound on the steps that are left. -/
def Place.rank : Place → Nat
  | .processQueue fo => 3 * fo.scheduledAnalysis.length + 1
  | .inQueue _ fo => 3 * fo.scheduledAnalysis.length + 3
  | .outQueue _ fo => 3 * fo.scheduledAnalysis.length + 2
  | .completed _ | .dropped _ | .crashed _ => 0

/-- The invariant holds in `s`, and there is less to do than in a place with the given schedule and
rank. -/
structure Advanced (env : AnalysisEnv) (fo0 : FileObject) (schedule : List String) (rank : Nat)
    (s : AnalysisState) : Prop where
  inv : AnalysisInv env fo0 s
  schedule : s.place.schedule.Sublist schedule
  rank : s.place.rank < rank

/-- An exception has left a process. -/
def AnalysisState.Crashed (s : AnalysisState) : Prop := ∃ e, s.place = .crashed e

section Steps
variable {env : AnalysisEnv} {fo0 fo : FileObject} {s : AnalysisState} {db : Db} {name : String}
  {plugin : Plugin}

theorem SameObject.uid (h : SameObject fo0 fo) : fo.uid = fo0.uid := by
  unfold SameObject at h
  rw [h]

theorem SameObject.sha256 (h : SameObject fo0 fo) : fo.sha256 = fo0.sha256 := by
  unfold SameObject at h
  rw [h]

theorem SameObject.stored_iff {driver : Driver} (h : SameObject fo0 fo) :
    Stored driver db fo ↔ Stored driver db fo0 := by
  unfold SameObject at h
  rw [h]
  exact ⟨fun hs => ⟨hs.row, ⟨hs.firmware.row, hs.firmware.date⟩, hs.references⟩,
    fun hs => ⟨hs.row, ⟨hs.firmware.row, hs.firmware.date⟩, hs.references⟩⟩

theorem SameObject.change (h : SameObject fo0 fo) (processed : Dict String PyVal)
    (scheduled : List String) (failure : Option (String × String)) :
    SameObject fo0 { fo with
      processedAnalysis := processed
      scheduledAnalysis := scheduled
      analysisException := failure } := by
  unfold SameObject at h ⊢
  rw [h]

/-- A new analysis row keeps an object stored. -/
theorem Stored.setAnalyses {driver : Driver} (h : Stored driver db fo)
    (analyses : Dict (Uid × String) AnalysisEntry) :
    Stored driver { db with analyses := analyses } fo :=
  ⟨h.row, ⟨h.firmware.row, h.firmware.date⟩, h.references⟩

/-! ## 6. Completing -/

/-- Removing an object from the current analyses raises no exception. -/
theorem removeFromCurrentAnalyses_ok (env : AnalysisEnv) (s : AnalysisState) (fo : FileObject)
    (place : Place) : ∃ tables, removeFromCurrentAnalyses env s fo place =
      { s with status := tables, removals := s.removals ++ [fo.uid], place := place } := by
  obtain ⟨tables, hok⟩ := (@Section.run_ok_iff s.status (.removeFromCurrent fo)
    (env.time s.tick)).mpr trivial
  unfold removeFromCurrentAnalyses
  rw [hok]
  exact ⟨tables, rfl⟩

/-- An object goes back to the process queue or is complete. -/
theorem checkFurtherProcessOrComplete_advanced (h : UnderWay env fo0 s.db fo)
    (hfail : fo.analysisException = none) (hadd : (addObject env.driver s.db fo).raised = none)
    (hrefs : ¬ RefsMissing s.db fo) (hdate : ReadsDate env.driver fo) (hrem : s.removals = []) :
    Advanced env fo0 fo.scheduledAnalysis (3 * fo.scheduledAnalysis.length + 2)
      (checkFurtherProcessOrComplete env s fo) := by
  unfold checkFurtherProcessOrComplete
  cases hsched : fo.scheduledAnalysis with
  | nil =>
    obtain ⟨tables, hremove⟩ := removeFromCurrentAnalyses_ok env s fo (.completed fo)
    rw [List.isEmpty_nil, if_pos rfl, hremove]
    refine ⟨⟨h.same.uid, hsched, ?_⟩, .refl _, Nat.succ_pos _⟩
    show s.removals ++ [fo.uid] = [fo0.uid]
    rw [hrem, h.same.uid, List.nil_append]
  | cons p rest =>
    refine ⟨⟨⟨h, hfail, ?_, hadd, hrefs, hdate⟩, hrem⟩, ?_, ?_⟩
    · rw [hsched]
      exact List.cons_ne_nil p rest
    · show fo.scheduledAnalysis.Sublist _
      rw [hsched]
    · show 3 * fo.scheduledAnalysis.length + 1 < _
      rw [hsched]
      omega

/-- So does an object that is stored already. -/
theorem UnderWay.check (h : UnderWay env fo0 s.db fo) (hfail : fo.analysisException = none)
    (hstored : Stored env.driver s.db fo0) (hrem : s.removals = []) :
    Advanced env fo0 fo.scheduledAnalysis (3 * fo.scheduledAnalysis.length + 2)
      (checkFurtherProcessOrComplete env s fo) := by
  have hfo := h.same.stored_iff.mpr hstored
  exact checkFurtherProcessOrComplete_advanced h hfail hfo.addObject_raised hfo.references
    hfo.firmware.date hrem

/-! ## 7. Taking a plugin -/

theorem getSkippedAnalysisResult_complete (plugin : Plugin) (now : Rat) :
    CompleteResult (getSkippedAnalysisResult plugin now) :=
  ⟨plugin.version, now, rfl, rfl⟩

theorem Taken.noRow (h : Taken env fo0 db name fo) : (fo0.uid, name) ∉ db.analyses :=
  fun hrow => h.notProcessed (h.rows name hrow)

/-- A result for a plugin that is not scheduled keeps the object under way. -/
theorem UnderWay.setResult (h : UnderWay env fo0 db fo) (hname : name ∉ fo.scheduledAnalysis)
    (result : PyVal) :
    UnderWay env fo0 db { fo with processedAnalysis := fo.processedAnalysis.set name result } where
  same := h.same.change _ _ _
  nodup := h.nodup
  registered := h.registered
  unprocessed p hp hmem := by
    rcases Dict.mem_set.mp hmem with rfl | hmem
    · exact hname hp
    · exact h.unprocessed p hp hmem
  rows p hp := Dict.mem_set.mpr (.inr (h.rows p hp))

/-- So does a row for a plugin that has a result. -/
theorem UnderWay.setRow (h : UnderWay env fo0 db fo) (hname : name ∈ fo.processedAnalysis)
    (row : AnalysisEntry) :
    UnderWay env fo0 { db with analyses := db.analyses.set (fo0.uid, name) row } fo where
  same := h.same
  nodup := h.nodup
  registered := h.registered
  unprocessed := h.unprocessed
  rows p hp := by
    rcases Dict.mem_set.mp hp with heq | hp
    · obtain rfl := (Prod.mk.inj heq).2
      exact hname
    · exact h.rows p hp

/-- Storing the result of a plugin that has one and no row yet: the analysis goes on exactly if the
result can be stored. -/
theorem postAnalysisAndCheck_cases {result : PyVal} (h : UnderWay env fo0 s.db fo)
    (hfail : fo.analysisException = none) (hstored : Stored env.driver s.db fo0) (hrem : s.removals = [])
    (hname : name ∈ fo.processedAnalysis) (hnew : (fo0.uid, name) ∉ s.db.analyses)
    (hresult : CompleteResult result) :
    (Storable env.driver fo.uid name result →
      Advanced env fo0 fo.scheduledAnalysis (3 * fo.scheduledAnalysis.length + 2)
        (postAnalysisAndCheck env s fo name result)) ∧
    (¬ Storable env.driver fo.uid name result → (postAnalysisAndCheck env s fo name result).Crashed) := by
  unfold postAnalysisAndCheck
  rw [h.same.uid]
  obtain ⟨hraised, hdb⟩ := @addAnalysis_new env.driver s.db fo0.uid name result hstored.row hnew
    hresult
  constructor
  · intro hstorable
    simp only [hraised.mpr hstorable]
    -- the row is written, or silently left out
    rcases hdb with hdb | hdb <;> rw [hdb]
    · exact UnderWay.check (s := { s with db := s.db }) h hfail hstored hrem
    · exact UnderWay.check (s := { s with db := { s.db with analyses := _ } }) (h.setRow hname _)
        hfail (hstored.setAnalyses _) hrem
  · intro hno
    obtain ⟨e, he⟩ := Option.ne_none_iff_exists'.mp (mt hraised.mp hno)
    simp only [he]
    exact ⟨e, rfl⟩

theorem skipBlacklisted_cases (h : Taken env fo0 s.db name fo) (hrem : s.removals = []) :
    (Storable env.driver fo.uid name (getSkippedAnalysisResult plugin (env.time s.tick)) →
      Advanced env fo0 fo.scheduledAnalysis (3 * fo.scheduledAnalysis.length + 2)
        (skipBlacklisted env s name plugin fo)) ∧
    (¬ Storable env.driver fo.uid name (getSkippedAnalysisResult plugin (env.time s.tick)) →
      (skipBlacklisted env s name plugin fo).Crashed) :=
  postAnalysisAndCheck_cases (h.setResult h.notScheduled _) h.noFailure h.stored hrem
    (Dict.mem_set.mpr (.inl rfl)) h.noRow
    (getSkippedAnalysisResult_complete plugin (env.time s.tick))

theorem startAnalysis_advanced (h : Taken env fo0 s.db name fo) (hbinary : fo0.sha256 ≠ none)
    (hrem : s.removals = []) :
    Advanced env fo0 fo.scheduledAnalysis (3 * fo.scheduledAnalysis.length + 4)
      (startAnalysis s name plugin fo) := by
  have hnone : fo.processedAnalysis.get? name = none := Dict.get?_eq_none_iff.mpr h.notProcessed
  -- a task that is not run has neither a result nor a failure
  have hdone : Done env fo0 s.db name fo := ⟨h.toUnderWay, h.stored, h.isPlugin, h.notScheduled,
    h.noRow, fun r _ hr => absurd (hnone.symm.trans hr) (by simp),
    fun failed cause hexc => absurd (h.noFailure.symm.trans hexc) (by simp)⟩
  unfold startAnalysis addJob
  rw [if_neg (h.same.sha256 ▸ hbinary)]
  show Advanced env fo0 _ _ { s with place := _ }
  split
  · exact ⟨⟨hdone, hrem⟩, .refl _, Nat.lt_succ_of_lt (Nat.lt_succ_self _)⟩
  · split
    · exact ⟨⟨h, hrem⟩, .refl _, Nat.lt_succ_self _⟩
    · exact ⟨⟨hdone, hrem⟩, .refl _, Nat.lt_succ_of_lt (Nat.lt_succ_self _)⟩

theorem startOrSkipAnalysis_cases (h : Taken env fo0 s.db name fo) (hbinary : fo0.sha256 ≠ none)
    (hrem : s.removals = []) :
    (TakeMeets env (env.time s.tick) name plugin fo →
      Advanced env fo0 fo.scheduledAnalysis (3 * fo.scheduledAnalysis.length + 4)
        (startOrSkipAnalysis env s name plugin fo)) ∧
    (¬ TakeMeets env (env.time s.tick) name plugin fo →
      (startOrSkipAnalysis env s name plugin fo).Crashed) := by
  -- a new object has no row, so that no plugin is up to date
  have hnotInDb : (if fo.forceUpdate then .ok false
      else analysisIsAlreadyInDbAndUpToDate env s.db name fo.uid) = .ok false := by
    unfold analysisIsAlreadyInDbAndUpToDate
    rw [h.same.uid, getAnalysis_of_not_mem h.noRow]
    split <;> rfl
  have hrows : (fo.uid, "file_type") ∈ s.db.analyses → "file_type" ∈ fo.processedAnalysis := by
    rw [h.same.uid]
    exact h.rows "file_type"
  unfold startOrSkipAnalysis TakeMeets
  rw [hnotInDb]
  rcases @nextAnalysisIsBlacklisted_cases env s.db fo name plugin hrows with
    ⟨hrun, hlisted⟩ | ⟨hskip, hlists, mime, hmime, hlisted⟩ | ⟨⟨e, herr⟩, hlists, hno⟩
  · -- the plugin runs
    simp only [hrun]
    refine ⟨fun _ => startAnalysis_advanced h hbinary hrem, fun hnot => absurd ?_ hnot⟩
    intro hlists
    obtain ⟨mime, hmime, hfree⟩ := hlisted hlists
    exact ⟨mime, hmime, fun hyes => absurd (hfree.symm.trans hyes) Bool.false_ne_true⟩
  · -- the plugin is skipped
    simp only [hskip]
    obtain ⟨hok, hcrash⟩ := @skipBlacklisted_cases env fo0 fo s name plugin h hrem
    constructor
    · intro hmeets
      obtain ⟨mime', ⟨result', hresult', hmime'⟩, hstorable⟩ := hmeets hlists
      obtain ⟨result, hresult, hget⟩ := hmime
      obtain rfl := Option.some.inj (hresult.symm.trans hresult')
      obtain rfl := PyVal.str.inj (Option.some.inj (hget.symm.trans hmime'))
      have hadv := hok (hstorable hlisted)
      exact ⟨hadv.inv, hadv.schedule, Nat.lt_succ_of_lt (Nat.lt_succ_of_lt hadv.rank)⟩
    · exact fun hnot => hcrash fun hstorable => hnot fun _ => ⟨mime, hmime, fun _ => hstorable⟩
  · -- the file type is unknown
    simp only [herr]
    exact ⟨fun hmeets => absurd (hmeets hlists) fun ⟨mime, hmime, _⟩ => hno mime hmime,
      fun _ => ⟨e, rfl⟩⟩

/-- The plugin at the end of the schedule is taken. -/
theorem UnderWay.take {rest : List String} (h : UnderWay env fo0 db fo)
    (hsched : fo.scheduledAnalysis = rest ++ [name]) (hfail : fo.analysisException = none)
    (hstored : Stored env.driver db fo0) :
    Taken env fo0 db name { fo with scheduledAnalysis := rest } := by
  have hsub : ∀ p ∈ rest, p ∈ fo.scheduledAnalysis := fun p hp => hsched ▸ List.mem_append_left _ hp
  have hname : name ∈ fo.scheduledAnalysis := hsched ▸ List.mem_append_right _ List.mem_cons_self
  have hn : (rest ++ [name]).Nodup := hsched ▸ h.nodup
  exact ⟨⟨h.same.change _ _ _, hn.of_append_left, fun p hp => h.registered p (hsub p hp),
    fun p hp => h.unprocessed p (hsub p hp), h.rows⟩, hfail, hstored, h.registered name hname,
    fun hmem => List.disjoint_of_nodup_append hn hmem List.mem_cons_self,
    h.unprocessed name hname⟩

/-- The object is added to the database, and the plugin at the end of the schedule is taken. -/
theorem Queued.take {rest : List String} (h : Queued env fo0 db fo)
    (hsched : fo.scheduledAnalysis = rest ++ [name]) :
    Taken env fo0 (addObject env.driver db fo).db name { fo with scheduledAnalysis := rest } := by
  -- adding the object writes rows for the results it has, and for no other plugin
  have hadded := addObject_added h.addable
  have hunder : UnderWay env fo0 (addObject env.driver db fo).db fo :=
    ⟨h.same, h.nodup, h.registered, h.unprocessed, fun p hp =>
      (hadded.analyses _ hp).elim (h.rows p) And.right⟩
  exact hunder.take hsched h.noFailure
    (h.same.stored_iff.mp (stored_addObject h.addable h.references h.readable))

/-- One step of the scheduler process. -/
theorem processNextAnalysisTask_cases (h : Queued env fo0 s.db fo) (hbinary : fo0.sha256 ≠ none)
    (hrem : s.removals = []) :
    ∃ rest name plugin, fo.scheduledAnalysis = rest ++ [name] ∧ env.plugins.get? name = some plugin ∧
      (TakeMeets env (env.time s.tick) name plugin fo →
        Advanced env fo0 fo.scheduledAnalysis (3 * fo.scheduledAnalysis.length + 1)
          (processNextAnalysisTask env s fo)) ∧
      (¬ TakeMeets env (env.time s.tick) name plugin fo →
        (processNextAnalysisTask env s fo).Crashed) := by
  obtain ⟨rest, name, hsched⟩ :=
    (List.eq_nil_or_concat fo.scheduledAnalysis).resolve_left h.nonempty
  rw [List.concat_eq_append] at hsched
  obtain ⟨plugin, hplugin⟩ := Dict.mem_iff.mp (h.registered name
    (hsched ▸ List.mem_append_right _ List.mem_cons_self))
  refine ⟨rest, name, plugin, hsched, hplugin, ?_⟩
  have htaken := h.take hsched
  have hlen : fo.scheduledAnalysis.length = rest.length + 1 := by
    rw [hsched, List.length_append, List.length_singleton]
  unfold processNextAnalysisTask processAddedObject
  simp only [h.addable, hsched, List.getLast?_concat, List.dropLast_concat, hplugin]
  obtain ⟨hok, hcrash⟩ := @startOrSkipAnalysis_cases env fo0 _
    { s with
      db := (addObject env.driver s.db fo).db
      unpackingLocks := s.unpackingLocks.releaseUnpackingLock fo.uid } name plugin htaken hbinary hrem
  refine ⟨fun hmeets => ?_, hcrash⟩
  have hadv := hok hmeets
  refine ⟨hadv.inv, hadv.schedule.trans (List.sublist_append_left rest [name]), ?_⟩
  rw [List.length_append, List.length_singleton]
  exact hadv.rank

/-! ## 8. Running a plugin and collecting its result -/

theorem runPlugin_done (h : Taken env fo0 db name fo) (plugin : Plugin) (now : Rat) :
    Done env fo0 db name (runPlugin env now plugin name fo) ∧
      (runPlugin env now plugin name fo).scheduledAnalysis = fo.scheduledAnalysis := by
  -- both failures leave the empty result and name the plugin
  have hstart := h.setResult h.notScheduled (.dict [])
  have hfailed : ∀ cause, Done env fo0 db name (handleFailedAnalysis name cause
      { fo with processedAnalysis := fo.processedAnalysis.set name (.dict []) }) := by
    intro cause
    refine ⟨⟨h.same.change _ _ _, h.nodup, h.registered, hstart.unprocessed, hstart.rows⟩, h.stored,
      h.isPlugin, h.notScheduled, h.noRow, fun r hnone => (by cases hnone),
      fun failed cause' hexc => ?_⟩
    obtain ⟨rfl, -⟩ := Prod.mk.inj (Option.some.inj hexc)
    exact ⟨rfl, Dict.mem_set.mpr (.inl rfl)⟩
  unfold runPlugin
  split
  · next result _ =>
    refine ⟨⟨hstart.setResult h.notScheduled _, h.stored, h.isPlugin, h.notScheduled, h.noRow,
      fun r _ hr => ?_, fun failed cause hexc => ?_⟩, rfl⟩
    · obtain rfl := Option.some.inj ((Dict.get?_set_self _ _ _).symm.trans hr)
      exact completeResult_initDict result plugin now
    · exact absurd (h.noFailure.symm.trans hexc) (by simp)
  · exact ⟨hfailed "Exception", rfl⟩
  · exact ⟨hfailed "Timeout", rfl⟩

/-- Unscheduling what depends on a failed plugin keeps the object under way. -/
theorem UnderWay.unschedule {failed : String} {fo' : FileObject} (h : UnderWay env fo0 db fo)
    (hun : Unscheduled env.plugins failed fo.scheduledAnalysis fo fo') :
    UnderWay env fo0 db fo' where
  same := hun.others ▸ h.same.change _ _ _
  nodup := h.nodup.sublist hun.sublist
  registered p hp := h.registered p (hun.sublist.subset hp)
  unprocessed p hp hmem := by
    obtain ⟨hsched, hno⟩ := (hun.scheduled p).mp hp
    exact ((hun.processed p).mp hmem).elim (h.unprocessed p hsched) hno
  rows p hp := (hun.processed p).mpr (.inl (h.rows p hp))

/-- The result of a plugin, if it left one without failing, is complete. -/
theorem Done.collect {result : PyVal} (h : Done env fo0 s.db name fo) (hrem : s.removals = [])
    (hexc : fo.analysisException = none) (hresult : fo.processedAnalysis.get? name = some result) :
    (Storable env.driver fo.uid name result →
      Advanced env fo0 fo.scheduledAnalysis (3 * fo.scheduledAnalysis.length + 2)
        (collectResult env s name fo)) ∧
    (¬ Storable env.driver fo.uid name result → (collectResult env s name fo).Crashed) := by
  have hmem := Dict.mem_of_get? hresult
  have hcollect : collectResult env s name fo = postAnalysisAndCheck env s fo name result := by
    unfold collectResult Dict.getD
    rw [if_pos hmem, hexc]
    show postAnalysisAndCheck env s fo name ((fo.processedAnalysis.get? name).getD .none) = _
    rw [hresult]
    rfl
  rw [hcollect]
  exact postAnalysisAndCheck_cases h.toUnderWay hexc h.stored hrem hmem h.noRow
    (h.result result hexc hresult)

/-- The failure of a plugin is collected as a result that says so. -/
theorem Done.collectFailure {cause : String} {result : PyVal} (h : Done env fo0 s.db name fo)
    (hrem : s.removals = []) (hexc : fo.analysisException = some (name, cause))
    (hmem : name ∈ fo.processedAnalysis)
    (hfailed : getFailedAnalysisResult env.plugins (env.time s.tick) cause name = .ok result) :
    (Storable env.driver fo.uid name result →
      Advanced env fo0 fo.scheduledAnalysis (3 * fo.scheduledAnalysis.length + 2)
        (collectResult env s name fo)) ∧
    (¬ Storable env.driver fo.uid name result → (collectResult env s name fo).Crashed) := by
  obtain ⟨fo', hok, hun⟩ := rescheduleFailedAnalysisTask_ok hexc h.nodup h.registered hfailed
  have hset : UnderWay env fo0 s.db { fo with
      analysisException := none
      processedAnalysis := fo.processedAnalysis.set name result } := by
    have hres := h.setResult h.notScheduled result
    exact ⟨h.same.change _ _ _, hres.nodup, hres.registered, hres.unprocessed, hres.rows⟩
  have hunder : UnderWay env fo0 s.db fo' := hset.unschedule hun
  have hnone : fo'.analysisException = none := by rw [hun.others]
  -- what depends on the plugin is skipped, but its own result is left alone
  have hkept : fo'.processedAnalysis.get? name = some result :=
    (hun.kept name h.notScheduled).trans (Dict.get?_set_self _ _ _)
  have huid : fo'.uid = fo.uid := by rw [hunder.same.uid, h.same.uid]
  have hcollect : collectResult env s name fo = postAnalysisAndCheck env s fo' name result := by
    unfold collectResult Dict.getD
    rw [if_pos hmem]
    simp only [hexc, Option.isSome_some, if_true, hok, hkept]
    rfl
  have hcomplete : CompleteResult result := by
    obtain ⟨version, hversion⟩ := getFailedAnalysisResult_ok h.isPlugin (env.time s.tick) cause
    obtain rfl := Except.ok.inj (hfailed.symm.trans hversion)
    exact ⟨version, env.time s.tick, rfl, rfl⟩
  obtain ⟨hstore, hcrash⟩ := postAnalysisAndCheck_cases hunder hnone h.stored hrem
    (Dict.mem_of_get? hkept) h.noRow hcomplete
  rw [hcollect, ← huid]
  refine ⟨fun hstorable => ?_, hcrash⟩
  have hadv := hstore hstorable
  have hlen : fo'.scheduledAnalysis.length ≤ fo.scheduledAnalysis.length := hun.sublist.length_le
  exact ⟨hadv.inv, hadv.schedule.trans hun.sublist, Nat.lt_of_lt_of_le hadv.rank (by omega)⟩

/-- One step of the collector. -/
theorem collectResult_cases (h : Done env fo0 s.db name fo) (hrem : s.removals = []) :
    (CollectMeets env (env.time s.tick) name fo →
      Advanced env fo0 fo.scheduledAnalysis (3 * fo.scheduledAnalysis.length + 2)
        (collectResult env s name fo)) ∧
    (¬ CollectMeets env (env.time s.tick) name fo → (collectResult env s name fo).Crashed) := by
  unfold CollectMeets
  cases hexc : fo.analysisException with
  | none =>
    cases hresult : fo.processedAnalysis.get? name with
    | none =>
      -- the plugin was not run
      unfold collectResult
      rw [if_neg (Dict.get?_eq_none_iff.mp hresult)]
      exact ⟨fun _ => h.toUnderWay.check hexc h.stored hrem,
        fun hno => absurd (fun r hr => by cases hr) hno⟩
    | some result =>
      simp only [Option.some.injEq, forall_eq']
      exact h.collect hrem hexc hresult
  | some failure =>
    obtain ⟨failed, cause⟩ := failure
    obtain ⟨rfl, hmem⟩ := h.failure failed cause hexc
    obtain ⟨version, hresult⟩ := getFailedAnalysisResult_ok h.isPlugin (env.time s.tick) cause
    simp only [hresult, Except.ok.injEq, forall_eq']
    exact h.collectFailure hrem hexc hmem hresult

end Steps

end FactCore
