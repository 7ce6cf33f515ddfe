import Mathlib.Logic.Function.Iterate
import FactCore.Scheduler.AnalysisStatus
import FactCore.Scheduler.TaskScheduler
import FactCore.Storage.Backend
import FactCore.Storage.FileStore

/-!
# The analysis scheduler

`src/src/scheduler/analysis.py` with the worker of `src/src/analysis/PluginBase.py`:
the way of one object through the process queue, the queues of the plugins and the
result collector, until nothing is scheduled for it any more.

The way is deterministic once it is known how the run of each plugin ends, so one
step is a function on states. An exception that leaves the scheduler process or the
collector process ends the way in the place `crashed`.

Parameters of the model are what is not in the repository: the database driver,
`parse_version`, the configuration, the clock, and what the plugins do. The clock is
read once in a step.
-/

namespace FactCore

/-! ## 1. The environment and the state -/

/-- How the run of a plugin ends: with a result (the dict `process_object` leaves), or with
`_handle_failed_analysis`. -/
inductive PluginOutcome
  | success (result : List (String × PyVal))
  | exception
  | timeout

/-- What the scheduler works with. -/
structure AnalysisEnv where
  plugins : PluginTable
  shuffle : Shuffle
  /-- The black- and the whitelist of a plugin in the configuration; a missing list is empty. -/
  mimeConfig : String → List String × List String
  outcome : String → PluginOutcome
  driver : Driver
  /-- `parse_version(a) > parse_version(b)`. -/
  versionNewer : PyVal → PyVal → Except PyException Bool
  /-- `str.lower`. -/
  lower : String → String
  /-- `time()` in the step of the given number. -/
  time : Nat → Rat

/-- Where the object is. -/
inductive Place
  | processQueue (fo : FileObject)
  | inQueue (plugin : String) (fo : FileObject)
  | outQueue (plugin : String) (fo : FileObject)
  /-- The analysis is complete. -/
  | completed (fo : FileObject)
  /-- The object could not be added to the database. -/
  | dropped (fo : FileObject)
  /-- An exception has left a process of the scheduler. -/
  | crashed (e : PyException)

/-- The state of the backend during the analysis of one object. `removals` lists the calls of
`status.remove_from_current_analyses`. -/
structure AnalysisState where
  db : Db
  files : FileStore
  unpackingLocks : UnpackingLocks
  status : StatusTables
  removals : List Uid
  tick : Nat
  place : Place

/-- An exception leaves the process. -/
def AnalysisState.crash (s : AnalysisState) (e : PyException) : AnalysisState :=
  { s with place := .crashed e }

/-! ## 2. Reading values -/

/-- `d[key]`. -/
def PyVal.subscript (d : PyVal) (key : String) : Except PyException PyVal :=
  match d with
  | .dict entries =>
    match Dict.find key entries with
    | some v => .ok v
    | Option.none => .error (.keyError key)
  | .none => .error (.typeError "'NoneType' object is not subscriptable")
  | .list _ => .error (.typeError "list indices must be integers or slices, not str")
  | .str _ => .error (.typeError "string indices must be integers")
  | _ => .error (.typeError "object is not subscriptable")

/-- `v.lower()`. -/
def pyLower (lower : String → String) : PyVal → Except PyException String
  | .str s => .ok (lower s)
  | _ => .error (.attributeError "object has no attribute 'lower'")

/-- `a < b` for the values of a numeric column. -/
def pyLess : PyVal → PyVal → Except PyException Bool
  | .num a, .num b => .ok (decide (a < b))
  | _, _ => .error (.typeError "'<' not supported between these instances")

/-- `_fix_system_version`. -/
def fixSystemVersion (systemVersion : PyVal) : Except PyException PyVal :=
  if !systemVersion.truthy then .ok (.str "0")
  else match systemVersion with
    | .str s => .ok (.str (s.map fun c => if c = '_' then '-' else c))
    | _ => .error (.attributeError "object has no attribute 'replace'")

/-- `substring_is_in_list`. -/
def substringIsInList (string : String) (substringList : List String) : Bool :=
  substringList.any fun substring => decide (substring.toList <:+: string.toList)

/-! ## 3. Results in the database -/

/-- `_current_version_is_newer`. -/
def currentVersionIsNewer (env : AnalysisEnv) (plugin : Plugin) (dbEntry : PyVal) :
    Except PyException Bool := do
  let dbVersion ← dbEntry.subscript "plugin_version"
  let pluginVersionIsNewer ← env.versionNewer (.str plugin.version) dbVersion
  let systemVersion ← fixSystemVersion (plugin.systemVersion.elim .none .str)
  let dbSystemVersion ← fixSystemVersion (dbEntry.getOrNone "system_version")
  let systemVersionIsNewer ← env.versionNewer systemVersion dbSystemVersion
  return pluginVersionIsNewer || systemVersionIsNewer

/-- `_dependencies_are_up_to_date`. -/
def dependenciesAreUpToDate (db : Db) (dbEntry : PyVal) (uid : Uid) :
    List String → Except PyException Bool
  | [] => .ok true
  | dependency :: dependencies => do
    let date ← dbEntry.subscript "analysis_date"
    let dependencyDate ← ((getAnalysis db uid dependency).getD .none).subscript "analysis_date"
    if ← pyLess date dependencyDate then return false
    else dependenciesAreUpToDate db dbEntry uid dependencies

/-- `_analysis_is_up_to_date`. -/
def analysisIsUpToDate (env : AnalysisEnv) (db : Db) (dbEntry : PyVal) (plugin : Plugin)
    (uid : Uid) : Except PyException Bool :=
  match currentVersionIsNewer env plugin dbEntry with
  | .ok true => .ok false
  | .ok false => dependenciesAreUpToDate db dbEntry uid plugin.dependencies
  -- only these two are caught: the versions cannot be compared, the plugin runs again
  | .error (.typeError _) => .ok false
  | .error (.invalidVersion _) => .ok false
  | .error e => .error e

/-- `_analysis_is_already_in_db_and_up_to_date`. -/
def analysisIsAlreadyInDbAndUpToDate (env : AnalysisEnv) (db : Db) (analysisToDo : String)
    (uid : Uid) : Except PyException Bool :=
  match getAnalysis db uid analysisToDo with
  | none => .ok false
  | some dbEntry => do
    if dbEntry.hasKey "failed" then return false
    let version ← dbEntry.subscript "plugin_version"
    match version with
    -- a version that is missing altogether is a `KeyError` instead
    | .none => return false
    | _ =>
      let plugin ← env.plugins.lookup analysisToDo
      analysisIsUpToDate env db dbEntry plugin uid

/-- `_add_completed_analysis_results_to_file_object`. -/
def addCompletedAnalysisResultsToFileObject (db : Db) (analysisToDo : String)
    (fwObject : FileObject) : FileObject :=
  { fwObject with
    processedAnalysis := fwObject.processedAnalysis.set analysisToDo
      ((getAnalysis db fwObject.uid analysisToDo).getD .none) }

/-! ## 4. Black- and whitelists -/

/-- `_get_blacklist_and_whitelist`. -/
def getBlacklistAndWhitelist (env : AnalysisEnv) (nextAnalysis : String) (plugin : Plugin) :
    List String × List String :=
  let config := env.mimeConfig nextAnalysis
  if config.1.isEmpty && config.2.isEmpty then (plugin.mimeBlacklist, plugin.mimeWhitelist)
  else config

/-- `_get_file_type_from_object_or_db`, with the object that has the result then. -/
def getFileTypeFromObjectOrDb (lower : String → String) (db : Db) (fwObject : FileObject) :
    Except PyException (String × FileObject) := do
  let fo := if "file_type" ∈ fwObject.processedAnalysis then fwObject
    else addCompletedAnalysisResultsToFileObject db "file_type" fwObject
  let mime ← (fo.processedAnalysis.getD "file_type" .none).subscript "mime"
  let fileType ← pyLower lower mime
  return (fileType, fo)

/-- The decision at the end of `_next_analysis_is_blacklisted`. -/
def isBlacklisted (blacklist whitelist : List String) (fileType : String) : Bool :=
  if !whitelist.isEmpty then !substringIsInList fileType whitelist
  else substringIsInList fileType blacklist

/-- `_next_analysis_is_blacklisted`. -/
def nextAnalysisIsBlacklisted (env : AnalysisEnv) (db : Db) (nextAnalysis : String)
    (plugin : Plugin) (fwObject : FileObject) : Except PyException (Bool × FileObject) := do
  let lists := getBlacklistAndWhitelist env nextAnalysis plugin
  if lists.1.isEmpty && lists.2.isEmpty then return (false, fwObject)
  let (fileType, fo) ← getFileTypeFromObjectOrDb env.lower db fwObject
  return (isBlacklisted lists.1 lists.2 fileType, fo)

/-- `_get_skipped_analysis_result`. -/
def getSkippedAnalysisResult (plugin : Plugin) (now : Rat) : PyVal :=
  .dict [("skipped", .str "blacklisted file type"), ("summary", .list []),
    ("analysis_date", .num now), ("plugin_version", .str plugin.version)]

/-! ## 5. The scheduler process -/

/-- `status.remove_from_current_analyses`, after which the object is at `place`. -/
def removeFromCurrentAnalyses (env : AnalysisEnv) (s : AnalysisState) (fwObject : FileObject)
    (place : Place) : AnalysisState :=
  match (Section.removeFromCurrent fwObject).run s.status (env.time s.tick) with
  | .ok tables =>
    { s with status := tables, removals := s.removals ++ [fwObject.uid], place := place }
  | .error e => s.crash e

/-- `_check_further_process_or_complete`. -/
def checkFurtherProcessOrComplete (env : AnalysisEnv) (s : AnalysisState) (fwObject : FileObject) :
    AnalysisState :=
  if fwObject.scheduledAnalysis.isEmpty then
    removeFromCurrentAnalyses env s fwObject (.completed fwObject)
  else { s with place := .processQueue fwObject }

/-- `self.post_analysis(...)` for a result, and `_check_further_process_or_complete`. -/
def postAnalysisAndCheck (env : AnalysisEnv) (s : AnalysisState) (fwObject : FileObject)
    (plugin : String) (result : PyVal) : AnalysisState :=
  let r := addAnalysis env.driver s.db fwObject.uid plugin result
  let s' := { s with db := r.db }
  match r.raised with
  | some e => s'.crash e
  | none => checkFurtherProcessOrComplete env s' fwObject

/-- `AnalysisBasePlugin.add_job`. -/
def addJob (plugin : Plugin) (name : String) (fwObject : FileObject) : Place :=
  -- a task that cannot run goes to the collector, without a result
  if plugin.dependencies.any fun dep => decide (dep ∉ fwObject.processedAnalysis) then
    .outQueue name fwObject
  else if plugin.recursive || fwObject.depth == 0 then .inQueue name fwObject
  else .outQueue name fwObject

/-- `_set_binary`. -/
def setBinary (files : FileStore) (fileObject : FileObject) : Except PyException FileObject :=
  (files.readBinary fileObject.uid).map fun binary => { fileObject with sha256 := some binary }

/-- The last branch of `_start_or_skip_analysis`. -/
def startAnalysis (s : AnalysisState) (analysisToDo : String) (plugin : Plugin)
    (fileObject : FileObject) : AnalysisState :=
  match (if fileObject.sha256 = none then setBinary s.files fileObject else .ok fileObject) with
  | .error e => s.crash e
  | .ok fo => { s with place := addJob plugin analysisToDo fo }

/-- The branch of `_start_or_skip_analysis` for a blacklisted file type. -/
def skipBlacklisted (env : AnalysisEnv) (s : AnalysisState) (analysisToDo : String)
    (plugin : Plugin) (fileObject : FileObject) : AnalysisState :=
  let result := getSkippedAnalysisResult plugin (env.time s.tick)
  postAnalysisAndCheck env s
    { fileObject with
      processedAnalysis := fileObject.processedAnalysis.set analysisToDo result }
    analysisToDo result

/-- The branch of `_start_or_skip_analysis` for a result that is in the database. -/
def skipUpToDate (env : AnalysisEnv) (s : AnalysisState) (analysisToDo : String)
    (fileObject : FileObject) : AnalysisState :=
  match getCumulativeRemainingDependencies env.plugins fileObject.scheduledAnalysis with
  | .error e => s.crash e
  | .ok dependencies =>
    checkFurtherProcessOrComplete env s
      (if analysisToDo ∈ dependencies then
        addCompletedAnalysisResultsToFileObject s.db analysisToDo fileObject
      else fileObject)

/-- `_start_or_skip_analysis` for a registered plugin. -/
def startOrSkipAnalysis (env : AnalysisEnv) (s : AnalysisState) (analysisToDo : String)
    (plugin : Plugin) (fileObject : FileObject) : AnalysisState :=
  match (if fileObject.forceUpdate then .ok false
      else analysisIsAlreadyInDbAndUpToDate env s.db analysisToDo fileObject.uid) with
  | .error e => s.crash e
  | .ok true => skipUpToDate env s analysisToDo fileObject
  | .ok false =>
    match (if analysisToDo ∈ mandatoryPlugins then .ok (false, fileObject)
        else nextAnalysisIsBlacklisted env s.db analysisToDo plugin fileObject) with
    | .error e => s.crash e
    | .ok (true, fo) => skipBlacklisted env s analysisToDo plugin fo
    | .ok (false, fo) => startAnalysis s analysisToDo plugin fo

/-- What `_process_next_analysis_task` does once the object is in the database. -/
def processAddedObject (env : AnalysisEnv) (s : AnalysisState) (fwObject : FileObject) :
    AnalysisState :=
  match fwObject.scheduledAnalysis.getLast? with
  | none => s.crash (.indexError "pop from empty list")
  | some analysisToDo =>
    let fo := { fwObject with scheduledAnalysis := fwObject.scheduledAnalysis.dropLast }
    match env.plugins.get? analysisToDo with
    -- only an error is logged, and the plugin is left out
    | none => checkFurtherProcessOrComplete env s fo
    | some plugin => startOrSkipAnalysis env s analysisToDo plugin fo

/-- `_process_next_analysis_task`: a `DbInterfaceError` is logged. -/
def processNextAnalysisTask (env : AnalysisEnv) (s : AnalysisState) (fwObject : FileObject) :
    AnalysisState :=
  let r := addObject env.driver s.db fwObject
  let s' := { s with db := r.db }
  match r.raised with
  | some e =>
    if e.isDbInterfaceError then removeFromCurrentAnalyses env s' fwObject (.dropped fwObject)
    else s'.crash e
  | none => processAddedObject env
      { s' with unpackingLocks := s.unpackingLocks.releaseUnpackingLock fwObject.uid } fwObject

/-! ## 6. The workers and the collector -/

/-- `init_dict`. -/
def initDict (plugin : Plugin) (now : Rat) : List (String × PyVal) :=
  [("analysis_date", .num now), ("plugin_version", .str plugin.version)] ++
    match plugin.systemVersion with
    | some v => if v = "" then [] else [("system_version", .str v)]
    | none => []

/-- `_handle_failed_analysis`. -/
def handleFailedAnalysis (name cause : String) (fwObject : FileObject) : FileObject :=
  { fwObject with analysisException := some (name, cause ++ " occurred during analysis") }

/-- `worker` on one task: the empty result it starts with is what is left after a failure. -/
def runPlugin (env : AnalysisEnv) (now : Rat) (plugin : Plugin) (name : String)
    (task : FileObject) : FileObject :=
  let started := { task with processedAnalysis := task.processedAnalysis.set name (.dict []) }
  match env.outcome name with
  | .success result =>
    { started with
      processedAnalysis := started.processedAnalysis.set name
        ((PyVal.dict result).updateWith (initDict plugin now)) }
  | .exception => handleFailedAnalysis name "Exception" started
  | .timeout => handleFailedAnalysis name "Timeout" started

/-- One object in `_result_collector`. -/
def collectResult (env : AnalysisEnv) (s : AnalysisState) (pluginName : String)
    (fw : FileObject) : AnalysisState :=
  if pluginName ∈ fw.processedAnalysis then
    match (if fw.analysisException.isSome then
        rescheduleFailedAnalysisTask env.plugins (env.time s.tick) fw else .ok fw) with
    | .error e => s.crash e
    | .ok fo =>
      postAnalysisAndCheck env s fo pluginName (fo.processedAnalysis.getD pluginName .none)
  -- the plugin was not run on this object
  else checkFurtherProcessOrComplete env s fw

/-! ## 7. Steps and runs -/

/-- The next step of the process that has the object. -/
def analysisStep (env : AnalysisEnv) (s : AnalysisState) : AnalysisState :=
  let s' := { s with tick := s.tick + 1 }
  match s.place with
  | .processQueue fo => processNextAnalysisTask env s' fo
  | .inQueue name fo =>
    match env.plugins.get? name with
    | some plugin =>
      { s' with place := .outQueue name (runPlugin env (env.time s'.tick) plugin name fo) }
    | none => s'
  | .outQueue name fo => collectResult env s' name fo
  | .completed _ => s
  | .dropped _ => s
  | .crashed _ => s

/-- The state after `n` steps. -/
def analysisRun (env : AnalysisEnv) (s : AnalysisState) (n : Nat) : AnalysisState :=
  (analysisStep env)^[n] s

/-- `start_analysis_of_object`, with `fuel` rounds for each loop of the scheduling. The place of
`s` does not matter. -/
def startAnalysisOfObject (fuel : Nat) (env : AnalysisEnv) (s : AnalysisState) (fo : FileObject) :
    Option AnalysisState :=
  match (Section.addToCurrent fo).run s.status (env.time s.tick) with
  | .error e => some (s.crash e)
  | .ok tables =>
    let s' := { s with status := tables }
    (scheduleAnalysisTasks fuel env.plugins env.shuffle.run fo fo.scheduledAnalysis true).map
      fun r => match r with
        | .error e => s'.crash e
        | .ok fo' => checkFurtherProcessOrComplete env s' fo'

end FactCore
