import Mathlib.Data.Prod.Lex
import FactCore.Lib.Backlog
import FactCore.Lib.Ledger
import FactCore.Lib.MapM
import FactCore.Lib.Run
import FactCore.Scheduler.EntryPoints
import FactCore.Unpacking

/-!
# The pipeline of the backend

`src/src/scheduler/unpacking_scheduler.py` and the queues of
`src/src/scheduler/analysis.py`. Any number of objects are under way at once: in the
queue of the unpacking scheduler, in the hands of its workers, in the process queue, in
the queues of the plugins and in the hands of their workers. The processes take their
steps in any order.

A queue is a `multiprocessing.Queue`: what one process puts into it arrives in this order,
but it can overtake what another process has put in before.

A worker that unpacks an archive hands the archive to the analysis and puts the
extracted files into the unpacking queue one after the other, as long as the load
monitor does not hold it back.

An event is the action of a process and the world it meets: what the database, the
plugins, the extractor and the clock answer.

Results:
1. `analysisStep_length`: what a step of the analysis does to the schedule.
2. `PipelineStep.shift`: what a step takes from the work and what it adds.
3. `pipeline_conserves`: no object is lost or doubled.
4. `pipeline_ends`: without new objects the processes come to rest.
-/

namespace FactCore

open Backlog

/-! ## 1. The state -/

/-- An object under way. The ticket tells apart objects of the same file; the code has no such
number. `rootUid` is the attribute `root_uid`, and `sender` the process that has put the object
into its queue. -/
structure Task where
  ticket : Nat
  rootUid : Uid
  fo : FileObject
  sender : Nat

/-- The process puts the object into a queue. -/
def Task.sentBy (t : Task) (process : Nat) : Task := { t with sender := process }

/-- The queues of a plugin, and the objects that its workers have. -/
structure Lane where
  inQueue : List Task
  active : List Task
  outQueue : List Task

/-- The lane of a plugin with nothing to do. -/
def Lane.empty : Lane := ⟨[], [], []⟩

/-- The configuration. -/
structure PipelineConfig where
  plugins : PluginTable
  /-- `thread_count` of a plugin. -/
  threadCount : String → Nat
  /-- `cfg.unpack.max_depth`. -/
  maxDepth : Nat
  /-- `cfg.expert_settings.unpack_throttle_limit`. -/
  unpackThrottleLimit : Int

/-- The state of the backend. `unpackWorkers` lists for each worker the extracted objects that it
still has to schedule; a worker with none is waiting for the queue. -/
structure Pipeline where
  db : Db
  files : FileStore
  unpackingLocks : UnpackingLocks
  status : StatusTables
  throttleCondition : Bool
  unpackQueue : List Task
  unpackWorkers : List (List Task)
  processQueue : List Task
  lanes : Dict String Lane
  /-- The process of `_task_runner` is running. -/
  runnerAlive : Bool
  /-- The process of `_result_collector` is running. -/
  collectorAlive : Bool
  finished : List Task
  /-- The objects that could not be added to the database. -/
  dropped : List Task
  /-- The objects on which an exception left a process. -/
  lost : List (Task × PyException)
  /-- The plugins that were handed to `_start_or_skip_analysis`, the last one first. -/
  handed : List (Nat × String)
  nextTicket : Nat

/-- The number of the process that acts, and what it meets. -/
structure World where
  process : Nat
  env : AnalysisEnv
  tmpDir : String
  getSha256 : List UInt8 → String
  extractor : ExtractorRun
  now : Rat

/-- What the processes do. A `position` is that of the object that arrives from a queue. -/
inductive PipelineAction
  /-- `UnpackingScheduler.add_task`, for an upload. -/
  | addTask (rootUid : Uid) (fo : FileObject)
  /-- An update hands an object to `_check_further_process_or_complete`. -/
  | update (rootUid : Uid) (fo : FileObject)
  /-- A worker takes an object from the unpacking queue, unpacks it and hands it to the analysis. -/
  | unpack (worker position : Nat)
  /-- `_add_object_to_unpack_queue`, when it does not wait. -/
  | schedule (worker : Nat)
  /-- One round of `_work_load_monitor`. -/
  | monitor
  /-- `_task_runner` takes an object from the process queue. -/
  | process (position : Nat)
  /-- A worker of the plugin takes an object. -/
  | start (plugin : String) (position : Nat)
  /-- A worker of the plugin is done with its object. -/
  | finish (plugin : String) (worker : Nat)
  /-- `_result_collector` takes an object from the out-queue of the plugin. -/
  | collect (plugin : String) (position : Nat)
  /-- Another process of the system changes what is shared. -/
  | others (db : Db) (files : FileStore) (unpackingLocks : UnpackingLocks) (status : StatusTables)

/-- Actions that take up work that is there. -/
def PipelineAction.isWork : PipelineAction → Bool
  | .unpack _ _ | .schedule _ | .process _ | .start _ _ | .finish _ _ | .collect _ _ => true
  | .addTask _ _ | .update _ _ | .monitor | .others _ _ _ _ => false

/-! ## 2. The steps -/

namespace Pipeline

/-- What the process that has an object sees. -/
def view (p : Pipeline) (place : Place) : AnalysisState :=
  ⟨p.db, p.files, p.unpackingLocks, p.status, [], 0, place⟩

/-- The shared part of the state is that of `s`. -/
def absorb (p : Pipeline) (s : AnalysisState) : Pipeline :=
  { p with db := s.db, files := s.files, unpackingLocks := s.unpackingLocks, status := s.status }

def lane (p : Pipeline) (name : String) : Lane := p.lanes.getD name Lane.empty

def setLane (p : Pipeline) (name : String) (lane : Lane) : Pipeline :=
  { p with lanes := p.lanes.set name lane }

/-- Put an object where a step has left it. -/
def deliver (p : Pipeline) (t : Task) : Place → Pipeline
  | .processQueue fo => { p with processQueue := p.processQueue ++ [{ t with fo := fo }] }
  | .inQueue name fo => p.setLane name
      { p.lane name with inQueue := (p.lane name).inQueue ++ [{ t with fo := fo }] }
  | .outQueue name fo => p.setLane name
      { p.lane name with outQueue := (p.lane name).outQueue ++ [{ t with fo := fo }] }
  | .completed fo => { p with finished := { t with fo := fo } :: p.finished }
  | .dropped fo => { p with dropped := { t with fo := fo } :: p.dropped }
  | .crashed e => { p with lost := (t, e) :: p.lost }

/-- A process of the analysis takes the object, which is at `place`, one step on. -/
def advance (p : Pipeline) (process : Nat) (env : AnalysisEnv) (t : Task) (place : Place) :
    Pipeline :=
  let s := analysisStep env (p.view place)
  let handed := (handedPlugin env (p.view place)).toList.map fun name => (t.ticket, name)
  { p.absorb s with handed := handed ++ p.handed }.deliver (t.sentBy process) s.place

/-- `get_combined_analysis_workload`. -/
def combinedAnalysisWorkload (p : Pipeline) : Nat :=
  p.processQueue.length + p.lanes.total fun _ lane => lane.inQueue.length

end Pipeline

/-- An exception has left the process that had the object. -/
def Place.isCrashed : Place → Bool
  | .crashed _ => true
  | _ => false

/-- What the unpacker does to the locks and to the file store. A file that is stored without being an
object is a copy of the archive. -/
def applyUnpackEffect (out : Unpacked) (shared : UnpackingLocks × FileStore) :
    UnpackEffect → UnpackingLocks × FileStore
  | .setUnpackingLock uid => (shared.1.setUnpackingLock uid, shared.2)
  | .storeFile uid => (shared.1, shared.2.storeFile
      ((out.objects.find? fun fo => decide (fo.uid = uid)).getD out.currentFo))

/-- The state after `unpack`. -/
def Pipeline.applyUnpacked (p : Pipeline) (out : Unpacked) : Pipeline :=
  let shared := out.effects.foldl (applyUnpackEffect out) (p.unpackingLocks, p.files)
  { p with unpackingLocks := shared.1, files := shared.2 }

/-- The extracted objects as tasks with new tickets. -/
def numberTasks (process : Nat) (rootUid : Uid) : Nat → List FileObject → List Task
  | _, [] => []
  | n, fo :: fos => ⟨n, rootUid, fo, process⟩ :: numberTasks process rootUid (n + 1) fos

/-- `Unpacker.unpack` for the object of a task. -/
def unpackTask (cfg : PipelineConfig) (w : World) (t : Task) : Except PyException Unpacked :=
  unpack ⟨w.tmpDir, w.getSha256, t.rootUid, t.fo⟩ cfg.maxDepth w.now w.extractor

/-- The step relation. A worker that an exception ended is replaced by a new one. -/
inductive PipelineStep (cfg : PipelineConfig) : Pipeline → PipelineAction × World → Pipeline → Prop
  | addTask {p : Pipeline} {w : World} {rootUid : Uid} {fo : FileObject} :
      PipelineStep cfg p (.addTask rootUid fo, w)
        { p with
          unpackQueue := p.unpackQueue ++ [⟨p.nextTicket, rootUid, fo, w.process⟩]
          nextTicket := p.nextTicket + 1 }
  | update {p : Pipeline} {w : World} {rootUid : Uid} {fo : FileObject} {s : AnalysisState} :
      w.env.plugins = cfg.plugins →
      checkFurtherProcessOrComplete w.env (p.view (.processQueue fo)) fo = s →
      PipelineStep cfg p (.update rootUid fo, w)
        ({ p.absorb s with nextTicket := p.nextTicket + 1 }.deliver
          ⟨p.nextTicket, rootUid, fo, w.process⟩ s.place)
  | unpack {p : Pipeline} {w : World} {worker i fuel : Nat} {t : Task} {out : Unpacked}
      {s : AnalysisState} : w.env.plugins = cfg.plugins →
      p.unpackWorkers[worker]? = some [] → Receives Task.sender p.unpackQueue i t →
      unpackTask cfg w t = .ok out →
      startAnalysisOfObject fuel w.env ((p.applyUnpacked out).view (.processQueue out.currentFo))
        out.currentFo = some s → s.place.isCrashed = false →
      PipelineStep cfg p (.unpack worker i, w)
        ({ p.absorb s with
            unpackQueue := p.unpackQueue.eraseIdx i
            unpackWorkers :=
              p.unpackWorkers.set worker (numberTasks w.process t.rootUid p.nextTicket out.objects)
            nextTicket := p.nextTicket + out.objects.length }.deliver (t.sentBy w.process) s.place)
  /-- The unpacker raises an exception. -/
  | unpackRaises {p : Pipeline} {w : World} {worker i : Nat} {t : Task} {e : PyException} :
      w.env.plugins = cfg.plugins → p.unpackWorkers[worker]? = some [] →
      Receives Task.sender p.unpackQueue i t → unpackTask cfg w t = .error e →
      PipelineStep cfg p (.unpack worker i, w)
        ({ p with unpackQueue := p.unpackQueue.eraseIdx i }.deliver t (.crashed e))
  /-- The analysis of the unpacked object cannot be started. -/
  | startRaises {p : Pipeline} {w : World} {worker i fuel : Nat} {t : Task} {out : Unpacked}
      {s : AnalysisState} : w.env.plugins = cfg.plugins →
      p.unpackWorkers[worker]? = some [] → Receives Task.sender p.unpackQueue i t →
      unpackTask cfg w t = .ok out →
      startAnalysisOfObject fuel w.env ((p.applyUnpacked out).view (.processQueue out.currentFo))
        out.currentFo = some s → s.place.isCrashed = true →
      PipelineStep cfg p (.unpack worker i, w)
        ({ p.absorb s with unpackQueue := p.unpackQueue.eraseIdx i }.deliver t s.place)
  | schedule {p : Pipeline} {w : World} {worker : Nat} {t : Task} {rest : List Task} :
      p.throttleCondition = false → p.unpackWorkers[worker]? = some (t :: rest) →
      PipelineStep cfg p (.schedule worker, w)
        { p with
          unpackQueue := p.unpackQueue ++ [t.sentBy w.process]
          unpackWorkers := p.unpackWorkers.set worker rest }
  | monitor {p : Pipeline} {w : World} :
      PipelineStep cfg p (.monitor, w)
        { p with
          throttleCondition :=
            !decide ((p.combinedAnalysisWorkload : Int) < cfg.unpackThrottleLimit) }
  | process {p p' : Pipeline} {w : World} {i : Nat} {t : Task} :
      w.env.plugins = cfg.plugins → p.runnerAlive = true → Receives Task.sender p.processQueue i t →
      { p with processQueue := p.processQueue.eraseIdx i }.advance w.process w.env t
        (.processQueue t.fo) = p' →
      PipelineStep cfg p (.process i, w)
        { p' with
          runnerAlive := !(analysisStep w.env (p.view (.processQueue t.fo))).place.isCrashed }
  | start {p : Pipeline} {w : World} {name : String} {i : Nat} {t : Task} :
      name ∈ cfg.plugins → Receives Task.sender (p.lane name).inQueue i t →
      (p.lane name).active.length < cfg.threadCount name →
      PipelineStep cfg p (.start name i, w)
        (p.setLane name
          { p.lane name with
            inQueue := (p.lane name).inQueue.eraseIdx i
            active := (p.lane name).active ++ [t] })
  | finish {p : Pipeline} {w : World} {name : String} {worker : Nat} {t : Task} :
      w.env.plugins = cfg.plugins → name ∈ cfg.plugins → (p.lane name).active[worker]? = some t →
      PipelineStep cfg p (.finish name worker, w)
        ((p.setLane name { p.lane name with active := (p.lane name).active.eraseIdx worker }).advance
          w.process w.env t (.inQueue name t.fo))
  | collect {p p' : Pipeline} {w : World} {name : String} {i : Nat} {t : Task} :
      w.env.plugins = cfg.plugins → name ∈ cfg.plugins → p.collectorAlive = true →
      Receives Task.sender (p.lane name).outQueue i t →
      (p.setLane name { p.lane name with outQueue := (p.lane name).outQueue.eraseIdx i }).advance
        w.process w.env t (.outQueue name t.fo) = p' →
      PipelineStep cfg p (.collect name i, w)
        { p' with
          collectorAlive := !(analysisStep w.env (p.view (.outQueue name t.fo))).place.isCrashed }
  | others {p : Pipeline} {w : World} {db : Db} {files : FileStore}
      {unpackingLocks : UnpackingLocks} {status : StatusTables} :
      PipelineStep cfg p (.others db files unpackingLocks status, w)
        { p with db := db, files := files, unpackingLocks := unpackingLocks, status := status }

/-! ## 3. Where the objects are -/

/-- The places where an object waits or is worked on. -/
inductive Stage
  /-- A worker that unpacked an archive still has to schedule it. -/
  | extracted
  | unpackQueue
  | processQueue
  | inQueue (plugin : String)
  | active (plugin : String)
  | outQueue (plugin : String)

def atStage (stage : Stage) (tasks : List Task) : Multiset (Stage × Task) :=
  tasks.map fun t => (stage, t)

@[simp] theorem atStage_nil (stage : Stage) : atStage stage [] = 0 := rfl

@[simp] theorem atStage_cons (stage : Stage) (t : Task) (ts : List Task) :
    atStage stage (t :: ts) = {(stage, t)} + atStage stage ts := by
  rw [Multiset.singleton_add]
  rfl

@[simp] theorem atStage_append (stage : Stage) (ts us : List Task) :
    atStage stage (ts ++ us) = atStage stage ts + atStage stage us := by
  unfold atStage
  rw [List.map_append, Multiset.coe_add]

theorem atStage_eraseIdx {stage : Stage} {ts : List Task} {i : Nat} {t : Task} (h : ts[i]? = some t) :
    atStage stage ts = {(stage, t)} + atStage stage (ts.eraseIdx i) := by
  induction ts generalizing i with
  | nil => cases h
  | cons u ts ih =>
    cases i with
    | zero =>
      obtain rfl : u = t := by simpa using h
      exact atStage_cons stage u ts
    | succ i =>
      rw [List.eraseIdx_cons_succ, atStage_cons, atStage_cons, ih (by simpa using h)]
      abel

/-- The objects of a lane. -/
def Lane.items (name : String) (lane : Lane) : Multiset (Stage × Task) :=
  atStage (.inQueue name) lane.inQueue + atStage (.active name) lane.active +
    atStage (.outQueue name) lane.outQueue

namespace Pipeline

/-- All objects under way, with their places. -/
def live (p : Pipeline) : Multiset (Stage × Task) :=
  atStage .unpackQueue p.unpackQueue + (p.unpackWorkers.map (atStage .extracted)).sum +
    atStage .processQueue p.processQueue + p.lanes.total Lane.items

/-- All objects that have left. -/
def gone (p : Pipeline) : Multiset Task :=
  (p.finished : Multiset Task) + (p.dropped : Multiset Task) + (p.lost.map Prod.fst : List Task)

/-- The tickets of all objects, each as often as the object is somewhere. -/
def tickets (p : Pipeline) : Multiset Nat :=
  p.live.map (fun x => x.2.ticket) + p.gone.map Task.ticket

end Pipeline

/-- What comes to the objects under way when an object is put at the place. -/
def Place.items (t : Task) : Place → Multiset (Stage × Task)
  | .processQueue fo => {(.processQueue, { t with fo := fo })}
  | .inQueue name fo => {(.inQueue name, { t with fo := fo })}
  | .outQueue name fo => {(.outQueue name, { t with fo := fo })}
  | .completed _ | .dropped _ | .crashed _ => 0

/-- What comes to the objects that have left. -/
def Place.gone (t : Task) : Place → Multiset Task
  | .completed fo | .dropped fo => {{ t with fo := fo }}
  | .crashed _ => {t}
  | .processQueue _ | .inQueue _ _ | .outQueue _ _ => 0

section Books
variable {cfg : PipelineConfig} {p p' : Pipeline} {t : Task} {place : Place} {name : String}

@[simp] theorem Lane.items_empty (name : String) : Lane.empty.items name = 0 := rfl

/-- Changing a lane changes what is in it, and nothing else. -/
theorem Pipeline.exists_setLane (p : Pipeline) (name : String) :
    ∃ rest, p.live = (p.lane name).items name + rest ∧
      ∀ lane, (p.setLane name lane).live = lane.items name + rest := by
  obtain ⟨rest, htotal, hset⟩ := Dict.exists_total (Lane.items_empty name) p.lanes
  refine ⟨atStage .unpackQueue p.unpackQueue + (p.unpackWorkers.map (atStage .extracted)).sum +
    atStage .processQueue p.processQueue + rest, ?_, fun lane => ?_⟩
  · unfold Pipeline.live Pipeline.lane
    rw [htotal]
    abel
  · unfold Pipeline.live Pipeline.setLane
    dsimp only
    rw [hset]
    abel

/-- An object that is put somewhere is there once. -/
theorem Pipeline.live_deliver (p : Pipeline) (t : Task) (place : Place) :
    (p.deliver t place).live = place.items t + p.live := by
  cases place with
  | processQueue fo =>
    simp only [Pipeline.deliver, Pipeline.live, Place.items, atStage_append, atStage_cons, atStage_nil]
    abel
  | inQueue name fo | outQueue name fo =>
    obtain ⟨rest, hlive, hset⟩ := p.exists_setLane name
    simp only [Pipeline.deliver, Place.items, hlive, hset, Lane.items, atStage_append, atStage_cons,
      atStage_nil]
    abel
  | completed fo | dropped fo | crashed e => exact (zero_add _).symm

theorem Pipeline.gone_deliver (p : Pipeline) (t : Task) (place : Place) :
    (p.deliver t place).gone = place.gone t + p.gone := by
  cases place with
  | processQueue fo | inQueue name fo | outQueue name fo => exact (zero_add _).symm
  | completed fo | dropped fo | crashed e =>
    simp only [Pipeline.deliver, Pipeline.gone, Place.gone, List.map_cons, ← Multiset.cons_coe,
      ← Multiset.singleton_add]
    abel

theorem Pipeline.nextTicket_deliver (p : Pipeline) (t : Task) (place : Place) :
    (p.deliver t place).nextTicket = p.nextTicket := by
  cases place <;> rfl

theorem Place.tickets_items_gone (t : Task) (place : Place) :
    (place.items t).map (fun x => x.2.ticket) + (place.gone t).map Task.ticket = {t.ticket} := by
  cases place <;> rfl

end Books

/-! ## 4. What is left to do -/

/-- What is left to do for an object at the place, counted in steps. -/
def Place.load : Place → Nat
  | .processQueue fo => 4 * fo.scheduledAnalysis.length
  | .inQueue _ fo => 4 * fo.scheduledAnalysis.length + 3
  | .outQueue _ fo => 4 * fo.scheduledAnalysis.length + 1
  | .completed _ | .dropped _ | .crashed _ => 0

/-- The rank of an object. An object that is still to be unpacked can become any number of objects,
but these lie deeper. -/
def rank (cfg : PipelineConfig) : Stage × Task → ℕ ×ₗ ℕ
  | (.extracted, t) => toLex (cfg.maxDepth - t.fo.depth + 1, 1)
  | (.unpackQueue, t) => toLex (cfg.maxDepth - t.fo.depth + 1, 0)
  | (.processQueue, t) => toLex (0, 4 * t.fo.scheduledAnalysis.length)
  | (.inQueue _, t) => toLex (0, 4 * t.fo.scheduledAnalysis.length + 3)
  | (.active _, t) => toLex (0, 4 * t.fo.scheduledAnalysis.length + 2)
  | (.outQueue _, t) => toLex (0, 4 * t.fo.scheduledAnalysis.length + 1)

section Load
variable {cfg : PipelineConfig} {env : AnalysisEnv} {s : AnalysisState} {t : Task} {place : Place}
  {fo : FileObject} {name : String}

theorem rank_of_mem_items {y : Stage × Task} (h : y ∈ place.items t) :
    rank cfg y = toLex (0, place.load) := by
  cases place with
  | processQueue fo | inQueue name fo | outQueue name fo =>
    obtain rfl := Multiset.mem_singleton.mp h
    rfl
  | completed fo | dropped fo | crashed e => exact absurd h (Multiset.notMem_zero y)

theorem load_checkedPlace (fo : FileObject) :
    (checkedPlace fo).load = 4 * fo.scheduledAnalysis.length := by
  unfold checkedPlace
  split
  · next hempty =>
    rw [List.isEmpty_iff.mp hempty]
    rfl
  · rfl

theorem load_addJob_le (plugin : Plugin) (name : String) (fo : FileObject) :
    (addJob plugin name fo).load ≤ 4 * fo.scheduledAnalysis.length + 3 := by
  unfold addJob
  split
  · exact Nat.add_le_add_left (by decide) _
  · split
    · exact Nat.le_refl _
    · exact Nat.add_le_add_left (by decide) _

theorem items_of_ended (h : s.Ended) : s.place.items t = 0 := by
  unfold AnalysisState.Ended at h
  split at h
  · next fo hplace => rw [hplace]; rfl
  · next e hplace => rw [hplace]; rfl
  · exact absurd h id

/-- The scheduler process takes a plugin from the schedule. -/
theorem analysisStep_load_processQueue (hplace : s.place = .processQueue fo) :
    (analysisStep env s).place.items t = 0 ∨
      (analysisStep env s).place.load < 4 * fo.scheduledAnalysis.length := by
  have hpopped : ∀ {fo1 : FileObject} {rest : List String} {name : String} {db : Db},
      Pops env s fo1 rest name db → 4 * rest.length + 3 < 4 * fo.scheduledAnalysis.length := by
    intro fo1 rest name db hpop
    obtain rfl := Place.processQueue.inj (hplace.symm.trans hpop.place)
    rw [hpop.schedule, List.length_append, List.length_singleton, Nat.mul_add]
    exact Nat.lt_succ_self _
  have hchecked : ∀ {fo1 : FileObject} {rest : List String}, fo1.scheduledAnalysis = rest →
      4 * rest.length + 3 < 4 * fo.scheduledAnalysis.length →
      (checkedPlace fo1).load < 4 * fo.scheduledAnalysis.length := by
    rintro fo1 rest rfl hlt
    rw [load_checkedPlace]
    exact Nat.lt_of_le_of_lt (Nat.le_add_right _ 3) hlt
  cases analysisStep_move env s with
  | ended hend => exact .inl (items_of_ended hend)
  | unknown hpop _ _ hplace' =>
    rw [hplace']
    exact .inr (hchecked rfl (hpopped hpop))
  | upToDate hpop _ _ hfo _ hplace' =>
    rw [hplace']
    refine .inr (hchecked ?_ (hpopped hpop))
    rcases hfo with rfl | rfl <;> rfl
  | skipped hpop _ _ hlist _ _ hplace' =>
    rw [hplace', blacklistCheck_others hlist]
    exact .inr (hchecked rfl (hpopped hpop))
  | started hpop _ _ hlist _ hplace' =>
    rw [hplace', blacklistCheck_others hlist]
    exact .inr (Nat.lt_of_le_of_lt (load_addJob_le _ _ _) (hpopped hpop))
  | rests h | waits h | ran h | notRun h | collected h | failed h =>
    rw [hplace] at h
    cases h

/-- A worker of a plugin leaves the schedule as it is. -/
theorem analysisStep_inQueue (hplace : s.place = .inQueue name fo) (hreg : name ∈ env.plugins) :
    ∃ fo', (analysisStep env s).place = .outQueue name fo' ∧
      fo'.scheduledAnalysis = fo.scheduledAnalysis := by
  obtain ⟨plugin, hplugin⟩ := Dict.mem_iff.mp hreg
  unfold analysisStep
  simp only [hplace, hplugin]
  exact ⟨_, rfl, schedule_runPlugin env _ plugin name fo⟩

/-- The collector may take plugins out of the schedule. -/
theorem analysisStep_load_outQueue (hplace : s.place = .outQueue name fo) :
    (analysisStep env s).place.items t = 0 ∨
      (analysisStep env s).place.load < 4 * fo.scheduledAnalysis.length + 1 := by
  cases analysisStep_move env s with
  | ended hend => exact .inl (items_of_ended hend)
  | notRun h _ _ hplace' | collected h _ _ _ _ hplace' =>
    obtain ⟨-, rfl⟩ := Place.outQueue.inj (hplace.symm.trans h)
    rw [hplace', load_checkedPlace]
    exact .inr (Nat.lt_succ_self _)
  | failed h _ _ hre _ _ hplace' =>
    obtain ⟨-, rfl⟩ := Place.outQueue.inj (hplace.symm.trans h)
    obtain ⟨failed, cause, -, hschedule⟩ := rescheduleFailedAnalysisTask_schedule hre
    rw [hplace', load_checkedPlace, hschedule]
    exact .inr (Nat.lt_succ_of_le (Nat.mul_le_mul_left 4 (List.length_filter_le _ _)))
  | unknown h | upToDate h | skipped h | started h =>
    have h := h.place
    rw [hplace] at h
    cases h
  | rests h | waits h | ran h =>
    rw [hplace] at h
    cases h

end Load

section Extracted
variable {cfg : PipelineConfig} {w : World} {t : Task} {out : Unpacked}

theorem addIncludedFilesToObject_depth (rootUid : Uid) (files : List LoadedFile)
    (parent : FileObject) : ∀ child ∈ (addIncludedFilesToObject rootUid files parent).2,
      child.depth = parent.depth + 1 := by
  induction files generalizing parent with
  | nil => exact fun _ h => absurd h List.not_mem_nil
  | cons file files ih =>
    intro child hchild
    rcases List.mem_cons.mp hchild with rfl | hchild
    · rfl
    · exact ih (parent.includeUid (file.includeIn rootUid parent).uid) child hchild

/-- Only an object above the depth limit is unpacked, and what it contains lies below it. -/
theorem unpackTask_depth (h : unpackTask cfg w t = .ok out) :
    ∀ child ∈ out.objects, t.fo.depth < cfg.maxDepth ∧ child.depth = t.fo.depth + 1 := by
  unfold unpackTask unpack at h
  split at h
  · cases h
    exact fun _ h => absurd h List.not_mem_nil
  · next hdepth =>
    obtain ⟨files, -, h⟩ := except_bind_eq_ok h
    cases files with
    | none =>
      cases h
      exact fun _ h => absurd h List.not_mem_nil
    | some files =>
      obtain ⟨state, -, h⟩ := except_bind_eq_ok h
      cases h
      exact fun child hchild => ⟨Nat.lt_of_not_le hdepth,
        addIncludedFilesToObject_depth _ _ _ child hchild⟩

theorem numberTasks_tickets (process : Nat) (rootUid : Uid) (n : Nat) (fos : List FileObject) :
    (numberTasks process rootUid n fos).map Task.ticket = List.range' n fos.length := by
  induction fos generalizing n with
  | nil => rfl
  | cons fo fos ih =>
    rw [numberTasks, List.map_cons, ih, List.length_cons, List.range'_succ]

theorem mem_numberTasks {process n : Nat} {rootUid : Uid} {fos : List FileObject} {u : Task}
    (h : u ∈ numberTasks process rootUid n fos) : u.fo ∈ fos := by
  induction fos generalizing n with
  | nil => cases h
  | cons fo fos ih =>
    rcases List.mem_cons.mp h with rfl | h
    · exact List.mem_cons_self
    · exact List.mem_cons_of_mem _ (ih h)

end Extracted

/-! ## 5. The books of a step -/

/-- What a step takes from the objects under way, what it adds to them and to those that have left,
and how many tickets it gives out. Everything else stays where it is. -/
structure Shift (p p' : Pipeline) (taken added : Multiset (Stage × Task)) (left : Multiset Task)
    (fresh : Nat) : Prop where
  live : ∃ rest, p.live = taken + rest ∧ p'.live = added + rest
  gone : p'.gone = left + p.gone
  nextTicket : p'.nextTicket = p.nextTicket + fresh
  tickets : added.map (fun x => x.2.ticket) + left.map Task.ticket =
    taken.map (fun x => x.2.ticket) + (List.range' p.nextTicket fresh : Multiset Nat)

section Shift
variable {cfg : PipelineConfig} {p p' q : Pipeline} {t : Task} {place : Place} {stage : Stage}
  {taken added : Multiset (Stage × Task)} {left : Multiset Task} {fresh i : Nat}
  {a : PipelineAction} {w : World}

/-- An object is taken away from its stage, and put somewhere else. -/
theorem shift_deliver (hlive : p.live = {(stage, t)} + q.live) (hgone : q.gone = p.gone)
    (hnext : q.nextTicket = p.nextTicket) (t' : Task) (hticket : t'.ticket = t.ticket)
    (place : Place) :
    Shift p (q.deliver t' place) {(stage, t)} (place.items t') (place.gone t') 0 where
  live := ⟨q.live, hlive, q.live_deliver t' place⟩
  gone := by rw [q.gone_deliver, hgone]
  nextTicket := by rw [q.nextTicket_deliver, hnext, Nat.add_zero]
  tickets := by
    rw [place.tickets_items_gone, hticket]
    rfl

/-- An object is taken one step on. -/
theorem shift_advance (hlive : p.live = {(stage, t)} + q.live) (hgone : q.gone = p.gone)
    (hnext : q.nextTicket = p.nextTicket) (process : Nat) (env : AnalysisEnv) (place : Place) :
    Shift p (q.advance process env t place) {(stage, t)}
      ((analysisStep env (q.view place)).place.items (t.sentBy process))
      ((analysisStep env (q.view place)).place.gone (t.sentBy process)) 0 :=
  let handed := (handedPlugin env (q.view place)).toList.map fun name => (t.ticket, name)
  shift_deliver (q := { q.absorb (analysisStep env (q.view place)) with handed := handed ++ q.handed })
    hlive hgone hnext (t.sentBy process) rfl _

theorem Shift.tickets_eq (h : Shift p p' taken added left fresh) :
    p'.tickets = p.tickets + (List.range' p.nextTicket fresh : Multiset Nat) := by
  obtain ⟨rest, hlive, hlive'⟩ := h.live
  have htickets := h.tickets
  unfold Pipeline.tickets
  rw [hlive, hlive', h.gone, Multiset.map_add, Multiset.map_add, Multiset.map_add]
  calc added.map (fun x => x.2.ticket) + rest.map (fun x => x.2.ticket) +
        (left.map Task.ticket + p.gone.map Task.ticket)
      = (added.map (fun x => x.2.ticket) + left.map Task.ticket) +
        (rest.map (fun x => x.2.ticket) + p.gone.map Task.ticket) := by abel
    _ = taken.map (fun x => x.2.ticket) + (List.range' p.nextTicket fresh : Multiset Nat) +
        (rest.map (fun x => x.2.ticket) + p.gone.map Task.ticket) := by rw [htickets]
    _ = _ := by abel

/-- Nothing moves. -/
theorem shift_refl (hlive : p'.live = p.live) (hgone : p'.gone = p.gone)
    (hnext : p'.nextTicket = p.nextTicket) : Shift p p' 0 0 0 0 where
  live := ⟨p.live, (zero_add _).symm, hlive.trans (zero_add _).symm⟩
  gone := hgone.trans (zero_add _).symm
  nextTicket := hnext
  tickets := rfl

theorem live_unpackQueue (h : p.unpackQueue[i]? = some t) :
    p.live = {(.unpackQueue, t)} + { p with unpackQueue := p.unpackQueue.eraseIdx i }.live := by
  rw [Pipeline.live, atStage_eraseIdx h]
  simp only [Pipeline.live, add_assoc]

theorem live_processQueue (h : p.processQueue[i]? = some t) :
    p.live = {(.processQueue, t)} + { p with processQueue := p.processQueue.eraseIdx i }.live := by
  rw [Pipeline.live, atStage_eraseIdx h]
  simp only [Pipeline.live]
  abel

/-- What is taken from a lane, and what is left in it. -/
theorem live_setLane (p : Pipeline) (name : String) (x : Stage × Task) (lane : Lane)
    (h : (p.lane name).items name = {x} + lane.items name) :
    p.live = {x} + (p.setLane name lane).live := by
  obtain ⟨rest, hlive, hset⟩ := p.exists_setLane name
  rw [hlive, hset, h, add_assoc]

theorem live_active {name : String} {worker : Nat} (h : (p.lane name).active[worker]? = some t) :
    p.live = {(.active name, t)} + (p.setLane name
      { p.lane name with active := (p.lane name).active.eraseIdx worker }).live := by
  refine live_setLane p name _ _ ?_
  rw [Lane.items, Lane.items, atStage_eraseIdx h]
  abel

theorem live_outQueue {name : String} (h : (p.lane name).outQueue[i]? = some t) :
    p.live = {(.outQueue name, t)} + (p.setLane name
      { p.lane name with outQueue := (p.lane name).outQueue.eraseIdx i }).live := by
  refine live_setLane p name _ _ ?_
  rw [Lane.items, Lane.items, atStage_eraseIdx h]
  abel

/-- An extracted object comes to the unpacking queue. -/
theorem live_scheduled {worker : Nat} {rest : List Task}
    (h : p.unpackWorkers[worker]? = some (t :: rest)) (t' : Task) :
    ∃ others, p.live = {(.extracted, t)} + others ∧
      { p with
        unpackQueue := p.unpackQueue ++ [t']
        unpackWorkers := p.unpackWorkers.set worker rest }.live = {(.unpackQueue, t')} + others := by
  obtain ⟨others, hsum, hset⟩ := exists_sum_set (atStage .extracted) h
  refine ⟨atStage .unpackQueue p.unpackQueue + (atStage .extracted rest + others) +
    atStage .processQueue p.processQueue + p.lanes.total Lane.items, ?_, ?_⟩
  · rw [Pipeline.live, hsum, atStage_cons]
    abel
  · simp only [Pipeline.live, hset, atStage_append, atStage_cons, atStage_nil]
    abel

/-- A worker of a plugin takes an object. -/
theorem live_started {name : String} (h : (p.lane name).inQueue[i]? = some t) :
    ∃ others, p.live = {(.inQueue name, t)} + others ∧
      (p.setLane name
        { p.lane name with
          inQueue := (p.lane name).inQueue.eraseIdx i
          active := (p.lane name).active ++ [t] }).live = {(.active name, t)} + others := by
  obtain ⟨others, hlive, hset⟩ := p.exists_setLane name
  refine ⟨atStage (.inQueue name) ((p.lane name).inQueue.eraseIdx i) +
    atStage (.active name) (p.lane name).active + atStage (.outQueue name) (p.lane name).outQueue +
    others, ?_, ?_⟩
  · rw [hlive, Lane.items, atStage_eraseIdx h]
    abel
  · rw [hset, Lane.items, atStage_append, atStage_cons, atStage_nil]
    abel

/-- Unpacking replaces an object by itself and by what it contains. -/
theorem shift_unpacked {worker : Nat} (process : Nat) (s : AnalysisState) (fos : List FileObject)
    (place : Place) (hidle : p.unpackWorkers[worker]? = some [])
    (hqueue : p.unpackQueue[i]? = some t) :
    Shift p
      ({ p.absorb s with
          unpackQueue := p.unpackQueue.eraseIdx i
          unpackWorkers :=
            p.unpackWorkers.set worker (numberTasks process t.rootUid p.nextTicket fos)
          nextTicket := p.nextTicket + fos.length }.deliver (t.sentBy process) place)
      {(.unpackQueue, t)}
      (place.items (t.sentBy process) +
        atStage .extracted (numberTasks process t.rootUid p.nextTicket fos))
      (place.gone (t.sentBy process)) fos.length := by
  obtain ⟨others, hsum, hset⟩ := exists_sum_set (atStage .extracted) hidle
  rw [atStage_nil, zero_add] at hsum
  constructor
  case live =>
    refine ⟨atStage .unpackQueue (p.unpackQueue.eraseIdx i) + others +
      atStage .processQueue p.processQueue + p.lanes.total Lane.items, ?_, ?_⟩
    · rw [Pipeline.live, atStage_eraseIdx hqueue, hsum]
      abel
    · rw [Pipeline.live_deliver]
      simp only [Pipeline.live, Pipeline.absorb, hset]
      abel
  case gone =>
    rw [Pipeline.gone_deliver]
    rfl
  case nextTicket => rw [Pipeline.nextTicket_deliver]
  case tickets =>
    rw [Multiset.map_add, add_right_comm, place.tickets_items_gone, atStage, Multiset.map_coe,
      List.map_map]
    exact congrArg (fun tickets : List Nat => {t.ticket} + (tickets : Multiset Nat))
      (numberTasks_tickets process t.rootUid p.nextTicket fos)

theorem rank_items_lt {n m : Nat} (place : Place) (t : Task) :
    ∀ y ∈ place.items t, rank cfg y < toLex (n + 1, m) := by
  intro y hy
  rw [rank_of_mem_items hy]
  exact Prod.Lex.toLex_lt_toLex.mpr (.inl (Nat.succ_pos n))

theorem rank_lt_of_load {n : Nat} (h : place.items t = 0 ∨ place.load < n) :
    ∀ y ∈ place.items t, rank cfg y < toLex (0, n) := by
  intro y hy
  rcases h with hnone | hlt
  · rw [hnone] at hy
    exact absurd hy (Multiset.notMem_zero y)
  · rw [rank_of_mem_items hy]
    exact Prod.Lex.toLex_lt_toLex.mpr (.inr ⟨rfl, hlt⟩)

/-- The books of every step. A process that takes up work leaves less of it. -/
theorem PipelineStep.shift (h : PipelineStep cfg p (a, w) p') :
    ∃ taken added left fresh, Shift p p' taken added left fresh ∧
      (a.isWork = true → ∃ x, taken = {x} ∧ ∀ y ∈ added, rank cfg y < rank cfg x) := by
  cases h with
  | @addTask _ rootUid fo =>
    refine ⟨0, {(.unpackQueue, ⟨p.nextTicket, rootUid, fo, w.process⟩)}, 0, 1,
      ⟨⟨p.live, (zero_add _).symm, ?_⟩, (zero_add _).symm, rfl, rfl⟩, fun hwork => (by cases hwork)⟩
    simp only [Pipeline.live, atStage_append, atStage_cons, atStage_nil]
    abel
  | @update _ rootUid fo s _ hs =>
    let t : Task := ⟨p.nextTicket, rootUid, fo, w.process⟩
    refine ⟨0, s.place.items t, s.place.gone t, 1, ⟨⟨p.live, (zero_add _).symm, ?_⟩, ?_, ?_, ?_⟩,
      fun hwork => (by cases hwork)⟩
    · exact Pipeline.live_deliver _ _ _
    · exact Pipeline.gone_deliver _ _ _
    · rw [Pipeline.nextTicket_deliver]
    · exact s.place.tickets_items_gone t
  | @unpack _ worker i _ t out s _ hidle hqueue hout _ _ =>
    refine ⟨_, _, _, _, shift_unpacked w.process s out.objects s.place hidle hqueue.get,
      fun _ => ⟨_, rfl, fun y hy => ?_⟩⟩
    rcases Multiset.mem_add.mp hy with hy | hy
    · exact rank_items_lt s.place _ y hy
    · -- an extracted object lies one level deeper
      obtain ⟨u, hu, rfl⟩ := List.mem_map.mp (Multiset.mem_coe.mp hy)
      obtain ⟨hlimit, hdepth⟩ := unpackTask_depth hout u.fo (mem_numberTasks hu)
      refine Prod.Lex.toLex_lt_toLex.mpr (.inl (Nat.add_lt_add_right ?_ 1))
      rw [hdepth]
      exact Nat.sub_lt_sub_left hlimit (Nat.lt_succ_self _)
  | @unpackRaises _ worker i t e _ hidle hqueue _ =>
    exact ⟨_, _, _, _, shift_deliver (live_unpackQueue hqueue.get) rfl rfl t rfl _,
      fun _ => ⟨_, rfl, rank_items_lt _ t⟩⟩
  | @startRaises _ worker i _ t out s _ hidle hqueue _ _ _ =>
    have hlive : p.live = {(.unpackQueue, t)} +
        { p.absorb s with unpackQueue := p.unpackQueue.eraseIdx i }.live :=
      live_unpackQueue hqueue.get
    exact ⟨_, _, _, _, shift_deliver hlive rfl rfl t rfl _, fun _ => ⟨_, rfl, rank_items_lt _ t⟩⟩
  | @schedule _ worker t rest _ hworker =>
    refine ⟨{(.extracted, t)}, {(.unpackQueue, t.sentBy w.process)}, 0, 0,
      ⟨live_scheduled hworker _, (zero_add _).symm, rfl, rfl⟩, fun _ => ⟨_, rfl, fun y hy => ?_⟩⟩
    obtain rfl := Multiset.mem_singleton.mp hy
    exact Prod.Lex.toLex_lt_toLex.mpr (.inr ⟨rfl, Nat.zero_lt_one⟩)
  | monitor => exact ⟨0, 0, 0, 0, shift_refl rfl rfl rfl, fun hwork => (by cases hwork)⟩
  | @process p1 _ i t _ _ hqueue hadvance =>
    have hshift := shift_advance (live_processQueue hqueue.get) rfl rfl w.process w.env
      (.processQueue t.fo)
    rw [hadvance] at hshift
    exact ⟨_, _, _, _, ⟨hshift.live, hshift.gone, hshift.nextTicket, hshift.tickets⟩,
      fun _ => ⟨_, rfl, rank_lt_of_load (analysisStep_load_processQueue rfl)⟩⟩
  | @start _ name i t _ hqueue _ =>
    refine ⟨{(.inQueue name, t)}, {(.active name, t)}, 0, 0,
      ⟨live_started hqueue.get, (zero_add _).symm, rfl, rfl⟩, fun _ => ⟨_, rfl, fun y hy => ?_⟩⟩
    obtain rfl := Multiset.mem_singleton.mp hy
    exact Prod.Lex.toLex_lt_toLex.mpr (.inr ⟨rfl, Nat.lt_succ_self _⟩)
  | @finish _ name worker t hplugins hname hworker =>
    have hlive := live_active hworker
    obtain ⟨fo, hplace, hschedule⟩ := analysisStep_inQueue (s := p.view (.inQueue name t.fo)) rfl
      (hplugins ▸ hname : name ∈ w.env.plugins)
    refine ⟨_, _, _, _, shift_advance hlive rfl rfl w.process w.env _, fun _ => ⟨_, rfl, ?_⟩⟩
    refine rank_lt_of_load (.inr ?_)
    show (analysisStep w.env (p.view (.inQueue name t.fo))).place.load < _
    rw [hplace, Place.load, hschedule]
    exact Nat.lt_succ_self _
  | @collect p1 _ name i t _ _ _ hqueue hadvance =>
    have hshift := shift_advance (live_outQueue hqueue.get) rfl rfl w.process w.env
      (.outQueue name t.fo)
    rw [hadvance] at hshift
    exact ⟨_, _, _, _, ⟨hshift.live, hshift.gone, hshift.nextTicket, hshift.tickets⟩,
      fun _ => ⟨_, rfl, rank_lt_of_load (analysisStep_load_outQueue rfl)⟩⟩
  | others => exact ⟨0, 0, 0, 0, shift_refl rfl rfl rfl, fun hwork => (by cases hwork)⟩

/-- A process that takes up work splits it. -/
theorem PipelineStep.splits (h : PipelineStep cfg p (a, w) p') (hwork : a.isWork = true) :
    Splits (p.live.map (rank cfg)) (p'.live.map (rank cfg)) := by
  obtain ⟨taken, added, left, fresh, hshift, hrank⟩ := h.shift
  obtain ⟨x, rfl, hlt⟩ := hrank hwork
  obtain ⟨rest, hlive, hlive'⟩ := hshift.live
  refine ⟨rank cfg x, added.map (rank cfg), rest.map (rank cfg), ?_, ?_, fun y hy => ?_⟩
  · rw [hlive, Multiset.map_add, Multiset.map_singleton, Multiset.singleton_add]
  · rw [hlive', Multiset.map_add]
  · obtain ⟨z, hz, rfl⟩ := Multiset.mem_map.mp hy
    exact hlt z hz

end Shift

/-! ## 6. Whole runs -/

/-- The system before the first object. -/
structure Pipeline.Fresh (p : Pipeline) : Prop where
  live : p.live = 0
  gone : p.gone = 0
  nextTicket : p.nextTicket = 0
  handed : p.handed = []

theorem Pipeline.Fresh.tickets {p : Pipeline} (h : p.Fresh) :
    p.tickets = Multiset.range p.nextTicket := by
  rw [Pipeline.tickets, h.live, h.gone, h.nextTicket]
  rfl

theorem PipelineStep.tickets_range {cfg : PipelineConfig} {p p' : Pipeline}
    {e : PipelineAction × World} (h : PipelineStep cfg p e p')
    (hp : p.tickets = Multiset.range p.nextTicket) : p'.tickets = Multiset.range p'.nextTicket := by
  obtain ⟨taken, added, left, fresh, hshift, -⟩ := h.shift
  rw [hshift.tickets_eq, hp, hshift.nextTicket]
  refine congrArg (fun l : List Nat => (l : Multiset Nat)) ?_
  rw [List.range_eq_range', List.range_eq_range', ← List.range'_append_1, Nat.zero_add]

theorem tickets_of_run {cfg : PipelineConfig} {p p' : Pipeline}
    {events : List (PipelineAction × World)} (h : Run (PipelineStep cfg) p events p')
    (hp : p.tickets = Multiset.range p.nextTicket) : p'.tickets = Multiset.range p'.nextTicket := by
  induction h with
  | nil => exact hp
  | cons hstep _ ih => exact ih (hstep.tickets_range hp)

/-- No object is lost or doubled: in every run, each object that ever got a ticket is at exactly one
of the places, in a queue, in the hands of a worker, or among those that have left. -/
theorem pipeline_conserves {cfg : PipelineConfig} {p p' : Pipeline}
    {events : List (PipelineAction × World)} (hfresh : p.Fresh)
    (h : Run (PipelineStep cfg) p events p') : p'.tickets = Multiset.range p'.nextTicket :=
  tickets_of_run h hfresh.tickets

/-- Two threads for each plugin. -/
def routerConfig : PipelineConfig := ⟨examplePlugins, fun _ => 2, 8, 50⟩

/-- A world in which an archive is unpacked and every plugin succeeds. -/
def calmWorld : World where
  process := 0
  env := succeeding
  tmpDir := "/tmp/fact_unpack_0"
  getSha256 := tarSha256
  extractor := ⟨.ok (some tarFiles), .dict [("plugin_version", .str "0.8"), ("analysis_date", .num 1)]⟩
  now := 0

/-- Another process, for which the extractor finds these files. -/
def workerWorld (process : Nat) (files : Option (List ExtractedFile)) : World :=
  { calmWorld with
    process := process
    extractor := { calmWorld.extractor with extractedFiles := .ok files } }

/-- The backend with two workers and nothing to do. -/
def idlePipeline : Pipeline where
  db := Db.empty
  files := ∅
  unpackingLocks := ∅
  status := ⟨∅, ∅⟩
  throttleCondition := false
  unpackQueue := []
  unpackWorkers := [[], []]
  processQueue := []
  lanes := ∅
  runnerAlive := true
  collectorAlive := true
  finished := []
  dropped := []
  lost := []
  handed := []
  nextTicket := 0

theorem fresh_idlePipeline : idlePipeline.Fresh := ⟨rfl, rfl, rfl, rfl⟩

/-- The same image is uploaded twice. -/
def uploadedPipeline : Pipeline :=
  { idlePipeline with
    unpackQueue := [⟨0, "outer", outerImage, 0⟩, ⟨1, "outer", outerImage, 0⟩]
    nextTicket := 2 }

theorem run_uploads : Run (PipelineStep routerConfig) idlePipeline
    [(.addTask "outer" outerImage, calmWorld), (.addTask "outer" outerImage, calmWorld)]
    uploadedPipeline :=
  .cons .addTask (.cons .addTask (.nil _))

/-- Two images are uploaded. One worker unpacks the first image, another one the second image and
then a file of the first, which is not an archive. The first image gets its file type. -/
def unpackedUploads : List (PipelineAction × World) :=
  [(.addTask "outer" outerImage, calmWorld), (.addTask "second" secondImage, calmWorld),
    (.unpack 0 0, workerWorld 2 (some tarFiles)), (.schedule 0, workerWorld 2 none),
    (.unpack 1 0, workerWorld 3 none), (.unpack 1 0, workerWorld 3 none),
    (.process 0, workerWorld 1 none), (.start "file_type" 0, workerWorld 4 none),
    (.finish "file_type" 0, workerWorld 4 none), (.collect "file_type" 0, workerWorld 5 none)]

theorem uploads_conserved : ∃ p, Run (PipelineStep routerConfig) idlePipeline unpackedUploads p ∧
    p.nextTicket = 4 ∧ p.tickets = Multiset.range p.nextTicket := by
  obtain ⟨p, hrun, hnext⟩ : ∃ p, Run (PipelineStep routerConfig) idlePipeline unpackedUploads p ∧
      p.nextTicket = 4 :=
    ⟨_, .cons .addTask <| .cons .addTask <|
      .cons (@PipelineStep.unpack _ _ _ 0 0 30 _ _ _ rfl rfl receives_head rfl rfl rfl) <|
      .cons (.schedule rfl rfl) <|
      .cons (@PipelineStep.unpack _ _ _ 1 0 30 _ _ _ rfl rfl receives_head rfl rfl rfl) <|
      .cons (@PipelineStep.unpack _ _ _ 1 0 30 _ _ _ rfl rfl receives_head rfl rfl rfl) <|
      .cons (.process rfl rfl receives_head rfl) <|
      .cons (.start (by decide) receives_head (by decide)) <|
      .cons (.finish rfl (by decide) rfl) <|
      .cons (.collect rfl (by decide) rfl receives_head rfl) <| .nil _, rfl⟩
  exact ⟨p, hrun, hnext, pipeline_conserves fresh_idlePipeline hrun⟩

/-- The processes come to rest: there is no infinite run in which they only take up work that is
there, whatever the extractor, the plugins and the database answer. -/
theorem pipeline_ends (cfg : PipelineConfig) :
    WellFounded fun p' p => ∃ a w, PipelineAction.isWork a = true ∧ PipelineStep cfg p (a, w) p' := by
  refine Splits.wellFounded (fun p : Pipeline => p.live.map (rank cfg)) ?_
  rintro p p' ⟨a, w, hwork, hstep⟩
  exact hstep.splits hwork

end FactCore
