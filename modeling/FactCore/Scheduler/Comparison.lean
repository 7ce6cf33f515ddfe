import FactCore.Lib.Run
import FactCore.Storage.Comparison

/-!
# The comparison scheduler

`src/src/scheduler/comparison_scheduler.py`. Requests for comparisons wait in a queue.
A single worker takes them from there; it remembers the ids it has started
(`comparisons_done`) and starts none of them again, unless the request says so (`redo`).

The worker takes a request in one step, and compares and stores in another one. In
between, and at any other time, requests arrive, objects are added and firmware is
deleted together with its comparisons.

What is remembered gets out of step with the database in two ways: a comparison that
failed is remembered although nothing was stored, and a stored comparison disappears
with its firmware. A request with `redo` gets around the memory, but it needs an
attribute that the scheduler does not have; and a worker that has crashed stays so, since
the one started in its place is called with an argument too many.

Results:
1. `ComparisonInv.step`: what a step preserves that meets its condition.
2. `requestsDone_of_run`: runs in which every request is done.
3. `requests_not_done`: a request with `redo` ends the worker; a comparison whose
   firmware is uploaded again is not done again.
-/

namespace FactCore

/-! ## 1. Requests and the worker -/

/-- A request, with the clock of its arrival. -/
structure ComparisonRequest where
  comparisonId : String
  redo : Bool
  requested : Nat
  deriving DecidableEq

/-- What the worker does. -/
inductive ComparisonWorker
  | waiting
  | comparing (request : ComparisonRequest)
  /-- An exception has left the worker process. -/
  | crashed (e : PyException)

/-- The state of the scheduler and its database. `answered` lists the requests that were taken or
compared when all their objects existed and `compare` succeeded, as long as none of the objects is
deleted. -/
structure ComparisonState where
  storage : ComparisonDb
  inQueue : List ComparisonRequest
  worker : ComparisonWorker
  comparisonsDone : List String
  answered : List ComparisonRequest
  clock : Nat

/-- `_comparison_should_start`. -/
def comparisonShouldStart (uid : String) (redo : Bool) (comparisonsDone : List String) : Bool :=
  redo || decide (uid ∉ comparisonsDone)

namespace ComparisonState

/-- The objects of the request exist and `compare` succeeds. -/
def CanAnswer (env : ComparisonEnv) (s : ComparisonState) (request : ComparisonRequest) : Prop :=
  objectsExist s.storage.db request.comparisonId = true ∧
    (compare env s.clock s.storage.db (convertCompareIdToList request.comparisonId)).isSome = true

instance (env : ComparisonEnv) (s : ComparisonState) (request : ComparisonRequest) :
    Decidable (s.CanAnswer env request) := inferInstanceAs (Decidable (_ ∧ _))

/-- The requests that are answered once the worker is done with `request`. -/
def answer (env : ComparisonEnv) (s : ComparisonState) (request : ComparisonRequest) :
    List ComparisonRequest :=
  if s.CanAnswer env request then request :: s.answered else s.answered

/-- `add_task`. -/
def addTask (s : ComparisonState) (comparisonId : String) (redo : Bool) : ComparisonState :=
  if objectsExist s.storage.db comparisonId then
    { s with
      inQueue := s.inQueue ++ [⟨comparisonId, redo, s.clock⟩]
      clock := s.clock + 1 }
  else { s with clock := s.clock + 1 }

/-- `_compare_single_run` for the first request of the queue, up to the comparison. -/
def compareSingleRun (env : ComparisonEnv) (s : ComparisonState) (request : ComparisonRequest)
    (rest : List ComparisonRequest) : ComparisonState :=
  if comparisonShouldStart request.comparisonId request.redo s.comparisonsDone then
    if request.redo then
      { s with
        inQueue := rest
        worker := .crashed
          (.attributeError "'ComparisonScheduler' object has no attribute 'db_admin_interface'")
        clock := s.clock + 1 }
    else
      { s with
        inQueue := rest
        worker := .comparing request
        comparisonsDone := request.comparisonId :: s.comparisonsDone
        clock := s.clock + 1 }
  else
    { s with
      inQueue := rest
      answered := s.answer env request
      clock := s.clock + 1 }

/-- `_process_comparison`: every exception is caught. -/
def processComparison (env : ComparisonEnv) (s : ComparisonState) (request : ComparisonRequest) :
    ComparisonState :=
  let result := compare env s.clock s.storage.db (convertCompareIdToList request.comparisonId)
  { s with
    storage := (result.bind (s.storage.addComparisonResult s.clock)).getD s.storage
    worker := .waiting
    answered := s.answer env request
    clock := s.clock + 1 }

/-- An object is added, or a firmware is deleted. -/
def writeStorage (driver : Driver) (limits : Limits) (s : ComparisonState) (op : StorageOp) :
    ComparisonState :=
  let db := storageStep driver limits s.storage.db op
  { s with
    storage := s.storage.storageStep driver limits op
    answered := s.answered.filter fun request => decide <|
      ∀ u ∈ convertCompareIdToList request.comparisonId, u ∈ s.storage.db.fileObjects →
        u ∈ db.fileObjects
    clock := s.clock + 1 }

end ComparisonState

/-! ## 2. Steps -/

/-- What can happen. -/
inductive ComparisonEvent
  | addTask (comparisonId : String) (redo : Bool)
  | takeRequest
  | finish
  | writeStorage (op : StorageOp)
  | restartWorker

/-- The step relation. -/
inductive ComparisonStep (env : ComparisonEnv) (driver : Driver) (limits : Limits) :
    ComparisonState → ComparisonEvent → ComparisonState → Prop
  | addTask {s : ComparisonState} (comparisonId : String) (redo : Bool) :
      ComparisonStep env driver limits s (.addTask comparisonId redo) (s.addTask comparisonId redo)
  | takeRequest {s : ComparisonState} {request : ComparisonRequest}
      {rest : List ComparisonRequest} : s.worker = .waiting → s.inQueue = request :: rest →
      ComparisonStep env driver limits s .takeRequest (s.compareSingleRun env request rest)
  | finish {s : ComparisonState} {request : ComparisonRequest} : s.worker = .comparing request →
      ComparisonStep env driver limits s .finish (s.processComparison env request)
  | writeStorage {s : ComparisonState} (op : StorageOp) :
      ComparisonStep env driver limits s (.writeStorage op) (s.writeStorage driver limits op)
  /-- `check_worker_exceptions` starts a new process and hands it a number that
  `_comparison_scheduler_main` does not take, so that the new process ends at once. -/
  | restartWorker {s : ComparisonState} {e : PyException} : s.worker = .crashed e →
      ComparisonStep env driver limits s .restartWorker
        { s with
          worker := .crashed (.typeError
            "_comparison_scheduler_main() takes 1 positional argument but 2 were given")
          comparisonsDone := []
          clock := s.clock + 1 }

/-- A worker that has just been started, on any database. -/
structure ComparisonState.Started (s : ComparisonState) : Prop where
  consistent : s.storage.Consistent
  noRequests : s.inQueue = []
  waiting : s.worker = .waiting
  nothingDone : s.comparisonsDone = []
  noAnswers : s.answered = []

/-- No exception has left the worker, and when the queue is drained, every request has a stored
comparison, one that was computed after a request with `redo`. -/
structure RequestsDone (s : ComparisonState) : Prop where
  noException : ∀ e, s.worker ≠ .crashed e
  stored : s.inQueue = [] → s.worker = .waiting → ∀ request ∈ s.answered, ∃ entry,
    s.storage.comparison.get? (normalizeCompareId request.comparisonId) = some entry ∧
      (request.redo = true → request.requested < entry.submissionDate)

/-- A request that is taken is not to be done again, and if its id is remembered although it could
be answered, its comparison is stored. -/
def TakesAnswered (env : ComparisonEnv) (s : ComparisonState) : ComparisonEvent → Prop
  | .takeRequest => ∀ request ∈ s.inQueue.head?, request.redo = false ∧
      (request.comparisonId ∈ s.comparisonsDone → s.CanAnswer env request →
        normalizeCompareId request.comparisonId ∈ s.storage.comparison)
  | _ => True

/-! ## 3. The invariant -/

/-- The invariant: every answered request has a stored comparison at all times, and none of them
was to be done again. -/
structure ComparisonInv (s : ComparisonState) : Prop where
  consistent : s.storage.Consistent
  noException : ∀ e, s.worker ≠ .crashed e
  noRedo : ∀ request, s.worker = .comparing request → request.redo = false
  answered : ∀ request ∈ s.answered, request.redo = false ∧
    normalizeCompareId request.comparisonId ∈ s.storage.comparison

namespace ComparisonInv

variable {env : ComparisonEnv} {driver : Driver} {limits : Limits} {s s' : ComparisonState}
  {e : ComparisonEvent} {request : ComparisonRequest} {rest : List ComparisonRequest}

/-- One more request is answered. -/
theorem mem_answer {storage : ComparisonDb} (h : ComparisonInv s) (hredo : request.redo = false)
    (hkept : ∀ id ∈ s.storage.comparison, id ∈ storage.comparison)
    (hnew : s.CanAnswer env request →
      normalizeCompareId request.comparisonId ∈ storage.comparison) :
    ∀ r ∈ s.answer env request, r.redo = false ∧
      normalizeCompareId r.comparisonId ∈ storage.comparison := by
  intro r hr
  have hold : ∀ r ∈ s.answered, r.redo = false ∧
      normalizeCompareId r.comparisonId ∈ storage.comparison :=
    fun r hr => ⟨(h.answered r hr).1, hkept _ (h.answered r hr).2⟩
  unfold ComparisonState.answer at hr
  split at hr
  · next hcan =>
    rcases List.mem_cons.mp hr with rfl | hr
    · exact ⟨hredo, hnew hcan⟩
    · exact hold r hr
  · exact hold r hr

theorem addTask (h : ComparisonInv s) (comparisonId : String) (redo : Bool) :
    ComparisonInv (s.addTask comparisonId redo) := by
  unfold ComparisonState.addTask
  split <;> exact ⟨h.consistent, h.noException, h.noRedo, h.answered⟩

theorem takeRequest (h : ComparisonInv s) (hwait : s.worker = .waiting)
    (hredo : request.redo = false)
    (hdone : request.comparisonId ∈ s.comparisonsDone → s.CanAnswer env request →
      normalizeCompareId request.comparisonId ∈ s.storage.comparison) :
    ComparisonInv (s.compareSingleRun env request rest) := by
  unfold ComparisonState.compareSingleRun comparisonShouldStart
  rw [hredo, Bool.false_or]
  split
  · -- the comparison starts
    rw [if_neg Bool.false_ne_true]
    refine ⟨h.consistent, fun e he => (by cases he), fun r hr => ?_, h.answered⟩
    obtain rfl := ComparisonWorker.comparing.inj hr
    exact hredo
  · next hknown =>
    have hknown : request.comparisonId ∈ s.comparisonsDone := by simpa using hknown
    refine ⟨h.consistent, h.noException, fun r hr => ?_,
      h.mem_answer hredo (fun _ hid => hid) (hdone hknown)⟩
    cases hwait.symm.trans hr

theorem finish (h : ComparisonInv s) (hwork : s.worker = .comparing request) :
    ComparisonInv (s.processComparison env request) := by
  have hredo := h.noRedo request hwork
  unfold ComparisonState.processComparison
  cases hresult : compare env s.clock s.storage.db
      (convertCompareIdToList request.comparisonId) with
  | none =>
    -- a failed comparison leaves the database alone
    refine ⟨h.consistent, fun e he => (by cases he), fun r hr => (by cases hr),
      h.mem_answer hredo (fun _ hid => hid) fun hcan => ?_⟩
    unfold ComparisonState.CanAnswer at hcan
    rw [hresult] at hcan
    cases hcan.2
  | some result =>
    obtain ⟨hcons, hkept⟩ := @addComparisonResult_kept s.storage s.clock result h.consistent
    exact ⟨hcons, fun e he => (by cases he), fun r hr => (by cases hr),
      h.mem_answer hredo hkept fun hcan => addComparisonResult_stores hcan.1 hresult⟩

/-- A comparison whose objects all stay, stays. -/
theorem writeStorage (h : ComparisonInv s) (op : StorageOp) :
    ComparisonInv (s.writeStorage driver limits op) where
  consistent := h.consistent.storageStep driver limits op
  noException := h.noException
  noRedo := h.noRedo
  answered r hr := by
    obtain ⟨hr, hkept⟩ := List.mem_filter.mp hr
    have hkept := of_decide_eq_true hkept
    refine ⟨(h.answered r hr).1, mem_comparison_storageStep h.consistent (h.answered r hr).2 ?_⟩
    intro u hu
    exact hkept u (mem_convertCompareIdToList_normalize.mp hu)

/-- A step that meets its condition preserves the invariant. -/
theorem step (h : ComparisonInv s) (hst : ComparisonStep env driver limits s e s')
    (hmeets : TakesAnswered env s e) : ComparisonInv s' := by
  cases hst with
  | addTask comparisonId redo => exact h.addTask comparisonId redo
  | @takeRequest request rest hwait hqueue =>
    obtain ⟨hredo, hdone⟩ := hmeets request (by rw [hqueue]; rfl)
    exact h.takeRequest hwait hredo hdone
  | finish hwork => exact h.finish hwork
  | writeStorage op => exact h.writeStorage op
  | restartWorker hcrash => exact absurd hcrash (h.noException _)

theorem requestsDone (h : ComparisonInv s) : RequestsDone s where
  noException := h.noException
  stored _ _ request hrequest := by
    obtain ⟨hredo, hmem⟩ := h.answered request hrequest
    obtain ⟨entry, hentry⟩ := Dict.mem_iff.mp hmem
    exact ⟨entry, hentry, fun hyes => by cases hredo.symm.trans hyes⟩

end ComparisonInv

/-! ## 4. Runs -/

/-- In every run whose steps meet the condition, no exception leaves the worker, and whenever the
queue is drained, every request is done. -/
theorem requestsDone_of_run {env : ComparisonEnv} {driver : Driver} {limits : Limits}
    {s s' : ComparisonState} {events : List ComparisonEvent} (h : s.Started)
    (hrun : Run (Restrict (TakesAnswered env) (ComparisonStep env driver limits)) s events s') :
    RequestsDone s' := by
  have hstart : ComparisonInv s := by
    refine ⟨h.consistent, fun e he => ?_, fun r hr => ?_, fun r hr => ?_⟩
    · cases h.waiting.symm.trans he
    · cases h.waiting.symm.trans hr
    · rw [h.noAnswers] at hr
      cases hr
  exact (hrun.invariant (fun _ _ _ hinv hst => hinv.step hst.2 hst.1) hstart).requestsDone

/-- Comparisons whose plugins find nothing. -/
def emptyComparison : ComparisonEnv where
  content _ _ := .none
  executeComparePlugins _ _ := some (.dict [])

/-- A scheduler that has just been started, with two images in the database. -/
def twoImages : ComparisonState where
  storage := ⟨databaseAfter acceptAll pythonLimits [.addObject outerImage, .addObject secondImage], ∅, []⟩
  inQueue := []
  worker := .waiting
  comparisonsDone := []
  answered := []
  clock := 0

theorem started_twoImages : twoImages.Started :=
  ⟨fun _ _ hmem => absurd hmem List.not_mem_nil, rfl, rfl, rfl, rfl⟩

/-- The two images are compared. -/
def compareImages : List ComparisonEvent :=
  [.addTask "outer;second" false, .takeRequest, .finish]

/-- One of them is deleted and uploaded again, and the comparison is requested again. -/
def compareAgain : List ComparisonEvent :=
  [.writeStorage (.deleteFirmware "outer" true), .writeStorage (.addObject outerImage),
    .addTask "outer;second" false, .takeRequest]

/-- A request that is not remembered meets the condition. -/
theorem takesAnswered_of_new {env : ComparisonEnv} {s : ComparisonState}
    {request : ComparisonRequest} {rest : List ComparisonRequest}
    (hqueue : s.inQueue = request :: rest) (hredo : request.redo = false)
    (hnew : request.comparisonId ∉ s.comparisonsDone) : TakesAnswered env s .takeRequest := by
  intro r hr
  rw [hqueue] at hr
  cases hr
  exact ⟨hredo, fun hdone => absurd hdone hnew⟩

/-- The first comparison is done. -/
theorem compareImages_done : ∃ s, Run (Restrict (TakesAnswered emptyComparison)
    (ComparisonStep emptyComparison acceptAll pythonLimits)) twoImages compareImages s ∧
      RequestsDone s :=
  have hrun : Run (Restrict (TakesAnswered emptyComparison)
      (ComparisonStep emptyComparison acceptAll pythonLimits)) twoImages compareImages _ :=
    .cons ⟨trivial, .addTask "outer;second" false⟩ <|
    .cons ⟨takesAnswered_of_new rfl rfl (by decide), .takeRequest rfl rfl⟩ <|
    .cons ⟨trivial, .finish rfl⟩ (.nil _)
  ⟨_, hrun, requestsDone_of_run started_twoImages hrun⟩

set_option maxRecDepth 2000 in
/-- A request that is to be done again ends the worker, and a comparison that was deleted with its
firmware is not done again. -/
theorem requests_not_done :
    (¬ ∀ (env : ComparisonEnv) (driver : Driver) (limits : Limits) (s s' : ComparisonState)
        (events : List ComparisonEvent), s.Started →
        Run (ComparisonStep env driver limits) s events s' → RequestsDone s') ∧
      ¬ ∀ (env : ComparisonEnv) (driver : Driver) (limits : Limits) (s s' : ComparisonState)
        (events : List ComparisonEvent), s.Started →
        (∀ id, .addTask id true ∉ events) →
        Run (ComparisonStep env driver limits) s events s' → RequestsDone s' := by
  constructor <;> intro h
  · have hrun : Run (ComparisonStep emptyComparison acceptAll pythonLimits) twoImages
        [.addTask "outer;second" true, .takeRequest] _ :=
      .cons (.addTask "outer;second" true) <| .cons (.takeRequest rfl rfl) (.nil _)
    exact (h _ _ _ _ _ _ started_twoImages hrun).noException _ rfl
  · have hrun : Run (ComparisonStep emptyComparison acceptAll pythonLimits) twoImages
        (compareImages ++ compareAgain) _ :=
      .cons (.addTask "outer;second" false) <| .cons (.takeRequest rfl rfl) <|
      .cons (.finish rfl) <| .cons (.writeStorage (.deleteFirmware "outer" true)) <|
      .cons (.writeStorage (.addObject outerImage)) <| .cons (.addTask "outer;second" false) <|
      .cons (.takeRequest rfl rfl) (.nil _)
    have hdone := h _ _ _ _ _ _ started_twoImages
      (fun id hmem => by simp [compareImages, compareAgain] at hmem) hrun
    obtain ⟨entry, hentry, -⟩ := hdone.stored (by decide) rfl ⟨"outer;second", false, 5⟩ (by decide)
    cases hentry.symm.trans rfl

end FactCore
