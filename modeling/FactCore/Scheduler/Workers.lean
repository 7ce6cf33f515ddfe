import FactCore.Lib.Decimal
import FactCore.Lib.MapM
import FactCore.Lib.Separator
import FactCore.Objects
import Mathlib.Data.List.Chain

/-!
# Restarting crashed workers

`src/src/helperFunctions/process.py`: a scheduler looks through its list of worker
processes, removes those that ended with an exception, and starts new ones. The list
is changed while it is iterated, so the worker behind a removed one is not looked at;
and the index of the new worker is read from the name of the old one.

A process is its identity, name, function and arguments; what is logged has no model.

Results:
1. `checkWorkerExceptions_eq_walk`: which workers are looked at.
2. `checkWorkerExceptions_iff`: when all crashed workers are restarted.
3. `crashed_comparison_worker`: the worker of the comparison scheduler is not.
-/

namespace FactCore

/-- `ExceptionSafeProcess`. `ident` is the identity of the object. -/
structure WorkerProcess (F : Type) where
  ident : Nat
  name : String
  target : F
  args : List Int
  started : Bool
  /-- The process has ended with an exception. -/
  exception : Bool

section Check
variable {F : Type}

/-- `start_single_worker`. -/
def startSingleWorker (ident : Nat) (processIndex : Option Int) (label : String) (function : F) :
    WorkerProcess F where
  ident := ident
  name := label ++ "-Worker-" ++ processIndex.elim "None" Int.repr
  target := function
  args := processIndex.toList
  started := true
  exception := false

/-- The worker of the comparison scheduler: the name is the default name of a process, made of its
position among the children of its parent processes. -/
def comparisonWorker (ident : Nat) (position : List Nat) (function : F) : WorkerProcess F where
  ident := ident
  name := "ExceptionSafeProcess-" ++ ":".intercalate (position.map Nat.repr)
  target := function
  args := []
  started := true
  exception := false

/-- The list of processes, the identity of the next new object, and the return value. -/
structure WorkerState (F : Type) where
  processList : List (WorkerProcess F)
  nextIdent : Nat
  returnValue : Bool

/-- `worker_process.name.split('-')[-1]`. -/
def lastNamePart (name : String) : String := (splitAtChar '-' name).getLastD ""

/-- `int(text)`. What stands behind the last `-` of a name has no sign, and no blanks or `_` that
`int` would skip. -/
def pyInt (text : String) : Except PyException Int :=
  match decimal? text with
  | some index => .ok index
  | none => .error (.valueError ("invalid literal for int() with base 10: '" ++ text ++ "'"))

/-- `process_list.remove(worker_process)`. -/
def removeProcess (worker : WorkerProcess F) (processList : List (WorkerProcess F)) :
    List (WorkerProcess F) :=
  processList.eraseP fun process => decide (process.ident = worker.ident)

/-- One round of the loop in `check_worker_exceptions`: the process at `index`, if the list still has
one there. -/
def checkWorker (throwExceptions : Bool) (workerLabel : String) (workerFunction : Option F)
    (state : WorkerState F) (index : Nat) : Except PyException (WorkerState F) :=
  match state.processList[index]? with
  | none => .ok state
  | some worker =>
    if worker.exception then
      let remaining := removeProcess worker state.processList
      if throwExceptions then .ok ⟨remaining, state.nextIdent, true⟩
      else
        match workerFunction with
        | none => .ok ⟨remaining, state.nextIdent, state.returnValue⟩
        | some function => do
          let processIndex ← pyInt (lastNamePart worker.name)
          let process := startSingleWorker state.nextIdent (some processIndex) workerLabel function
          .ok ⟨remaining ++ [process], state.nextIdent + 1, state.returnValue⟩
    else .ok state

/-- `check_worker_exceptions`. The list never gets longer, so the iteration over it ends after one
round for each process. -/
def checkWorkerExceptions (throwExceptions : Bool) (workerLabel : String)
    (workerFunction : Option F) (processList : List (WorkerProcess F)) (nextIdent : Nat) :
    Except PyException (WorkerState F) :=
  (List.range processList.length).foldlM (checkWorker throwExceptions workerLabel workerFunction)
    ⟨processList, nextIdent, false⟩

/-! ## 1. Which workers are looked at -/

section Walk
variable (label : String) (function : F)

/-- The worker that is started for a crashed one. -/
def replacement (ident : Nat) (worker : WorkerProcess F) :
    Except PyException (WorkerProcess F) := do
  let processIndex ← pyInt (lastNamePart worker.name)
  .ok (startSingleWorker ident (some processIndex) label function)

/-- The iteration as a walk along the list: the processes that stay, and the new ones. The process
behind a crashed one is skipped. -/
def walk : Nat → List (WorkerProcess F) →
    Except PyException (List (WorkerProcess F) × List (WorkerProcess F))
  | _, [] => .ok ([], [])
  | ident, [worker] =>
    if worker.exception then do
      let new ← replacement label function ident worker
      .ok ([], [new])
    else .ok ([worker], [])
  | ident, worker :: next :: rest =>
    if worker.exception then do
      let new ← replacement label function ident worker
      let (kept, news) ← walk (ident + 1) rest
      .ok (next :: kept, new :: news)
    else do
      let (kept, news) ← walk ident (next :: rest)
      .ok (worker :: kept, news)

end Walk

section Steps
variable {label : String} {function : F} {done rest news : List (WorkerProcess F)}
  {worker : WorkerProcess F} {ident : Nat} {state : WorkerState F} {indices : List Nat}

/-- Processes that have not crashed are left alone. -/
theorem foldlM_checkWorker_of_running
    (h : ∀ i ∈ indices, ∀ w, state.processList[i]? = some w → w.exception = false) :
    indices.foldlM (checkWorker false label (some function)) state = .ok state := by
  induction indices with
  | nil => rfl
  | cons i indices ih =>
    rw [List.forall_mem_cons] at h
    have hstep : checkWorker false label (some function) state i = .ok state := by
      unfold checkWorker
      split
      · rfl
      · next w hw => rw [if_neg (by simp [h.1 w hw])]
    rw [List.foldlM_cons, hstep]
    exact ih h.2

theorem checkWorker_crashed (hcrashed : worker.exception = true)
    (hdone : ∀ process ∈ done, process.ident ≠ worker.ident) :
    checkWorker false label (some function) ⟨done ++ worker :: rest, ident, false⟩ done.length =
      (replacement label function ident worker).map fun new =>
        ⟨done ++ rest ++ [new], ident + 1, false⟩ := by
  have hget : (done ++ worker :: rest)[done.length]? = some worker := by simp
  have hremove : removeProcess worker (done ++ worker :: rest) = done ++ rest := by
    rw [removeProcess, List.eraseP_append_right _ (by simpa using hdone),
      List.eraseP_cons_of_pos (by simp)]
  simp only [checkWorker, hget, hcrashed, hremove, if_true, replacement]
  cases pyInt (lastNamePart worker.name) <;> rfl

theorem ident_ne_of_nodup (hnodup : ((done ++ worker :: rest).map WorkerProcess.ident).Nodup) :
    ∀ process ∈ done, process.ident ≠ worker.ident := by
  intro process hprocess heq
  rw [List.map_append, List.nodup_append] at hnodup
  exact hnodup.2.2 _ (List.mem_map_of_mem hprocess) _ (by simp) heq

theorem checkWorker_running (hrunning : worker.exception = false) :
    checkWorker false label (some function) ⟨done ++ worker :: rest, ident, false⟩ done.length =
      .ok ⟨done ++ worker :: rest, ident, false⟩ := by
  simp [checkWorker, hrunning]

theorem exception_replacement {new : WorkerProcess F}
    (h : replacement label function ident worker = .ok new) : new.exception = false := by
  rw [replacement] at h
  cases hindex : pyInt (lastNamePart worker.name) with
  | error e => rw [hindex] at h; cases h
  | ok index =>
    rw [hindex] at h
    obtain rfl := Except.ok.inj h
    rfl

theorem exception_append_replacement {new : WorkerProcess F}
    (hnews : ∀ n ∈ news, n.exception = false)
    (hnew : replacement label function ident worker = .ok new) :
    ∀ n ∈ news ++ [new], n.exception = false :=
  List.forall_mem_append.mpr
    ⟨hnews, List.forall_mem_singleton.mpr (exception_replacement hnew)⟩

/-- At the end of the list there are only new processes. -/
theorem foldlM_checkWorker_news (label : String) (function : F) (ident : Nat)
    (done : List (WorkerProcess F)) (hnews : ∀ n ∈ news, n.exception = false)
    (hindices : ∀ i ∈ indices, done.length ≤ i) :
    indices.foldlM (checkWorker false label (some function)) ⟨done ++ news, ident, false⟩ =
      .ok ⟨done ++ news, ident, false⟩ := by
  refine foldlM_checkWorker_of_running fun i hi w hw => hnews w ?_
  rw [List.getElem?_append_right (hindices i hi)] at hw
  exact List.mem_of_getElem? hw

/-- The iteration from the first process in `rest` on, when `done` was looked at or skipped and `news`
were started. -/
theorem foldlM_checkWorker (hnews : ∀ n ∈ news, n.exception = false)
    (hnodup : ((done ++ rest).map WorkerProcess.ident).Nodup) :
    (List.range' done.length (rest.length + news.length)).foldlM
        (checkWorker false label (some function)) ⟨done ++ rest ++ news, ident, false⟩ =
      (walk label function ident rest).map fun kept =>
        ⟨done ++ kept.1 ++ news ++ kept.2, ident + kept.2.length, false⟩ := by
  induction ident, rest using walk.induct generalizing done news with
  | case1 ident =>
    have hend := foldlM_checkWorker_news label function ident done hnews
      fun i (hi : i ∈ List.range' done.length news.length) => (List.mem_range'_1.mp hi).1
    simpa [walk, Except.map] using hend
  | case2 ident worker hcrashed =>
    rw [List.length_singleton, Nat.add_comm, List.range'_succ, List.foldlM_cons, List.append_assoc,
      List.singleton_append, checkWorker_crashed hcrashed (ident_ne_of_nodup hnodup), walk,
      if_pos hcrashed]
    cases hnew : replacement label function ident worker with
    | error e => rfl
    | ok new =>
      have hnews' := exception_append_replacement hnews hnew
      have hend := foldlM_checkWorker_news label function (ident + 1) done hnews'
        fun i (hi : i ∈ List.range' (done.length + 1) news.length) =>
          Nat.le_of_succ_le (List.mem_range'_1.mp hi).1
      simpa [Except.map, bind, Except.bind] using hend
  | case3 ident worker hrunning =>
    have hall : ∀ n ∈ worker :: news, n.exception = false :=
      List.forall_mem_cons.mpr ⟨by simpa using hrunning, hnews⟩
    have hend := foldlM_checkWorker_news label function ident done hall
      fun i (hi : i ∈ List.range' done.length (1 + news.length)) => (List.mem_range'_1.mp hi).1
    rw [walk, if_neg hrunning]
    simpa [Except.map] using hend
  | case4 ident worker next rest hcrashed ih =>
    rw [List.length_cons, Nat.add_right_comm, List.range'_succ, List.foldlM_cons, List.append_assoc,
      List.cons_append, checkWorker_crashed hcrashed (ident_ne_of_nodup hnodup), walk,
      if_pos hcrashed]
    cases hnew : replacement label function ident worker with
    | error e => rfl
    | ok new =>
      have hnews' := exception_append_replacement hnews hnew
      have hnodup' : ((done ++ [next] ++ rest).map WorkerProcess.ident).Nodup := by
        rw [List.append_assoc, List.singleton_append]
        exact hnodup.sublist (((List.sublist_cons_self _ _).append_left _).map _)
      have hrest := ih hnews' hnodup'
      simp only [List.length_append, List.length_cons, List.length_nil, Nat.zero_add,
        List.append_assoc, List.cons_append, List.nil_append] at hrest
      simp only [Except.map, bind, Except.bind, List.length_cons, List.append_assoc,
        List.cons_append, Nat.add_assoc, Nat.add_comm 1] at hrest ⊢
      rw [hrest]
      cases walk label function (ident + 1) rest with
      | error e => rfl
      | ok kept => rfl
  | case5 ident worker next rest hrunning ih =>
    rw [List.length_cons, Nat.add_right_comm, List.range'_succ, List.foldlM_cons, List.append_assoc,
      List.cons_append, checkWorker_running (by simpa using hrunning), walk, if_neg hrunning]
    have hnodup' : ((done ++ [worker] ++ (next :: rest)).map WorkerProcess.ident).Nodup := by
      rwa [List.append_assoc, List.singleton_append]
    have hrest := ih hnews hnodup'
    simp only [List.length_append, List.length_singleton] at hrest
    simp only [bind, Except.bind]
    simp only [List.append_assoc, List.cons_append, List.nil_append] at hrest ⊢
    rw [hrest]
    cases walk label function ident (next :: rest) with
    | error e => rfl
    | ok kept => simp [Except.map]

theorem checkWorkerExceptions_eq_walk {processList : List (WorkerProcess F)} {nextIdent : Nat}
    (hnodup : (processList.map WorkerProcess.ident).Nodup) :
    checkWorkerExceptions false label (some function) processList nextIdent =
      (walk label function nextIdent processList).map fun kept =>
        ⟨kept.1 ++ kept.2, nextIdent + kept.2.length, false⟩ := by
  have hall : (List.range' [].length (processList.length + [].length)).foldlM
      (checkWorker false label (some function)) ⟨[] ++ processList ++ [], nextIdent, false⟩ = _ :=
    foldlM_checkWorker (fun n hn => absurd hn List.not_mem_nil) hnodup
  simpa [checkWorkerExceptions, List.range_eq_range'] using hall

end Steps

/-! ## 2. When all crashed workers are restarted -/

/-- The processes that have not crashed, and those that have. -/
def survivors (processList : List (WorkerProcess F)) : List (WorkerProcess F) :=
  processList.filter fun worker => !worker.exception

def crashedWorkers (processList : List (WorkerProcess F)) : List (WorkerProcess F) :=
  processList.filter fun worker => worker.exception

theorem survivors_cons (worker : WorkerProcess F) (rest : List (WorkerProcess F)) :
    survivors (worker :: rest) =
      if worker.exception then survivors rest else worker :: survivors rest := by
  rw [survivors, List.filter_cons]
  cases worker.exception <;> rfl

theorem crashedWorkers_cons (worker : WorkerProcess F) (rest : List (WorkerProcess F)) :
    crashedWorkers (worker :: rest) =
      if worker.exception then worker :: crashedWorkers rest else crashedWorkers rest := by
  rw [crashedWorkers, List.filter_cons, ← crashedWorkers]

/-- A process that is created by one of the schedulers, and may have crashed since. -/
inductive Created : WorkerProcess F → Prop
  | singleWorker (ident : Nat) (index : Option Int) (label : String) (function : F)
      (exception : Bool) :
      Created { startSingleWorker ident index label function with exception := exception }
  | comparison (ident : Nat) (position : List Nat) (function : F) (exception : Bool) :
      Created { comparisonWorker ident position function with exception := exception }

/-- A process that was started with an index, which is not negative. -/
def StartedWithIndex (worker : WorkerProcess F) : Prop :=
  ∃ (ident : Nat) (index : Nat) (label : String) (function : F) (exception : Bool),
    worker = { startSingleWorker ident (some (index : Int)) label function with
      exception := exception }

/-- A new running process that does what the old one did. -/
structure Replaces (processList : List (WorkerProcess F)) (worker new : WorkerProcess F) :
    Prop where
  target : new.target = worker.target
  args : new.args = worker.args
  started : new.started = true
  exception : new.exception = false
  fresh : ∀ process ∈ processList, process.ident ≠ new.ident

/-- The list afterwards: as long as before, with every process that had not crashed, and with one
new process for each of the others. -/
def AllRestarted (processList result : List (WorkerProcess F)) : Prop :=
  result.length = processList.length ∧
    ∃ news, result.Perm (survivors processList ++ news) ∧
      List.Forall₂ (Replaces processList) (crashedWorkers processList) news

section Restart
variable {label : String} {function : F} {worker new : WorkerProcess F} {ident : Nat}
  {processList kept news : List (WorkerProcess F)}

theorem lastNamePart_append (front back : String) (h : '-' ∉ back.toList) :
    lastNamePart (front ++ "-" ++ back) = back := by
  have hsplit := splitAtChar_append '-' front back h
  rw [show String.singleton '-' = "-" from rfl] at hsplit
  rw [lastNamePart, hsplit, List.getLastD_concat]

theorem name_startSingleWorker (ident index : Nat) (label : String) (function : F) :
    (startSingleWorker ident (some (index : Int)) label function).name =
      label ++ "-Worker" ++ "-" ++ index.repr := by
  have hlabel : label ++ "-Worker" ++ "-" = label ++ "-Worker-" := by
    rw [String.append_assoc]
    rfl
  rw [hlabel]
  rfl

theorem replacement_of_startedWithIndex (label : String) (ident : Nat)
    (h : StartedWithIndex worker) (htarget : worker.target = function) :
    ∃ new, replacement label function ident worker = .ok new ∧ new.ident = ident ∧
      new.target = worker.target ∧ new.args = worker.args ∧ new.started = true ∧
        new.exception = false := by
  obtain ⟨old, index, oldLabel, oldFunction, exception, rfl⟩ := h
  have hpart : lastNamePart
      (startSingleWorker old (some (index : Int)) oldLabel oldFunction).name = index.repr := by
    rw [name_startSingleWorker]
    exact lastNamePart_append _ _ (not_mem_repr_of_not_isDigit (by decide) index)
  refine ⟨startSingleWorker ident (some (index : Int)) label function, ?_, rfl, htarget.symm, rfl,
    rfl, rfl⟩
  simp only [replacement, pyInt, hpart, decimal?_repr, bind, Except.bind]

/-- The index that is read from a name is not negative. -/
theorem replacement_eq_ok (h : replacement label function ident worker = .ok new) :
    ∃ index : Nat, new = startSingleWorker ident (some (index : Int)) label function := by
  unfold replacement pyInt at h
  split at h
  · next index hindex => exact ⟨index, (Except.ok.inj h).symm⟩
  · cases h

theorem index_of_replacement (h : replacement label function ident worker = .ok new) :
    ∃ index : Nat, new.target = function ∧ new.args = [(index : Int)] := by
  obtain ⟨index, rfl⟩ := replacement_eq_ok h
  exact ⟨index, rfl, rfl⟩

/-- Where no crashed process stays, none was skipped. -/
theorem walk_eq_ok (h : walk label function ident processList = .ok (kept, news)) :
    (∀ new ∈ news, ∃ index : Nat, new.target = function ∧ new.args = [(index : Int)]) ∧
      ((∀ worker ∈ kept, worker.exception = false) →
        kept = survivors processList ∧
          processList.IsChain fun worker next => ¬ (worker.exception ∧ next.exception)) := by
  induction ident, processList using walk.induct generalizing kept news with
  | case1 ident =>
    obtain ⟨rfl, rfl⟩ := Prod.mk.inj (Except.ok.inj h)
    exact ⟨by simp, fun _ => ⟨rfl, .nil⟩⟩
  | case2 ident worker hcrashed =>
    rw [walk, if_pos hcrashed] at h
    obtain ⟨new, hnew, hrest⟩ := except_bind_eq_ok h
    obtain ⟨rfl, rfl⟩ := Prod.mk.inj (Except.ok.inj hrest)
    refine ⟨fun n hn => ?_, fun _ => ⟨?_, .singleton _⟩⟩
    · rw [List.mem_singleton.mp hn]
      exact index_of_replacement hnew
    · rw [survivors_cons, if_pos hcrashed]
      rfl
  | case3 ident worker hrunning =>
    rw [walk, if_neg hrunning] at h
    obtain ⟨rfl, rfl⟩ := Prod.mk.inj (Except.ok.inj h)
    refine ⟨by simp, fun _ => ⟨?_, .singleton _⟩⟩
    rw [survivors_cons, if_neg hrunning]
    rfl
  | case4 ident worker next rest hcrashed ih =>
    rw [walk, if_pos hcrashed] at h
    obtain ⟨new, hnew, hrest⟩ := except_bind_eq_ok h
    obtain ⟨⟨kept', news'⟩, hwalk, hrest⟩ := except_bind_eq_ok hrest
    obtain ⟨rfl, rfl⟩ := Prod.mk.inj (Except.ok.inj hrest)
    obtain ⟨hnews, hkept⟩ := ih hwalk
    refine ⟨List.forall_mem_cons.mpr ⟨index_of_replacement hnew, hnews⟩, fun hall => ?_⟩
    obtain ⟨hnext, hall⟩ := List.forall_mem_cons.mp hall
    obtain ⟨rfl, hchain⟩ := hkept hall
    refine ⟨?_, ?_⟩
    · rw [survivors_cons, if_pos hcrashed, survivors_cons, if_neg (by simp [hnext])]
    · refine .cons_cons (by simp [hnext]) (List.isChain_cons.mpr ⟨?_, hchain⟩)
      simp [hnext]
  | case5 ident worker next rest hrunning ih =>
    rw [walk, if_neg hrunning] at h
    obtain ⟨⟨kept', news'⟩, hwalk, hrest⟩ := except_bind_eq_ok h
    obtain ⟨rfl, rfl⟩ := Prod.mk.inj (Except.ok.inj hrest)
    obtain ⟨hnews, hkept⟩ := ih hwalk
    refine ⟨hnews, fun hall => ?_⟩
    obtain ⟨rfl, hchain⟩ := hkept (List.forall_mem_cons.mp hall).2
    refine ⟨?_, .cons_cons (by simp [hrunning]) hchain⟩
    rw [survivors_cons _ (next :: rest), if_neg hrunning]

theorem walk_of_isChain (label : String) (ident : Nat)
    (hchain : processList.IsChain fun worker next => ¬ (worker.exception ∧ next.exception))
    (hgood : ∀ worker ∈ processList, worker.exception = true →
      worker.target = function ∧ StartedWithIndex worker) :
    ∃ news, walk label function ident processList = .ok (survivors processList, news) ∧
      List.Forall₂ (fun worker new => ident ≤ new.ident ∧ new.target = worker.target ∧
        new.args = worker.args ∧ new.started = true ∧ new.exception = false)
        (crashedWorkers processList) news := by
  induction ident, processList using walk.induct with
  | case1 ident => exact ⟨[], rfl, .nil⟩
  | case2 ident worker hcrashed =>
    obtain ⟨htarget, hindex⟩ := hgood worker List.mem_cons_self hcrashed
    obtain ⟨new, hnew, rfl, hsame⟩ :=
      replacement_of_startedWithIndex label ident hindex htarget
    refine ⟨[new], ?_, ?_⟩
    · rw [walk, if_pos hcrashed, hnew]
      simp [survivors, hcrashed, bind, Except.bind]
    · simp only [crashedWorkers, List.filter_singleton, hcrashed]
      exact .cons ⟨Nat.le_refl _, hsame⟩ .nil
  | case3 ident worker hrunning =>
    refine ⟨[], ?_, ?_⟩
    · rw [walk, if_neg hrunning]
      simp [survivors, hrunning]
    · simp [crashedWorkers, hrunning]
  | case4 ident worker next rest hcrashed ih =>
    obtain ⟨hfirst, hrest⟩ := List.forall_mem_cons.mp hgood
    obtain ⟨htarget, hindex⟩ := hfirst hcrashed
    obtain ⟨new, hnew, rfl, hsame⟩ :=
      replacement_of_startedWithIndex label ident hindex htarget
    obtain ⟨hskip, hchain⟩ := List.isChain_cons_cons.mp hchain
    have hnext : ¬ next.exception = true := fun hnext => hskip ⟨hcrashed, hnext⟩
    obtain ⟨news, hwalk, hnews⟩ := ih (List.isChain_cons.mp hchain).2 (List.forall_mem_cons.mp hrest).2
    refine ⟨new :: news, ?_, ?_⟩
    · rw [walk, if_pos hcrashed, hnew, survivors_cons, if_pos hcrashed, survivors_cons,
        if_neg hnext]
      simp only [bind, Except.bind, hwalk]
    · rw [crashedWorkers_cons, if_pos hcrashed, crashedWorkers_cons, if_neg hnext]
      refine .cons ⟨Nat.le_refl _, hsame⟩ (hnews.imp fun worker n hn => ?_)
      exact ⟨Nat.le_of_succ_le hn.1, hn.2⟩
  | case5 ident worker next rest hrunning ih =>
    obtain ⟨news, hwalk, hnews⟩ := ih (List.isChain_cons.mp hchain).2 (List.forall_mem_cons.mp hgood).2
    refine ⟨news, ?_, ?_⟩
    · rw [walk, if_neg hrunning, hwalk, survivors_cons _ (next :: rest), if_neg hrunning]
      rfl
    · rwa [crashedWorkers_cons, if_neg hrunning]

theorem survivors_append_crashedWorkers (processList : List (WorkerProcess F)) :
    (survivors processList ++ crashedWorkers processList).Perm processList := by
  have hfilter := List.filter_append_perm (fun worker => !worker.exception) processList
  simpa [survivors, crashedWorkers] using hfilter

/-- If every crashed worker has a replacement, it was started with an index. -/
theorem startedWithIndex_of_replaces (hcreated : Created worker)
    (hnew : ∃ index : Nat, new.target = function ∧ new.args = [(index : Int)])
    (h : Replaces processList worker new) : worker.target = function ∧ StartedWithIndex worker := by
  obtain ⟨index, htarget, hargs⟩ := hnew
  refine ⟨h.target.symm.trans htarget, ?_⟩
  have hworker := h.args.symm.trans hargs
  cases hcreated with
  | singleWorker old oldIndex oldLabel oldFunction exception =>
    have hindex : oldIndex = some (index : Int) := Option.toList_eq_singleton_iff.mp hworker
    exact ⟨old, index, oldLabel, oldFunction, exception, by rw [hindex]⟩
  | comparison old position oldFunction exception => cases hworker

/-- With `throw_exceptions` off, all crashed workers are restarted if and only if each of them was
started by `start_single_worker` with an index, for the function that is passed, and no two of them
stand next to each other. -/
theorem checkWorkerExceptions_iff {nextIdent : Nat} (hcreated : ∀ worker ∈ processList, Created worker)
    (hnodup : (processList.map WorkerProcess.ident).Nodup)
    (hfresh : ∀ worker ∈ processList, worker.ident < nextIdent) :
    (∃ state, checkWorkerExceptions false label (some function) processList nextIdent = .ok state ∧
        AllRestarted processList state.processList) ↔
      (∀ worker ∈ processList, worker.exception = true →
        worker.target = function ∧ StartedWithIndex worker) ∧
      processList.IsChain fun worker next => ¬ (worker.exception ∧ next.exception) := by
  rw [checkWorkerExceptions_eq_walk hnodup]
  constructor
  · rintro ⟨state, hstate, -, news, hperm, hreplaces⟩
    obtain ⟨⟨kept, started⟩, hwalk, rfl⟩ := except_map_eq_ok hstate
    obtain ⟨hindex, hskipped⟩ := walk_eq_ok hwalk
    have hkept : ∀ worker ∈ kept, worker.exception = false := by
      intro worker hworker
      rcases List.mem_append.mp (hperm.subset (List.mem_append_left _ hworker)) with hold | hnew
      · simpa using (List.mem_filter.mp hold).2
      · have hflip : List.Forall₂ (flip (Replaces processList)) news (crashedWorkers processList) :=
          List.Forall₂.flip hreplaces
        obtain ⟨old, -, hold⟩ := forall₂_mem_left hflip hnew
        exact hold.exception
    obtain ⟨rfl, hchain⟩ := hskipped hkept
    have hnews : started.Perm news := (List.perm_append_left_iff _).mp hperm
    refine ⟨fun worker hworker hcrashed => ?_, hchain⟩
    obtain ⟨new, hnew, hold⟩ :=
      forall₂_mem_left hreplaces (List.mem_filter.mpr ⟨hworker, hcrashed⟩)
    exact startedWithIndex_of_replaces (hcreated worker hworker)
      (hindex new (hnews.symm.subset hnew)) hold
  · rintro ⟨hgood, hchain⟩
    obtain ⟨news, hwalk, hnews⟩ := walk_of_isChain label nextIdent hchain hgood
    refine ⟨⟨survivors processList ++ news, nextIdent + news.length, false⟩, ?_, ?_, news,
      List.Perm.refl _, ?_⟩
    · rw [hwalk]
      rfl
    · have hlength := (survivors_append_crashedWorkers processList).length_eq
      rw [List.length_append] at hlength ⊢
      rw [← hnews.length_eq, hlength]
    · refine hnews.imp fun worker new hnew => ?_
      obtain ⟨hident, htarget, hargs, hstarted, hrunning⟩ := hnew
      refine ⟨htarget, hargs, hstarted, hrunning, fun process hprocess heq => ?_⟩
      have hlt := hfresh process hprocess
      omega

end Restart

end Check

/-- Two workers of the unpacking scheduler, the first of which has crashed. -/
def unpackingWorkers : List (WorkerProcess String) :=
  [{ startSingleWorker 0 (some 0) "Unpacking" "unpack_worker" with exception := true },
    startSingleWorker 1 (some 1) "Unpacking" "unpack_worker"]

theorem unpackingWorkers_restarted : ∃ state,
    checkWorkerExceptions false "Unpacking" (some "unpack_worker") unpackingWorkers 2 = .ok state ∧
      AllRestarted unpackingWorkers state.processList := by
  have hcreated : ∀ worker ∈ unpackingWorkers, Created worker := by
    intro worker hworker
    rcases List.mem_pair.mp hworker with rfl | rfl
    · exact .singleWorker 0 (some 0) "Unpacking" "unpack_worker" true
    · exact .singleWorker 1 (some 1) "Unpacking" "unpack_worker" false
  refine (checkWorkerExceptions_iff hcreated (by decide) (by decide)).mpr ⟨?_, by decide⟩
  intro worker hworker _
  rcases List.mem_pair.mp hworker with rfl | rfl
  · exact ⟨rfl, 0, 0, "Unpacking", "unpack_worker", true, rfl⟩
  · exact ⟨rfl, 1, 1, "Unpacking", "unpack_worker", false, rfl⟩

/-- The worker of the comparison scheduler, crashed. -/
def crashedComparisonWorker : WorkerProcess String :=
  { comparisonWorker 0 [1] "_comparison_scheduler_main" with exception := true }

/-- The worker of the comparison scheduler has no arguments, the new one gets a number that is read
from its name. -/
theorem crashed_comparison_worker : ¬ ∀ (label function : String)
    (processList : List (WorkerProcess String)) (nextIdent : Nat),
    (∀ worker ∈ processList, Created worker ∧ worker.target = function) →
      (processList.map WorkerProcess.ident).Nodup →
        (∀ worker ∈ processList, worker.ident < nextIdent) →
          ∃ state, checkWorkerExceptions false label (some function) processList nextIdent =
            .ok state ∧ AllRestarted processList state.processList := by
  intro h
  have hcreated : Created crashedComparisonWorker := .comparison 0 [1] "_comparison_scheduler_main" true
  obtain ⟨state, hstate, -, news, hperm, hreplaces⟩ := h "Compare" "_comparison_scheduler_main"
    [crashedComparisonWorker] 1 (by simpa using ⟨hcreated, rfl⟩) (by simp) (by decide)
  have hresult : checkWorkerExceptions false "Compare" (some "_comparison_scheduler_main")
      [crashedComparisonWorker] 1 =
        .ok ⟨[startSingleWorker 1 (some 1) "Compare" "_comparison_scheduler_main"], 2, false⟩ :=
    rfl
  rw [hresult] at hstate
  obtain rfl := Except.ok.inj hstate
  obtain ⟨new, hnew, hold⟩ := forall₂_mem_left hreplaces (List.mem_singleton_self _)
  have hstarted : new = startSingleWorker 1 (some 1) "Compare" "_comparison_scheduler_main" := by
    simpa using hperm.symm.subset (List.mem_append_right _ hnew)
  rw [hstarted] at hold
  exact absurd hold.args (by decide)

end FactCore
