import FactCore.Scheduler.StatusBookkeeping
import FactCore.Storage.FirmwareFiles

/-!
# Updates of several firmwares at once

`update_analysis_of_object_and_children` registers a firmware with all its files
and then hands its files and itself to the process queue, one after the other.
Each of these tasks reports to the status when it is complete. It reports for
every running firmware that contains the file, whoever enqueued the task.

So the analysis of a firmware may end with the tasks of another one. It does not
as long as a task about a file only completes while no other task about this file
is outstanding for a firmware that it reports to.

Results:
1. `UpdateInv.step`: the files of the outstanding tasks are still listed.
2. `update_finishes_last`: under this condition a firmware is finished after the
   last task of its update.
3. `shared_file_finishes_early`: two images with one file in common.
-/

namespace FactCore

/-! ## 1. Updates -/

/-- A call of `update_analysis_of_object_and_children`. -/
structure UpdateCall where
  fo : FileObject
  /-- What is left of the loop over `included_files`; `none` after the call has returned. -/
  loop : Option (List Uid)
  /-- The objects that were handed to the process queue and are not complete. -/
  tasks : List FileObject

/-- The next object goes to the process queue: a file of the loop, in the end the firmware. -/
def UpdateCall.enqueue (db : Db) (call : UpdateCall) : Option UpdateCall :=
  match call.loop with
  | none => none
  | some [] => some { call with loop := none, tasks := call.tasks ++ [call.fo] }
  | some (childUid :: rest) =>
    (getObject db childUid).map fun childFo =>
      { call with loop := some rest, tasks := call.tasks ++ [childFo] }

/-- The files whose tasks are not complete, enqueued or not. -/
def UpdateCall.outstanding (call : UpdateCall) : List Uid :=
  (call.loop.map (· ++ [call.fo.uid])).getD [] ++ call.tasks.map (·.uid)

/-- The tables and all calls so far. -/
structure UpdateState where
  tables : StatusTables
  calls : List UpdateCall

/-- What can happen next. -/
inductive UpdateEvent
  /-- An update of `fo` is called and registered. -/
  | register (fo : FileObject) (db : Db) (now : Rat)
  /-- A call goes on with its loop. -/
  | enqueue (id : Nat) (db : Db)
  /-- `_check_further_process_or_complete` finds nothing scheduled for an object of a call. -/
  | complete (id task : Nat) (now : Rat)

/-- An update reads the files of its firmware and registers all of them. -/
def UpdateState.register (s : UpdateState) (fo : FileObject) (db : Db) (now : Rat) :
    Except PyException UpdateState := do
  let includedFiles := getAllFilesInFw db fo.uid
  let tables ← StatusOp.run s.tables now (.addUpdateToCurrentAnalyses fo includedFiles)
  return ⟨tables, s.calls ++ [⟨fo, some includedFiles, []⟩]⟩

/-- The state without a task of a call. -/
def UpdateState.withoutTask (s : UpdateState) (id : Nat) (call : UpdateCall) (task : Nat) :
    UpdateState :=
  { s with calls := s.calls.set id { call with tasks := call.tasks.eraseIdx task } }

/-- The step relation. -/
inductive UpdateStep : UpdateState → UpdateEvent → UpdateState → Prop
  | register {s s' : UpdateState} {fo : FileObject} {db : Db} {now : Rat} :
      fo.isFirmware = true → s.register fo db now = .ok s' →
      UpdateStep s (.register fo db now) s'
  | enqueue {s : UpdateState} {id : Nat} {db : Db} {call call' : UpdateCall} :
      s.calls[id]? = some call → call.enqueue db = some call' →
      UpdateStep s (.enqueue id db) { s with calls := s.calls.set id call' }
  | complete {s : UpdateState} {id task : Nat} {now : Rat} {call : UpdateCall} {fo : FileObject}
      {t : StatusTables} :
      s.calls[id]? = some call → call.tasks[task]? = some fo →
      StatusOp.run s.tables now (.removeFromCurrentAnalyses fo) = .ok t →
      UpdateStep s (.complete id task now) { s.withoutTask id call task with tables := t }

/-- `call` is the update that registered the firmware `uid` last. -/
structure UpdateState.LatestCall (s : UpdateState) (uid : Uid) (id : Nat) (call : UpdateCall) :
    Prop where
  stored : s.calls[id]? = some call
  root : call.fo.uid = uid
  latest : ∀ id' call', id < id' → s.calls[id']? = some call' → call'.fo.uid ≠ uid

/-- A task completes only while no other task about the same file is outstanding for a running
firmware that it reports to. -/
def ReportsAlone (s : UpdateState) : UpdateEvent → Prop
  | .complete id task _ => ∀ call fo, s.calls[id]? = some call → call.tasks[task]? = some fo →
      ∀ uid ∈ s.tables.currentlyRunning, fo.ReportsTo uid →
        ∀ id' call', (s.withoutTask id call task).LatestCall uid id' call' →
          fo.uid ∉ call'.outstanding
  | _ => True

/-- The firmware `uid` is in `recently_finished`, and its update has no task left. -/
structure UpdateFinished (s : UpdateState) (uid : Uid) : Prop where
  finished : uid ∈ s.tables.recentlyFinished
  complete : ∀ id call, s.LatestCall uid id call → call.outstanding = []

/-- The outstanding tasks of a running firmware are about files that wait for their analysis. -/
def UpdateInv (s : UpdateState) : Prop :=
  ∀ uid entry id call, s.tables.currentlyRunning.get? uid = some entry →
    s.LatestCall uid id call → ∀ u ∈ call.outstanding, u ∈ entry.filesToAnalyze

section Updates
variable {s s' : UpdateState} {call call' : UpdateCall} {uid : Uid} {id id' task : Nat}
  {fo : FileObject} {db : Db} {now : Rat}

/-! ## 2. Calls -/

theorem UpdateCall.enqueue_fo (h : call.enqueue db = some call') : call'.fo = call.fo := by
  unfold UpdateCall.enqueue at h
  split at h
  · cases h
  · cases h
    rfl
  · obtain ⟨childFo, -, rfl⟩ := Option.map_eq_some_iff.mp h
    rfl

/-- The object that is enqueued was outstanding before. -/
theorem UpdateCall.mem_outstanding_enqueue (h : call.enqueue db = some call') {u : Uid}
    (hu : u ∈ call'.outstanding) : u ∈ call.outstanding := by
  unfold UpdateCall.enqueue at h
  unfold UpdateCall.outstanding at hu ⊢
  split at h
  · cases h
  · next hloop =>
    cases h
    simp only [hloop, Option.map_none, Option.map_some, Option.getD_none, Option.getD_some,
      List.map_append, List.map_cons, List.map_nil, List.mem_append, List.mem_singleton,
      List.not_mem_nil, false_or] at hu ⊢
    exact hu.symm
  · next childUid rest hloop =>
    obtain ⟨childFo, hchild, rfl⟩ := Option.map_eq_some_iff.mp h
    obtain rfl := getObject_uid hchild
    simp only [hloop, Option.map_some, Option.getD_some, List.map_append, List.map_cons,
      List.map_nil, List.mem_append, List.mem_cons, List.not_mem_nil, or_false] at hu ⊢
    tauto

theorem UpdateCall.mem_outstanding_eraseIdx {u : Uid}
    (hu : u ∈ UpdateCall.outstanding { call with tasks := call.tasks.eraseIdx task }) :
    u ∈ call.outstanding := by
  unfold UpdateCall.outstanding at hu ⊢
  rcases List.mem_append.mp hu with hu | hu
  · exact List.mem_append_left _ hu
  · obtain ⟨f, hf, rfl⟩ := List.mem_map.mp hu
    exact List.mem_append_right _ (List.mem_map_of_mem (List.mem_of_mem_eraseIdx hf))

/-- A call that changes stays the latest of its firmware, and the others stay as they are. -/
theorem UpdateState.LatestCall.of_set {new : UpdateCall} (h : s'.LatestCall uid id' call')
    (hcalls : s'.calls = s.calls.set id new) (hcall : s.calls[id]? = some call)
    (hfo : new.fo = call.fo) :
    ∃ old, s.LatestCall uid id' old ∧ (call' = old ∨ (call' = new ∧ old = call)) := by
  have hlt : id < s.calls.length := (List.getElem?_eq_some_iff.mp hcall).1
  have hself : s'.calls[id]? = some new := by rw [hcalls, List.getElem?_set_self hlt]
  have hother : ∀ i, i ≠ id → s'.calls[i]? = s.calls[i]? := fun i hne => by
    rw [hcalls, List.getElem?_set_ne hne.symm]
  have hlatest : ∀ i c, id' < i → s.calls[i]? = some c → c.fo.uid ≠ uid := by
    intro i c hi hc
    rcases Decidable.em (i = id) with rfl | hne
    · obtain rfl := Option.some.inj (hcall.symm.trans hc)
      exact hfo ▸ h.latest i new hi hself
    · exact h.latest i c hi ((hother i hne).trans hc)
  rcases Decidable.em (id' = id) with rfl | hne
  · obtain rfl := Option.some.inj (hself.symm.trans h.stored)
    exact ⟨call, ⟨hcall, hfo ▸ h.root, hlatest⟩, .inr ⟨rfl, rfl⟩⟩
  · exact ⟨call', ⟨(hother id' hne).symm.trans h.stored, h.root, hlatest⟩, .inl rfl⟩

/-- The latest call of a firmware after a registration. -/
theorem UpdateState.LatestCall.of_append {new : UpdateCall} (h : s'.LatestCall uid id call)
    (hcalls : s'.calls = s.calls ++ [new]) :
    (uid = new.fo.uid ∧ call = new) ∨ (uid ≠ new.fo.uid ∧ s.LatestCall uid id call) := by
  have hstored := h.stored
  have hlast : s'.calls[s.calls.length]? = some new := by
    rw [hcalls, List.getElem?_concat_length]
  have hbefore : ∀ i, i < s.calls.length → s'.calls[i]? = s.calls[i]? := fun i hi => by
    rw [hcalls, List.getElem?_append_left hi]
  rcases Nat.lt_or_ge id s.calls.length with hlt | hge
  · refine .inr ⟨fun heq => h.latest _ new hlt hlast heq.symm, ⟨?_, h.root, fun i c hi hc => ?_⟩⟩
    · exact (hbefore id hlt).symm.trans hstored
    · exact h.latest i c hi ((hbefore i (List.getElem?_eq_some_iff.mp hc).1).trans hc)
  · rw [hcalls, List.getElem?_append_right hge] at hstored
    obtain rfl := List.mem_singleton.mp (List.mem_of_getElem? hstored)
    exact .inl ⟨h.root.symm, rfl⟩

/-- It is enough that no other task of any call is about the file. -/
theorem ReportsAlone.of_unique (hcall : s.calls[id]? = some call)
    (htask : call.tasks[task]? = some fo)
    (h : ∀ other ∈ (s.withoutTask id call task).calls, fo.uid ∉ other.outstanding) :
    ReportsAlone s (.complete id task now) := by
  intro call' fo' hcall' htask' uid _ _ id' other hlatest
  obtain rfl := Option.some.inj (hcall.symm.trans hcall')
  obtain rfl := Option.some.inj (htask.symm.trans htask')
  exact h other (List.mem_of_getElem? hlatest.stored)

/-! ## 3. One step -/

/-- After a task has completed alone, the files of the other tasks are still listed. -/
theorem UpdateInv.listed (h : UpdateInv s) (hcall : s.calls[id]? = some call)
    (halone : ∀ id' call', (s.withoutTask id call task).LatestCall uid id' call' →
      fo.uid ∉ call'.outstanding) {entry : RunningAnalysis}
    (hentry : s.tables.currentlyRunning.get? uid = some entry)
    (hlatest : (s.withoutTask id call task).LatestCall uid id' call') {u : Uid}
    (hu : u ∈ call'.outstanding) : u ∈ (analyzedFile fo entry).filesToAnalyze := by
  obtain ⟨old, hold, hcases⟩ := hlatest.of_set rfl hcall rfl
  have hmem : u ∈ old.outstanding := by
    rcases hcases with rfl | ⟨rfl, rfl⟩
    · exact hu
    · exact UpdateCall.mem_outstanding_eraseIdx hu
  refine RunningAnalysis.mem_analyzedFile.mpr ⟨h uid entry id' old hentry hold u hmem, ?_⟩
  rintro rfl
  exact halone id' call' hlatest hu

/-- What a completed task makes of an entry: nothing, or the file is not waited for any more, and
the entry stays unless no file is left. -/
theorem running_of_complete {t : StatusTables}
    (hrun : StatusOp.run s.tables now (.removeFromCurrentAnalyses fo) = .ok t) (uid : Uid) :
    t.standing uid = s.tables.standing uid ∨
      fo.ReportsTo uid ∧ ∃ entry, s.tables.currentlyRunning.get? uid = some entry ∧
        (t.currentlyRunning.get? uid = some (analyzedFile fo entry) ∨
          uid ∈ t.recentlyFinished ∧ t.currentlyRunning.get? uid = none ∧
            (analyzedFile fo entry).filesToAnalyze = []) := by
  obtain ⟨t', hrun', hchange⟩ :=
    StatusOp.run_spec s.tables now (.removeFromCurrentAnalyses fo) trivial (by simp)
  obtain rfl := Except.ok.inj (hrun.symm.trans hrun')
  have hview := hchange uid
  simp only [StatusOp.change] at hview
  split at hview
  · next hrep =>
    unfold Standing.removeFile at hview
    split at hview
    · exact .inl hview
    · next entry hentry =>
      split at hview
      · exact .inl hview
      · refine .inr ⟨hrep, entry, hentry, ?_⟩
        dsimp only at hview
        split at hview
        · next hempty =>
          have hfinished := congrArg Standing.finished hview
          exact .inr ⟨Dict.mem_iff.mpr ⟨_, hfinished⟩, congrArg Standing.running hview, hempty.2⟩
        · exact .inl (congrArg Standing.running hview)
  · exact .inl hview

theorem register_spec (hfw : fo.isFirmware = true) (h : s.register fo db now = .ok s') :
    s'.calls = s.calls ++ [⟨fo, some (getAllFilesInFw db fo.uid), []⟩] ∧
      ∀ uid, if uid = fo.uid then
          ∃ entry, s'.tables.currentlyRunning.get? uid = some entry ∧
            entry.filesToAnalyze = fo.uid :: getAllFilesInFw db fo.uid
        else s'.tables.standing uid = s.tables.standing uid := by
  obtain ⟨fw, hfw⟩ := FileObject.isFirmware_iff.mp hfw
  obtain ⟨t, hrun, hview⟩ := addUpdate_spec s.tables now hfw (getAllFilesInFw db fo.uid)
  simp only [UpdateState.register, hrun] at h
  obtain rfl := Except.ok.inj h
  refine ⟨rfl, fun uid => ?_⟩
  have huid := hview uid
  split
  · next heq =>
    rw [if_pos heq] at huid
    exact ⟨_, congrArg Standing.running huid, rfl⟩
  · next hne =>
    rw [if_neg hne] at huid
    exact huid

/-- A registration lists the files of all its tasks, and a task that completes alone takes no file
of another task from the lists. -/
theorem UpdateInv.step {e : UpdateEvent} (h : UpdateInv s) (halone : ReportsAlone s e)
    (hst : UpdateStep s e s') : UpdateInv s' := by
  intro uid entry id' call' hentry hlatest u hu
  cases hst with
  | register hfw hreg =>
    obtain ⟨hcalls, hview⟩ := register_spec hfw hreg
    have huid := hview uid
    rcases hlatest.of_append hcalls with ⟨rfl, rfl⟩ | ⟨hne, hold⟩
    · rw [if_pos rfl] at huid
      obtain ⟨entry', hentry', hfiles⟩ := huid
      obtain rfl := Option.some.inj (hentry.symm.trans hentry')
      rw [hfiles]
      simpa [UpdateCall.outstanding, or_comm] using hu
    · rw [if_neg hne] at huid
      exact h uid entry id' call' ((congrArg Standing.running huid).symm.trans hentry) hold u hu
  | @enqueue id db call new hcall hnext =>
    obtain ⟨old, hold, hcases⟩ := hlatest.of_set rfl hcall (UpdateCall.enqueue_fo hnext)
    refine h uid entry id' old hentry hold u ?_
    rcases hcases with rfl | ⟨rfl, rfl⟩
    · exact hu
    · exact UpdateCall.mem_outstanding_enqueue hnext hu
  | @complete id task now call fo t hcall htask hrun =>
    have hlatest' : (s.withoutTask id call task).LatestCall uid id' call' :=
      ⟨hlatest.stored, hlatest.root, hlatest.latest⟩
    rcases running_of_complete hrun uid with hsame | ⟨hrep, old, hold, hleft | ⟨-, hnone, -⟩⟩
    · obtain ⟨before, hbefore, hcases⟩ := hlatest.of_set rfl hcall rfl
      refine h uid entry id' before ((congrArg Standing.running hsame).symm.trans hentry) hbefore u ?_
      rcases hcases with rfl | ⟨rfl, rfl⟩
      · exact hu
      · exact UpdateCall.mem_outstanding_eraseIdx hu
    · obtain rfl := Option.some.inj (hentry.symm.trans hleft)
      exact h.listed hcall (halone call fo hcall htask uid (Dict.mem_iff.mpr ⟨old, hold⟩) hrep) hold
        hlatest' hu
    · cases hentry.symm.trans hnone

/-- A step from such a state takes a firmware out of the running ones only with its last task. -/
theorem UpdateInv.finished {e : UpdateEvent} (h : UpdateInv s) (halone : ReportsAlone s e)
    (hst : UpdateStep s e s') (hmem : uid ∈ s.tables.currentlyRunning)
    (hgone : uid ∉ s'.tables.currentlyRunning) : UpdateFinished s' uid := by
  have hnone : s'.tables.currentlyRunning.get? uid = none := Dict.get?_eq_none_iff.mpr hgone
  cases hst with
  | register hfw hreg =>
    have huid := (register_spec hfw hreg).2 uid
    split at huid
    · obtain ⟨entry, hentry, -⟩ := huid
      cases hentry.symm.trans hnone
    · have hrunning := congrArg Standing.running huid
      exact absurd hmem (Dict.get?_eq_none_iff.mp (hrunning.symm.trans hnone))
  | enqueue hcall hnext => exact absurd hmem hgone
  | @complete id task now call fo t hcall htask hrun =>
    rcases running_of_complete hrun uid with hsame | ⟨hrep, old, hold, hleft | ⟨hfin, -, hempty⟩⟩
    · have hrunning := congrArg Standing.running hsame
      exact absurd hmem (Dict.get?_eq_none_iff.mp (hrunning.symm.trans hnone))
    · cases hleft.symm.trans hnone
    · refine ⟨hfin, fun id' call' hlatest => List.eq_nil_iff_forall_not_mem.mpr fun u hu => ?_⟩
      have hlisted := h.listed hcall (halone call fo hcall htask uid hmem hrep) hold
        ⟨hlatest.stored, hlatest.root, hlatest.latest⟩ hu
      rw [hempty] at hlisted
      cases hlisted

end Updates

/-! ## 4. Whole runs -/

/-- In a run whose tasks all complete alone, a firmware leaves `currently_running` only after all
tasks of its update have completed. -/
theorem update_finishes_last {t : StatusTables} {events : List UpdateEvent} {s : UpdateState}
    (h : Run (Restrict ReportsAlone UpdateStep) ⟨t, []⟩ events s) :
    ∀ e s', ReportsAlone s e → UpdateStep s e s' → ∀ uid ∈ s.tables.currentlyRunning,
      uid ∉ s'.tables.currentlyRunning → UpdateFinished s' uid := by
  have hinv : UpdateInv s := h.invariant (fun _ _ _ hs hst => hs.step hst.1 hst.2)
    fun _ _ _ _ _ hlatest => nomatch hlatest.stored
  exact fun e s' halone hst uid hmem hgone => hinv.finished halone hst hmem hgone

/-- Two images are uploaded, one of them with a file. -/
abbrev twoImagesDb : Db :=
  databaseAfter acceptAll pythonLimits (uploadWithFile ++ [.addObject secondImage])

/-- Both images are updated at once, and all tasks but the last one of the first image complete. -/
def twoUpdates : List UpdateEvent :=
  [.register outerImage twoImagesDb 1, .register secondImage twoImagesDb 1, .enqueue 0 twoImagesDb,
    .enqueue 1 twoImagesDb, .enqueue 0 twoImagesDb, .complete 0 0 2, .complete 1 0 3]

theorem two_updates_finish : ∃ s s' : UpdateState,
    Run (Restrict ReportsAlone UpdateStep) ⟨⟨∅, ∅⟩, []⟩ twoUpdates s ∧
      UpdateStep s (.complete 0 0 4) s' ∧ "second" ∉ s.tables.currentlyRunning ∧
      "outer" ∈ s.tables.currentlyRunning ∧ "outer" ∉ s'.tables.currentlyRunning ∧
      UpdateFinished s' "outer" := by
  have hrun : Run (Restrict ReportsAlone UpdateStep) ⟨⟨∅, ∅⟩, []⟩ twoUpdates _ :=
    .cons ⟨trivial, .register (by decide) rfl⟩ <|
    .cons ⟨trivial, .register (by decide) rfl⟩ <|
    .cons ⟨trivial, .enqueue rfl rfl⟩ <|
    .cons ⟨trivial, .enqueue rfl rfl⟩ <|
    .cons ⟨trivial, .enqueue rfl rfl⟩ <|
    .cons ⟨.of_unique rfl rfl (by decide), .complete rfl rfl rfl⟩ <|
    .cons ⟨.of_unique rfl rfl (by decide), .complete rfl rfl rfl⟩ (.nil _)
  exact ⟨_, _, hrun, .complete rfl rfl rfl, by decide, by decide, by decide,
    update_finishes_last hrun (.complete 0 0 4) _ (.of_unique rfl rfl (by decide))
      (.complete rfl rfl rfl) "outer" (by decide) (by decide)⟩

/-- Both images are updated. The file is complete for the first one, then the second image itself
is complete: its analysis ends before its own task about the file. -/
theorem shared_file_finishes_early :
    ¬ ∀ (t : StatusTables) (events : List UpdateEvent) (s : UpdateState),
      Run UpdateStep ⟨t, []⟩ events s → ∀ e s', UpdateStep s e s' →
        ∀ uid ∈ s.tables.currentlyRunning, uid ∉ s'.tables.currentlyRunning →
          UpdateFinished s' uid := by
  intro h
  have hrun : Run UpdateStep ⟨⟨∅, ∅⟩, []⟩
      [.register outerImage sharedFileDb 1, .register secondImage sharedFileDb 1,
        .enqueue 0 sharedFileDb, .enqueue 0 sharedFileDb, .enqueue 1 sharedFileDb,
        .enqueue 1 sharedFileDb, .complete 0 0 2] _ :=
    .cons (.register (by decide) rfl) <| .cons (.register (by decide) rfl) <|
    .cons (.enqueue rfl rfl) <| .cons (.enqueue rfl rfl) <|
    .cons (.enqueue rfl rfl) <| .cons (.enqueue rfl rfl) <| .cons (.complete rfl rfl rfl) (.nil _)
  have hfinished := h _ _ _ hrun (.complete 1 1 3) _ (.complete rfl rfl rfl) "second" (by decide)
    (by decide)
  have hlatest := hfinished.complete 1 _ ⟨rfl, rfl, fun id' call' hlt hcall => by
    obtain ⟨hlt', -⟩ := List.getElem?_eq_some_iff.mp hcall
    exact absurd (Nat.lt_of_lt_of_le hlt' (show _ ≤ 2 by decide)) (Nat.not_lt.mpr hlt)⟩
  revert hlatest
  decide

end FactCore
