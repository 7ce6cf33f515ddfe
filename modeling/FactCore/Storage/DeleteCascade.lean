import FactCore.Storage.FirmwareFiles

/-!
# What a deletion deletes

`delete_firmware` decides twice which files go. The walk of the first session looks
at the roots of the virtual paths: a file with another root loses the path below the
image, any other file is reported for deletion. The commit of the second session
looks at the parents.

Results:
1. `removeChildren_isSome_iff`, `removeChildren_visited`: when the walk ends, and what
   it finds.
2. `commitDelete_eq_some`, `commitDelete_isSome_of_ends`: the commit deletes what is
   gone when the cascade has ended, and succeeds if the rounds suffice.
3. `DeletionCompletes.result`, `deleteFirmware_not_completed`: the two sessions
   together.
-/

namespace FactCore

open Relation

/-- The file has a virtual path below another root. -/
def Db.Shared (db : Db) (root file : Uid) : Prop := ∃ r, r ≠ root ∧ db.HasPath r file

/-! ## 1. The walk -/

theorem Db.mem_getIncludedUids {db : Db} {parent child : Uid} :
    child ∈ db.getIncludedUids parent ↔ db.Includes parent child := by
  simp [Db.getIncludedUids, Db.Includes]

namespace Trimmed

variable {root : Uid} {db db' : Db}

theorem includes (h : Trimmed root db db') : db'.Includes = db.Includes := by
  funext p c
  rw [Db.Includes, h.includedFiles, Db.Includes]

theorem hasPath_of_ne (h : Trimmed root db db') {r u : Uid} (hr : r ≠ root) :
    db'.HasPath r u ↔ db.HasPath r u := by
  unfold Db.HasPath
  rcases h.rows u with hu | hu
  · rw [hu]
  · rw [hu]
    cases db.fileObjects.get? u with
    | none => simp
    | some entry => simp [FileObjectEntry.withoutRoot, hr]

theorem shared (h : Trimmed root db db') {u : Uid} : db'.Shared root u ↔ db.Shared root u :=
  exists_congr fun _ => and_congr_right fun hr => h.hasPath_of_ne hr

end Trimmed

/-- The test of the walk. -/
theorem shared_iff_any {db : Db} {root u : Uid} {entry : FileObjectEntry}
    (hrow : db.fileObjects.get? u = some entry) :
    (entry.virtualFilePaths.keys.any fun r => decide (r ≠ root)) = true ↔ db.Shared root u := by
  rw [List.any_eq_true]
  refine exists_congr fun r => ?_
  rw [Db.HasPath, hrow, decide_eq_true_eq, and_comm, ← Dict.mem_def]
  simp

/-- The result `r` of a walk over the rows `files` of `db`. -/
structure Visited (root : Uid) (db : Db) (r : Removal) (files : Uid → Prop) : Prop where
  trimmed : Trimmed root db r.db
  uids : ∀ v, v ∈ r.uidsToDelete ↔ files v ∧ ¬ db.Shared root v
  paths : ∀ v, r.db.HasPath root v ↔ db.HasPath root v ∧ ¬ (files v ∧ db.Shared root v)

section Walk
variable {root u : Uid} {db : Db} {acc child r : Removal} {files files' : Uid → Prop}
  {walk : Uid → Db → Option Removal}

/-- The loop over the files that `u` includes, in both functions of the walk. -/
abbrev walkIncluded (walk : Uid → Db → Option Removal) (db : Db) (u : Uid) : Option Removal :=
  (db.getIncludedUids u).foldlM (fun (acc : Removal) childUid => do
    let child ← walk childUid acc.db
    return ⟨acc.removedFp + child.removedFp, acc.uidsToDelete ∪ child.uidsToDelete, child.db⟩)
    ⟨0, [], db⟩

theorem Visited.start (root : Uid) (db : Db) : Visited root db ⟨0, [], db⟩ fun _ => False where
  trimmed := .refl root db
  uids v := by simp
  paths v := by simp

theorem Visited.congr (h : Visited root db r files) (heq : ∀ v, files v ↔ files' v) :
    Visited root db r files' where
  trimmed := h.trimmed
  uids v := by rw [h.uids, heq]
  paths v := by rw [h.paths, heq]

theorem Visited.append (h : Visited root db acc files) (h' : Visited root acc.db child files') :
    Visited root db ⟨acc.removedFp + child.removedFp, acc.uidsToDelete ∪ child.uidsToDelete,
      child.db⟩ fun v => files v ∨ files' v where
  trimmed := h.trimmed.trans h'.trimmed
  uids v := by
    rw [List.mem_union_iff, h.uids, h'.uids, h.trimmed.shared, or_and_right]
  paths v := by
    rw [h'.paths, h.paths, h.trimmed.shared, and_assoc, or_and_right, not_or]

/-- A loop visits what the walk visits from each of the files. -/
theorem foldlM_visited {below : Uid → Uid → Prop} {uids : List Uid}
    (hwalk : ∀ c ∈ uids, ∀ db' r', Trimmed root db db' → walk c db' = some r' →
      Visited root db' r' (below c))
    (hacc : Visited root db acc files)
    (h : uids.foldlM (fun (acc : Removal) childUid => do
      let child ← walk childUid acc.db
      return (⟨acc.removedFp + child.removedFp, acc.uidsToDelete ∪ child.uidsToDelete,
        child.db⟩ : Removal)) acc = some r) :
    Visited root db r fun v => files v ∨ ∃ c ∈ uids, below c v := by
  induction uids generalizing acc files with
  | nil =>
    obtain rfl := Option.some.inj h
    exact hacc.congr fun v => by simp
  | cons u uids ih =>
    rw [List.foldlM_cons] at h
    obtain ⟨acc', hacc', h⟩ := Option.bind_eq_some_iff.mp h
    obtain ⟨child, hu, hchild⟩ := Option.bind_eq_some_iff.mp hacc'
    obtain rfl := Option.some.inj hchild
    have hvisited := hacc.append (hwalk u List.mem_cons_self acc.db child hacc.trimmed hu)
    have htl := ih (fun c hc => hwalk c (List.mem_cons_of_mem u hc)) hvisited h
    exact htl.congr fun v => by simp [or_assoc]

/-- A loop ends if the walk from each of the files does. -/
theorem foldlM_isSome_iff {ends : Uid → Prop} {uids : List Uid}
    (hwalk : ∀ c ∈ uids, ∀ db', Trimmed root db db' → ((walk c db').isSome = true ↔ ends c))
    (htrim : ∀ c db' r', walk c db' = some r' → Trimmed root db' r'.db)
    (hacc : Trimmed root db acc.db) :
    (uids.foldlM (fun (acc : Removal) childUid => do
      let child ← walk childUid acc.db
      return (⟨acc.removedFp + child.removedFp, acc.uidsToDelete ∪ child.uidsToDelete,
        child.db⟩ : Removal)) acc).isSome = true ↔ ∀ c ∈ uids, ends c := by
  induction uids generalizing acc with
  | nil => simp
  | cons u uids ih =>
    have hu := hwalk u List.mem_cons_self acc.db hacc
    rw [List.foldlM_cons, List.forall_mem_cons]
    cases hr : walk u acc.db with
    | none =>
      rw [hr] at hu
      have hnot : ¬ ends u := fun h => absurd (hu.mpr h) (by simp)
      simp [hnot]
    | some child =>
      rw [hr] at hu
      have hends : ends u := hu.mp rfl
      simp only [Option.bind_eq_bind, Option.bind_some, Option.pure_def, hends, true_and]
      refine ih (fun c hc => hwalk c (List.mem_cons_of_mem u hc)) ?_
      exact hacc.trans (htrim u acc.db child hr)

theorem walkIncluded_visited (hk : db.ForeignKeys)
    (hwalk : ∀ c db' r', Db.ForeignKeys db' → c ∈ db'.fileObjects → walk c db' = some r' →
      Visited root db' r' (ReflTransGen db'.Includes c))
    (h : walkIncluded walk db u = some r) : Visited root db r (TransGen db.Includes u) := by
  have hloop : Visited root db r fun v =>
      False ∨ ∃ c ∈ db.getIncludedUids u, ReflTransGen db.Includes c v := by
    refine foldlM_visited (fun c hc db' r' htrim hr' => ?_) (.start root db) h
    have hrow := htrim.mem_fileObjects.mpr (hk.included u c (Db.mem_getIncludedUids.mp hc)).2
    exact htrim.includes ▸ hwalk c db' r' (htrim.foreignKeys hk) hrow hr'
  refine hloop.congr fun v => ?_
  rw [TransGen.head'_iff, false_or]
  simp only [Db.mem_getIncludedUids]

theorem walkIncluded_isSome_iff {depth : Nat} (hk : db.ForeignKeys)
    (hwalk : ∀ c db', Db.ForeignKeys db' → c ∈ db'.fileObjects →
      ((walk c db').isSome = true ↔ ∀ n v, Steps db'.Includes c n v → n < depth))
    (htrim : ∀ c db' r', walk c db' = some r' → Trimmed root db' r'.db) :
    (walkIncluded walk db u).isSome = true ↔ ∀ n v, Steps db.Includes u n v → n ≤ depth := by
  have hloop := @foldlM_isSome_iff root db ⟨0, [], db⟩ walk
    (fun c => ∀ n v, Steps db.Includes c n v → n < depth) (db.getIncludedUids u)
    (fun c hc db' htrim' => by
      have hrow := htrim'.mem_fileObjects.mpr (hk.included u c (Db.mem_getIncludedUids.mp hc)).2
      rw [hwalk c db' (htrim'.foreignKeys hk) hrow, htrim'.includes])
    htrim (.refl root db)
  refine hloop.trans ⟨fun h n v hsteps => ?_, fun h c hc n v hsteps => ?_⟩
  · cases n with
    | zero => exact Nat.zero_le depth
    | succ n =>
      obtain ⟨c, hc, hsteps⟩ := steps_succ_iff.mp hsteps
      exact h c (Db.mem_getIncludedUids.mpr hc) n v hsteps
  · exact h (n + 1) v (.head (Db.mem_getIncludedUids.mp hc) hsteps)

/-- What one call of the recursion does after its loop. -/
theorem Visited.here {entry : FileObjectEntry} {r' : Removal}
    (h : Visited root db r files) (hrow : r.db.fileObjects.get? u = some entry)
    (hr' : (if entry.virtualFilePaths.keys.any fun v => decide (v ≠ root) then
        some ⟨r.removedFp + 1, r.uidsToDelete, { r.db with
          fileObjects := r.db.fileObjects.set u (entry.withoutRoot root) }⟩
      else some ⟨r.removedFp, r.uidsToDelete ∪ [u], r.db⟩) = some r') :
    Visited root db r' fun v => v = u ∨ files v := by
  have hshared : (entry.virtualFilePaths.keys.any fun v => decide (v ≠ root)) = true ↔
      db.Shared root u := (shared_iff_any hrow).trans h.trimmed.shared
  split at hr'
  · next hany =>
    obtain rfl := Option.some.inj hr'
    have hu := hshared.mp hany
    refine ⟨h.trimmed.trans (.set hrow), fun v => ?_, fun v => ?_⟩
    · rw [h.uids]
      refine ⟨fun hv => ⟨.inr hv.1, hv.2⟩, fun hv => ⟨hv.1.resolve_left ?_, hv.2⟩⟩
      rintro rfl
      exact hv.2 hu
    · rcases eq_or_ne v u with rfl | hne
      · simp [Db.HasPath, FileObjectEntry.withoutRoot, hu]
      · have hv := h.paths v
        simpa [Db.HasPath, hne, Dict.get?_set_of_ne _ hne] using hv
  · next hany =>
    obtain rfl := Option.some.inj hr'
    have hu : ¬ db.Shared root u := fun hs => hany (hshared.mpr hs)
    refine ⟨h.trimmed, fun v => ?_, fun v => ?_⟩
    · rw [List.mem_union_iff, h.uids, List.mem_singleton]
      rcases eq_or_ne v u with rfl | hne
      · simp [hu]
      · simp [hne]
    · rw [h.paths]
      rcases eq_or_ne v u with rfl | hne
      · simp [hu]
      · simp [hne]

end Walk

section Recursion
variable {depth : Nat} {root u uid : Uid} {db : Db} {r : Removal} {limits : Limits}

theorem removeVirtualPathEntries_succ (hrow : u ∈ db.fileObjects) :
    removeVirtualPathEntries (depth + 1) root u db =
      (walkIncluded (removeVirtualPathEntries depth root) db u).bind fun r =>
        (r.db.fileObjects.get? u).bind fun entry =>
          if entry.virtualFilePaths.keys.any fun v => decide (v ≠ root) then
            some ⟨r.removedFp + 1, r.uidsToDelete, { r.db with
              fileObjects := r.db.fileObjects.set u (entry.withoutRoot root) }⟩
          else some ⟨r.removedFp, r.uidsToDelete ∪ [u], r.db⟩ := by
  rw [removeVirtualPathEntries, if_neg (not_not.mpr hrow)]
  rfl

/-- The recursion visits the file and everything below it. -/
theorem removeVirtualPathEntries_visited (hk : db.ForeignKeys) (hrow : u ∈ db.fileObjects)
    (h : removeVirtualPathEntries depth root u db = some r) :
    Visited root db r (ReflTransGen db.Includes u) := by
  induction depth generalizing u db r with
  | zero => cases h
  | succ depth ih =>
    rw [removeVirtualPathEntries_succ hrow] at h
    obtain ⟨r1, h1, h⟩ := Option.bind_eq_some_iff.mp h
    obtain ⟨entry, hentry, h⟩ := Option.bind_eq_some_iff.mp h
    have hloop : Visited root db r1 (TransGen db.Includes u) :=
      walkIncluded_visited hk (fun c db' r' hk' hrow' hr' => ih hk' hrow' hr') h1
    exact (hloop.here hentry h).congr fun v => reflTransGen_iff_eq_or_transGen.symm

/-- The recursion ends if every chain of included files is shorter than the depth it may reach. -/
theorem removeVirtualPathEntries_isSome_iff (hk : db.ForeignKeys) (hrow : u ∈ db.fileObjects) :
    (removeVirtualPathEntries depth root u db).isSome = true ↔
      ∀ n v, Steps db.Includes u n v → n < depth := by
  induction depth generalizing u db with
  | zero =>
    show (none : Option Removal).isSome = true ↔ _
    refine iff_of_false (by simp) fun h => ?_
    exact absurd (h 0 u .refl) (Nat.not_lt_zero 0)
  | succ depth ih =>
    have hloop : (walkIncluded (removeVirtualPathEntries depth root) db u).isSome = true ↔
        ∀ n v, Steps db.Includes u n v → n ≤ depth :=
      walkIncluded_isSome_iff hk (fun c db' hk' hrow' => ih hk' hrow')
        fun c db' r' => removeVirtualPathEntries_trimmed
    simp only [Nat.lt_succ_iff]
    rw [← hloop, removeVirtualPathEntries_succ hrow]
    cases hr : walkIncluded (removeVirtualPathEntries depth root) db u with
    | none => simp
    | some r1 =>
      -- the row is still there after the loop
      have htrim : Trimmed root db r1.db :=
        foldlM_trimmed (fun _ _ _ h => removeVirtualPathEntries_trimmed h) hr
      obtain ⟨entry, hentry⟩ := Dict.mem_iff.mp (htrim.mem_fileObjects.mpr hrow)
      simp only [Option.bind_some, hentry, Option.isSome_some, iff_true]
      split <;> rfl

theorem removeChildren_visited (hk : db.ForeignKeys) (h : removeChildren limits db uid = some r) :
    Visited uid db r (TransGen db.Includes uid) :=
  walkIncluded_visited hk (fun _ _ _ => removeVirtualPathEntries_visited) h

theorem removeChildren_isSome_iff (hk : db.ForeignKeys) :
    (removeChildren limits db uid).isSome = true ↔
      ∀ n u, Steps db.Includes uid n u → n ≤ limits.recursion :=
  walkIncluded_isSome_iff hk (fun _ _ => removeVirtualPathEntries_isSome_iff)
    fun _ _ _ => removeVirtualPathEntries_trimmed

end Recursion

/-! ## 2. The commit -/

/-- The files that are gone `n` rounds after the file `uid`. -/
abbrev Db.GoneAfter (db : Db) (uid : Uid) : Nat → Uid → Prop := Gone db.Includes db.Flagged uid

/-- The cascade that starts with `uid` deletes nothing after round `n`. -/
def Db.CascadeEnds (db : Db) (uid : Uid) (n : Nat) : Prop :=
  ∀ u, db.GoneAfter uid (n + 1) u → db.GoneAfter uid n u

/-- Every file that is not flagged as firmware has a parent. -/
def Db.NoOrphans (db : Db) : Prop :=
  ∀ u ∈ db.fileObjects, ¬ db.Flagged u → ∃ p, db.Includes p u

theorem Trimmed.flagged_eq {root : Uid} {db db' : Db} (h : Trimmed root db db') :
    db'.Flagged = db.Flagged :=
  funext fun _ => propext h.flagged

theorem Trimmed.goneAfter {root : Uid} {db db' : Db} (h : Trimmed root db db') :
    db'.GoneAfter = db.GoneAfter := by
  funext uid
  rw [Db.GoneAfter, h.includes, h.flagged_eq]

theorem Trimmed.cascadeEnds {root uid : Uid} {db db' : Db} {n : Nat} (h : Trimmed root db db') :
    db'.CascadeEnds uid n ↔ db.CascadeEnds uid n := by
  rw [Db.CascadeEnds, h.goneAfter, Db.CascadeEnds]

theorem Trimmed.noOrphans {root : Uid} {db db' : Db} (h : Trimmed root db db')
    (hno : db.NoOrphans) : db'.NoOrphans := by
  intro u hu hflag
  rw [h.includes]
  exact hno u (h.mem_fileObjects.mp hu) fun hf => hflag (h.flagged.mpr hf)

section Commit
variable {db db' : Db} {uid u : Uid} {n j flushes : Nat} {L : List Uid}

/-- One round: the orphans are what is gone next. -/
theorem mem_orphans_deleteEntries (hk : db.ForeignKeys) (hno : db.NoOrphans)
    (hL : ∀ u, u ∈ L ↔ db.GoneAfter uid n u) :
    u ∈ (db.deleteEntries L).orphans ↔ db.GoneAfter uid (n + 1) u ∧ ¬ db.GoneAfter uid n u := by
  simp only [Db.mem_orphans, Db.mem_fileObjects_deleteEntries, Db.flagged_deleteEntries,
    Db.mem_includedFiles_deleteEntries, hL]
  constructor
  · rintro ⟨⟨hrow, hstays⟩, hflag, hparents⟩
    have hpin : ¬ db.Flagged u := fun hf => hflag ⟨hf, hstays⟩
    refine ⟨.inr ⟨hpin, hno u hrow hpin, fun p hp => ?_⟩, hstays⟩
    by_contra hpgone
    exact hparents p ⟨hp, hpgone, hstays⟩ ⟨(hk.included p u hp).1, hpgone⟩
  · rintro ⟨hgone, hstays⟩
    obtain ⟨hpin, ⟨p, hp⟩, hall⟩ := hgone.resolve_left hstays
    exact ⟨⟨(hk.included p u hp).2, hstays⟩, fun hf => hpin hf.1,
      fun q hq hqrow => hqrow.2 (hall q hq.1)⟩

theorem mem_append_orphans (hk : db.ForeignKeys) (hno : db.NoOrphans)
    (hL : ∀ u, u ∈ L ↔ db.GoneAfter uid n u) :
    u ∈ L ++ (db.deleteEntries L).orphans ↔ db.GoneAfter uid (n + 1) u := by
  rw [List.mem_append, hL, mem_orphans_deleteEntries hk hno hL]
  constructor
  · rintro (h | h)
    · exact .inl h
    · exact h.1
  · intro h
    rcases Classical.em (db.GoneAfter uid n u) with hn | hn
    · exact .inl hn
    · exact .inr ⟨h, hn⟩

theorem orphans_eq_nil_iff (hk : db.ForeignKeys) (hno : db.NoOrphans)
    (hL : ∀ u, u ∈ L ↔ db.GoneAfter uid n u) :
    (db.deleteEntries L).orphans = [] ↔ db.CascadeEnds uid n := by
  rw [List.eq_nil_iff_forall_not_mem]
  refine forall_congr' fun u => ?_
  rw [mem_orphans_deleteEntries hk hno hL, not_and, not_not]

/-- The end of the cascade leaves no orphan. -/
theorem noOrphans_deleteEntries (hk : db.ForeignKeys) (hno : db.NoOrphans)
    (hL : ∀ u, u ∈ L ↔ db.GoneAfter uid n u) (hend : db.CascadeEnds uid n) :
    (db.deleteEntries L).NoOrphans := by
  intro u hrow hflag
  have hnil := (orphans_eq_nil_iff hk hno hL).mpr hend
  by_contra hparent
  have horphan : u ∈ (db.deleteEntries L).orphans :=
    Db.mem_orphans.mpr ⟨hrow, hflag, fun p hp => absurd ⟨p, hp⟩ hparent⟩
  rw [hnil] at horphan
  cases horphan

/-- A commit deletes what is gone when the cascade has ended. -/
theorem commitDelete_gone (hk : db.ForeignKeys) (hno : db.NoOrphans)
    (hL : ∀ u, u ∈ L ↔ db.GoneAfter uid n u)
    (h : Db.commitDelete flushes (db.deleteEntries L) (db.deleteEntries L).orphans = some db') :
    ∃ j, j < n + flushes ∧ db.CascadeEnds uid j ∧
      ∃ gone, (∀ u, u ∈ gone ↔ db.GoneAfter uid j u) ∧ db' = db.deleteEntries gone := by
  induction flushes generalizing n L with
  | zero => cases h
  | succ flushes ih =>
    rw [Db.commitDelete] at h
    split at h
    · next hnil =>
      exact ⟨n, by omega, (orphans_eq_nil_iff hk hno hL).mp hnil, L, hL, (Option.some.inj h).symm⟩
    · rw [Db.deleteEntries_append] at h
      obtain ⟨j, hj, hrest⟩ := ih (fun u => mem_append_orphans hk hno hL) h
      exact ⟨j, by omega, hrest⟩

/-- A commit succeeds if the cascade ends within its rounds. -/
theorem commitDelete_isSome (hk : db.ForeignKeys) (hno : db.NoOrphans)
    (hL : ∀ u, u ∈ L ↔ db.GoneAfter uid n u) (hend : db.CascadeEnds uid j) (hnj : n ≤ j)
    (hj : j < n + flushes) :
    (Db.commitDelete flushes (db.deleteEntries L) (db.deleteEntries L).orphans).isSome = true := by
  induction flushes generalizing n L with
  | zero => omega
  | succ flushes ih =>
    rw [Db.commitDelete]
    split
    · rfl
    · next hne =>
      -- the cascade goes on, so this round is not the last
      have hnj' : n ≠ j := fun heq => hne ((orphans_eq_nil_iff hk hno hL).mpr (heq ▸ hend))
      rw [Db.deleteEntries_append]
      exact ih (fun u => mem_append_orphans hk hno hL) (by omega) (by omega)

theorem commitDelete_eq_some (hk : db.ForeignKeys) (hno : db.NoOrphans)
    (h : Db.commitDelete flushes db [uid] = some db') :
    ∃ j, j + 2 ≤ flushes ∧ db.CascadeEnds uid j ∧
      ∃ gone, (∀ u, u ∈ gone ↔ db.GoneAfter uid j u) ∧ db' = db.deleteEntries gone := by
  cases flushes with
  | zero => cases h
  | succ flushes =>
    rw [Db.commitDelete, if_neg (by simp)] at h
    have hL : ∀ u, u ∈ [uid] ↔ db.GoneAfter uid 0 u := fun u => List.mem_singleton
    obtain ⟨j, hj, hrest⟩ := commitDelete_gone hk hno hL h
    exact ⟨j, by omega, hrest⟩

theorem commitDelete_isSome_of_ends (hk : db.ForeignKeys) (hno : db.NoOrphans)
    (hend : db.CascadeEnds uid j) (hj : j + 2 ≤ flushes) :
    (Db.commitDelete flushes db [uid]).isSome = true := by
  obtain ⟨k, rfl⟩ := Nat.exists_eq_add_of_le hj
  have hL : ∀ u, u ∈ [uid] ↔ db.GoneAfter uid 0 u := fun u => List.mem_singleton
  rw [show j + 2 + k = (j + 1 + k) + 1 by omega, Db.commitDelete, if_neg (by simp)]
  exact commitDelete_isSome hk hno hL hend (Nat.zero_le j) (by omega)

end Commit

/-! ## 3. The two sessions -/

/-- The deletion of `uid` goes through: it is flagged as firmware, no chain of included files is
longer than the walk may go down, and the cascade ends within the rounds of the commit. -/
structure DeletionCompletes (limits : Limits) (db : Db) (uid : Uid) : Prop where
  flagged : db.Flagged uid
  nested : ∀ n u, Steps db.Includes uid n u → n ≤ limits.recursion
  ends : ∃ n, n + 2 ≤ limits.flushes ∧ db.CascadeEnds uid n

/-- What a deletion that went through leaves, when the cascade ends after round `n`. -/
structure DeletionResult (db : Db) (uid : Uid) (n : Nat) (d : Deletion) : Prop where
  sent : ∃ uids, d.sent = some uids ∧
    ∀ v, v ∈ uids ↔ v = uid ∨ (TransGen db.Includes uid v ∧ ¬ db.Shared uid v)
  rows : ∀ v, v ∈ d.outcome.db.fileObjects ↔ v ∈ db.fileObjects ∧ ¬ db.GoneAfter uid n v
  paths : ∀ v, d.outcome.db.HasPath uid v ↔
    db.HasPath uid v ∧ ¬ db.GoneAfter uid n v ∧ ¬ (TransGen db.Includes uid v ∧ db.Shared uid v)
  noOrphans : d.outcome.db.NoOrphans

section Sessions
variable {limits : Limits} {db db' : Db} {uid : Uid} {n : Nat} {r : Removal}

theorem deleteFirmware_of_not_flagged (h : ¬ db.Flagged uid) :
    deleteFirmware limits db uid = ⟨⟨db, none⟩, 0, none⟩ := by
  unfold deleteFirmware
  cases hrow : db.fileObjects.get? uid with
  | none => rfl
  | some fw =>
    have hflag : ¬ fw.isFirmware = true := fun hf => h ⟨fw, hrow, hf⟩
    simp only [if_neg hflag]

theorem deleteFirmware_of_walk_none (h : db.Flagged uid)
    (hr : removeChildren limits db uid = none) :
    deleteFirmware limits db uid = ⟨⟨db, some .recursionError⟩, 0, none⟩ := by
  obtain ⟨fw, hrow, hflag⟩ := h
  unfold deleteFirmware
  simp only [hrow, hflag, if_true, hr]

theorem deleteFirmware_of_commit (h : db.Flagged uid) (hr : removeChildren limits db uid = some r)
    (hc : Db.commitDelete limits.flushes r.db [uid] = some db') :
    deleteFirmware limits db uid =
      ⟨⟨db', none⟩, r.removedFp, some (r.uidsToDelete ∪ [uid])⟩ := by
  have hmem : uid ∈ r.db.fileObjects :=
    (removeChildren_trimmed hr).mem_fileObjects.mpr h.mem_fileObjects
  obtain ⟨fw, hrow, hflag⟩ := h
  have hobj : deleteObject limits r.db uid = ⟨db', none⟩ := by
    simp only [deleteObject, if_pos hmem, hc, readWriteSession_ok]
  unfold deleteFirmware
  simp only [hrow, hflag, if_true, hr, hobj]

theorem deleteFirmware_of_commit_none (h : db.Flagged uid)
    (hr : removeChildren limits db uid = some r)
    (hc : Db.commitDelete limits.flushes r.db [uid] = none) :
    ∃ e, deleteFirmware limits db uid = ⟨⟨r.db, some e⟩, r.removedFp, none⟩ := by
  have hmem : uid ∈ r.db.fileObjects :=
    (removeChildren_trimmed hr).mem_fileObjects.mpr h.mem_fileObjects
  obtain ⟨fw, hrow, hflag⟩ := h
  have hobj : ∃ e, deleteObject limits r.db uid = ⟨r.db, some e⟩ := by
    simp only [deleteObject, if_pos hmem, hc, readWriteSession_error]
    exact ⟨_, rfl⟩
  obtain ⟨e, hobj⟩ := hobj
  unfold deleteFirmware
  simp only [hrow, hflag, if_true, hr, hobj]
  exact ⟨e, rfl⟩

theorem DeletionResult.of_commit (hk : db.ForeignKeys) (hno : db.NoOrphans)
    (hflag : db.Flagged uid) (hr : removeChildren limits db uid = some r)
    (hend : db.CascadeEnds uid n)
    (hc : Db.commitDelete limits.flushes r.db [uid] = some db') :
    DeletionResult db uid n (deleteFirmware limits db uid) := by
  have hvisited := removeChildren_visited hk hr
  have htrim := hvisited.trimmed
  have heq := deleteFirmware_of_commit hflag hr hc
  obtain ⟨j, -, hendj, gone, hgone, rfl⟩ :=
    commitDelete_eq_some (htrim.foreignKeys hk) (htrim.noOrphans hno) hc
  -- the cascade has one end only
  have hgone' : ∀ v, v ∈ gone ↔ db.GoneAfter uid n v := by
    intro v
    rw [hgone, htrim.goneAfter]
    exact ⟨fun h => h.of_stable hend, fun h => h.of_stable (htrim.cascadeEnds.mp hendj)⟩
  have hL : ∀ v, v ∈ gone ↔ r.db.GoneAfter uid n v := by
    intro v
    rw [hgone', htrim.goneAfter]
  rw [heq]
  refine ⟨⟨_, rfl, fun v => ?_⟩, fun v => ?_, fun v => ?_, ?_⟩
  · rw [List.mem_union_iff, hvisited.uids, List.mem_singleton, or_comm]
  · rw [Db.mem_fileObjects_deleteEntries, htrim.mem_fileObjects, hgone']
  · rw [Db.hasPath_deleteEntries, hvisited.paths, hgone', and_assoc,
      and_comm (b := ¬ db.GoneAfter uid n v)]
  · exact noOrphans_deleteEntries (htrim.foreignKeys hk) (htrim.noOrphans hno) hL
      (htrim.cascadeEnds.mpr hend)

/-- A deletion that can go through does. -/
theorem DeletionCompletes.result (h : DeletionCompletes limits db uid) (hk : db.ForeignKeys)
    (hno : db.NoOrphans) (hend : db.CascadeEnds uid n) :
    DeletionResult db uid n (deleteFirmware limits db uid) := by
  obtain ⟨r, hr⟩ := Option.isSome_iff_exists.mp ((removeChildren_isSome_iff hk).mpr h.nested)
  have htrim := (removeChildren_visited hk hr).trimmed
  obtain ⟨j, hj, hendj⟩ := h.ends
  obtain ⟨db', hc⟩ := Option.isSome_iff_exists.mp <|
    commitDelete_isSome_of_ends (htrim.foreignKeys hk) (htrim.noOrphans hno)
      (htrim.cascadeEnds.mpr hendj) hj
  exact .of_commit hk hno h.flagged hr hend hc

/-- A deletion that does not go through sends nothing and leaves the image its own path. -/
theorem deleteFirmware_not_completed (hk : db.ForeignKeys) (hno : db.NoOrphans)
    (hself : db.HasPath uid uid) (h : ¬ DeletionCompletes limits db uid) :
    (deleteFirmware limits db uid).sent = none ∧
      (deleteFirmware limits db uid).outcome.db.HasPath uid uid := by
  rcases Classical.em (db.Flagged uid) with hflag | hflag
  · cases hr : removeChildren limits db uid with
    | none =>
      rw [deleteFirmware_of_walk_none hflag hr]
      exact ⟨rfl, hself⟩
    | some r =>
      have hnested := (removeChildren_isSome_iff hk).mp (Option.isSome_of_mem hr)
      have hvisited := removeChildren_visited hk hr
      have htrim := hvisited.trimmed
      have hpath : r.db.HasPath uid uid := by
        refine (hvisited.paths uid).mpr ⟨hself, fun hcycle => ?_⟩
        exact not_transGen_self hnested .refl hcycle.1
      cases hc : Db.commitDelete limits.flushes r.db [uid] with
      | none =>
        obtain ⟨e, heq⟩ := deleteFirmware_of_commit_none hflag hr hc
        rw [heq]
        exact ⟨rfl, hpath⟩
      | some db' =>
        obtain ⟨j, hj, hend, -⟩ :=
          commitDelete_eq_some (htrim.foreignKeys hk) (htrim.noOrphans hno) hc
        exact absurd ⟨hflag, hnested, j, hj, htrim.cascadeEnds.mp hend⟩ h
  · rw [deleteFirmware_of_not_flagged hflag]
    exact ⟨rfl, hself⟩

end Sessions

end FactCore
