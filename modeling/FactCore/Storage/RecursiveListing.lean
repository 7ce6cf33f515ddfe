import FactCore.Storage.DeleteCascade
import FactCore.Storage.Histories

/-!
# Listing files recursively

`get_all_files_in_fo` of `src/src/storage/db_interface_common.py` collects the files
below a file level by level, and `delete_firmware` walks down the same relation. Both
are recursions that keep no record of what they have visited. Nothing in the schema
rules out files that include each other.

The depth that the recursion may reach is an argument; `none` stands for a recursion
that goes deeper.

Results:
1. `getFilesInFiles_isSome_iff`, `mem_getFilesInFiles`: when the listing ends, and
   with which files.
2. `recursiveListing_iff`: listing and deletion end unless a cycle is reached.
3. `archives_in_each_other`: two archives that contain each other.
-/

open Relation

namespace FactCore

/-- `_get_files_in_files`. -/
def getFilesInFiles (db : Db) : Nat → List Uid → (recursive : Bool) → Option (List Uid)
  | 0, _, _ => none
  | depth + 1, uidSet, recursive =>
    if uidSet = [] then some []
    else
      let fileObjects := db.fileObjects.keys.filter fun uid => decide (uid ∈ uidSet)
      let includedFiles := fileObjects.flatMap db.getIncludedUids
      if recursive ∧ includedFiles ≠ [] then
        (getFilesInFiles db depth includedFiles true).map fun files => includedFiles ∪ files
      else some includedFiles

/-- `get_all_files_in_fo`. -/
def getAllFilesInFo (db : Db) (depth : Nat) (fo : FileObject) : Option (List Uid) :=
  (getFilesInFiles db depth fo.filesIncluded true).map fun files =>
    files ∪ fo.uid :: fo.filesIncluded

/-! ## 1. When the listing ends -/

section Listing
variable {db : Db} {depth : Nat} {uidSet files : List Uid} {fo : FileObject} {u v : Uid}

/-- One level. -/
theorem mem_flatMap_getIncludedUids (hk : db.ForeignKeys) :
    v ∈ (db.fileObjects.keys.filter fun uid => decide (uid ∈ uidSet)).flatMap db.getIncludedUids ↔
      ∃ u ∈ uidSet, db.Includes u v := by
  simp only [List.mem_flatMap, List.mem_filter, decide_eq_true_iff, Db.mem_getIncludedUids]
  constructor
  · rintro ⟨u, ⟨-, hu⟩, huv⟩
    exact ⟨u, hu, huv⟩
  · rintro ⟨u, hu, huv⟩
    exact ⟨u, ⟨(hk.included u v huv).1, hu⟩, huv⟩

/-- The recursion ends if every chain of included files is shorter than the depth it may reach. -/
theorem getFilesInFiles_isSome_iff (hk : db.ForeignKeys) :
    (getFilesInFiles db depth uidSet true).isSome = true ↔
      0 < depth ∧ ∀ u ∈ uidSet, ∀ n v, Steps db.Includes u n v → n < depth := by
  induction depth generalizing uidSet with
  | zero => simp [getFilesInFiles]
  | succ depth ih =>
    rw [getFilesInFiles]
    split
    · next hnil => simp [hnil]
    · dsimp only
      split
      · next hinc =>
        obtain ⟨-, hinc⟩ := hinc
        rw [Option.isSome_map, ih]
        constructor
        · rintro ⟨-, hbound⟩
          refine ⟨Nat.succ_pos depth, fun u hu n v h => ?_⟩
          cases n with
          | zero => exact Nat.succ_pos depth
          | succ n =>
            obtain ⟨w, huw, hw⟩ := steps_succ_iff.mp h
            have hmem := (mem_flatMap_getIncludedUids hk).mpr ⟨u, hu, huw⟩
            exact Nat.succ_lt_succ (hbound w hmem n v hw)
        · rintro ⟨-, hbound⟩
          obtain ⟨w, hw⟩ := List.exists_mem_of_ne_nil _ hinc
          obtain ⟨u, hu, huw⟩ := (mem_flatMap_getIncludedUids hk).mp hw
          refine ⟨Nat.lt_of_succ_lt_succ (hbound u hu 1 w (.head huw .refl)), ?_⟩
          intro c hc n v h
          obtain ⟨u, hu, huc⟩ := (mem_flatMap_getIncludedUids hk).mp hc
          exact Nat.lt_of_succ_lt_succ (hbound u hu (n + 1) v (.head huc h))
      · next hinc =>
        -- no file of this level includes another one
        refine iff_of_true rfl ⟨Nat.succ_pos depth, fun u hu n v h => ?_⟩
        cases n with
        | zero => exact Nat.succ_pos depth
        | succ n =>
          obtain ⟨w, huw, -⟩ := steps_succ_iff.mp h
          have hmem := (mem_flatMap_getIncludedUids hk).mpr ⟨u, hu, huw⟩
          exact absurd ⟨rfl, List.ne_nil_of_mem hmem⟩ hinc

theorem mem_getFilesInFiles (hk : db.ForeignKeys)
    (h : getFilesInFiles db depth uidSet true = some files) :
    v ∈ files ↔ ∃ u ∈ uidSet, TransGen db.Includes u v := by
  induction depth generalizing uidSet files with
  | zero => cases h
  | succ depth ih =>
    rw [getFilesInFiles] at h
    split at h
    · next hnil =>
      obtain rfl := Option.some.inj h
      simp [hnil]
    · dsimp only at h
      split at h
      · obtain ⟨below, hbelow, rfl⟩ := Option.map_eq_some_iff.mp h
        rw [List.mem_union_iff, mem_flatMap_getIncludedUids hk, ih hbelow]
        constructor
        · rintro (⟨u, hu, huv⟩ | ⟨w, hw, hwv⟩)
          · exact ⟨u, hu, .single huv⟩
          · obtain ⟨u, hu, huw⟩ := (mem_flatMap_getIncludedUids hk).mp hw
            exact ⟨u, hu, .head huw hwv⟩
        · rintro ⟨u, hu, huv⟩
          obtain ⟨w, huw, hwv⟩ := TransGen.head'_iff.mp huv
          rcases reflTransGen_iff_eq_or_transGen.mp hwv with rfl | hwv
          · exact .inl ⟨u, hu, huw⟩
          · exact .inr ⟨w, (mem_flatMap_getIncludedUids hk).mpr ⟨u, hu, huw⟩, hwv⟩
      · next hinc =>
        obtain rfl := Option.some.inj h
        rw [mem_flatMap_getIncludedUids hk]
        refine ⟨fun ⟨u, hu, huv⟩ => ⟨u, hu, .single huv⟩, ?_⟩
        rintro ⟨u, hu, huv⟩
        obtain ⟨w, huw, -⟩ := TransGen.head'_iff.mp huv
        have hmem := (mem_flatMap_getIncludedUids hk).mpr ⟨u, hu, huw⟩
        exact absurd ⟨rfl, List.ne_nil_of_mem hmem⟩ hinc

/-- The object carries the files that are stored as included in it. -/
def Listed (db : Db) (fo : FileObject) : Prop :=
  ∀ c, c ∈ fo.filesIncluded ↔ db.Includes fo.uid c

theorem getAllFilesInFo_isSome_iff (hk : db.ForeignKeys) (hfo : Listed db fo) :
    (getAllFilesInFo db depth fo).isSome = true ↔
      0 < depth ∧ ∀ n v, Steps db.Includes fo.uid n v → n ≤ depth := by
  rw [getAllFilesInFo, Option.isSome_map, getFilesInFiles_isSome_iff hk]
  refine and_congr_right fun _ => ?_
  constructor
  · intro hbound n v h
    cases n with
    | zero => exact Nat.zero_le depth
    | succ n =>
      obtain ⟨c, hc, hv⟩ := steps_succ_iff.mp h
      exact hbound c ((hfo c).mpr hc) n v hv
  · intro hbound c hc n v h
    exact hbound (n + 1) v (.head ((hfo c).mp hc) h)

theorem mem_getAllFilesInFo (hk : db.ForeignKeys) (hfo : Listed db fo)
    (h : getAllFilesInFo db depth fo = some files) :
    u ∈ files ↔ u = fo.uid ∨ TransGen db.Includes fo.uid u := by
  obtain ⟨below, hbelow, rfl⟩ := Option.map_eq_some_iff.mp h
  rw [List.mem_union_iff, mem_getFilesInFiles hk hbelow, List.mem_cons, hfo]
  constructor
  · rintro (⟨c, hc, hcu⟩ | rfl | hu)
    · exact .inr (.head ((hfo c).mp hc) hcu)
    · exact .inl rfl
    · exact .inr (.single hu)
  · rintro (rfl | hu)
    · exact .inr (.inl rfl)
    · obtain ⟨c, hc, hcu⟩ := TransGen.head'_iff.mp hu
      rcases reflTransGen_iff_eq_or_transGen.mp hcu with rfl | hcu
      · exact .inr (.inr hc)
      · exact .inl ⟨c, (hfo c).mpr hc, hcu⟩

/-! ## 2. Cycles -/

/-- From the file no file is reached that is below itself. -/
def NoCycleBelow (db : Db) (uid : Uid) : Prop :=
  ∀ v, ReflTransGen db.Includes uid v → ¬ TransGen db.Includes v v

/-- The listing ends, with enough depth, and gives the file and everything below it. -/
def ListsAll (db : Db) (fo : FileObject) : Prop :=
  ∃ bound, ∀ depth ≥ bound, ∃ files, getAllFilesInFo db depth fo = some files ∧
    ∀ u, u ∈ files ↔ u = fo.uid ∨ TransGen db.Includes fo.uid u

/-- The recursion of `delete_firmware` ends, with enough depth. -/
def WalkEnds (db : Db) (flushes : Nat) (uid : Uid) : Prop :=
  ∃ bound, ∀ recursion ≥ bound, (removeChildren ⟨recursion, flushes⟩ db uid).isSome = true

theorem noCycleBelow_iff : NoCycleBelow db u ↔ ∃ k, ∀ n v, Steps db.Includes u n v → n ≤ k := by
  refine (exists_steps_le_iff (db.includedFiles.map Prod.snd) fun v w hvw => ?_).symm
  exact List.mem_map_of_mem hvw

theorem listsAll_iff (hk : db.ForeignKeys) (hfo : Listed db fo) :
    ListsAll db fo ↔ NoCycleBelow db fo.uid := by
  rw [noCycleBelow_iff]
  constructor
  · rintro ⟨bound, h⟩
    obtain ⟨files, hfiles, -⟩ := h bound (Nat.le_refl bound)
    exact ⟨bound, ((getAllFilesInFo_isSome_iff hk hfo).mp (by rw [hfiles]; rfl)).2⟩
  · rintro ⟨k, hbound⟩
    refine ⟨k + 1, fun depth hdepth => ?_⟩
    have hsome : (getAllFilesInFo db depth fo).isSome = true :=
      (getAllFilesInFo_isSome_iff hk hfo).mpr
        ⟨by omega, fun n v h => Nat.le_trans (hbound n v h) (by omega)⟩
    obtain ⟨files, hfiles⟩ := Option.isSome_iff_exists.mp hsome
    exact ⟨files, hfiles, fun u => mem_getAllFilesInFo hk hfo hfiles⟩

theorem walkEnds_iff {flushes : Nat} (hk : db.ForeignKeys) :
    WalkEnds db flushes u ↔ NoCycleBelow db u := by
  rw [noCycleBelow_iff]
  constructor
  · rintro ⟨bound, h⟩
    exact ⟨bound, (removeChildren_isSome_iff hk).mp (h bound (Nat.le_refl bound))⟩
  · rintro ⟨k, hbound⟩
    refine ⟨k, fun recursion hle => (removeChildren_isSome_iff hk).mpr fun n v h => ?_⟩
    exact Nat.le_trans (hbound n v h) hle

/-- For files that are stored with their foreign keys: the listing of a file ends, with the file and
the closure of what it includes, if and only if no cycle is reached from the file; and so does the
recursion of the deletion of an image. -/
theorem recursiveListing_iff (hk : db.ForeignKeys) :
    (∀ fo, Listed db fo → (ListsAll db fo ↔ NoCycleBelow db fo.uid)) ∧
      ∀ flushes uid, WalkEnds db flushes uid ↔ NoCycleBelow db uid :=
  ⟨fun _ hfo => listsAll_iff hk hfo, fun _ _ => walkEnds_iff hk⟩

end Listing

/-! ## 3. Archives in archives -/

/-- The image holds an archive with another archive in it. -/
def archiveInArchive : List StorageOp :=
  [.addObject outerImage, .addObject { innerFile with uid := "left" },
    .addObject { innerFile with uid := "right", parents := ["left"] }]

abbrev archivesDb : Db := databaseAfter acceptAll pythonLimits archiveInArchive

theorem archivesDb_foreignKeys : archivesDb.ForeignKeys :=
  Reachable.foreignKeys ⟨archiveInArchive, Run.det_iff.mpr rfl⟩

/-- How far below the image a file is. -/
def archiveDepth (uid : Uid) : Nat := if uid = "outer" then 0 else if uid = "left" then 1 else 2

theorem noCycleBelow_archivesDb (uid : Uid) : NoCycleBelow archivesDb uid := by
  have hdepth : ∀ e ∈ archivesDb.includedFiles, archiveDepth e.1 < archiveDepth e.2 := by decide
  intro u _ hcycle
  have hlt : TransGen (· < ·) (archiveDepth u) (archiveDepth u) :=
    hcycle.lift archiveDepth fun p c h => hdepth (p, c) h
  rw [transGen_eq_self] at hlt
  exact lt_irrefl _ hlt

/-- The image is listed with both archives, and its deletion ends. -/
theorem archives_listed :
    Listed archivesDb { outerImage with filesIncluded := ["left"] } ∧
      ListsAll archivesDb { outerImage with filesIncluded := ["left"] } ∧
      WalkEnds archivesDb 100 "outer" := by
  have hiff := recursiveListing_iff archivesDb_foreignKeys
  have hlisted : Listed archivesDb { outerImage with filesIncluded := ["left"] } := by
    intro c
    rw [← Db.mem_getIncludedUids]
    exact iff_of_eq (congrArg (c ∈ ·) (by decide : ["left"] = archivesDb.getIncludedUids "outer"))
  exact ⟨hlisted, (hiff.1 _ hlisted).mpr (noCycleBelow_archivesDb _),
    (hiff.2 100 "outer").mpr (noCycleBelow_archivesDb _)⟩

/-- The image holds an archive with another archive in it, which holds the first one again. -/
def nestedArchives : List StorageOp :=
  [.addObject outerImage, .addObject { innerFile with uid := "left" },
    .addObject { innerFile with uid := "right", parents := ["left"] },
    .addObject { innerFile with uid := "left", parents := ["right"] }]

abbrev nestedDb : Db := databaseAfter acceptAll pythonLimits nestedArchives

theorem nestedDb_foreignKeys : nestedDb.ForeignKeys :=
  Reachable.foreignKeys ⟨nestedArchives, Run.det_iff.mpr rfl⟩

theorem nestedDb_cycle : ¬ NoCycleBelow nestedDb "outer" := by
  have hincludes : ∀ p c, c ∈ nestedDb.getIncludedUids p → nestedDb.Includes p c :=
    fun _ _ => Db.mem_getIncludedUids.mp
  have hleft : nestedDb.Includes "outer" "left" := hincludes _ _ (by decide)
  have hdown : nestedDb.Includes "left" "right" := hincludes _ _ (by decide)
  have hup : nestedDb.Includes "right" "left" := hincludes _ _ (by decide)
  exact fun h => h "left" (.single hleft) (.tail (.single hdown) hup)

/-- Neither the listing of the image nor its deletion ends. -/
theorem archives_in_each_other :
    (¬ ∀ db : Db, db.ForeignKeys → ∀ fo, Listed db fo → ListsAll db fo) ∧
      ¬ ∀ db : Db, db.ForeignKeys → ∀ flushes uid, WalkEnds db flushes uid := by
  constructor
  · intro h
    have hlisted : Listed nestedDb { outerImage with filesIncluded := ["left"] } := by
      intro c
      rw [← Db.mem_getIncludedUids]
      exact iff_of_eq (congrArg (c ∈ ·) (by decide : ["left"] = nestedDb.getIncludedUids "outer"))
    exact nestedDb_cycle
      ((listsAll_iff nestedDb_foreignKeys hlisted).mp (h nestedDb nestedDb_foreignKeys _ hlisted))
  · intro h
    exact nestedDb_cycle
      ((walkEnds_iff nestedDb_foreignKeys).mp (h nestedDb nestedDb_foreignKeys 100 "outer"))

end FactCore
