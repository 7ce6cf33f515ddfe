import FactCore.Lib.Counting
import FactCore.Storage.Overviews

/-!
# Sizes and numbers of files

The aggregates of `src/src/storage/db_interface_stats.py` over the stored firmware and the
files in it, and the general statistics of `src/src/statistic/update.py`. A filter names
values of columns of the table `firmware`.

An average is what PostgreSQL makes of a sum and a number of rows, as a `float`. How it is
rounded is a parameter.

A file is joined with every firmware that it is in. So it is counted as often, and the
number of unique files is the number of files only if no two firmware have one in common.

Results:
1. `sum_aggregatedRows`: an aggregate is a sum over the matching firmware.
2. `generalStats_exact`: the general statistics after every run.
-/

namespace FactCore

open Relation Finset

/-! ## 1. The queries -/

/-- An entry of `q_filter`: a column of `firmware` with its value. -/
inductive FirmwareCriterion
  | uid (value : Uid)
  | releaseDate (value : Date)
  | version (value : String)
  | vendor (value : String)
  | deviceName (value : String)
  | deviceClass (value : String)
  | devicePart (value : String)
  | firmwareTags (value : List String)
  deriving DecidableEq

/-- The row has the value in the column. -/
def FirmwareCriterion.holds (fw : Uid × FirmwareEntry) : FirmwareCriterion → Bool
  | .uid value => decide (fw.1 = value)
  | .releaseDate value => decide (fw.2.releaseDate = value)
  | .version value => decide (fw.2.version = value)
  | .vendor value => decide (fw.2.vendor = value)
  | .deviceName value => decide (fw.2.deviceName = value)
  | .deviceClass value => decide (fw.2.deviceClass = value)
  | .devicePart value => decide (fw.2.devicePart = value)
  | .firmwareTags value => decide (fw.2.firmwareTags = value)

/-- The argument `q_filter`. No filter is an empty one. -/
abbrev QFilter := List FirmwareCriterion

/-- The condition of `filter_by(**q_filter)`. -/
def filterBy (qFilter : QFilter) (fw : Uid × FirmwareEntry) : Bool :=
  qFilter.all (FirmwareCriterion.holds fw)

/-- The condition on which files are joined with firmware: the root object of the firmware, or all
files that have it as a root. -/
def joinsFirmware (db : Db) (firmware : Bool) (uid fwUid : Uid) : Bool :=
  if firmware then decide (uid = fwUid) else decide (uid ∈ getAllFilesInFw db fwUid)

/-- `_get_aggregate`: the rows of `file_object` that are aggregated. -/
def aggregatedRows (db : Db) (qFilter : QFilter) (firmware : Bool) : List (Uid × FileObjectEntry) :=
  ((Joins.inner (fun file fw => joinsFirmware db firmware file.1 fw.1) db.fileObjects.entries
    db.firmware.entries).filter fun row => filterBy qFilter row.2).map Prod.fst

/-- `get_count`. -/
def getCount (db : Db) (qFilter : QFilter) (firmware : Bool) : ℕ :=
  (aggregatedRows db qFilter firmware).length

/-- `get_sum` of `FileObjectEntry.size`. -/
def getSum (db : Db) (qFilter : QFilter) (firmware : Bool) : ℕ :=
  ((aggregatedRows db qFilter firmware).map fun file => file.2.size).sum

/-- The values of the type `float`, as far as averages need them. -/
structure Averages (φ : Type) where
  /-- The value `0.0`. -/
  zero : φ
  /-- `float(func.avg)` of rows with this sum and this number. -/
  ofSum : ℕ → ℕ → φ

/-- `get_avg` of `FileObjectEntry.size`. There is no average of no rows. -/
def getAvg {φ : Type} (averages : Averages φ) (db : Db) (qFilter : QFilter) (firmware : Bool) : φ :=
  match aggregatedRows db qFilter firmware with
  | [] => averages.zero
  | rows => averages.ofSum (rows.map fun file => file.2.size).sum rows.length

structure GeneralStats (φ : Type) where
  numberOfFirmwares : ℕ
  totalFirmwareSize : ℕ
  averageFirmwareSize : φ
  numberOfUniqueFiles : ℕ
  totalFileSize : ℕ
  averageFileSize : φ

/-- `StatsUpdater.get_general_stats`. -/
def getGeneralStats {φ : Type} (averages : Averages φ) (db : Db) (qFilter : QFilter) :
    GeneralStats φ where
  numberOfFirmwares := getCount db qFilter true
  totalFirmwareSize := getSum db qFilter true
  averageFirmwareSize := getAvg averages db qFilter true
  numberOfUniqueFiles := getCount db qFilter false
  totalFileSize := getSum db qFilter false
  averageFileSize := getAvg averages db qFilter false

/-! ## 2. Firmware and the files below it -/

/-- The firmware that meets a filter. -/
def Db.matching (db : Db) (qFilter : QFilter) : Finset Uid :=
  ((db.firmware.entries.filter (filterBy qFilter)).map Prod.fst).toFinset

open Classical in
/-- The stored files below a file. -/
noncomputable def Db.below (db : Db) (X : Uid) : Finset Uid :=
  db.fileObjects.keys.toFinset.filter fun u => TransGen db.Includes X u

/-- The size of a stored file. -/
def Db.size (db : Db) (uid : Uid) : ℕ := ((db.fileObjects.get? uid).map (·.size)).getD 0

section Aggregates
variable {contents : Contents} {maxDepth : Nat} {db : Db} {qFilter : QFilter} {firmware : Bool}
  {X u : Uid}

theorem mem_matching : X ∈ db.matching qFilter ↔
    ∃ fw, db.firmware.get? X = some fw ∧ filterBy qFilter (X, fw) = true := by
  simp only [Db.matching, List.mem_toFinset, List.mem_map, List.mem_filter, Prod.exists,
    Dict.mem_entries_iff]
  constructor
  · rintro ⟨X, fw, ⟨hrow, hfilter⟩, rfl⟩
    exact ⟨fw, hrow, hfilter⟩
  · rintro ⟨fw, hrow, hfilter⟩
    exact ⟨X, fw, ⟨hrow, hfilter⟩, rfl⟩

theorem mem_firmware_of_matching (h : X ∈ db.matching qFilter) : X ∈ db.firmware := by
  obtain ⟨fw, hrow, -⟩ := mem_matching.mp h
  exact Dict.mem_of_get? hrow

theorem mem_below (hk : db.ForeignKeys) : u ∈ db.below X ↔ TransGen db.Includes X u := by
  classical
  rw [Db.below, mem_filter, List.mem_toFinset]
  refine and_iff_right_of_imp fun h => ?_
  cases h with
  | single hc => exact (hk.included _ _ hc).2
  | tail _ hc => exact (hk.included _ _ hc).2

theorem mem_fileObjects_of_below (h : u ∈ db.below X) : u ∈ db.fileObjects := by
  classical
  exact List.mem_toFinset.mp (mem_filter.mp h).1

/-- The files that are joined with a firmware. -/
noncomputable def Db.joined (db : Db) (firmware : Bool) (X : Uid) : Finset Uid :=
  if firmware then {X} else db.below X

theorem joinsFirmware_iff (h : ContentInv contents maxDepth db) (hX : X ∈ db.firmware) :
    joinsFirmware db firmware u X = true ↔ u ∈ db.joined firmware X := by
  cases firmware with
  | true => simp [joinsFirmware, Db.joined]
  | false =>
    simp only [joinsFirmware, Db.joined, Bool.false_eq_true, if_false, decide_eq_true_eq]
    rw [(h.files.filesExact hX).reachable, mem_below h.files.foreignKeys]

theorem mem_fileObjects_of_joined (h : ContentInv contents maxDepth db) (hX : X ∈ db.firmware)
    (hu : u ∈ db.joined firmware X) : u ∈ db.fileObjects := by
  cases firmware with
  | true =>
    obtain rfl := mem_singleton.mp hu
    exact h.files.foreignKeys.firmware _ hX
  | false => exact mem_fileObjects_of_below hu

/-- They are the partners of its row. -/
theorem toFinset_partners (h : ContentInv contents maxDepth db) (hX : X ∈ db.firmware) :
    ((db.fileObjects.entries.filter fun file => joinsFirmware db firmware file.1 X).map
      Prod.fst).toFinset = db.joined firmware X := by
  ext u
  have hpartner : u ∈ ((db.fileObjects.entries.filter fun file =>
      joinsFirmware db firmware file.1 X).map Prod.fst).toFinset ↔
        u ∈ db.fileObjects ∧ joinsFirmware db firmware u X = true := by
    simp only [List.mem_toFinset, List.mem_map, List.mem_filter, Prod.exists, Dict.mem_entries_iff,
      Dict.mem_iff]
    constructor
    · rintro ⟨u, file, ⟨hrow, hjoin⟩, rfl⟩
      exact ⟨⟨file, hrow⟩, hjoin⟩
    · rintro ⟨⟨file, hrow⟩, hjoin⟩
      exact ⟨u, file, ⟨hrow, hjoin⟩, rfl⟩
  rw [hpartner, joinsFirmware_iff h hX]
  exact and_iff_right_of_imp (mem_fileObjects_of_joined h hX)

/-- An aggregate over the files is a sum over the matching firmware. -/
theorem sum_aggregatedRows (h : ContentInv contents maxDepth db) (qFilter : QFilter)
    (firmware : Bool) {f : Uid × FileObjectEntry → ℕ}
    {g : Uid → ℕ} (hfg : ∀ file ∈ db.fileObjects.entries, f file = g file.1) :
    ((aggregatedRows db qFilter firmware).map f).sum =
      ∑ X ∈ db.matching qFilter, ∑ u ∈ db.joined firmware X, g u := by
  have hnodup : ((db.firmware.entries.filter (filterBy qFilter)).map Prod.fst).Nodup :=
    db.firmware.nodup.sublist (List.filter_sublist.map _)
  rw [aggregatedRows, Joins.filter_inner_right, List.map_map, Db.matching,
    List.sum_toFinset _ hnodup, List.map_map]
  refine (Counting.sum_inner _ _ _ f).trans (congrArg List.sum (List.map_congr_left fun fw hfw => ?_))
  have hrow : fw.1 ∈ db.firmware := List.mem_map_of_mem (List.mem_filter.mp hfw).1
  have hpartners : ((db.fileObjects.entries.filter fun file =>
      joinsFirmware db firmware file.1 fw.1).map Prod.fst).Nodup :=
    db.fileObjects.nodup.sublist (List.filter_sublist.map _)
  rw [Function.comp_apply, ← toFinset_partners h hrow, List.sum_toFinset _ hpartners, List.map_map]
  exact congrArg List.sum (List.map_congr_left fun file hfile => hfg file (List.mem_filter.mp hfile).1)

theorem getCount_eq (h : ContentInv contents maxDepth db) :
    getCount db qFilter firmware = ∑ X ∈ db.matching qFilter, (db.joined firmware X).card := by
  have hone := sum_aggregatedRows h qFilter firmware (f := fun _ => 1) (g := fun _ => 1)
    fun _ _ => rfl
  simpa [getCount] using hone

theorem getSum_eq (h : ContentInv contents maxDepth db) : getSum db qFilter firmware =
    ∑ X ∈ db.matching qFilter, ∑ u ∈ db.joined firmware X, db.size u := by
  refine sum_aggregatedRows h qFilter firmware fun file hfile => ?_
  rw [Db.size, Dict.mem_entries_iff.mp hfile]
  rfl

/-- An average belongs to the total and the number that are shown with it. -/
theorem getAvg_eq {φ : Type} (averages : Averages φ) : getAvg averages db qFilter firmware =
    if getCount db qFilter firmware = 0 then averages.zero
    else averages.ofSum (getSum db qFilter firmware) (getCount db qFilter firmware) := by
  unfold getAvg getCount getSum
  cases aggregatedRows db qFilter firmware with
  | nil => rfl
  | cons file files => exact (if_neg (Nat.succ_ne_zero files.length)).symm

/-- The general statistics of the firmware that meets a filter: a file counts for every firmware that
it is below. -/
structure GeneralStatsExact {φ : Type} (averages : Averages φ) (db : Db) (qFilter : QFilter)
    (stats : GeneralStats φ) : Prop where
  numberOfFirmwares : stats.numberOfFirmwares = (db.matching qFilter).card
  totalFirmwareSize : stats.totalFirmwareSize = ∑ X ∈ db.matching qFilter, db.size X
  averageFirmwareSize : stats.averageFirmwareSize =
    if stats.numberOfFirmwares = 0 then averages.zero
    else averages.ofSum stats.totalFirmwareSize stats.numberOfFirmwares
  numberOfUniqueFiles : stats.numberOfUniqueFiles = ∑ X ∈ db.matching qFilter, (db.below X).card
  totalFileSize :
    stats.totalFileSize = ∑ X ∈ db.matching qFilter, ∑ u ∈ db.below X, db.size u
  averageFileSize : stats.averageFileSize =
    if stats.numberOfUniqueFiles = 0 then averages.zero
    else averages.ofSum stats.totalFileSize stats.numberOfUniqueFiles
  unique_iff : stats.numberOfUniqueFiles = ((db.matching qFilter).biUnion db.below).card ↔
    ∀ X ∈ db.matching qFilter, ∀ Y ∈ db.matching qFilter, X ≠ Y →
      ∀ u, ¬ (TransGen db.Includes X u ∧ TransGen db.Includes Y u)

/-- After every run, the general statistics are exact; the files are counted once each exactly if no
two matching firmware have a file in common. -/
theorem generalStats_exact {φ : Type} (averages : Averages φ) {driver : Driver} {limits : Limits}
    {ops : List ContentOp} (h : ContentRun driver limits contents maxDepth Db.empty ops db)
    (qFilter : QFilter) :
    GeneralStatsExact averages db qFilter (getGeneralStats averages db qFilter) := by
  have hinv := contentInv_of_run h
  refine ⟨?_, ?_, getAvg_eq averages, getCount_eq hinv, getSum_eq hinv, getAvg_eq averages, ?_⟩
  · refine (getCount_eq hinv).trans ?_
    simp [Db.joined]
  · refine (getSum_eq hinv).trans ?_
    simp [Db.joined]
  · have hcount : (getGeneralStats averages db qFilter).numberOfUniqueFiles =
        ∑ X ∈ db.matching qFilter, (db.below X).card := getCount_eq hinv
    rw [hcount, Counting.sum_card_eq_card_biUnion_iff]
    simp only [Set.PairwiseDisjoint, Set.Pairwise, mem_coe, Function.onFun, disjoint_left,
      mem_below hinv.files.foreignKeys, not_and]

end Aggregates

/-- Averages that are rounded down. -/
def wholeAverages : Averages ℕ where
  zero := 0
  ofSum total number := total / number

theorem generalStats_of_image :
    (getGeneralStats wholeAverages typedFilesDb [.vendor "vendor"]).numberOfUniqueFiles = 1 ∧
      GeneralStatsExact wholeAverages typedFilesDb [.vendor "vendor"]
        (getGeneralStats wholeAverages typedFilesDb [.vendor "vendor"]) :=
  ⟨by decide, generalStats_exact wholeAverages typedFilesDb_run [.vendor "vendor"]⟩

end FactCore
