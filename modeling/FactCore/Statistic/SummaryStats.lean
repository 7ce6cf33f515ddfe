import FactCore.Lib.MapM
import FactCore.Lib.Separator
import FactCore.Statistic.GeneralStats
import Mathlib.Data.String.Basic

/-!
# Statistics of reported texts

`count_values_in_summary` and `get_arch_stats` of `src/src/storage/db_interface_stats.py`
unnest the column `summary` of the results of a plugin and join each text with the firmware
that its file is in. The statistic of `src/src/statistic/update.py` about architectures takes
for each firmware the architecture that is reported most often for the files in it, and counts
the firmware.

Results:
1. `countP_joinFwOrFo`: the rows of the join, firmware by firmware.
2. `countValuesInSummary_exact`: the statistic of the texts of a plugin, after every run.
3. `getArchitectureStats_exact`: every firmware is counted once, under an architecture that
   is reported most often for it; the order of the rows does not matter for that.
-/

namespace FactCore

open Finset

/-! ## 1. The join with firmware -/

/-- The texts that a plugin reports, with the files it reports them for: the column `summary`,
unnested. -/
def unnestedSummaries (db : Db) (plugin : String) : List (String × Uid) :=
  (db.analyses.entries.filter fun row => decide (row.1.2 = plugin)).flatMap fun row =>
    (summaryTexts row.2.summary).map fun item => (item, row.1.1)

/-- `_join_fw_or_fo`, and the filter: the root objects are joined directly, the files of a firmware by
their row of `file_object`. -/
def joinFwOrFo (db : Db) (qFilter : QFilter) (firmware : Bool) (rows : List (String × Uid)) :
    List ((String × Uid) × (Uid × FirmwareEntry)) :=
  (if firmware then
      Joins.inner (fun row fw => joinsFirmware db true row.2 fw.1) rows db.firmware.entries
    else
      (Joins.inner (fun row fw => joinsFirmware db false row.2.1 fw.1)
        (Joins.inner (fun row file => decide (file.1 = row.2)) rows db.fileObjects.entries)
        db.firmware.entries).map fun row => (row.1.1, row.2)).filter
    fun row => filterBy qFilter row.2

/-- `count_occurrences`. -/
def countOccurrences (resultList : List String) : List (String × ℕ) := Counting.tally resultList

/-- `count_values_in_summary`. -/
def countValuesInSummary (db : Db) (plugin : String) (qFilter : QFilter) (firmware : Bool) :
    List (String × ℕ) :=
  countOccurrences ((joinFwOrFo db qFilter firmware (unnestedSummaries db plugin)).map fun row => row.1.1)

/-- The texts that the plugin reports for a file. -/
def Db.texts (db : Db) (plugin : String) (uid : Uid) : List String :=
  ((db.analyses.get? (uid, plugin)).map fun row => summaryTexts row.summary).getD []

section Join
variable {contents : Contents} {maxDepth : Nat} {db : Db} {qFilter : QFilter} {firmware : Bool}
  {plugin : String} {rows : List (String × Uid)} {X : Uid}

/-- The rows are joined with the firmware that matches, whether over `file_object` or not. -/
theorem joinFwOrFo_eq (hrows : ∀ row ∈ rows, row.2 ∈ db.fileObjects) :
    joinFwOrFo db qFilter firmware rows =
      Joins.inner (fun row fw => joinsFirmware db firmware row.2 fw.1) rows
        (db.firmware.entries.filter (filterBy qFilter)) := by
  rw [← Joins.filter_inner_right, joinFwOrFo]
  cases firmware with
  | true => rfl
  | false =>
    refine congrArg _ ?_
    rw [if_neg Bool.false_ne_true]
    -- the row of `file_object` only passes on the uid
    have hfile : ∀ row ∈ Joins.inner (fun row file => decide (file.1 = row.2)) rows
        db.fileObjects.entries, ∀ fw : Uid × FirmwareEntry,
          joinsFirmware db false row.2.1 fw.1 = joinsFirmware db false row.1.2 fw.1 := by
      intro row hrow fw
      rw [of_decide_eq_true (Joins.mem_inner.mp hrow).2.2]
    have hleft := Joins.inner_map_left
      (fun (row : String × Uid) (fw : Uid × FirmwareEntry) => joinsFirmware db false row.2 fw.1)
      Prod.fst (Joins.inner (fun row file => decide (file.1 = row.2)) rows db.fileObjects.entries)
      db.firmware.entries
    rw [Joins.inner_congr _ hfile, ← hleft, Joins.map_fst_inner_key hrows]

/-- The number of rows with a property, firmware by firmware. -/
theorem countP_joinFwOrFo (qFilter : QFilter) (firmware : Bool)
    (hrows : ∀ row ∈ rows, row.2 ∈ db.fileObjects) (p : String × Uid → Uid → Bool) :
    (joinFwOrFo db qFilter firmware rows).countP (fun row => p row.1 row.2.1) =
      ∑ X ∈ db.matching qFilter,
        rows.countP fun row => p row X && joinsFirmware db firmware row.2 X := by
  have hnodup : ((db.firmware.entries.filter (filterBy qFilter)).map Prod.fst).Nodup :=
    db.firmware.nodup.sublist (List.filter_sublist.map _)
  rw [joinFwOrFo_eq hrows, Db.matching, List.sum_toFinset _ hnodup, List.map_map]
  exact Counting.countP_inner _ _ _ fun row (fw : Uid × FirmwareEntry) => p row fw.1

theorem unnestedSummaries_stored (hk : db.ForeignKeys) (plugin : String) :
    ∀ row ∈ unnestedSummaries db plugin, row.2 ∈ db.fileObjects := by
  intro row hrow
  obtain ⟨entry, hentry, hrow⟩ := List.mem_flatMap.mp hrow
  obtain ⟨item, -, rfl⟩ := List.mem_map.mp hrow
  have hmem : entry.1 ∈ db.analyses := List.mem_map_of_mem (List.mem_filter.mp hentry).1
  exact hk.analyses _ _ hmem

/-- The texts that are reported for the files of a firmware. -/
theorem countP_unnestedSummaries (h : ContentInv contents maxDepth db) (hX : X ∈ db.firmware)
    (plugin : String) (firmware : Bool) (q : String → Bool) :
    (unnestedSummaries db plugin).countP (fun row => q row.1 && joinsFirmware db firmware row.2 X) =
      ∑ u ∈ db.joined firmware X, (db.texts plugin u).countP q := by
  let entries := db.analyses.entries.filter fun row => decide (row.1.2 = plugin)
  have hplugin : ∀ row ∈ entries, row.1.2 = plugin := fun row hrow =>
    of_decide_eq_true (List.mem_filter.mp hrow).2
  have htexts : ∀ row ∈ entries, db.texts plugin row.1.1 = summaryTexts row.2.summary := by
    intro row hrow
    have hget : db.analyses.get? (row.1.1, plugin) = some row.2 := by
      rw [← hplugin row hrow]
      exact Dict.mem_entries_iff.mp (List.mem_filter.mp hrow).1
    rw [Db.texts, hget]
    rfl
  have hnodup : (entries.map fun row => row.1.1).Nodup := by
    have hkeys : (entries.map Prod.fst).Nodup :=
      db.analyses.nodup.sublist (List.filter_sublist.map _)
    rw [← Function.comp_def, ← List.map_map]
    refine hkeys.map_on fun k hk k' hk' heq => Prod.ext heq ?_
    obtain ⟨row, hrow, rfl⟩ := List.mem_map.mp hk
    obtain ⟨row', hrow', rfl⟩ := List.mem_map.mp hk'
    exact (hplugin row hrow).trans (hplugin row' hrow').symm
  have hrows : (unnestedSummaries db plugin).countP
        (fun row => q row.1 && joinsFirmware db firmware row.2 X) =
      ∑ u ∈ (entries.map fun row => row.1.1).toFinset,
        if joinsFirmware db firmware u X then (db.texts plugin u).countP q else 0 := by
    rw [List.sum_toFinset _ hnodup, unnestedSummaries, List.countP_flatMap, List.map_map]
    refine congrArg List.sum (List.map_congr_left fun row hrow => ?_)
    simp only [Function.comp_apply, List.countP_map, htexts row hrow]
    split
    · next hjoin => simp [Function.comp_def, hjoin]
    · next hjoin => simp [Function.comp_def, hjoin]
  rw [hrows, ← sum_filter]
  refine sum_subset (fun u hu => (joinsFirmware_iff h hX).mp (mem_filter.mp hu).2) fun u hu hno => ?_
  -- a file that is left out has no result of the plugin
  have hnone : db.analyses.get? (u, plugin) = none := by
    refine Dict.get?_eq_none_iff.mpr fun hmem => hno ?_
    obtain ⟨row, hrow⟩ := Dict.mem_iff.mp hmem
    refine mem_filter.mpr ⟨List.mem_toFinset.mpr (List.mem_map.mpr ⟨((u, plugin), row), ?_, rfl⟩),
      (joinsFirmware_iff h hX).mpr hu⟩
    exact List.mem_filter.mpr ⟨Dict.mem_entries_iff.mpr hrow, decide_eq_true rfl⟩
  rw [Db.texts, hnone]
  rfl

/-! ## 2. The texts of a plugin -/

theorem countValuesInSummary_of_inv (h : ContentInv contents maxDepth db) (plugin : String)
    (qFilter : QFilter) (firmware : Bool) :
    Counting.IsTally
      (fun item => ∑ X ∈ db.matching qFilter, ∑ u ∈ db.joined firmware X, (db.texts plugin u).count item)
      (∑ X ∈ db.matching qFilter, ∑ u ∈ db.joined firmware X, (db.texts plugin u).length)
      (countValuesInSummary db plugin qFilter firmware) := by
  have hstored := unnestedSummaries_stored h.files.foreignKeys plugin
  have hcount : ∀ q : String → Bool,
      ((joinFwOrFo db qFilter firmware (unnestedSummaries db plugin)).map fun row => row.1.1).countP q =
        ∑ X ∈ db.matching qFilter, ∑ u ∈ db.joined firmware X, (db.texts plugin u).countP q := by
    intro q
    rw [List.countP_map]
    refine (countP_joinFwOrFo qFilter firmware hstored fun row _ => q row.1).trans
      (sum_congr rfl fun X hX => ?_)
    exact countP_unnestedSummaries h (mem_firmware_of_matching hX) plugin firmware q
  refine (Counting.isTally_tally _).congr (fun item => hcount fun x => x == item) ?_
  have hlength := hcount fun _ => true
  rw [List.countP_true] at hlength
  exact hlength

/-- After every run, a text counts for each firmware and each file of it that it is reported for. -/
theorem countValuesInSummary_exact {driver : Driver} {limits : Limits} {ops : List ContentOp}
    (h : ContentRun driver limits contents maxDepth Db.empty ops db) (plugin : String)
    (qFilter : QFilter) (firmware : Bool) :
    Counting.IsTally
      (fun item => ∑ X ∈ db.matching qFilter, ∑ u ∈ db.joined firmware X, (db.texts plugin u).count item)
      (∑ X ∈ db.matching qFilter, ∑ u ∈ db.joined firmware X, (db.texts plugin u).length)
      (countValuesInSummary db plugin qFilter firmware) :=
  countValuesInSummary_of_inv (contentInv_of_run h) plugin qFilter firmware

end Join

theorem countValuesInSummary_of_image :
    countValuesInSummary typedFilesDb "file_type" [] false = [("text/plain", 1)] ∧
      Counting.IsTally
        (fun item => ∑ X ∈ typedFilesDb.matching [], ∑ u ∈ typedFilesDb.joined false X,
          (typedFilesDb.texts "file_type" u).count item)
        (∑ X ∈ typedFilesDb.matching [], ∑ u ∈ typedFilesDb.joined false X,
          (typedFilesDb.texts "file_type" u).length)
        (countValuesInSummary typedFilesDb "file_type" [] false) :=
  ⟨by decide, countValuesInSummary_exact typedFilesDb_run "file_type" [] false⟩

/-! ## 3. Architectures -/

/-- `get_arch_stats`: an architecture, the number of its rows, and the firmware they are of. -/
def getArchStats (db : Db) (qFilter : QFilter) : List (String × ℕ × Uid) :=
  (Counting.counter ((joinFwOrFo db qFilter false (unnestedSummaries db "cpu_architecture")).map
    fun row => (row.1.1, row.2.1))).entries.map fun e => (e.1.1, e.2, e.1.2)

/-- `_find_most_frequent_architecture`. Sorting in reverse keeps the order of equal numbers. There
is an `IndexError` without any architecture. -/
def findMostFrequentArchitecture (archStats : List (String × ℕ)) : Option String :=
  (sortByKey (fun e => OrderDual.toDual e.2) archStats).head?.map Prod.fst

/-- `_shorten_architecture_string`. -/
def shortenArchitectureString (archString : String) : String :=
  let stringParts := (splitAtChar ',' archString).take 2
  if 1 < stringParts.length then ",".intercalate stringParts
  else String.ofList (archString.toList.take (archString.length - 4))

/-- `get_architecture_stats`, with the rows of `get_arch_stats`. -/
def getArchitectureStats (archStats : List (String × ℕ × Uid)) : Option (List (String × ℕ)) :=
  let archStatsByFw := Joins.arrayAgg (fun row => row.2.2) (fun row => (row.1, row.2.1)) archStats
  (archStatsByFw.values.mapM fun archCountList =>
    (findMostFrequentArchitecture archCountList).map shortenArchitectureString).map countOccurrences

/-- How often an architecture is reported for the files below a firmware. -/
noncomputable def Db.archCount (db : Db) (X : Uid) (arch : String) : ℕ :=
  ∑ u ∈ db.below X, (db.texts "cpu_architecture" u).count arch

/-- The architecture is reported for the firmware, and no other one more often. -/
structure MostFrequent (db : Db) (X : Uid) (arch : String) : Prop where
  reported : 0 < db.archCount X arch
  most : ∀ other, db.archCount X other ≤ db.archCount X arch

open Classical in
/-- The matching firmware that an architecture is reported for. -/
noncomputable def Db.withArchitecture (db : Db) (qFilter : QFilter) : Finset Uid :=
  (db.matching qFilter).filter fun X => ∃ arch, 0 < db.archCount X arch

section Architectures
variable {contents : Contents} {maxDepth : Nat} {db : Db} {qFilter : QFilter}
  {rows : List (String × ℕ × Uid)} {archStats : List (String × ℕ)} {arch : String} {n : ℕ} {X : Uid}

theorem findMostFrequentArchitecture_spec (h : archStats ≠ []) :
    ∃ e ∈ archStats, findMostFrequentArchitecture archStats = some e.1 ∧
      ∀ other ∈ archStats, other.2 ≤ e.2 := by
  have hsorted := pairwise_sortByKey (fun e : String × ℕ => OrderDual.toDual e.2) archStats
  have hmem := fun e => mem_sortByKey (a := e) (l := archStats)
    fun e : String × ℕ => OrderDual.toDual e.2
  unfold findMostFrequentArchitecture
  cases hcase : sortByKey (fun e : String × ℕ => OrderDual.toDual e.2) archStats with
  | nil =>
    obtain ⟨e, he⟩ := List.exists_mem_of_ne_nil _ h
    have hnil := (hmem e).mpr he
    rw [hcase] at hnil
    cases hnil
  | cons first rest =>
    rw [hcase] at hsorted hmem
    refine ⟨first, (hmem first).mp List.mem_cons_self, rfl, fun other hother => ?_⟩
    rcases List.mem_cons.mp ((hmem other).mpr hother) with rfl | hrest
    · exact Nat.le_refl _
    · exact (List.pairwise_cons.mp hsorted).1 other hrest

/-- A row of the query: the firmware matches, and the number is how often the architecture is
reported for it. -/
theorem mem_getArchStats (h : ContentInv contents maxDepth db) :
    (arch, n, X) ∈ getArchStats db qFilter ↔
      X ∈ db.matching qFilter ∧ n = db.archCount X arch ∧ 0 < n := by
  let joined := (joinFwOrFo db qFilter false (unnestedSummaries db "cpu_architecture")).map
    fun row => (row.1.1, row.2.1)
  have hjoin := countP_joinFwOrFo qFilter false
    (unnestedSummaries_stored h.files.foreignKeys "cpu_architecture")
    fun row Y => decide (row.1 = arch) && decide (Y = X)
  have hfirmware : ∀ Y ∈ db.matching qFilter,
      (unnestedSummaries db "cpu_architecture").countP (fun row =>
        (decide (row.1 = arch) && decide (Y = X)) && joinsFirmware db false row.2 Y) =
      if Y = X then db.archCount Y arch else 0 := by
    intro Y hY
    split
    · next heq =>
      have hfiles := countP_unnestedSummaries h (mem_firmware_of_matching hY) "cpu_architecture" false
        fun item => item == arch
      refine Eq.trans (List.countP_congr fun row _ => ?_) hfiles
      simp [heq]
    · next hne => simp [hne]
  have hcount : (Counting.counter joined).getD (arch, X) 0 =
      if X ∈ db.matching qFilter then db.archCount X arch else 0 := by
    rw [Counting.getD_counter_map]
    refine (List.countP_congr fun row _ => ?_).trans (hjoin.trans ?_)
    · simp [Prod.ext_iff]
    · rw [sum_congr rfl hfirmware, sum_ite_eq']
  have hrow : (arch, n, X) ∈ getArchStats db qFilter ↔
      ((arch, X), n) ∈ (Counting.counter joined).entries := by
    simp only [getArchStats, List.mem_map, Prod.mk.injEq, joined]
    constructor
    · rintro ⟨⟨⟨arch, X⟩, n⟩, he, rfl, rfl, rfl⟩
      exact he
    · intro he
      exact ⟨_, he, rfl, rfl, rfl⟩
  rw [hrow, Counting.mem_entries_counter_iff, hcount]
  split
  · next hX => exact (and_iff_right hX).symm
  · next hX =>
    constructor
    · rintro ⟨rfl, hpos⟩
      exact absurd hpos (lt_irrefl 0)
    · exact fun hmem => absurd hmem.1 hX

/-- What is chosen for a firmware is reported most often for it. -/
theorem mostFrequent_of_rows (h : ContentInv contents maxDepth db)
    (hrows : rows.Perm (getArchStats db qFilter))
    (hget : (Joins.arrayAgg (fun row => row.2.2) (fun row => (row.1, row.2.1)) rows).get? X =
      some archStats) :
    X ∈ db.withArchitecture qFilter ∧
      ∃ arch, findMostFrequentArchitecture archStats = some arch ∧ MostFrequent db X arch := by
  classical
  have hmem : ∀ arch n, (arch, n) ∈ archStats ↔
      X ∈ db.matching qFilter ∧ n = db.archCount X arch ∧ 0 < n := by
    intro arch n
    rw [Joins.mem_arrayAgg hget, ← mem_getArchStats h, ← hrows.mem_iff]
    constructor
    · rintro ⟨⟨arch, n, X⟩, hrow, rfl, heq⟩
      cases heq
      exact hrow
    · exact fun hrow => ⟨_, hrow, rfl, rfl⟩
  obtain ⟨⟨row, hrow, rfl⟩, heq⟩ := Joins.get?_arrayAgg_eq_some.mp hget
  have hne : archStats ≠ [] := List.ne_nil_of_mem ((Joins.mem_arrayAgg hget).mpr ⟨row, hrow, rfl, rfl⟩)
  obtain ⟨⟨arch, n⟩, he, hfind, hmost⟩ := findMostFrequentArchitecture_spec hne
  obtain ⟨hX, rfl, hpos⟩ := (hmem arch n).mp he
  refine ⟨mem_filter.mpr ⟨hX, arch, hpos⟩, arch, hfind, hpos, fun other => ?_⟩
  rcases Nat.eq_zero_or_pos (db.archCount row.2.2 other) with hzero | hother
  · rw [hzero]
    exact Nat.zero_le _
  · exact hmost (other, db.archCount row.2.2 other) ((hmem other _).mpr ⟨hX, rfl, hother⟩)

theorem mem_archStatsByFw (h : ContentInv contents maxDepth db)
    (hrows : rows.Perm (getArchStats db qFilter)) (hX : X ∈ db.withArchitecture qFilter) :
    X ∈ Joins.arrayAgg (fun row => row.2.2) (fun row => (row.1, row.2.1)) rows := by
  classical
  obtain ⟨hX, arch, hpos⟩ := mem_filter.mp hX
  have hrow := hrows.mem_iff.mpr ((mem_getArchStats h).mpr ⟨hX, rfl, hpos⟩)
  exact Dict.mem_iff.mpr ⟨_, Joins.get?_arrayAgg_eq_some.mpr ⟨⟨_, hrow, rfl⟩, rfl⟩⟩

theorem getArchitectureStats_of_inv (h : ContentInv contents maxDepth db)
    (hrows : rows.Perm (getArchStats db qFilter)) :
    ∃ stats, ∃ chosen : Uid → String, getArchitectureStats rows = some stats ∧
      (∀ X ∈ db.withArchitecture qFilter, MostFrequent db X (chosen X)) ∧
      Counting.IsTally
        (fun label => ((db.withArchitecture qFilter).filter fun X =>
          shortenArchitectureString (chosen X) = label).card)
        (db.withArchitecture qFilter).card stats := by
  classical
  let archStatsByFw := Joins.arrayAgg (fun row : String × ℕ × Uid => row.2.2)
    (fun row => (row.1, row.2.1)) rows
  let chosen : Uid → String := fun X =>
    ((archStatsByFw.get? X).bind findMostFrequentArchitecture).getD ""
  have hchosen : ∀ e ∈ archStatsByFw.entries, findMostFrequentArchitecture e.2 = some (chosen e.1) ∧
      e.1 ∈ db.withArchitecture qFilter ∧ MostFrequent db e.1 (chosen e.1) := by
    rintro ⟨X, archStats⟩ he
    have hget := Dict.mem_entries_iff.mp he
    obtain ⟨hX, arch, hfind, hmost⟩ := mostFrequent_of_rows h hrows hget
    have harch : chosen X = arch := by
      simp only [chosen]
      rw [hget, Option.bind_some, hfind]
      rfl
    rw [harch]
    exact ⟨hfind, hX, hmost⟩
  have hkeys : archStatsByFw.keys.toFinset = db.withArchitecture qFilter := by
    ext X
    rw [List.mem_toFinset]
    constructor
    · intro hX
      obtain ⟨e, he, rfl⟩ := List.mem_map.mp hX
      exact (hchosen e he).2.1
    · exact mem_archStatsByFw h hrows
  refine ⟨countOccurrences (archStatsByFw.keys.map fun X => shortenArchitectureString (chosen X)), chosen,
    ?_, fun X hX => ?_, (Counting.isTally_tally _).congr (fun label => ?_) ?_⟩
  · have hmap : (archStatsByFw.values.mapM fun archCountList =>
          (findMostFrequentArchitecture archCountList).map shortenArchitectureString) =
        some (archStatsByFw.keys.map fun X => shortenArchitectureString (chosen X)) := by
      rw [Dict.values, Dict.keys, List.mapM_map, List.map_map]
      refine option_mapM_eq_map fun e he => ?_
      rw [Function.comp_apply, (hchosen e he).1]
      rfl
    exact congrArg (Option.map countOccurrences) hmap
  · obtain ⟨e, he, rfl⟩ := List.mem_map.mp (mem_archStatsByFw h hrows hX)
    exact (hchosen e he).2.2
  · rw [← hkeys]
    exact Counting.count_map_eq_card archStatsByFw.keys_nodup _ label
  · rw [List.length_map, ← hkeys, List.toFinset_card_of_nodup archStatsByFw.keys_nodup]

/-- After every run, each matching firmware that an architecture is reported for counts once, under one
that is reported most often for the files below it, in whatever order the database returns the rows. -/
theorem getArchitectureStats_exact {driver : Driver} {limits : Limits} {ops : List ContentOp}
    (h : ContentRun driver limits contents maxDepth Db.empty ops db)
    (hrows : rows.Perm (getArchStats db qFilter)) :
    ∃ stats, ∃ chosen : Uid → String, getArchitectureStats rows = some stats ∧
      (∀ X ∈ db.withArchitecture qFilter, MostFrequent db X (chosen X)) ∧
      Counting.IsTally
        (fun label => ((db.withArchitecture qFilter).filter fun X =>
          shortenArchitectureString (chosen X) = label).card)
        (db.withArchitecture qFilter).card stats :=
  getArchitectureStats_of_inv (contentInv_of_run h) hrows

end Architectures

/-- A result of the plugin `cpu_architecture`. -/
def armResult : PyVal := .dict
  [("plugin_version", .str "1.0"), ("analysis_date", .num 1),
    ("summary", .list [.str "ARM, 32-bit, little endian (M)"])]

/-- The architecture of the file of an image is stored. -/
def armDb : Db := (addAnalysis acceptAll typedFilesDb "inner" "cpu_architecture" armResult).db

theorem getArchitectureStats_of_image :
    ∃ stats, ∃ chosen : Uid → String,
      getArchitectureStats (getArchStats armDb []) = some stats ∧
        stats = [("ARM, 32-bit", 1)] ∧
        ∀ X ∈ armDb.withArchitecture [], MostFrequent armDb X (chosen X) := by
  have hrun : ContentRun acceptAll pythonLimits imageContents 10 Db.empty
      ([.files (.upload "outer" [outerImage, innerFile]), .result "outer" "file_type" textResult,
        .result "inner" "file_type" textResult] ++ [.result "inner" "cpu_architecture" armResult])
      armDb :=
    typedFilesDb_run.append (.cons ⟨trivial, rfl⟩ (.nil _))
  obtain ⟨stats, chosen, hstats, hmost, -⟩ := getArchitectureStats_exact hrun (.refl _)
  have hvalue : getArchitectureStats (getArchStats armDb []) = some [("ARM, 32-bit", 1)] := by decide
  exact ⟨stats, chosen, hstats, Option.some.inj (hstats.symm.trans hvalue), hmost⟩

end FactCore
