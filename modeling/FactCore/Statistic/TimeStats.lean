import FactCore.Lib.Decimal
import FactCore.Lib.Dict
import FactCore.Lib.MapM
import FactCore.Objects
import Mathlib.Algebra.BigOperators.Group.List.Basic
import Mathlib.Data.Int.Range
import Mathlib.Data.List.Sort
import Mathlib.Data.Prod.Lex
import Mathlib.Tactic.IntervalCases

/-!
# Statistics of release dates

The rows of the database (year, month, number of firmware) become a list of months without gaps.
Years up to 1970 are left out.

Results:
1. `lookup_buildYears`: what the dictionary of years and months holds before gaps are filled.
2. `fillInTimeGaps_spec`, `lookup_fillYears`: every month from the first to the last one is in it
   afterwards, and no other.
3. `monthLabel_injective`: different months have different labels.
4. `buildStatsEntryFromDateQuery_noGaps`: the statistics are the consecutive months, with the
   numbers of the rows and zero elsewhere.
-/

namespace FactCore

/-! ## 1. Building the statistics -/

/-- A row of the query: year, month and number of firmware. -/
structure DateRow where
  year : Int
  month : Int
  count : Int
  deriving DecidableEq

/-- `_get_month_name`. -/
def getMonthName (month : Int) : Except PyException String :=
  match month with
  | 1 => .ok "January"
  | 2 => .ok "February"
  | 3 => .ok "March"
  | 4 => .ok "April"
  | 5 => .ok "May"
  | 6 => .ok "June"
  | 7 => .ok "July"
  | 8 => .ok "August"
  | 9 => .ok "September"
  | 10 => .ok "October"
  | 11 => .ok "November"
  | 12 => .ok "December"
  | _ => .error (.valueError "month must be in 1..12")

/-- `min` of the keys of a dictionary. -/
def minKey {ν : Type} (d : Dict Int ν) : Except PyException Int :=
  match d.keys.min? with
  | some k => .ok k
  | none => .error (.valueError "min() arg is an empty sequence")

/-- `max` of the keys of a dictionary. -/
def maxKey {ν : Type} (d : Dict Int ν) : Except PyException Int :=
  match d.keys.max? with
  | some k => .ok k
  | none => .error (.valueError "max() arg is an empty sequence")

/-- The body of the loop of `_fill_in_time_gaps`. -/
def fillYear (startYear startMonth endYear endMonth : Int) (timeDict : Dict Int (Dict Int Int))
    (year : Int) : Dict Int (Dict Int Int) :=
  let timeDict := timeDict.setDefault year ∅
  let minMonth := if year = startYear then startMonth else 1
  let maxMonth := if year = endYear then endMonth else 12
  timeDict.set year ((Int.range minMonth (maxMonth + 1)).foldl (fun months month =>
    months.setDefault month 0) (timeDict.getD year ∅))

/-- `_fill_in_time_gaps`. -/
def fillInTimeGaps (timeDict : Dict Int (Dict Int Int)) :
    Except PyException (Dict Int (Dict Int Int)) :=
  if timeDict.keys = [] then .ok timeDict
  else do
    let startYear ← minKey timeDict
    let startMonth ← minKey (timeDict.getD startYear ∅)
    let endYear ← maxKey timeDict
    let endMonth ← maxKey (timeDict.getD endYear ∅)
    return (Int.range startYear (endYear + 1)).foldl
      (fillYear startYear startMonth endYear endMonth) timeDict

/-- The loop of `_build_time_dict`. -/
def buildYears (releaseDateStats : List DateRow) : Dict Int (Dict Int Int) :=
  releaseDateStats.foldl (fun result row =>
    if row.year > 1970 then
      result.set row.year ((result.getD row.year ∅).set row.month row.count)
    else result) ∅

/-- `_build_time_dict`. -/
def buildTimeDict (releaseDateStats : List DateRow) :
    Except PyException (Dict Int (Dict Int Int)) :=
  let result := buildYears releaseDateStats
  if result.keys ≠ [] then fillInTimeGaps result else .ok result

/-- `sorted` of the keys. -/
def sortedKeys {ν : Type} (d : Dict Int ν) : List Int := d.keys.insertionSort (· ≤ ·)

/-- `sorted` of the items: pairs are compared by the key first. -/
def sortedItems (d : Dict Int Int) : List (Int × Int) :=
  d.entries.insertionSort fun a b => toLex a ≤ toLex b

/-- `build_stats_entry_from_date_query`. -/
def buildStatsEntryFromDateQuery (releaseDateStats : List DateRow) :
    Except PyException (List (String × Int)) := do
  let timeDict ← buildTimeDict releaseDateStats
  let stats ← (sortedKeys timeDict).mapM fun year =>
    (sortedItems (timeDict.getD year ∅)).mapM fun item => do
      let monthName ← getMonthName item.1
      return (monthName ++ " " ++ toString year, item.2)
  return stats.flatten

/-! ## 2. What the dictionary holds -/

/-- The number of firmware of a month of a year. -/
def lookup (timeDict : Dict Int (Dict Int Int)) (year month : Int) : Option Int :=
  (timeDict.getD year ∅).get? month

/-- Months as numbers: consecutive months have consecutive numbers. -/
def monthNumber (year month : Int) : Int := 12 * year + (month - 1)

/-- A month has one row only, and rows have real months. -/
structure ValidRows (rows : List DateRow) : Prop where
  distinct : (rows.map fun row => (row.year, row.month)).Nodup
  months : ∀ row ∈ rows, 1 ≤ row.month ∧ row.month ≤ 12

theorem monthNumber_inj {year month year' month' : Int} (hm : 1 ≤ month ∧ month ≤ 12)
    (hm' : 1 ≤ month' ∧ month' ≤ 12) :
    monthNumber year month = monthNumber year' month' ↔ year = year' ∧ month = month' := by
  unfold monthNumber
  omega

section Build
variable {rows : List DateRow} {d : Dict Int (Dict Int Int)} {year month : Int}

theorem lookup_eq_some_imp {c : Int} (h : lookup d year month = some c) : year ∈ d := by
  by_contra hmem
  have hnone := Dict.get?_eq_none_iff.mpr hmem
  rw [lookup, Dict.getD, hnone] at h
  cases h

theorem lookup_set (months : Dict Int Int) (year' : Int) :
    lookup (d.set year months) year' month =
      if year' = year then months.get? month else lookup d year' month := by
  unfold lookup Dict.getD
  rw [Dict.get?_set]
  split <;> rfl

/-- A row of a later year writes its number, others change nothing. -/
theorem lookup_buildYears_concat (rows : List DateRow) (row : DateRow) (year month : Int) :
    lookup (buildYears (rows ++ [row])) year month =
      if row.year > 1970 ∧ year = row.year ∧ month = row.month then some row.count
      else lookup (buildYears rows) year month := by
  rw [buildYears, List.foldl_append, ← buildYears, List.foldl_cons, List.foldl_nil]
  by_cases hdated : row.year > 1970
  · rw [if_pos hdated, lookup_set, Dict.get?_set]
    by_cases hyear : year = row.year
    · rw [if_pos hyear, hyear, lookup]
      simp [hdated]
    · rw [if_neg hyear, if_neg (by tauto)]
  · rw [if_neg hdated, if_neg (by tauto)]

/-- Before gaps are filled, exactly the rows after 1970 are in the dictionary. -/
theorem lookup_buildYears (hdistinct : (rows.map fun row => (row.year, row.month)).Nodup)
    {c : Int} :
    lookup (buildYears rows) year month = some c ↔ 1970 < year ∧ ⟨year, month, c⟩ ∈ rows := by
  induction rows using List.reverseRecOn with
  | nil => simp [buildYears, lookup, Dict.getD]
  | append_singleton rows row ih =>
    rw [List.map_append, List.nodup_append] at hdistinct
    obtain ⟨hrows, -, hnew⟩ := hdistinct
    rw [lookup_buildYears_concat, List.mem_append, List.mem_singleton]
    split
    · next h =>
      obtain ⟨hdated, rfl, rfl⟩ := h
      have hnot : ⟨row.year, row.month, c⟩ ∉ rows := by
        intro hmem
        exact hnew _ (List.mem_map_of_mem hmem) _ (List.mem_singleton_self _) rfl
      constructor
      · intro hc
        cases hc
        exact ⟨hdated, .inr rfl⟩
      · rintro ⟨-, hmem | hrow⟩
        · exact absurd hmem hnot
        · rw [← hrow]
    · next h =>
      rw [ih hrows]
      refine and_congr_right fun hyear => (or_iff_left ?_).symm
      rintro rfl
      exact h ⟨hyear, rfl, rfl⟩

theorem mem_buildYears : year ∈ buildYears rows ↔ ∃ row ∈ rows, 1970 < year ∧ row.year = year := by
  induction rows using List.reverseRecOn with
  | nil => simp [buildYears]
  | append_singleton rows row ih =>
    rw [buildYears, List.foldl_append, ← buildYears, List.foldl_cons, List.foldl_nil]
    have hlast : (∃ row' ∈ rows ++ [row], 1970 < year ∧ row'.year = year) ↔
        (1970 < year ∧ row.year = year) ∨ year ∈ buildYears rows := by
      rw [ih]
      simp only [List.mem_append, List.mem_singleton]
      constructor
      · rintro ⟨row', hmem | rfl, h⟩
        · exact .inr ⟨row', hmem, h⟩
        · exact .inl h
      · rintro (h | ⟨row', hmem, h⟩)
        · exact ⟨row, .inr rfl, h⟩
        · exact ⟨row', .inl hmem, h⟩
    rw [hlast]
    split
    · next h =>
      rw [Dict.mem_set]
      refine or_congr_left ⟨?_, ?_⟩
      · rintro rfl
        exact ⟨h, rfl⟩
      · intro hyear
        exact hyear.2.symm
    · next h =>
      refine (or_iff_right ?_).symm
      rintro ⟨hyear, rfl⟩
      exact h hyear

end Build

/-! ## 3. Filling gaps -/

theorem nodup_intRange (m n : Int) : (Int.range m n).Nodup :=
  List.nodup_range.map fun _ _ h => Int.natCast_inj.mp (add_left_cancel h)

section Fill
variable {d : Dict Int (Dict Int Int)} {startYear startMonth endYear endMonth : Int}

/-- What the loop makes of the months of a year. -/
def filledMonths (startYear startMonth endYear endMonth year : Int) (months : Dict Int Int) :
    Dict Int Int :=
  (Int.range (if year = startYear then startMonth else 1)
    ((if year = endYear then endMonth else 12) + 1)).foldl
      (fun months month => months.setDefault month 0) months

/-- The months that are filled in are those between two bounds. -/
theorem get?_filledMonths (year : Int) (months : Dict Int Int) (month : Int) :
    (filledMonths startYear startMonth endYear endMonth year months).get? month =
      if (if year = startYear then startMonth else 1) ≤ month ∧
        month ≤ (if year = endYear then endMonth else 12) then some (months.getD month 0)
      else months.get? month := by
  rw [filledMonths, Dict.get?_foldl_set (f := fun _ n => n) (v := 0)
    (fun d k j => Dict.get?_setDefault d k j 0) (nodup_intRange _ _)]
  simp only [Int.mem_range_iff, Int.lt_add_one_iff]

/-- The first and the last month of a dictionary whose months are real months. -/
structure Bounds (d : Dict Int (Dict Int Int)) (startYear startMonth endYear endMonth : Int) :
    Prop where
  start : ∃ c, lookup d startYear startMonth = some c
  stop : ∃ c, lookup d endYear endMonth = some c
  months : ∀ year month c, lookup d year month = some c → 1 ≤ month ∧ month ≤ 12
  between : ∀ year month c, lookup d year month = some c →
    monthNumber startYear startMonth ≤ monthNumber year month ∧
      monthNumber year month ≤ monthNumber endYear endMonth

theorem get?_fillYear (d : Dict Int (Dict Int Int)) (year year' : Int) :
    (fillYear startYear startMonth endYear endMonth d year).get? year' =
      if year' = year then
        some (filledMonths startYear startMonth endYear endMonth year (d.getD year ∅))
      else d.get? year' := by
  have hyear : (d.setDefault year ∅).getD year ∅ = d.getD year ∅ := by
    rw [Dict.getD, Dict.get?_setDefault, if_pos rfl, Option.getD_some]
  simp only [fillYear, hyear, Dict.get?_set, Dict.get?_setDefault]
  split <;> rfl

theorem get?_fillYears (d : Dict Int (Dict Int Int)) (year : Int) :
    ((Int.range startYear (endYear + 1)).foldl
      (fillYear startYear startMonth endYear endMonth) d).get? year =
      if startYear ≤ year ∧ year ≤ endYear then
        some (filledMonths startYear startMonth endYear endMonth year (d.getD year ∅))
      else d.get? year := by
  rw [Dict.get?_foldl_set (f := filledMonths startYear startMonth endYear endMonth) (v := ∅)
    get?_fillYear (nodup_intRange _ _)]
  simp only [Int.mem_range_iff, Int.lt_add_one_iff]

/-- The filled dictionary has exactly the months between the bounds. -/
theorem lookup_fillYears (h : Bounds d startYear startMonth endYear endMonth)
    {year month c : Int} :
    lookup ((Int.range startYear (endYear + 1)).foldl
      (fillYear startYear startMonth endYear endMonth) d) year month = some c ↔
      (1 ≤ month ∧ month ≤ 12) ∧
        (monthNumber startYear startMonth ≤ monthNumber year month ∧
          monthNumber year month ≤ monthNumber endYear endMonth) ∧
        (lookup d year month).getD 0 = c := by
  obtain ⟨cstart, hstart⟩ := h.start
  obtain ⟨cstop, hstop⟩ := h.stop
  have hm₁ := h.months _ _ _ hstart
  have hm₂ := h.months _ _ _ hstop
  -- outside of the loops nothing is stored, so nothing has to be kept there
  have hinside : ∀ c, lookup d year month = some c → (1 ≤ month ∧ month ≤ 12) ∧
      12 * startYear + (startMonth - 1) ≤ 12 * year + (month - 1) ∧
        12 * year + (month - 1) ≤ 12 * endYear + (endMonth - 1) := by
    intro c hc
    exact ⟨h.months _ _ _ hc, h.between _ _ _ hc⟩
  unfold monthNumber
  rw [lookup, Dict.getD, get?_fillYears]
  by_cases hyear : startYear ≤ year ∧ year ≤ endYear
  · rw [if_pos hyear, Option.getD_some, get?_filledMonths]
    by_cases hmonth : (if year = startYear then startMonth else 1) ≤ month ∧
        month ≤ if year = endYear then endMonth else 12
    · rw [if_pos hmonth, Option.some.injEq]
      have hreal : (1 ≤ month ∧ month ≤ 12) ∧
          12 * startYear + (startMonth - 1) ≤ 12 * year + (month - 1) ∧
            12 * year + (month - 1) ≤ 12 * endYear + (endMonth - 1) := by
        split at hmonth <;> split at hmonth <;> omega
      exact ⟨fun hc => ⟨hreal.1, hreal.2, hc⟩, fun hc => hc.2.2⟩
    · rw [if_neg hmonth]
      refine iff_of_false ?_ ?_
      · intro hc
        have hreal := hinside c hc
        apply hmonth
        split <;> split <;> omega
      · intro hc
        apply hmonth
        split <;> split <;> omega
  · rw [if_neg hyear]
    refine iff_of_false ?_ ?_
    · intro hc
      have hreal := hinside c hc
      omega
    · omega

theorem minKey_ok {ν : Type} {d : Dict Int ν} (hkeys : d.keys ≠ []) :
    ∃ k, minKey d = .ok k ∧ k ∈ d ∧ ∀ j ∈ d, k ≤ j := by
  unfold minKey
  cases hmin : d.keys.min? with
  | none => exact absurd (List.min?_eq_none_iff.mp hmin) hkeys
  | some k => exact ⟨k, rfl, List.min?_eq_some_iff.mp hmin⟩

theorem maxKey_ok {ν : Type} {d : Dict Int ν} (hkeys : d.keys ≠ []) :
    ∃ k, maxKey d = .ok k ∧ k ∈ d ∧ ∀ j ∈ d, j ≤ k := by
  unfold maxKey
  cases hmax : d.keys.max? with
  | none => exact absurd (List.max?_eq_none_iff.mp hmax) hkeys
  | some k => exact ⟨k, rfl, List.max?_eq_some_iff.mp hmax⟩

/-- A dictionary with a month in each of its years is filled between its bounds. -/
theorem fillInTimeGaps_spec (hkeys : d.keys ≠ [])
    (hyears : ∀ year ∈ d, ∃ month c, lookup d year month = some c)
    (hmonths : ∀ year month c, lookup d year month = some c → 1 ≤ month ∧ month ≤ 12) :
    ∃ startYear startMonth endYear endMonth, Bounds d startYear startMonth endYear endMonth ∧
      fillInTimeGaps d = .ok ((Int.range startYear (endYear + 1)).foldl
        (fillYear startYear startMonth endYear endMonth) d) := by
  have hyear : ∀ year ∈ d, (d.getD year ∅).keys ≠ [] := by
    intro year hmem hempty
    obtain ⟨month, c, hc⟩ := hyears year hmem
    have hmonth : month ∈ (d.getD year ∅).keys := Dict.mem_of_get? hc
    rw [hempty] at hmonth
    exact List.not_mem_nil hmonth
  obtain ⟨startYear, hstartYear, hstart, hstart_le⟩ := minKey_ok hkeys
  obtain ⟨startMonth, hstartMonth, hfirst, hfirst_le⟩ := minKey_ok (hyear startYear hstart)
  obtain ⟨endYear, hendYear, hend, hle_end⟩ := maxKey_ok hkeys
  obtain ⟨endMonth, hendMonth, hlast, hle_last⟩ := maxKey_ok (hyear endYear hend)
  obtain ⟨cfirst, hcfirst⟩ := Dict.mem_iff.mp hfirst
  obtain ⟨clast, hclast⟩ := Dict.mem_iff.mp hlast
  refine ⟨startYear, startMonth, endYear, endMonth, ⟨⟨cfirst, hcfirst⟩, ⟨clast, hclast⟩, hmonths,
    ?_⟩, ?_⟩
  · intro year month c hc
    have hmem := lookup_eq_some_imp hc
    have hlow := hstart_le year hmem
    have hhigh := hle_end year hmem
    have hmonth := hmonths year month c hc
    have hm₁ := hmonths startYear startMonth cfirst hcfirst
    have hm₂ := hmonths endYear endMonth clast hclast
    have hlowMonth : year = startYear → startMonth ≤ month := by
      rintro rfl
      exact hfirst_le month (Dict.mem_of_get? hc)
    have hhighMonth : year = endYear → month ≤ endMonth := by
      rintro rfl
      exact hle_last month (Dict.mem_of_get? hc)
    unfold monthNumber
    omega
  · rw [fillInTimeGaps, if_neg hkeys, hstartYear, hendYear]
    show (minKey (d.getD startYear ∅) >>= fun startMonth => _) = _
    rw [hstartMonth]
    show (maxKey (d.getD endYear ∅) >>= fun endMonth => _) = _
    rw [hendMonth]
    rfl

end Fill

/-! ## 4. Consecutive months -/

/-- The numbers of the months from the first to the last row after 1970. -/
def consecutiveMonths (rows : List DateRow) : List Int :=
  let numbers := (rows.filter fun row => 1970 < row.year).map fun row =>
    monthNumber row.year row.month
  match numbers.min?, numbers.max? with
  | some first, some last => Int.range first (last + 1)
  | _, _ => []

/-- The number of a month: that of its row, zero if there is none. -/
def countAt (rows : List DateRow) (number : Int) : Int :=
  match rows.find? fun row => monthNumber row.year row.month = number with
  | some row => row.count
  | none => 0

/-- The name of a month and its year. -/
def monthLabel (number : Int) : Except PyException String := do
  let monthName ← getMonthName (number % 12 + 1)
  return monthName ++ " " ++ toString (number / 12)

/-- The statistics are those of consecutive months, and nothing is lost. -/
structure NoGaps (rows : List DateRow) (stats : List (String × Int)) : Prop where
  labels : stats.map (fun entry => .ok entry.1) = (consecutiveMonths rows).map monthLabel
  distinct : (stats.map Prod.fst).Nodup
  counts : stats.map Prod.snd = (consecutiveMonths rows).map (countAt rows)
  total : (stats.map Prod.snd).sum =
    ((rows.filter fun row => 1970 < row.year).map DateRow.count).sum

section Months
variable {rows : List DateRow}

theorem consecutiveMonths_eq_nil (h : ∀ row ∈ rows, ¬1970 < row.year) :
    consecutiveMonths rows = [] := by
  have hempty : (rows.filter fun row => 1970 < row.year) = [] := by
    refine List.filter_eq_nil_iff.mpr fun row hrow hdated => ?_
    exact h row hrow (of_decide_eq_true hdated)
  rw [consecutiveMonths, hempty]
  rfl

theorem lookup_row (hvalid : ValidRows rows) {row : DateRow} (hrow : row ∈ rows)
    (hdated : 1970 < row.year) :
    lookup (buildYears rows) row.year row.month = some row.count :=
  (lookup_buildYears hvalid.distinct).mpr ⟨hdated, hrow⟩

theorem consecutiveMonths_eq (hvalid : ValidRows rows)
    {startYear startMonth endYear endMonth : Int}
    (h : Bounds (buildYears rows) startYear startMonth endYear endMonth) :
    consecutiveMonths rows =
      Int.range (monthNumber startYear startMonth) (monthNumber endYear endMonth + 1) := by
  obtain ⟨cstart, hstart⟩ := h.start
  obtain ⟨cstop, hstop⟩ := h.stop
  have hmem : ∀ {year month c}, lookup (buildYears rows) year month = some c →
      monthNumber year month ∈ (rows.filter fun row => 1970 < row.year).map fun row =>
        monthNumber row.year row.month := by
    intro year month c hc
    obtain ⟨hdated, hrow⟩ := (lookup_buildYears hvalid.distinct).mp hc
    exact List.mem_map.mpr ⟨_, List.mem_filter.mpr ⟨hrow, decide_eq_true hdated⟩, rfl⟩
  have hbetween : ∀ number ∈ (rows.filter fun row => 1970 < row.year).map fun row =>
      monthNumber row.year row.month, monthNumber startYear startMonth ≤ number ∧
        number ≤ monthNumber endYear endMonth := by
    intro number hnumber
    obtain ⟨row, hrow, rfl⟩ := List.mem_map.mp hnumber
    obtain ⟨hrow, hdated⟩ := List.mem_filter.mp hrow
    exact h.between _ _ _ (lookup_row hvalid hrow (of_decide_eq_true hdated))
  have hmin := List.min?_eq_some_iff.mpr
    ⟨hmem hstart, fun number hnumber => (hbetween number hnumber).1⟩
  have hmax := List.max?_eq_some_iff.mpr
    ⟨hmem hstop, fun number hnumber => (hbetween number hnumber).2⟩
  rw [consecutiveMonths, hmin, hmax]

theorem countAt_row (hvalid : ValidRows rows) {row : DateRow} (hrow : row ∈ rows) :
    countAt rows (monthNumber row.year row.month) = row.count := by
  unfold countAt
  cases hfind : rows.find? fun row' =>
      monthNumber row'.year row'.month = monthNumber row.year row.month with
  | none =>
    have hnone := List.find?_eq_none.mp hfind row hrow
    simp at hnone
  | some row' =>
    have hrow' := List.mem_of_find?_eq_some hfind
    have hnumber : monthNumber row'.year row'.month = monthNumber row.year row.month := by
      simpa using List.find?_some hfind
    have heq := (monthNumber_inj (hvalid.months row' hrow') (hvalid.months row hrow)).mp hnumber
    have hsame := List.inj_on_of_nodup_map hvalid.distinct hrow' hrow (Prod.ext heq.1 heq.2)
    rw [hsame]

theorem countAt_eq_zero {number : Int}
    (h : ∀ row ∈ rows, monthNumber row.year row.month ≠ number) : countAt rows number = 0 := by
  have hnone : (rows.find? fun row => monthNumber row.year row.month = number) = none :=
    List.find?_eq_none.mpr fun row hrow heq => h row hrow (of_decide_eq_true heq)
  rw [countAt, hnone]

/-- What is stored for a month is what its row says. -/
theorem getD_lookup_buildYears (hvalid : ValidRows rows) {year month : Int}
    (hyear : 1970 < year) (hmonth : 1 ≤ month ∧ month ≤ 12) :
    (lookup (buildYears rows) year month).getD 0 = countAt rows (monthNumber year month) := by
  cases hlookup : lookup (buildYears rows) year month with
  | some c =>
    obtain ⟨-, hrow⟩ := (lookup_buildYears hvalid.distinct).mp hlookup
    exact (countAt_row hvalid hrow).symm
  | none =>
    refine (countAt_eq_zero fun row hrow heq => ?_).symm
    obtain ⟨rfl, rfl⟩ := (monthNumber_inj (hvalid.months row hrow) hmonth).mp heq
    rw [lookup_row hvalid hrow hyear] at hlookup
    cases hlookup

/-- The dictionary holds the consecutive months, each with its number. -/
theorem buildTimeDict_spec (hvalid : ValidRows rows) :
    ∃ timeDict, buildTimeDict rows = .ok timeDict ∧
      ∀ year month c, lookup timeDict year month = some c ↔
        (1 ≤ month ∧ month ≤ 12) ∧ monthNumber year month ∈ consecutiveMonths rows ∧
          countAt rows (monthNumber year month) = c := by
  by_cases hkeys : (buildYears rows).keys = []
  · have hnone : ∀ row ∈ rows, ¬1970 < row.year := by
      intro row hrow hdated
      have hmem : row.year ∈ (buildYears rows).keys := mem_buildYears.mpr ⟨row, hrow, hdated, rfl⟩
      rw [hkeys] at hmem
      exact List.not_mem_nil hmem
    refine ⟨buildYears rows, if_neg (not_not.mpr hkeys), fun year month c => ?_⟩
    rw [consecutiveMonths_eq_nil hnone, lookup_buildYears hvalid.distinct]
    refine iff_of_false ?_ (by simp)
    rintro ⟨hdated, hrow⟩
    exact hnone _ hrow hdated
  · have hmonths : ∀ year month c, lookup (buildYears rows) year month = some c →
        1 ≤ month ∧ month ≤ 12 := by
      intro year month c hc
      exact hvalid.months _ ((lookup_buildYears hvalid.distinct).mp hc).2
    have hyears : ∀ year ∈ buildYears rows, ∃ month c,
        lookup (buildYears rows) year month = some c := by
      intro year hyear
      obtain ⟨row, hrow, hdated, rfl⟩ := mem_buildYears.mp hyear
      exact ⟨row.month, row.count, lookup_row hvalid hrow hdated⟩
    obtain ⟨startYear, startMonth, endYear, endMonth, hbounds, hfill⟩ :=
      fillInTimeGaps_spec hkeys hyears hmonths
    refine ⟨_, (if_pos hkeys).trans hfill, fun year month c => ?_⟩
    rw [lookup_fillYears hbounds, consecutiveMonths_eq hvalid hbounds, Int.mem_range_iff,
      Int.lt_add_one_iff]
    refine and_congr_right fun hmonth => and_congr_right fun hbetween => ?_
    obtain ⟨cstart, hstart⟩ := hbounds.start
    have hfirst := (lookup_buildYears hvalid.distinct).mp hstart
    have hyear : 1970 < year := by
      have hm := hmonths _ _ _ hstart
      unfold monthNumber at hbetween
      omega
    rw [getD_lookup_buildYears hvalid hyear hmonth]

end Months

/-! ## 5. The list of the statistics -/

/-- The items of a dictionary with the numbers of their months, in the order of the statistics. -/
def numbered (timeDict : Dict Int (Dict Int Int)) : List (Int × Int) :=
  (sortedKeys timeDict).flatMap fun year =>
    (sortedItems (timeDict.getD year ∅)).map fun item => (monthNumber year item.1, item.2)

theorem pairwise_sortedKeys {ν : Type} (d : Dict Int ν) : (sortedKeys d).Pairwise (· < ·) := by
  have hnodup : (sortedKeys d).Nodup := (List.perm_insertionSort _ _).nodup_iff.mpr d.keys_nodup
  have hle : (sortedKeys d).Pairwise (· ≤ ·) := List.pairwise_insertionSort _ _
  exact (hle.and hnodup).imp fun h => lt_of_le_of_ne h.1 h.2

theorem pairwise_sortedItems (d : Dict Int Int) :
    (sortedItems d).Pairwise fun a b => a.1 < b.1 := by
  have : Std.Total fun a b : Int × Int => toLex a ≤ toLex b := ⟨fun a b => le_total _ _⟩
  have : IsTrans (Int × Int) fun a b => toLex a ≤ toLex b := ⟨fun _ _ _ => le_trans⟩
  have hkeys : ((sortedItems d).map Prod.fst).Nodup :=
    ((List.perm_insertionSort _ _).map Prod.fst).nodup_iff.mpr d.nodup
  have hle : (sortedItems d).Pairwise fun a b => toLex a ≤ toLex b :=
    List.pairwise_insertionSort _ _
  refine (hle.and (List.pairwise_map.mp hkeys)).imp fun {a b} h => ?_
  rcases Prod.Lex.toLex_le_toLex.mp h.1 with hlt | ⟨heq, -⟩
  · exact hlt
  · exact absurd heq h.2

section Numbered
variable {timeDict : Dict Int (Dict Int Int)}

theorem mem_sortedItems {d : Dict Int Int} {item : Int × Int} :
    item ∈ sortedItems d ↔ d.get? item.1 = some item.2 :=
  (List.mem_insertionSort _).trans Dict.mem_entries_iff

theorem mem_numbered {number c : Int} :
    (number, c) ∈ numbered timeDict ↔
      ∃ year month, lookup timeDict year month = some c ∧ monthNumber year month = number := by
  rw [numbered, List.mem_flatMap]
  constructor
  · rintro ⟨year, -, hentry⟩
    obtain ⟨item, hitem, heq⟩ := List.mem_map.mp hentry
    cases heq
    exact ⟨year, item.1, mem_sortedItems.mp hitem, rfl⟩
  · rintro ⟨year, month, hc, rfl⟩
    refine ⟨year, (List.mem_insertionSort _).mpr (lookup_eq_some_imp hc), ?_⟩
    exact List.mem_map.mpr ⟨(month, c), mem_sortedItems.mpr hc, rfl⟩

/-- Years and the months in them are sorted, so the numbers of the months are. -/
theorem pairwise_numbered
    (hmonths : ∀ year month c, lookup timeDict year month = some c → 1 ≤ month ∧ month ≤ 12) :
    (numbered timeDict).Pairwise fun a b => a.1 < b.1 := by
  rw [numbered, List.pairwise_flatMap]
  constructor
  · intro year _
    refine List.pairwise_map.mpr ((pairwise_sortedItems _).imp fun {a b} h => ?_)
    unfold monthNumber
    omega
  · refine (pairwise_sortedKeys timeDict).imp fun {year year'} hlt x hx y hy => ?_
    obtain ⟨item, hitem, rfl⟩ := List.mem_map.mp hx
    obtain ⟨item', hitem', rfl⟩ := List.mem_map.mp hy
    have hm := hmonths _ _ _ (mem_sortedItems.mp hitem)
    have hm' := hmonths _ _ _ (mem_sortedItems.mp hitem')
    unfold monthNumber
    omega

theorem getMonthName_ok {month : Int} (h : 1 ≤ month ∧ month ≤ 12) :
    ∃ name, getMonthName month = .ok name := by
  obtain ⟨hlow, hhigh⟩ := h
  interval_cases month <;> exact ⟨_, rfl⟩

theorem monthLabel_ok (number : Int) : ∃ label, monthLabel number = .ok label := by
  have hmonth : 1 ≤ number % 12 + 1 ∧ number % 12 + 1 ≤ 12 := by omega
  obtain ⟨name, hname⟩ := getMonthName_ok hmonth
  exact ⟨name ++ " " ++ toString (number / 12), by rw [monthLabel, hname]; rfl⟩

/-- The number of a month can be read off its name, which is one word. -/
theorem getMonthName_spec {month : Int} {name : String} (h : getMonthName month = .ok name) :
    month = (["January", "February", "March", "April", "May", "June", "July", "August", "September",
      "October", "November", "December"].idxOf name : Int) + 1 ∧ ' ' ∉ name.toList := by
  unfold getMonthName at h
  split at h
  all_goals first
    | obtain rfl := Except.ok.inj h
      exact ⟨rfl, by decide⟩
    | cases h

/-- Different months have different labels. -/
theorem monthLabel_injective {m n : Int} {label : String} (hm : monthLabel m = .ok label)
    (hn : monthLabel n = .ok label) : m = n := by
  obtain ⟨name, hname, hlabel⟩ := except_bind_eq_ok hm
  obtain ⟨name', hname', hlabel'⟩ := except_bind_eq_ok hn
  obtain ⟨hindex, hword⟩ := getMonthName_spec hname
  obtain ⟨hindex', hword'⟩ := getMonthName_spec hname'
  have hsame : name.toList ++ ' ' :: (toString (m / 12)).toList =
      name'.toList ++ ' ' :: (toString (n / 12)).toList := by
    have heq := congrArg String.toList ((Except.ok.inj hlabel).trans (Except.ok.inj hlabel').symm)
    simpa using heq
  have hyear := not_mem_toString_of_not_isDigit (c := ' ') rfl (by decide) (m / 12)
  obtain ⟨hnames, -, hyears⟩ := (List.append_cons_inj_of_notMem hword hyear).mp hsame
  have hyears := toString_injective (String.toList_injective hyears)
  rw [String.toList_injective hnames] at hindex
  omega

/-- The label of an item is that of its number. -/
theorem monthLabel_monthNumber {year month : Int} (h : 1 ≤ month ∧ month ≤ 12) :
    monthLabel (monthNumber year month) = (do
      let monthName ← getMonthName month
      return monthName ++ " " ++ toString year) := by
  have hmonth : monthNumber year month % 12 + 1 = month := by unfold monthNumber; omega
  have hyear : monthNumber year month / 12 = year := by unfold monthNumber; omega
  rw [monthLabel, hmonth, hyear]

/-- The statistics are the numbered items with the labels of their numbers. -/
theorem buildStats_eq {rows : List DateRow} {labelOf : Int → String}
    (hlabel : ∀ number, monthLabel number = .ok (labelOf number))
    (hbuild : buildTimeDict rows = .ok timeDict)
    (hmonths : ∀ year month c, lookup timeDict year month = some c → 1 ≤ month ∧ month ≤ 12) :
    buildStatsEntryFromDateQuery rows =
      .ok ((numbered timeDict).map fun entry => (labelOf entry.1, entry.2)) := by
  have hitem : ∀ year, ∀ item ∈ sortedItems (timeDict.getD year ∅),
      (do
        let monthName ← getMonthName item.1
        return (monthName ++ " " ++ toString year, item.2)) =
        Except.ok (labelOf (monthNumber year item.1), item.2) := by
    intro year item hmem
    have hmonth := hmonths year item.1 item.2 (mem_sortedItems.mp hmem)
    have hname := hlabel (monthNumber year item.1)
    rw [monthLabel_monthNumber hmonth] at hname
    obtain ⟨name, hname', hreturn⟩ := except_bind_eq_ok hname
    rw [hname', ← Except.ok.inj hreturn]
    rfl
  have hyear : ∀ year, ((sortedItems (timeDict.getD year ∅)).mapM fun item => do
      let monthName ← getMonthName item.1
      return (monthName ++ " " ++ toString year, item.2)) =
        Except.ok ((sortedItems (timeDict.getD year ∅)).map fun item =>
          (labelOf (monthNumber year item.1), item.2)) :=
    fun year => mapM_eq_map (hitem year)
  have hall := mapM_eq_map (l := sortedKeys timeDict) fun year _ => hyear year
  have hflatten : ((numbered timeDict).map fun entry => (labelOf entry.1, entry.2)) =
      ((sortedKeys timeDict).map fun year => (sortedItems (timeDict.getD year ∅)).map fun item =>
        (labelOf (monthNumber year item.1), item.2)).flatten := by
    rw [numbered, List.map_flatMap, List.flatMap_def]
    simp only [List.map_map]
    rfl
  rw [buildStatsEntryFromDateQuery, hbuild, hflatten]
  exact congrArg (· >>= fun stats => pure stats.flatten) hall

end Numbered

/-! ## 6. No gaps, nothing lost -/

section Result
variable {rows : List DateRow}

/-- The numbers of the rows, summed up over different months. -/
theorem sum_countAt {numbers : List Int} (hnumbers : numbers.Nodup)
    (hrows : (rows.map fun row => monthNumber row.year row.month).Nodup) :
    (numbers.map (countAt rows)).sum =
      ((rows.filter fun row => monthNumber row.year row.month ∈ numbers).map
        DateRow.count).sum := by
  induction rows with
  | nil =>
    have hzero : numbers.map (countAt []) = numbers.map fun _ => 0 := rfl
    rw [hzero]
    simp
  | cons row rows ih =>
    obtain ⟨hnot, hrest⟩ := List.nodup_cons.mp hrows
    have hcons : countAt (row :: rows) = fun number =>
        if number = monthNumber row.year row.month then row.count else countAt rows number := by
      funext number
      by_cases heq : monthNumber row.year row.month = number
      · simp [countAt, heq]
      · simp [countAt, heq, Ne.symm heq]
    have hzero : countAt rows (monthNumber row.year row.month) = 0 :=
      countAt_eq_zero fun row' hrow' heq => hnot (List.mem_map.mpr ⟨row', hrow', heq⟩)
    rw [hcons, List.sum_map_ite_eq, hzero, ih hrest, List.filter_cons]
    by_cases hmem : monthNumber row.year row.month ∈ numbers
    · rw [List.count_eq_one_of_mem hnumbers hmem, if_pos (decide_eq_true hmem)]
      simp
    · rw [List.count_eq_zero_of_not_mem hmem, if_neg (by simpa using hmem)]
      simp

theorem pairwise_intRange (m n : Int) : (Int.range m n).Pairwise (· < ·) :=
  List.pairwise_map.mpr (List.pairwise_lt_range.imp fun h => by omega)

theorem pairwise_consecutiveMonths (rows : List DateRow) :
    (consecutiveMonths rows).Pairwise (· < ·) := by
  unfold consecutiveMonths
  dsimp only
  split
  · exact pairwise_intRange _ _
  · exact List.Pairwise.nil

/-- A month is among the consecutive ones if it has a row, and only if it is after 1970. -/
theorem mem_consecutiveMonths_iff (hvalid : ValidRows rows) {row : DateRow} (hrow : row ∈ rows) :
    monthNumber row.year row.month ∈ consecutiveMonths rows ↔ 1970 < row.year := by
  have hmonth := hvalid.months row hrow
  constructor
  · intro hmem
    unfold consecutiveMonths at hmem
    dsimp only at hmem
    split at hmem
    · next first last hmin hmax =>
      obtain ⟨first', hfirst, rfl⟩ := List.mem_map.mp (List.min?_mem hmin)
      obtain ⟨hfirst, hdated⟩ := List.mem_filter.mp hfirst
      have hyear := of_decide_eq_true hdated
      have hmonth' := hvalid.months first' hfirst
      have hle := (Int.mem_range_iff.mp hmem).1
      unfold monthNumber at hle
      omega
    · exact absurd hmem List.not_mem_nil
  · intro hdated
    have hmem : monthNumber row.year row.month ∈
        (rows.filter fun row => 1970 < row.year).map fun row => monthNumber row.year row.month :=
      List.mem_map_of_mem (List.mem_filter.mpr ⟨hrow, decide_eq_true hdated⟩)
    unfold consecutiveMonths
    dsimp only
    split
    · next first last hmin hmax =>
      have hlow := (List.min?_eq_some_iff.mp hmin).2 _ hmem
      have hhigh := (List.max?_eq_some_iff.mp hmax).2 _ hmem
      exact Int.mem_range_iff.mpr ⟨hlow, Int.lt_add_one_iff.mpr hhigh⟩
    · next hnone =>
      have hne := List.ne_nil_of_mem hmem
      obtain ⟨first, hmin⟩ := Option.ne_none_iff_exists'.mp (List.min?_eq_none_iff.not.mpr hne)
      obtain ⟨last, hmax⟩ := Option.ne_none_iff_exists'.mp (List.max?_eq_none_iff.not.mpr hne)
      exact absurd hmax (hnone first last hmin)

/-- The statistics have no gaps, for rows in any order. -/
theorem buildStatsEntryFromDateQuery_noGaps (rows : List DateRow) (hvalid : ValidRows rows) :
    ∃ stats, buildStatsEntryFromDateQuery rows = .ok stats ∧ NoGaps rows stats := by
  obtain ⟨labelOf, hlabel⟩ := Classical.axiomOfChoice monthLabel_ok
  obtain ⟨timeDict, hbuild, hlookup⟩ := buildTimeDict_spec hvalid
  have hmonths : ∀ year month c, lookup timeDict year month = some c →
      1 ≤ month ∧ month ≤ 12 := fun year month c hc => ((hlookup year month c).mp hc).1
  have hnumbered : numbered timeDict =
      (consecutiveMonths rows).map fun number => (number, countAt rows number) := by
    have : Std.Irrefl fun a b : Int × Int => a.1 < b.1 := ⟨fun a => lt_irrefl a.1⟩
    have : Std.Antisymm fun a b : Int × Int => a.1 < b.1 :=
      ⟨fun a b h h' => absurd h' (lt_asymm h)⟩
    refine (pairwise_numbered hmonths).eq_of_mem_iff
      (List.pairwise_map.mpr (pairwise_consecutiveMonths rows)) fun entry => ?_
    obtain ⟨number, c⟩ := entry
    rw [mem_numbered, List.mem_map]
    constructor
    · rintro ⟨year, month, hc, rfl⟩
      obtain ⟨-, hmem, hcount⟩ := (hlookup year month c).mp hc
      exact ⟨_, hmem, Prod.ext rfl hcount⟩
    · rintro ⟨number', hmem, heq⟩
      cases heq
      have hnumber : monthNumber (number / 12) (number % 12 + 1) = number := by
        unfold monthNumber
        omega
      refine ⟨number / 12, number % 12 + 1, (hlookup _ _ _).mpr ⟨by omega, ?_, ?_⟩, hnumber⟩
      · rwa [hnumber]
      · rw [hnumber]
  refine ⟨_, buildStats_eq hlabel hbuild hmonths, ?_, ?_, ?_, ?_⟩
  · rw [hnumbered, List.map_map, List.map_map]
    exact List.map_congr_left fun number _ => (hlabel number).symm
  · rw [hnumbered, List.map_map, List.map_map]
    refine ((pairwise_consecutiveMonths rows).imp ne_of_lt).map _ fun m n hne heq => hne ?_
    have hlabels : labelOf m = labelOf n := heq
    exact monthLabel_injective (hlabel m) (hlabels ▸ hlabel n)
  · rw [hnumbered, List.map_map, List.map_map]
    rfl
  · have hcounts : ((numbered timeDict).map fun entry =>
        (labelOf entry.1, entry.2)).map Prod.snd = (consecutiveMonths rows).map (countAt rows) := by
      rw [hnumbered, List.map_map, List.map_map]
      rfl
    have hdistinct : (rows.map fun row => monthNumber row.year row.month).Nodup := by
      refine (List.nodup_map_iff_inj_on (.of_map _ hvalid.distinct)).mpr
        fun row hrow row' hrow' heq => ?_
      obtain ⟨hyear, hmonth⟩ :=
        (monthNumber_inj (hvalid.months row hrow) (hvalid.months row' hrow')).mp heq
      exact List.inj_on_of_nodup_map hvalid.distinct hrow hrow' (Prod.ext hyear hmonth)
    rw [hcounts, sum_countAt ((pairwise_consecutiveMonths rows).imp ne_of_lt) hdistinct]
    congr 2
    refine List.filter_congr fun row hrow => ?_
    rw [decide_eq_decide]
    exact mem_consecutiveMonths_iff hvalid hrow

end Result

/-- Rows around the end of a year, and one that is left out. -/
theorem newYear_noGaps :
    ∃ stats, buildStatsEntryFromDateQuery [⟨2001, 2, 3⟩, ⟨1970, 1, 7⟩, ⟨2000, 12, 1⟩] =
        .ok stats ∧
      NoGaps [⟨2001, 2, 3⟩, ⟨1970, 1, 7⟩, ⟨2000, 12, 1⟩] stats :=
  buildStatsEntryFromDateQuery_noGaps _ ⟨by decide, by decide⟩

example : buildStatsEntryFromDateQuery [⟨2001, 2, 3⟩, ⟨1970, 1, 7⟩, ⟨2000, 12, 1⟩] =
    .ok [("December 2000", 1), ("January 2001", 0), ("February 2001", 3)] := by decide +kernel

end FactCore
