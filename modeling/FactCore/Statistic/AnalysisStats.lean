import FactCore.Lib.MapM
import FactCore.Lib.RingBuffer
import FactCore.Objects
import Mathlib.Algebra.Group.Int.Defs
import Mathlib.Algebra.Group.Nat.Defs

/-!
# Durations of analyses

A plugin records how long its analyses took in an array of fixed size, in which a new duration
overwrites the oldest one when the array is full. The index and the number of durations are `int`s
of C, which other processes can read.

Results:
1. `recordDurations_eq`: the array is a ring buffer as long as the numbers fit.
2. `recordDurations_iff`: when the evaluated part of the array is the last durations;
   `count_overflows`: an array with more entries than an `int` can count.
3. `getPluginStats_eq_none_iff`: a plugin has no statistics until it ran.
-/

namespace FactCore

/-! ## 1. Recording and evaluating durations -/

/-- What an `int` of C holds when it is set to a number. -/
def cInt (n : Int) : Int := Int.bmod n (2 ^ 32)

/-- The shared values of an `AnalysisBasePlugin`. -/
structure DurationStats (α : Type) where
  analysisStats : List α
  analysisStatsIndex : Int
  analysisStatsCount : Int

/-- Writing to an array of `ctypes`. A negative index counts from the end. -/
def setArrayItem {α : Type} (array : List α) (index : Int) (value : α) :
    Except PyException (List α) :=
  let i := if index < 0 then index + array.length else index
  if 0 ≤ i ∧ i < array.length then .ok (array.set i.toNat value)
  else .error (.indexError "invalid index")

/-- `array[:stop]`. -/
def sliceTo {α : Type} (array : List α) (stop : Int) : List α :=
  array.take (if stop < 0 then stop + array.length else stop).toNat

/-- `_update_duration_stats`. Durations are converted to `c_float`. -/
def updateDurationStats {α δ : Type} (cFloat : δ → α) (analysisStatsLimit : ℕ)
    (stats : DurationStats α) (duration : δ) : Except PyException (DurationStats α) := do
  let analysisStats ← setArrayItem stats.analysisStats stats.analysisStatsIndex (cFloat duration)
  let index := cInt (stats.analysisStatsIndex + 1)
  -- if the stats array is full, overwrite the oldest result
  let index := if index ≥ analysisStatsLimit then 0 else index
  let count :=
    if stats.analysisStatsCount < analysisStatsLimit then cInt (stats.analysisStatsCount + 1)
    else stats.analysisStatsCount
  return ⟨analysisStats, index, count⟩

/-- The values of a new plugin. -/
def newDurationStats {α : Type} (zero : α) (analysisStatsLimit : ℕ) : DurationStats α :=
  ⟨List.replicate analysisStatsLimit zero, 0, 0⟩

/-- Durations that are recorded one after the other. -/
def recordDurations {α δ : Type} (cFloat : δ → α) (zero : α) (analysisStatsLimit : ℕ)
    (durations : List δ) : Except PyException (DurationStats α) :=
  durations.foldlM (updateDurationStats cFloat analysisStatsLimit)
    (newDurationStats zero analysisStatsLimit)

/-- The part of the array that is evaluated. -/
def evaluatedStats {α : Type} (analysisStatsLimit : ℕ) (stats : DurationStats α) : List α :=
  if stats.analysisStatsCount < analysisStatsLimit then
    sliceTo stats.analysisStats stats.analysisStatsCount
  else stats.analysisStats

structure PluginStats where
  min : String
  max : String
  mean : String
  median : String
  stdDev : String
  count : String

/-- The functions of `numpy` on an array that is not empty, and `_format_float`. -/
structure ArrayFunctions (α : Type) where
  min : List α → α
  max : List α → α
  mean : List α → α
  median : List α → α
  std : List α → α
  formatFloat : α → String

/-- `get_plugin_stats`. The minimum of an empty array is a `ValueError`. -/
def getPluginStats {α : Type} (numpy : ArrayFunctions α) (analysisStatsLimit : ℕ)
    (stats : DurationStats α) : Option PluginStats :=
  match evaluatedStats analysisStatsLimit stats with
  | [] => none
  | x :: xs =>
    some {
      min := numpy.formatFloat (numpy.min (x :: xs))
      max := numpy.formatFloat (numpy.max (x :: xs))
      mean := numpy.formatFloat (numpy.mean (x :: xs))
      median := numpy.formatFloat (numpy.median (x :: xs))
      stdDev := numpy.formatFloat (numpy.std (x :: xs))
      count := toString stats.analysisStatsCount }

section Durations
variable {α δ : Type} {cFloat : δ → α} {zero : α} {limit : ℕ} {durations : List δ}

/-! ## 2. The ring buffer -/

theorem cInt_eq {n : Int} (hlow : -2 ^ 31 ≤ n) (hhigh : n < 2 ^ 31) : cInt n = n :=
  Int.bmod_eq_of_le (by omega) (by omega)

theorem cInt_lt (n : Int) : cInt n < 2 ^ 31 := by
  have hlt := Int.bmod_lt (x := n) (m := 2 ^ 32) (by decide)
  exact hlt

/-- Recording a duration writes it to the ring buffer. -/
theorem updateDurationStats_ring (cFloat : δ → α) {r : RingBuffer α} {n : ℕ}
    (hlength : r.cells.length = limit) (hindex : r.index ≤ n)
    (hrange : limit < 2 ^ 31 ∨ n + 1 < 2 ^ 31) (duration : δ) :
    updateDurationStats cFloat limit ⟨r.cells, r.index, (min n limit : ℕ)⟩ duration =
      .ok ⟨(r.push (cFloat duration)).cells, (r.push (cFloat duration)).index,
        (min (n + 1) limit : ℕ)⟩ := by
  have hlt : r.index < limit := hlength ▸ r.inRange
  have hset : setArrayItem r.cells (r.index : Int) (cFloat duration) =
      .ok (r.push (cFloat duration)).cells := by
    have hi : (if (r.index : Int) < 0 then (r.index : Int) + r.cells.length else r.index) =
        r.index := if_neg (by omega)
    simp only [setArrayItem, hi]
    rw [if_pos (by omega), Int.toNat_natCast]
    rfl
  have hnext : cInt ((r.index : Int) + 1) = (r.index + 1 : ℕ) := cInt_eq (by omega) (by omega)
  have hpush : (if ((r.index + 1 : ℕ) : Int) ≥ limit then 0 else ((r.index + 1 : ℕ) : Int)) =
      (r.push (cFloat duration)).index := by
    show _ = (((r.index + 1) % r.cells.length : ℕ) : Int)
    rw [hlength]
    split
    · have hlast : r.index + 1 = limit := by omega
      rw [hlast, Nat.mod_self]
      rfl
    · rw [Nat.mod_eq_of_lt (by omega)]
  have hcount : (if ((min n limit : ℕ) : Int) < limit then cInt ((min n limit : ℕ) + 1)
      else ((min n limit : ℕ) : Int)) = (min (n + 1) limit : ℕ) := by
    split
    · rw [cInt_eq (by omega) (by omega)]
      omega
    · omega
  simp only [updateDurationStats, hset, hnext, hpush, hcount]
  rfl

theorem recordDurations_eq (hlimit : 0 < limit)
    (hrange : limit < 2 ^ 31 ∨ durations.length < 2 ^ 31) :
    recordDurations cFloat zero limit durations =
      .ok ⟨((RingBuffer.replicate limit hlimit zero).pushAll (durations.map cFloat)).cells,
        ((RingBuffer.replicate limit hlimit zero).pushAll (durations.map cFloat)).index,
        (min durations.length limit : ℕ)⟩ := by
  induction durations using List.reverseRecOn with
  | nil => simp [recordDurations, newDurationStats, RingBuffer.pushAll, RingBuffer.replicate]; rfl
  | append_singleton durations duration ih =>
    rw [List.length_append, List.length_singleton] at hrange
    have hlength : ((RingBuffer.replicate limit hlimit zero).pushAll
        (durations.map cFloat)).cells.length = limit :=
      (RingBuffer.length_pushAll _).trans List.length_replicate
    have hindex : ((RingBuffer.replicate limit hlimit zero).pushAll
        (durations.map cFloat)).index ≤ durations.length := by
      rw [RingBuffer.index_pushAll, List.length_map]
      exact (Nat.mod_le _ _).trans_eq (Nat.zero_add _)
    have hstep := updateDurationStats_ring cFloat hlength hindex hrange duration
    have hpush : (RingBuffer.replicate limit hlimit zero).pushAll
        ((durations ++ [duration]).map cFloat) =
          ((RingBuffer.replicate limit hlimit zero).pushAll (durations.map cFloat)).push
            (cFloat duration) := by
      rw [List.map_append, RingBuffer.pushAll, List.foldl_append]
      rfl
    rw [recordDurations, List.foldlM_append, ← recordDurations, ih (by omega), hpush,
      List.length_append]
    show (updateDurationStats cFloat limit _ duration >>= pure) = _
    rw [hstep]
    rfl

theorem count_lt {stats : DurationStats α}
    (h : recordDurations cFloat zero limit durations = .ok stats) :
    stats.analysisStatsCount < 2 ^ 31 := by
  induction durations using List.reverseRecOn generalizing stats with
  | nil =>
    cases h
    show (0 : Int) < 2 ^ 31
    decide
  | append_singleton durations duration ih =>
    rw [recordDurations, List.foldlM_append, ← recordDurations] at h
    obtain ⟨before, hbefore, hlast⟩ := except_bind_eq_ok h
    obtain ⟨after, hafter, hpure⟩ := except_bind_eq_ok hlast
    cases hpure
    obtain ⟨analysisStats, -, hreturn⟩ := except_bind_eq_ok hafter
    cases hreturn
    show (if before.analysisStatsCount < limit then cInt (before.analysisStatsCount + 1)
      else before.analysisStatsCount) < 2 ^ 31
    split
    · exact cInt_lt _
    · exact ih hbefore

/-! ## 3. The last durations -/

/-- The evaluated part of the array is the last durations that were recorded. -/
structure HoldsLast (cFloat : δ → α) (limit : ℕ) (durations : List δ)
    (stats : DurationStats α) : Prop where
  index : 0 ≤ stats.analysisStatsIndex ∧ stats.analysisStatsIndex < limit
  count : stats.analysisStatsCount = min durations.length limit
  evaluated : (evaluatedStats limit stats).Perm
    ((durations.drop (durations.length - min durations.length limit)).map cFloat)

theorem holdsLast_ring (hlimit : 0 < limit) (durations : List δ) :
    HoldsLast cFloat limit durations
      ⟨((RingBuffer.replicate limit hlimit zero).pushAll (durations.map cFloat)).cells,
        ((RingBuffer.replicate limit hlimit zero).pushAll (durations.map cFloat)).index,
        (min durations.length limit : ℕ)⟩ := by
  have hlength : ((RingBuffer.replicate limit hlimit zero).pushAll
      (durations.map cFloat)).cells.length = limit :=
    (RingBuffer.length_pushAll _).trans List.length_replicate
  have hindex := ((RingBuffer.replicate limit hlimit zero).pushAll (durations.map cFloat)).inRange
  rw [hlength] at hindex
  refine ⟨⟨Int.natCast_nonneg _, Int.ofNat_lt.mpr hindex⟩, rfl, ?_⟩
  dsimp only [evaluatedStats]
  rcases Nat.lt_or_ge durations.length limit with hfront | hfull
  · have hmap : (durations.map cFloat).length < limit := by rwa [List.length_map]
    have htake := RingBuffer.take_pushAll hlimit zero hmap
    rw [List.length_map] at htake
    rw [if_pos (by omega), Nat.min_eq_left hfront.le, Nat.sub_self, List.drop_zero, sliceTo,
      if_neg (by omega), Int.toNat_natCast, htake]
  · have hmap : limit ≤ (durations.map cFloat).length := by rwa [List.length_map]
    have hperm := RingBuffer.perm_pushAll hlimit zero hmap
    rw [List.length_map] at hperm
    rw [if_neg (by omega), Nat.min_eq_right hfull, List.map_drop]
    exact hperm

/-- The array holds the last durations as long as an `int` can count them. -/
theorem recordDurations_iff (cFloat : δ → α) (zero : α) (hlimit : 0 < limit) (durations : List δ) :
    (∃ stats, recordDurations cFloat zero limit durations = .ok stats ∧
        HoldsLast cFloat limit durations stats) ↔
      limit < 2 ^ 31 ∨ durations.length < 2 ^ 31 := by
  constructor
  · intro h
    obtain ⟨stats, hstats, hholds⟩ := h
    have hcount := count_lt hstats
    rw [hholds.count] at hcount
    omega
  · intro h
    exact ⟨_, recordDurations_eq hlimit h, holdsLast_ring hlimit durations⟩

/-- A plugin has statistics as soon as it has recorded a duration. -/
theorem getPluginStats_eq_none_iff {numpy : ArrayFunctions α} {stats : DurationStats α}
    (hlimit : 0 < limit) (h : HoldsLast cFloat limit durations stats) :
    getPluginStats numpy limit stats = none ↔ durations = [] := by
  have hevaluated : evaluatedStats limit stats = [] ↔ durations = [] := by
    have hlength := h.evaluated.length_eq
    rw [List.length_map, List.length_drop] at hlength
    rw [← List.length_eq_zero_iff, ← List.length_eq_zero_iff, hlength]
    omega
  rw [← hevaluated, getPluginStats]
  cases evaluatedStats limit stats <;> simp

end Durations

/-- Five durations in an array of three entries. -/
theorem recordDurations_wraps :
    ∃ stats, recordDurations (id : ℕ → ℕ) 0 3 [5, 6, 7, 8, 9] = .ok stats ∧
      HoldsLast id 3 [5, 6, 7, 8, 9] stats :=
  (recordDurations_iff id 0 (by decide) [5, 6, 7, 8, 9]).mpr (.inl (by decide))

/-- As many durations as an `int` cannot count. -/
theorem count_overflows :
    ¬∀ limit : ℕ, 0 < limit → ∀ durations : List ℕ,
      ∃ stats, recordDurations id 0 limit durations = .ok stats ∧
        HoldsLast id limit durations stats := by
  intro h
  obtain ⟨stats, hstats, hholds⟩ := h (2 ^ 31) (by decide) (List.replicate (2 ^ 31) 0)
  have hcount := count_lt hstats
  rw [hholds.count, List.length_replicate, Nat.min_self] at hcount
  exact absurd hcount (by decide)

end FactCore
