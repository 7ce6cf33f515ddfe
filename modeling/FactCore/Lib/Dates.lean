import FactCore.Lib.PyText
import FactCore.Lib.Separator
import Mathlib.Tactic.IntervalCases

/-!
# Calendar dates

A date is one of the Gregorian calendar, with the years that Python's `date` has. `strptime` reads
it from a text in the format `%Y-%m-%d`, which is less strict than ISO 8601: leading zeros of the
month and the day may be missing, and the digits may be of any script.

Result:
1. `strptime_iso`: the text of a date is read back.
-/

namespace FactCore

/-! ## 1. Dates -/

/-- `calendar.isleap`. -/
def isLeap (year : Nat) : Bool :=
  decide (year % 4 = 0 ∧ (year % 100 ≠ 0 ∨ year % 400 = 0))

/-- The number of days of a month. -/
def daysInMonth (year month : Nat) : Nat :=
  if month = 2 then if isLeap year then 29 else 28
  else if month ∈ [4, 6, 9, 11] then 30 else 31

/-- The numbers that the constructor of `date` takes. -/
structure IsDate (y m d : Nat) : Prop where
  year : 1 ≤ y ∧ y ≤ 9999
  month : 1 ≤ m ∧ m ≤ 12
  day : 1 ≤ d ∧ d ≤ daysInMonth y m

instance (y m d : Nat) : Decidable (IsDate y m d) :=
  decidable_of_iff ((1 ≤ y ∧ y ≤ 9999) ∧ (1 ≤ m ∧ m ≤ 12) ∧ 1 ≤ d ∧ d ≤ daysInMonth y m)
    ⟨fun h => ⟨h.1, h.2.1, h.2.2⟩, fun h => ⟨h.year, h.month, h.day⟩⟩

/-- A calendar date. -/
structure Date where
  year : Nat
  month : Nat
  day : Nat
  valid : IsDate year month day
  deriving DecidableEq

/-- A number below 100 with two digits. -/
def twoDigits (n : Nat) : List Char := [Nat.digitChar (n / 10), Nat.digitChar (n % 10)]

/-- A number below 10000 with four digits. -/
def fourDigits (n : Nat) : List Char :=
  [Nat.digitChar (n / 1000), Nat.digitChar (n / 100 % 10), Nat.digitChar (n / 10 % 10),
    Nat.digitChar (n % 10)]

namespace Date

theorem day_le (d : Date) : d.day ≤ 31 := by
  refine Nat.le_trans d.valid.day.2 ?_
  unfold daysInMonth
  split_ifs <;> decide

/-- `strftime('%Y-%m-%d')`. -/
def iso (d : Date) : String :=
  String.ofList (List.intercalate ['-'] [fourDigits d.year, twoDigits d.month, twoDigits d.day])

end Date

/-! ## 2. Reading a date -/

/-- A character of `[1-9]`. -/
def nonZeroDigit? (c : Char) : Option Nat :=
  if '1' ≤ c ∧ c ≤ '9' then some (c.toNat - '0'.toNat) else none

/-- `%Y` of `strptime`: the expression `\d\d\d\d`. -/
def readYear (table : DecimalTable) : List Char → Option Nat
  | [a, b, c, d] => do
    let thousands ← table.value a
    let hundreds ← table.value b
    let tens ← table.value c
    let ones ← table.value d
    return 1000 * thousands + 100 * hundreds + 10 * tens + ones
  | _ => none

/-- `%m` of `strptime`: the expression `1[0-2]|0[1-9]|[1-9]`. -/
def readMonth : List Char → Option Nat
  | ['1', c] => if '0' ≤ c ∧ c ≤ '2' then some (10 + (c.toNat - '0'.toNat)) else none
  | ['0', c] => nonZeroDigit? c
  | [c] => nonZeroDigit? c
  | _ => none

/-- `%d` of `strptime`: the expression `3[0-1]|[1-2]\d|0[1-9]|[1-9]| [1-9]`. -/
def readDay (table : DecimalTable) : List Char → Option Nat
  | ['3', c] => if c = '0' ∨ c = '1' then some (30 + (c.toNat - '0'.toNat)) else none
  | ['2', c] => (table.value c).map (20 + ·)
  | ['1', c] => (table.value c).map (10 + ·)
  | ['0', c] => nonZeroDigit? c
  | [' ', c] => nonZeroDigit? c
  | [c] => nonZeroDigit? c
  | _ => none

/-- `datetime.strptime(text, '%Y-%m-%d')`, `none` where it raises a `ValueError`: the text does not
have the format, or the numbers are not those of a date. -/
def strptime (table : DecimalTable) (text : String) : Option Date :=
  match text.toList.splitOn '-' with
  | [y, m, d] => do
    let year ← readYear table y
    let month ← readMonth m
    let day ← readDay table d
    if h : IsDate year month day then some ⟨year, month, day, h⟩ else none
  | _ => none

section Iso
variable {table : DecimalTable} {n : Nat}

theorem DecimalTable.value_digitChar (table : DecimalTable) (h : n < 10) :
    table.value (Nat.digitChar n) = some n := by
  have hascii : (Nat.digitChar n).toNat < 128 ∧ (Nat.digitChar n).isDigit = true ∧
      (Nat.digitChar n).toNat - '0'.toNat = n := by
    interval_cases n <;> decide
  rw [table.value_ascii _ hascii.1, if_pos hascii.2.1, hascii.2.2]

theorem readYear_fourDigits (h : n ≤ 9999) : readYear table (fourDigits n) = some n := by
  rw [fourDigits, readYear, table.value_digitChar (by omega), table.value_digitChar (by omega),
    table.value_digitChar (by omega), table.value_digitChar (by omega)]
  exact congrArg some (by omega)

theorem readMonth_twoDigits (h : 1 ≤ n ∧ n ≤ 12) : readMonth (twoDigits n) = some n := by
  obtain ⟨hlow, hhigh⟩ := h
  interval_cases n <;> decide

theorem readDay_twoDigits (h : 1 ≤ n ∧ n ≤ 31) : readDay table (twoDigits n) = some n := by
  have hones := table.value_digitChar (Nat.mod_lt n (by decide : 0 < 10))
  have htens : n / 10 = 0 ∨ n / 10 = 1 ∨ n / 10 = 2 ∨ n / 10 = 3 := by omega
  rw [twoDigits]
  rcases htens with h0 | h1 | h2 | h3
  · -- a leading zero
    obtain ⟨hlow, hhigh⟩ : 1 ≤ n ∧ n ≤ 9 := by omega
    interval_cases n <;> rfl
  · have hsum : 10 + n % 10 = n := by omega
    rw [h1]
    show (table.value (Nat.digitChar (n % 10))).map (10 + ·) = some n
    rw [hones, Option.map_some, hsum]
  · have hsum : 20 + n % 10 = n := by omega
    rw [h2]
    show (table.value (Nat.digitChar (n % 10))).map (20 + ·) = some n
    rw [hones, Option.map_some, hsum]
  · obtain ⟨hlow, hhigh⟩ : 30 ≤ n ∧ n ≤ 31 := by omega
    interval_cases n <;> rfl

theorem digitChar_ne_hyphen (h : n < 10) : Nat.digitChar n ≠ '-' := by
  interval_cases n <;> decide

theorem hyphen_not_mem_twoDigits (h : n < 100) : '-' ∉ twoDigits n := by
  have htens := digitChar_ne_hyphen (show n / 10 < 10 by omega)
  have hones := digitChar_ne_hyphen (Nat.mod_lt n (by decide : 0 < 10))
  simp [twoDigits, htens.symm, hones.symm]

theorem hyphen_not_mem_fourDigits (h : n ≤ 9999) : '-' ∉ fourDigits n := by
  have hne : ∀ k < 10, '-' ≠ Nat.digitChar k := fun k hk => (digitChar_ne_hyphen hk).symm
  simp only [fourDigits, List.mem_cons, List.not_mem_nil, or_false, not_or]
  exact ⟨hne _ (by omega), hne _ (by omega), hne _ (by omega), hne _ (by omega)⟩

/-- The text of a date is read back. -/
theorem strptime_iso (table : DecimalTable) (d : Date) : strptime table d.iso = some d := by
  have hyear := d.valid.year.2
  have hmonth := d.valid.month
  have hday : 1 ≤ d.day ∧ d.day ≤ 31 := ⟨d.valid.day.1, d.day_le⟩
  have hparts : d.iso.toList.splitOn '-' =
      [fourDigits d.year, twoDigits d.month, twoDigits d.day] := by
    rw [Date.iso, String.toList_ofList]
    refine List.splitOn_intercalate '-' (fun part hpart => ?_) (List.cons_ne_nil _ _)
    rcases List.mem_cons.mp hpart with rfl | hpart
    · exact hyphen_not_mem_fourDigits hyear
    · rcases List.mem_cons.mp hpart with rfl | hpart
      · exact hyphen_not_mem_twoDigits (by omega)
      · rw [List.mem_singleton.mp hpart]
        exact hyphen_not_mem_twoDigits (by omega)
  simp only [strptime, hparts, readYear_fourDigits hyear, readMonth_twoDigits hmonth,
    readDay_twoDigits hday, Option.bind_eq_bind, Option.bind_some, dif_pos d.valid]

-- the format is looser than ISO 8601, and a day has to exist
example : (strptime asciiDigits "1970-1-01").isSome = true ∧
    strptime asciiDigits "01.01.1970" = none ∧ strptime asciiDigits "1970-02-29" = none := by decide

end Iso

end FactCore
