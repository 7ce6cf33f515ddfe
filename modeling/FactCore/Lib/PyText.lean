import FactCore.Lib.Decimal
import FactCore.Lib.MapM
import Mathlib.Data.List.DropRight
import Mathlib.Data.List.TakeWhile

/-!
# Python strings

`str.strip` takes the whitespace away at both ends, what counts as whitespace being a matter of
the single character. `str.splitlines` knows more line breaks than the newline, and `int` reads
more than what `str` prints for a number.

Results:
1. `strip_eq_self`, `strip_rdropWhile`: what `strip` leaves.
2. `splitLines_append_cons`: a line without line breaks is a line of its own.
3. `int?_repr`: a number that was printed is read back.
-/

namespace FactCore

/-- The characters that `str.strip` removes. -/
def isWhitespace (c : Char) : Bool :=
  let n := c.toNat
  decide ((9 ≤ n ∧ n ≤ 13) ∨ (28 ≤ n ∧ n ≤ 32) ∨ n = 0x85 ∨ n = 0xA0 ∨ n = 0x1680 ∨
    (0x2000 ≤ n ∧ n ≤ 0x200A) ∨ n = 0x2028 ∨ n = 0x2029 ∨ n = 0x202F ∨ n = 0x205F ∨ n = 0x3000)

/-- `str.strip()`. -/
def strip (s : String) : String :=
  String.ofList ((s.toList.dropWhile isWhitespace).reverse.dropWhile isWhitespace).reverse

section Strip
variable {s : String}

theorem dropWhile_eq_self_of_head {α : Type} {p : α → Bool} {xs : List α}
    (h : ∀ x, xs.head? = some x → p x = false) : xs.dropWhile p = xs := by
  cases xs with
  | nil => rfl
  | cons x xs => simp [h x rfl]

/-- A string that neither begins nor ends with whitespace is left alone. -/
theorem strip_eq_self (hfirst : ∀ c, s.toList.head? = some c → isWhitespace c = false)
    (hlast : ∀ c, s.toList.getLast? = some c → isWhitespace c = false) : strip s = s := by
  have hrev : ∀ c, s.toList.reverse.head? = some c → isWhitespace c = false := by
    intro c hc
    exact hlast c (List.head?_reverse ▸ hc)
  rw [strip, dropWhile_eq_self_of_head hfirst, dropWhile_eq_self_of_head hrev, List.reverse_reverse,
    String.ofList_toList]

theorem toList_strip (s : String) :
    (strip s).toList = (s.toList.dropWhile isWhitespace).rdropWhile isWhitespace := by
  rw [strip, String.toList_ofList]
  rfl

theorem rdropWhile_append {α : Type} (p : α → Bool) (xs ys : List α) :
    (xs ++ ys).rdropWhile p =
      if ys.rdropWhile p = [] then xs.rdropWhile p else xs ++ ys.rdropWhile p := by
  simp only [List.rdropWhile, List.reverse_append, List.dropWhile_append, List.isEmpty_iff,
    List.reverse_eq_nil_iff]
  split
  · rfl
  · rw [List.reverse_append, List.reverse_reverse]

/-- The two ends do not depend on each other. -/
theorem dropWhile_rdropWhile {α : Type} (p : α → Bool) (xs : List α) :
    (xs.rdropWhile p).dropWhile p = (xs.dropWhile p).rdropWhile p := by
  induction xs with
  | nil => rfl
  | cons x xs ih =>
    have hcons := rdropWhile_append p [x] xs
    rw [List.singleton_append] at hcons
    cases hx : p x with
    | true =>
      rw [List.dropWhile_cons_of_pos hx, ← ih, hcons]
      split
      · next hnil => simp [hnil, List.rdropWhile_singleton, hx]
      · rw [List.singleton_append, List.dropWhile_cons_of_pos hx]
    | false =>
      have hne : ¬ p x = true := by simp [hx]
      rw [List.dropWhile_cons_of_neg hne, hcons]
      split
      · simp [List.rdropWhile_singleton, hx]
      · rw [List.singleton_append, List.dropWhile_cons_of_neg hne]

theorem dropWhile_rdropWhile_eq_self {α : Type} {p : α → Bool} {xs : List α}
    (hfirst : ∀ x, xs.head? = some x → p x = false)
    (hlast : ∀ x, xs.getLast? = some x → p x = false) :
    (xs.dropWhile p).rdropWhile p = xs := by
  rw [dropWhile_eq_self_of_head hfirst, List.rdropWhile_eq_self_iff]
  intro hne
  rw [hlast _ (List.getLast?_eq_some_getLast hne)]
  exact Bool.false_ne_true

/-- An element at both ends that is taken away. -/
theorem dropWhile_rdropWhile_quoted {α : Type} {p : α → Bool} {q : α} (h : p q = true)
    (xs : List α) :
    ((q :: (xs ++ [q])).dropWhile p).rdropWhile p = (xs.dropWhile p).rdropWhile p := by
  rw [List.dropWhile_cons_of_pos h, ← dropWhile_rdropWhile, List.rdropWhile_concat_pos _ _ _ h,
    dropWhile_rdropWhile]

theorem count_dropWhile {α : Type} [BEq α] [LawfulBEq α] {p : α → Bool} {x : α} (h : p x = false)
    (xs : List α) : (xs.dropWhile p).count x = xs.count x := by
  induction xs with
  | nil => rfl
  | cons y xs ih =>
    cases hy : p y with
    | true =>
      have hne : ¬(y == x) = true := by
        intro heq
        rw [eq_of_beq heq, h] at hy
        cases hy
      rw [List.dropWhile_cons_of_pos hy, ih, List.count_cons, if_neg hne, Nat.add_zero]
    | false => rw [List.dropWhile_cons_of_neg (by simp [hy])]

/-- Other elements are not taken away. -/
theorem count_dropWhile_rdropWhile {α : Type} [BEq α] [LawfulBEq α] {p : α → Bool} {x : α}
    (h : p x = false) (xs : List α) : ((xs.dropWhile p).rdropWhile p).count x = xs.count x := by
  rw [List.rdropWhile, List.count_reverse, count_dropWhile h, List.count_reverse, count_dropWhile h]

/-- What is left has neither end. -/
theorem ends_dropWhile_rdropWhile {α : Type} {p : α → Bool} {xs : List α} {x : α}
    (h : ((xs.dropWhile p).rdropWhile p).head? = some x ∨
      ((xs.dropWhile p).rdropWhile p).getLast? = some x) : p x = false := by
  rcases h with h | h
  · rw [← dropWhile_rdropWhile] at h
    have hhead := List.head?_dropWhile_not p (xs.rdropWhile p)
    rw [h] at hhead
    exact hhead
  · have hne : (xs.dropWhile p).rdropWhile p ≠ [] := by
      intro hnil
      rw [hnil] at h
      cases h
    have hlast := List.rdropWhile_last_not p _ hne
    rw [List.getLast?_eq_some_getLast hne] at h
    cases h
    exact Bool.eq_false_iff.mpr hlast

/-- Whitespace at the end may be gone already. -/
theorem strip_rdropWhile (xs : List Char) :
    strip (String.ofList (xs.rdropWhile isWhitespace)) = strip (String.ofList xs) := by
  rw [← String.toList_inj, toList_strip, toList_strip, String.toList_ofList, String.toList_ofList,
    dropWhile_rdropWhile, List.rdropWhile_idempotent]

theorem strip_cons_of_isWhitespace {c : Char} (h : isWhitespace c = true) (xs : List Char) :
    strip (String.ofList (c :: xs)) = strip (String.ofList xs) := by
  rw [← String.toList_inj, toList_strip, toList_strip, String.toList_ofList, String.toList_ofList,
    List.dropWhile_cons_of_pos h]

end Strip

/-! ## Lines -/

/-- The characters at which `str.splitlines` ends a line. -/
def isLineBreak (c : Char) : Bool :=
  let n := c.toNat
  decide ((10 ≤ n ∧ n ≤ 13) ∨ (28 ≤ n ∧ n ≤ 30) ∨ n = 0x85 ∨ n = 0x2028 ∨ n = 0x2029)

/-- `str.splitlines()`. -/
def splitLines : List Char → List (List Char)
  | [] => []
  | '\r' :: '\n' :: cs => [] :: splitLines cs
  | c :: cs =>
    if isLineBreak c then [] :: splitLines cs
    else
      match splitLines cs with
      | [] => [[c]]
      | line :: lines => (c :: line) :: lines

theorem splitLines_cons_of_isLineBreak {c : Char} (h : isLineBreak c = true) (cs : List Char) :
    splitLines (c :: cs) = [] :: (splitLines (c :: cs)).tail := by
  rw [splitLines.eq_def]
  split
  · next heq => cases heq
  · rfl
  · next heq =>
    cases heq
    rw [if_pos h]
    rfl

theorem splitLines_cons_of_not_isLineBreak {c : Char} (h : isLineBreak c = false)
    (cs : List Char) :
    splitLines (c :: cs) = (c :: (splitLines cs).headD []) :: (splitLines cs).tail := by
  rw [splitLines.eq_def]
  split
  · next heq => cases heq
  · next heq =>
    cases heq
    cases h
  · next heq =>
    cases heq
    rw [if_neg (by simp [h])]
    cases splitLines cs <;> rfl

/-- What stands before a line break is a line. -/
theorem splitLines_append_cons {xs : List Char} (h : ∀ c ∈ xs, isLineBreak c = false) {b : Char}
    (hb : isLineBreak b = true) (ys : List Char) :
    splitLines (xs ++ b :: ys) = xs :: (splitLines (b :: ys)).tail := by
  induction xs with
  | nil => exact splitLines_cons_of_isLineBreak hb ys
  | cons x xs ih =>
    rw [List.forall_mem_cons] at h
    rw [List.cons_append, splitLines_cons_of_not_isLineBreak h.1, ih h.2]
    rfl

theorem splitLines_newline (cs : List Char) : splitLines ('\n' :: cs) = [] :: splitLines cs := by
  rw [splitLines.eq_def]
  rfl

/-! ## Numbers -/

/-- The values of the decimal digits. Beyond ASCII the table is left open. -/
structure DecimalTable where
  value : Char → Option Nat
  value_ascii : ∀ c, c.toNat < 128 →
    value c = if c.isDigit then some (c.toNat - '0'.toNat) else none

/-- The table that knows no digit beyond ASCII. -/
def asciiDigits : DecimalTable where
  value c := if c.isDigit then some (c.toNat - '0'.toNat) else none
  value_ascii _ _ := rfl

/-- The digits that `int` reads, with single underscores between them. -/
def digits? (table : DecimalTable) (digits : List Char) : Option Nat :=
  let groups := digits.splitOn '_'
  if [] ∈ groups then none
  else (groups.flatten.mapM table.value).map (List.foldl (fun n d => 10 * n + d) 0)

/-- `int(text)`, `none` where it raises a `ValueError`. -/
def int? (table : DecimalTable) (text : String) : Option Int :=
  match (strip text).toList with
  | '-' :: digits => (digits? table digits).map fun n => -(n : Int)
  | '+' :: digits => (digits? table digits).map Int.ofNat
  | digits => (digits? table digits).map Int.ofNat

theorem isWhitespace_of_isDigit {c : Char} (h : c.isDigit = true) : isWhitespace c = false := by
  obtain ⟨hlow, hhigh⟩ := Char.isDigit_iff_toNat.mp h
  have h48 : 48 ≤ c.toNat := hlow
  have h57 : c.toNat ≤ 57 := hhigh
  exact decide_eq_false (by omega)

theorem digits?_of_isDigit {table : DecimalTable} {digits : List Char} (hne : digits ≠ [])
    (h : ∀ c ∈ digits, c.isDigit = true) :
    digits? table digits = some (Nat.ofDigitChars 10 digits 0) := by
  have hgroups : digits.splitOn '_' = [digits] :=
    List.splitOn_eq_singleton fun hmem => by cases h _ hmem
  have hvalue : digits.mapM table.value = some (digits.map fun c => c.toNat - '0'.toNat) := by
    refine option_mapM_eq_map fun c hc => ?_
    have hascii : c.toNat < 128 :=
      lt_of_le_of_lt (Char.isDigit_iff_toNat.mp (h c hc)).2 (by decide)
    rw [table.value_ascii c hascii, if_pos (h c hc)]
  rw [digits?, hgroups]
  simp only [List.mem_singleton, hne.symm, if_false, List.flatten_singleton, hvalue, Option.map_some,
    List.foldl_map, Nat.ofDigitChars_eq_foldl]

/-- A number that was printed is read back. -/
theorem int?_repr (table : DecimalTable) (n : Nat) : int? table n.repr = some (n : Int) := by
  have hdigits : ∀ c ∈ n.repr.toList, c.isDigit = true := by
    intro c hc
    rw [Nat.toList_repr] at hc
    exact Nat.isDigit_of_mem_toDigits (by decide) (by decide) hc
  have hne : n.repr.toList ≠ [] := by
    rw [Nat.toList_repr]
    exact Nat.toDigits_ne_nil
  have hstrip : strip n.repr = n.repr :=
    strip_eq_self
      (fun c hc => isWhitespace_of_isDigit (hdigits c (List.mem_of_mem_head? hc)))
      (fun c hc => isWhitespace_of_isDigit (hdigits c (List.mem_of_getLast? hc)))
  have hvalue : digits? table n.repr.toList = some n := by
    rw [digits?_of_isDigit hne hdigits, Nat.toList_repr, Nat.ofDigitChars_ten_toDigits]
  rw [int?, hstrip]
  split
  · next heq => cases hdigits '-' (heq ▸ List.mem_cons_self)
  · next heq => cases hdigits '+' (heq ▸ List.mem_cons_self)
  · rw [hvalue]
    rfl

end FactCore
