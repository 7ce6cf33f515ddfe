import Mathlib.Data.List.Basic

/-!
# Decimal numbers

A text of decimal digits and its value. `Nat.ofDigitChars` reads the digits.
-/

/-- The value of a text that consists of decimal digits. -/
def decimal? (text : String) : Option Nat :=
  if text.toList ≠ [] ∧ text.toList.all Char.isDigit then
    some (Nat.ofDigitChars 10 text.toList 0)
  else none

/-- A number is printed with the digits of its base. -/
theorem exists_digitChar_of_mem_toDigits {b n : Nat} (hb : 1 < b) {c : Char}
    (h : c ∈ Nat.toDigits b n) : ∃ d < b, c = Nat.digitChar d := by
  induction n using Nat.base_induction b hb with
  | single d hd =>
    rw [Nat.toDigits_of_lt_base hd] at h
    exact ⟨d, hd, List.mem_singleton.mp h⟩
  | digit n d hd hn ih =>
    rw [← Nat.toDigits_append_toDigits hb hn hd, Nat.toDigits_of_lt_base hd] at h
    rcases List.mem_append.mp h with h | h
    · exact ih h
    · exact ⟨d, hd, List.mem_singleton.mp h⟩

theorem decimal?_repr (n : Nat) : decimal? n.repr = some n := by
  have hdigits : (Nat.toDigits 10 n).all Char.isDigit = true :=
    List.all_eq_true.mpr fun c hc => Nat.isDigit_of_mem_toDigits (by decide) (by decide) hc
  rw [decimal?, Nat.toList_repr, if_pos ⟨Nat.toDigits_ne_nil, hdigits⟩,
    Nat.ofDigitChars_ten_toDigits]

theorem repr_injective {m n : Nat} (h : m.repr = n.repr) : m = n :=
  Option.some.inj ((decimal?_repr m).symm.trans (h ▸ decimal?_repr n))

theorem not_mem_repr_of_not_isDigit {c : Char} (h : c.isDigit = false) (n : Nat) :
    c ∉ n.repr.toList := by
  intro hmem
  rw [Nat.toList_repr] at hmem
  rw [Nat.isDigit_of_mem_toDigits (by decide) (by decide) hmem] at h
  cases h

theorem toList_toString_negSucc (n : Nat) :
    (toString (Int.negSucc n)).toList = '-' :: (n + 1).repr.toList := by
  show ("-" ++ (n + 1).repr).toList = _
  rw [String.toList_append]
  rfl

/-- An integer is printed with digits and a sign. -/
theorem not_mem_toString_of_not_isDigit {c : Char} (h : c.isDigit = false) (hsign : c ≠ '-')
    (n : Int) : c ∉ (toString n).toList := by
  cases n with
  | ofNat n => exact not_mem_repr_of_not_isDigit h n
  | negSucc n =>
    intro hmem
    rw [toList_toString_negSucc] at hmem
    rcases List.mem_cons.mp hmem with heq | hmem
    · exact hsign heq
    · exact not_mem_repr_of_not_isDigit h (n + 1) hmem

theorem toString_injective {m n : Int} (h : toString m = toString n) : m = n := by
  have hsign : ∀ a b : Nat, toString (Int.ofNat a) ≠ toString (Int.negSucc b) := by
    intro a b heq
    have hmem : '-' ∈ a.repr.toList := by
      show '-' ∈ (toString (Int.ofNat a)).toList
      rw [heq, toList_toString_negSucc]
      exact List.mem_cons_self
    exact not_mem_repr_of_not_isDigit rfl a hmem
  cases m with
  | ofNat a =>
    cases n with
    | ofNat b => exact congrArg Int.ofNat (repr_injective h)
    | negSucc b => exact absurd h (hsign a b)
  | negSucc a =>
    cases n with
    | ofNat b => exact absurd h.symm (hsign b a)
    | negSucc b =>
      have hchars := congrArg String.toList h
      rw [toList_toString_negSucc, toList_toString_negSucc] at hchars
      have heq := repr_injective (String.toList_injective (List.cons.inj hchars).2)
      rw [Nat.succ.inj heq]
