import Mathlib.Data.String.Basic

/-!
# UTF-8 with replacement characters

Bytes are read as text without an error. What is no character is replaced: the bytes of a
character up to the first one that does not belong to it become one replacement character, and so
does a byte that does not start a character.

Result: `decodeReplace_eq_empty_iff`. No text is lost: only the empty byte string is read as the
empty text.
-/

/-- A character whose last bytes are missing: the bits that were read, the number of bytes that
follow, and the bounds of the next one. -/
structure PartialChar where
  bits : Nat
  missing : Nat
  low : UInt8
  high : UInt8

namespace PartialChar

/-- The first byte of a character with several bytes. The bounds leave out surrogates, numbers that
are too large, and characters that fit into fewer bytes. -/
def start (b : UInt8) : Option PartialChar :=
  if b = 0xE0 then some ⟨0, 2, 0xA0, 0xBF⟩
  else if b = 0xED then some ⟨0xD, 2, 0x80, 0x9F⟩
  else if b = 0xF0 then some ⟨0, 3, 0x90, 0xBF⟩
  else if b = 0xF4 then some ⟨4, 3, 0x80, 0x8F⟩
  else if 0xC2 ≤ b ∧ b ≤ 0xDF then some ⟨b.toNat - 0xC0, 1, 0x80, 0xBF⟩
  else if 0xE0 ≤ b ∧ b ≤ 0xEF then some ⟨b.toNat - 0xE0, 2, 0x80, 0xBF⟩
  else if 0xF0 ≤ b ∧ b ≤ 0xF4 then some ⟨b.toNat - 0xF0, 3, 0x80, 0xBF⟩
  else none

/-- A byte that starts a character: what is read, and the character that is not complete. -/
def first (b : UInt8) : List Char × Option PartialChar :=
  if b < 0x80 then ([Char.ofNat b.toNat], none)
  else match start b with
    | some p => ([], some p)
    | none => (['\uFFFD'], none)

/-- One byte. -/
def step : Option PartialChar → UInt8 → List Char × Option PartialChar
  | none, b => first b
  | some p, b =>
    if p.low ≤ b ∧ b ≤ p.high then
      let bits := p.bits * 64 + (b.toNat - 0x80)
      if p.missing = 1 then ([Char.ofNat bits], none)
      else ([], some ⟨bits, p.missing - 1, 0x80, 0xBF⟩)
    else ('\uFFFD' :: (first b).1, (first b).2)

/-- All bytes, from the character on that is not complete. -/
def decode : Option PartialChar → List UInt8 → List Char
  | none, [] => []
  | some _, [] => ['\uFFFD']
  | p, b :: bytes => (step p b).1 ++ decode (step p b).2 bytes

/-- Nothing is read only when a character is not complete. -/
theorem first_fst_eq_nil {b : UInt8} (h : (first b).1 = []) : (first b).2.isSome := by
  rw [first] at h ⊢
  split at h
  · cases h
  · next hb =>
    rw [if_neg hb]
    split at h
    · rfl
    · cases h

theorem step_fst_eq_nil {p : Option PartialChar} {b : UInt8} (h : (step p b).1 = []) :
    (step p b).2.isSome := by
  cases p with
  | none => exact first_fst_eq_nil h
  | some p =>
    rw [step] at h ⊢
    split at h
    · next hb =>
      rw [if_pos hb]
      split at h
      · cases h
      · next hmissing =>
        rw [if_neg hmissing]
        rfl
    · cases h

/-- A character that is not complete is read as something. -/
theorem decode_some_ne_nil (p : PartialChar) (bytes : List UInt8) : decode (some p) bytes ≠ [] := by
  induction bytes generalizing p with
  | nil => exact List.cons_ne_nil _ _
  | cons b bytes ih =>
    intro hnil
    rw [decode, List.append_eq_nil_iff] at hnil
    obtain ⟨p', hp'⟩ := Option.isSome_iff_exists.mp (step_fst_eq_nil hnil.1)
    rw [hp'] at hnil
    exact ih p' hnil.2

end PartialChar

/-- `bytes.decode(errors='replace')`. -/
def decodeReplace (bytes : List UInt8) : String := String.ofList (PartialChar.decode none bytes)

/-- Only the empty byte string is read as the empty text. -/
theorem decodeReplace_eq_empty_iff {bytes : List UInt8} : decodeReplace bytes = "" ↔ bytes = [] := by
  have hempty : decodeReplace bytes = "" ↔ PartialChar.decode none bytes = [] := by
    rw [decodeReplace, ← String.ofList_nil, String.ofList_inj]
  rw [hempty]
  cases bytes with
  | nil => exact iff_of_true rfl rfl
  | cons b bytes =>
    refine iff_of_false (fun hnil => ?_) (List.cons_ne_nil b bytes)
    rw [PartialChar.decode, List.append_eq_nil_iff] at hnil
    obtain ⟨p, hp⟩ := Option.isSome_iff_exists.mp (PartialChar.step_fst_eq_nil hnil.1)
    rw [hp] at hnil
    exact PartialChar.decode_some_ne_nil p bytes hnil.2

example : decodeReplace [0x61, 0xC3, 0xA4, 0xED, 0xA0, 0xE2, 0x82] = "aä\uFFFD\uFFFD\uFFFD" := by
  decide
