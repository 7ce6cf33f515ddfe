import Mathlib.Algebra.Order.Ring.Int
import Mathlib.Data.List.Infix
import FactCore.Lib.Occurrence

/-!
# Byte strings

Numbers as bytes with the highest byte first, parts of a byte string, and the search for one.

Results:
1. `bigEndian_toBigEndian`: what is written is read back.
2. `signedBigEndian_eq_iff`: the reading as a signed number is right exactly for small numbers.
3. `findSub_eq_some_iff`: the search gives the first occurrence.
4. `findSub_append`: bytes in which no occurrence starts are skipped.
-/

/-! ## 1. Numbers -/

/-- The number that bytes encode, with the highest one first. -/
def bigEndian (bytes : List UInt8) : Nat := bytes.foldl (fun n b => n * 256 + b.toNat) 0

/-- The same in two's complement. -/
def signedBigEndian (bytes : List UInt8) : Int :=
  if 2 * bigEndian bytes < 256 ^ bytes.length then bigEndian bytes
  else bigEndian bytes - 256 ^ bytes.length

/-- A number in so many bytes. -/
def toBigEndian : Nat → Nat → List UInt8
  | 0, _ => []
  | width + 1, n => toBigEndian width (n / 256) ++ [UInt8.ofNat n]

section Numbers
variable {b : UInt8} {bytes : List UInt8}

theorem bigEndian_append_singleton (bytes : List UInt8) (b : UInt8) :
    bigEndian (bytes ++ [b]) = bigEndian bytes * 256 + b.toNat := by
  rw [bigEndian, List.foldl_append]
  rfl

@[simp] theorem length_toBigEndian (width n : Nat) : (toBigEndian width n).length = width := by
  induction width generalizing n with
  | zero => rfl
  | succ width ih => simp [toBigEndian, ih]

/-- What is written is read back. -/
theorem bigEndian_toBigEndian {width n : Nat} (h : n < 256 ^ width) :
    bigEndian (toBigEndian width n) = n := by
  induction width generalizing n with
  | zero =>
    rw [Nat.pow_zero, Nat.lt_one_iff] at h
    rw [h]
    rfl
  | succ width ih =>
    have hdiv : n / 256 < 256 ^ width := Nat.div_lt_of_lt_mul (by rwa [Nat.pow_succ'] at h)
    have hbyte : (UInt8.ofNat n).toNat = n % 256 := UInt8.toNat_ofNat'
    rw [toBigEndian, bigEndian_append_singleton, ih hdiv, hbyte]
    omega

theorem signedBigEndian_eq_iff :
    signedBigEndian bytes = bigEndian bytes ↔ 2 * bigEndian bytes < 256 ^ bytes.length := by
  rw [signedBigEndian]
  split
  · next h => exact iff_of_true rfl h
  · next h =>
    have hpos : (0 : Int) < 256 ^ bytes.length := Int.pow_pos (by decide)
    exact iff_of_false (Int.ne_of_lt (Int.sub_lt_self _ hpos)) h

end Numbers

/-! ## 2. Parts -/

section Parts
variable {α : Type}

/-- `xs[start:stop]`. A negative end counts from the end of the list. -/
def slice (xs : List α) (start : Nat) (stop : Int) : List α :=
  (xs.take (if stop < 0 then xs.length + stop else stop).toNat).drop start

/-- A part between two positions. -/
theorem slice_natCast (xs : List α) (start stop : Nat) :
    slice xs start stop = (xs.take stop).drop start := by
  rw [slice, if_neg (by omega), Int.toNat_natCast]

/-- A part of so many elements. -/
theorem slice_add (xs : List α) (start n : Nat) :
    slice xs start (start + n : Nat) = (xs.drop start).take n := by
  rw [slice_natCast, List.drop_take, Nat.add_sub_cancel_left]

/-- What stands at a position. -/
theorem slice_eq_part {xs part : List α} {start : Nat} (h : part <+: xs.drop start) :
    slice xs start (start + part.length : Nat) = part := by
  rw [slice_add]
  exact (List.prefix_iff_eq_take.mp h).symm

theorem prefix_slice_add (xs : List α) (start n : Nat) :
    slice xs start (start + n : Nat) <+: xs.drop start := by
  rw [slice_add]
  exact List.take_prefix n _

theorem length_slice_add_le (xs : List α) (start n : Nat) :
    (slice xs start (start + n : Nat)).length ≤ n := by
  rw [slice_add]
  exact List.length_take_le n _

/-- Elements that are there belong to a part. -/
theorem getElem?_of_prefix_drop {xs part : List α} {start i : Nat} {x : α}
    (h : part <+: xs.drop start) (hx : part[i]? = some x) : xs[start + i]? = some x := by
  obtain ⟨rest, hrest⟩ := h
  obtain ⟨hi, -⟩ := List.getElem?_eq_some_iff.mp hx
  rw [← List.getElem?_drop, ← hrest, List.getElem?_append_left hi, hx]

end Parts

/-! ## 3. Search -/

section Search
variable {α : Type} [DecidableEq α] {needle : List α}

/-- `xs.find(needle)`, with `none` for -1. -/
def findSub (needle : List α) : List α → Option Nat
  | [] => if needle = [] then some 0 else none
  | x :: xs => if needle <+: x :: xs then some 0 else (findSub needle xs).map (· + 1)

/-- The search gives the first occurrence. -/
theorem findSub_eq_some_iff (hne : needle ≠ []) {xs : List α} {i : Nat} :
    findSub needle xs = some i ↔ OccursAt needle xs i ∧ ∀ j < i, ¬ OccursAt needle xs j := by
  induction xs generalizing i with
  | nil =>
    rw [findSub, if_neg hne]
    refine iff_of_false (by simp) fun h => hne ?_
    have hpre := h.1
    rwa [OccursAt, List.drop_nil, List.prefix_nil] at hpre
  | cons x xs ih =>
    rw [findSub]
    split
    · next h =>
      constructor
      · intro heq
        obtain rfl : 0 = i := Option.some.inj heq
        exact ⟨h, fun j hj => absurd hj (Nat.not_lt_zero j)⟩
      · rintro ⟨-, hfirst⟩
        cases i with
        | zero => rfl
        | succ i => exact absurd h (hfirst 0 (Nat.succ_pos i))
    · next h =>
      cases i with
      | zero =>
        refine iff_of_false ?_ fun hat => h hat.1
        cases findSub needle xs <;> simp
      | succ i =>
        have hmap : (findSub needle xs).map (· + 1) = some (i + 1) ↔ findSub needle xs = some i := by
          cases findSub needle xs <;> simp
        rw [hmap, ih]
        refine and_congr Iff.rfl ⟨fun hfirst j hj => ?_, fun hfirst j hj => ?_⟩
        · cases j with
          | zero => exact h
          | succ j => exact hfirst j (Nat.lt_of_succ_lt_succ hj)
        · exact hfirst (j + 1) (Nat.succ_lt_succ hj)

/-- Bytes in which no occurrence starts are skipped. -/
theorem findSub_append {pre xs : List α}
    (h : ∀ i < pre.length, ¬ OccursAt needle (pre ++ xs) i) :
    findSub needle (pre ++ xs) = (findSub needle xs).map (· + pre.length) := by
  induction pre with
  | nil =>
    show findSub needle xs = (findSub needle xs).map id
    rw [Option.map_id_apply]
  | cons x pre ih =>
    have hhead : ¬ needle <+: x :: (pre ++ xs) := h 0 (Nat.succ_pos _)
    have hrest : ∀ i < pre.length, ¬ OccursAt needle (pre ++ xs) i := fun i hi =>
      h (i + 1) (Nat.succ_lt_succ hi)
    rw [List.cons_append, findSub, if_neg hhead, ih hrest, Option.map_map]
    rfl

theorem findSub_eq_zero {xs : List α} (h : needle <+: xs) (hne : needle ≠ []) :
    findSub needle xs = some 0 :=
  (findSub_eq_some_iff hne).mpr ⟨h, fun j hj => absurd hj (Nat.not_lt_zero j)⟩

end Search
