import Mathlib.Data.List.Basic

/-!
# Lists split at a separator

`List.splitOn` undoes `List.intercalate` on parts that do not hold the separator
(`List.splitOn_intercalate`). Here is that the parts it gives are of this kind.
-/

theorem eq_false_of_mem_splitOnP {α : Type} {p : α → Bool} {xs l : List α} {x : α}
    (h : l ∈ xs.splitOnP p) (hx : x ∈ l) : p x = false := by
  induction xs generalizing l with
  | nil =>
    rw [List.splitOnP_nil, List.mem_singleton] at h
    rw [h] at hx
    cases hx
  | cons y xs ih =>
    rw [List.splitOnP_cons_eq_if_modifyHead] at h
    split at h
    · rcases List.mem_cons.mp h with rfl | h
      · cases hx
      · exact ih h hx
    · next hy =>
      -- the first part gets one element more
      obtain ⟨part, parts, hsplit⟩ := List.exists_cons_of_ne_nil (List.splitOnP_ne_nil p xs)
      rw [hsplit, List.modifyHead_cons, List.mem_cons] at h
      rcases h with rfl | h
      · rcases List.mem_cons.mp hx with rfl | hx
        · exact Bool.eq_false_iff.mpr hy
        · exact ih (hsplit ▸ List.mem_cons_self) hx
      · exact ih (hsplit ▸ List.mem_cons_of_mem part h) hx

theorem not_mem_of_mem_splitOn {α : Type} [BEq α] [LawfulBEq α] {a : α} {xs l : List α}
    (h : l ∈ xs.splitOn a) : a ∉ l := by
  intro hmem
  rw [List.splitOn_eq_splitOnP] at h
  have hne := eq_false_of_mem_splitOnP h hmem
  rw [beq_self_eq_true] at hne
  cases hne

theorem splitOnP_map {α β : Type} (p : β → Bool) (f : α → β) (xs : List α) :
    (xs.map f).splitOnP p = (xs.splitOnP fun x => p (f x)).map (List.map f) := by
  induction xs with
  | nil => rfl
  | cons x xs ih =>
    rw [List.map_cons, List.splitOnP_cons_eq_if_modifyHead, List.splitOnP_cons_eq_if_modifyHead, ih]
    obtain ⟨part, parts, hsplit⟩ :=
      List.exists_cons_of_ne_nil (List.splitOnP_ne_nil (fun x => p (f x)) xs)
    rw [hsplit]
    cases p (f x) <;> rfl

/-- A front without the separator belongs to the first part. -/
theorem splitOn_append_of_not_mem {α : Type} [BEq α] [LawfulBEq α] {sep : α} {xs : List α}
    (h : sep ∉ xs) (ys : List α) :
    (xs ++ ys).splitOn sep = (ys.splitOn sep).modifyHead (xs ++ ·) := by
  induction xs with
  | nil =>
    rw [List.nil_append]
    cases ys.splitOn sep <;> rfl
  | cons x xs ih =>
    rw [List.mem_cons, not_or] at h
    rw [List.cons_append, List.splitOn_cons_eq_if_modifyHead, if_neg (by simpa using Ne.symm h.1),
      ih h.2, List.modifyHead_modifyHead]
    rfl

/-- What follows joined parts may hold the separator. -/
theorem splitOn_intercalate_append {α : Type} [BEq α] [LawfulBEq α] {sep : α}
    {parts : List (List α)} {last : List α} (hparts : ∀ part ∈ parts, sep ∉ part)
    (hlast : sep ∉ last) (rest : List α) :
    ([sep].intercalate (parts ++ [last]) ++ rest).splitOn sep =
      parts ++ (rest.splitOn sep).modifyHead (last ++ ·) := by
  induction parts with
  | nil =>
    rw [List.nil_append, List.intercalate_singleton, List.nil_append]
    exact splitOn_append_of_not_mem hlast rest
  | cons part parts ih =>
    rw [List.forall_mem_cons] at hparts
    have hjoin : [sep].intercalate (part :: parts ++ [last]) =
        part ++ sep :: [sep].intercalate (parts ++ [last]) := by
      obtain ⟨next, others, hnext⟩ := List.exists_cons_of_ne_nil
        (List.append_ne_nil_of_right_ne_nil parts (List.cons_ne_nil last []))
      rw [List.cons_append, hnext, List.intercalate_cons_cons, List.append_assoc]
      rfl
    rw [hjoin, List.append_assoc, List.cons_append, List.splitOn_append_cons_self,
      List.splitOn_eq_singleton hparts.1, ih hparts.2]
    rfl

theorem mem_intercalate_iff {α : Type} {sep x : α} (hne : x ≠ sep) {parts : List (List α)} :
    x ∈ [sep].intercalate parts ↔ ∃ part ∈ parts, x ∈ part := by
  induction parts with
  | nil => simp
  | cons part parts ih =>
    cases parts with
    | nil => simp
    | cons next parts =>
      rw [List.intercalate_cons_cons, List.append_assoc, List.singleton_append, List.mem_append,
        List.mem_cons, ih]
      simp [hne]

/-- The parts of a text between the separators. -/
def splitAtChar (separator : Char) (s : String) : List String :=
  (s.toList.splitOn separator).map String.ofList

theorem splitAtChar_ne_nil (separator : Char) (s : String) : splitAtChar separator s ≠ [] := by
  simp [splitAtChar, List.splitOn_ne_nil]

/-- The last part is what stands behind the last separator. -/
theorem splitAtChar_append (separator : Char) (front back : String)
    (h : separator ∉ back.toList) :
    splitAtChar separator (front ++ String.singleton separator ++ back) =
      splitAtChar separator front ++ [back] := by
  have hchars : (front ++ String.singleton separator ++ back).toList =
      front.toList ++ separator :: back.toList := by simp
  rw [splitAtChar, hchars, List.splitOn_append_cons_self, List.splitOn_eq_singleton h,
    List.map_append, List.map_singleton, String.ofList_toList]
  rfl

/-- A text that is its only part holds no separator. -/
theorem eq_of_splitAtChar_eq_singleton {separator : Char} {s part : String}
    (h : splitAtChar separator s = [part]) : part = s := by
  obtain ⟨chars, hsplit, rfl⟩ := List.map_eq_singleton_iff.mp h
  have hjoin := @List.intercalate_splitOn _ s.toList _ _ separator
  rw [hsplit, List.intercalate_singleton] at hjoin
  rw [hjoin, String.ofList_toList]

/-- A text has these parts exactly if joining them gives it back, and none of them holds the
separator. -/
theorem splitAtChar_eq_iff {separator : Char} {s : String} {parts : List String} (hne : parts ≠ []) :
    splitAtChar separator s = parts ↔
      s = (String.singleton separator).intercalate parts ∧
        ∀ part ∈ parts, separator ∉ part.toList := by
  constructor
  · rintro rfl
    refine ⟨String.toList_inj.mp ?_, fun part hpart => ?_⟩
    · rw [String.toList_intercalate, String.toList_singleton, splitAtChar, List.map_map]
      simp only [Function.comp_def, String.toList_ofList, List.map_id']
      exact (List.intercalate_splitOn separator).symm
    · obtain ⟨chars, hchars, rfl⟩ := List.mem_map.mp hpart
      rw [String.toList_ofList]
      exact not_mem_of_mem_splitOn hchars
  · rintro ⟨rfl, hparts⟩
    rw [splitAtChar, String.toList_intercalate, String.toList_singleton,
      List.splitOn_intercalate separator (by simpa using hparts) (by simpa using hne), List.map_map]
    simp only [Function.comp_def, String.ofList_toList, List.map_id']

theorem infix_intercalate_of_mem {separator part : String} {parts : List String}
    (h : part ∈ parts) : part.toList <:+: (separator.intercalate parts).toList := by
  rw [String.toList_intercalate]
  induction parts with
  | nil => cases h
  | cons first parts ih =>
    cases parts with
    | nil =>
      obtain rfl := List.mem_singleton.mp h
      simp
    | cons next parts =>
      rw [List.map_cons, List.map_cons, List.intercalate_cons_cons, ← List.map_cons]
      rcases List.mem_cons.mp h with rfl | h
      · rw [List.append_assoc]
        exact (List.prefix_append _ _).isInfix
      · exact (ih h).trans (List.suffix_append _ _).isInfix

/-! ## Parts that are not empty -/

/-- The list consists of these nonempty parts without the separator, with separators between them,
and maybe in front and behind. -/
inductive Separated {α : Type} (sep : α) : List α → List (List α) → Prop
  | nil : Separated sep [] []
  | sep {xs parts} (h : Separated sep xs parts) : Separated sep (sep :: xs) parts
  | part {part xs parts} (hne : part ≠ []) (hsep : sep ∉ part)
      (hnext : ∀ x ∈ xs.head?, x = sep) (h : Separated sep xs parts) :
      Separated sep (part ++ xs) (part :: parts)

/-- The parts of a list between the separators, without the empty ones. -/
def nonemptyParts (sep : Char) (xs : List Char) : List (List Char) :=
  (xs.splitOn sep).filter fun part => decide (part ≠ [])

section NonemptyParts
variable {sep : Char} {xs : List Char}

theorem nonemptyParts_append_cons (sep : Char) (xs ys : List Char) :
    nonemptyParts sep (xs ++ sep :: ys) = nonemptyParts sep xs ++ nonemptyParts sep ys := by
  rw [nonemptyParts, List.splitOn_append_cons_self, List.filter_append]
  rfl

@[simp] theorem nonemptyParts_nil (sep : Char) : nonemptyParts sep [] = [] := by
  simp [nonemptyParts, List.splitOn_nil]

theorem nonemptyParts_of_not_mem (hsep : sep ∉ xs) (hne : xs ≠ []) :
    nonemptyParts sep xs = [xs] := by
  rw [nonemptyParts, List.splitOn_eq_singleton hsep, List.filter_singleton, decide_eq_true hne]
  rfl

theorem nonemptyParts_intercalate (sep : Char) (parts : List (List Char)) :
    nonemptyParts sep ([sep].intercalate parts) = parts.flatMap (nonemptyParts sep) := by
  induction parts with
  | nil => simp
  | cons part parts ih =>
    cases parts with
    | nil => simp
    | cons next parts =>
      rw [List.intercalate_cons_cons, List.append_assoc, List.singleton_append,
        nonemptyParts_append_cons, ih]
      simp only [List.flatMap_cons]

theorem nonemptyParts_eq_nil_iff : nonemptyParts sep xs = [] ↔ ∀ x ∈ xs, x = sep := by
  induction xs with
  | nil => simp
  | cons x xs ih =>
    rw [List.forall_mem_cons]
    rcases eq_or_ne x sep with rfl | hne
    · have hskip := nonemptyParts_append_cons x [] xs
      rw [List.nil_append, nonemptyParts_nil, List.nil_append] at hskip
      rw [hskip, ih, and_iff_right rfl]
    · -- the first part holds `x`
      refine iff_of_false ?_ fun h => hne h.1
      rw [nonemptyParts, List.splitOn_cons_eq_if_modifyHead, if_neg (by simpa using hne)]
      obtain ⟨part, parts, hsplit⟩ := List.exists_cons_of_ne_nil (List.splitOn_ne_nil sep xs)
      simp [hsplit]

/-- The first part ends where the first separator stands. -/
theorem nonemptyParts_append {rest : List Char} (hsep : sep ∉ xs) (hne : xs ≠ [])
    (hrest : ∀ x, rest.head? = some x → x = sep) :
    nonemptyParts sep (xs ++ rest) = xs :: nonemptyParts sep rest := by
  cases rest with
  | nil => rw [List.append_nil, nonemptyParts_of_not_mem hsep hne, nonemptyParts_nil]
  | cons x rest =>
    obtain rfl := hrest x rfl
    have hskip := nonemptyParts_append_cons x [] rest
    rw [List.nil_append, nonemptyParts_nil, List.nil_append] at hskip
    rw [nonemptyParts_append_cons, nonemptyParts_of_not_mem hsep hne, hskip]
    rfl

theorem separated_nonemptyParts (sep : Char) (xs : List Char) :
    Separated sep xs (nonemptyParts sep xs) := by
  induction xs with
  | nil =>
    rw [nonemptyParts_nil]
    exact .nil
  | cons x xs ih =>
    have hskip := nonemptyParts_append_cons sep [] xs
    rw [List.nil_append, nonemptyParts_nil, List.nil_append] at hskip
    by_cases hx : x = sep
    · rw [hx, hskip]
      exact .sep ih
    have hsingle : sep ∉ [x] := by simpa using Ne.symm hx
    -- the first part of the rest gets one element more, unless a separator stands in between
    generalize hparts : nonemptyParts sep xs = parts at ih hskip
    cases ih with
    | nil =>
      rw [nonemptyParts_of_not_mem hsingle (List.cons_ne_nil x [])]
      exact .part (List.cons_ne_nil x []) hsingle (by simp) .nil
    | @sep xs _ h =>
      have hnext := nonemptyParts_append_cons sep [x] xs
      rw [nonemptyParts_of_not_mem hsingle (List.cons_ne_nil x [])] at hnext
      have hrest := nonemptyParts_append_cons sep [] xs
      rw [List.nil_append, nonemptyParts_nil, List.nil_append, hparts] at hrest
      rw [List.cons_append, List.nil_append, ← hrest] at hnext
      rw [hnext]
      exact .part (List.cons_ne_nil x []) hsingle (by simp) (.sep h)
    | @part front xs parts hne hsep hnext h =>
      have hcons : sep ∉ x :: front := by
        rw [List.mem_cons, not_or]
        exact ⟨Ne.symm hx, hsep⟩
      have hrest := nonemptyParts_append hsep hne hnext
      rw [hparts] at hrest
      have hpart := nonemptyParts_append hcons (List.cons_ne_nil x front) hnext
      rw [List.cons_append, ← (List.cons.inj hrest).2] at hpart
      rw [hpart]
      exact .part (List.cons_ne_nil x front) hcons hnext h

/-- The parts of a list are determined by it. -/
theorem separated_iff {parts : List (List Char)} :
    Separated sep xs parts ↔ nonemptyParts sep xs = parts := by
  constructor
  · intro h
    induction h with
    | nil => exact nonemptyParts_nil sep
    | @sep xs _ _ ih =>
      have hskip := nonemptyParts_append_cons sep [] xs
      rw [List.nil_append, nonemptyParts_nil, List.nil_append] at hskip
      rw [hskip, ih]
    | part hne hsep hnext _ ih => rw [nonemptyParts_append hsep hne hnext, ih]
  · rintro rfl
    exact separated_nonemptyParts sep xs

end NonemptyParts

/-! ## Separators of two elements -/

/-- The parts of a list between the places where `a` is followed by `b`. -/
def splitAtPair {α : Type} [DecidableEq α] (a b : α) : List α → List (List α)
  | [] => [[]]
  | [x] => [[x]]
  | x :: y :: rest =>
    if x = a ∧ y = b then [] :: splitAtPair a b rest
    else (splitAtPair a b (y :: rest)).modifyHead (x :: ·)

section SplitAtPair
variable {α : Type} [DecidableEq α] {a b : α}

theorem splitAtPair_ne_nil (a b : α) (xs : List α) : splitAtPair a b xs ≠ [] := by
  fun_induction splitAtPair a b xs with
  | case1 => simp
  | case2 => simp
  | case3 => simp
  | case4 x y rest h ih => simpa using ih

/-- Two different elements stand between what they separate, whatever this is. -/
theorem splitAtPair_append (h : a ≠ b) (xs ys : List α) :
    splitAtPair a b (xs ++ a :: b :: ys) = splitAtPair a b xs ++ splitAtPair a b ys := by
  fun_induction splitAtPair a b xs with
  | case1 => simp [splitAtPair]
  | case2 x =>
    have hne : ¬(x = a ∧ a = b) := fun hx => h hx.2
    simp [splitAtPair, hne]
  | case3 x y rest hxy ih =>
    rw [List.cons_append, List.cons_append, splitAtPair, if_pos hxy, ih]
    rfl
  | case4 x y rest hxy ih =>
    rw [List.cons_append, List.cons_append, splitAtPair, if_neg hxy, ← List.cons_append, ih]
    obtain ⟨part, parts, hsplit⟩ := List.exists_cons_of_ne_nil (splitAtPair_ne_nil a b (y :: rest))
    simp [hsplit]

theorem splitAtPair_eq_singleton {xs : List α} (h : ¬ [a, b] <:+: xs) :
    splitAtPair a b xs = [xs] := by
  fun_induction splitAtPair a b xs with
  | case1 => rfl
  | case2 => rfl
  | case3 x y rest hxy ih =>
    obtain ⟨rfl, rfl⟩ := hxy
    exact absurd ⟨[], rest, rfl⟩ h
  | case4 x y rest hxy ih =>
    rw [ih fun hin => h (hin.trans (List.suffix_cons x _).isInfix)]
    rfl

end SplitAtPair
