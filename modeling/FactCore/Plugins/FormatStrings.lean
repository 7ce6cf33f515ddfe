import FactCore.Lib.FindPairs
import FactCore.Lib.Occurrence
import FactCore.Lib.Separator
import FactCore.Objects

/-!
# The arguments of a format string

The IPC analysis looks for the values that are printed for a key string, a part of a
format string. One regular expression counts the conversions in front of the key string,
another one collects the types of all conversions, and the two lists are indexed with the
same numbers.

The second one reads a single letter after a percent sign, so that it knows no conversion
with the length modifier `h`. Both take `%%` for a conversion when a letter follows it.

Results:
1. `getFormatTypes_text`, `starts_text`: what the two expressions find in a format string.
2. `typesFit_iff`: when the types are those of the conversions.
3. `resolved_iff`: when the arguments of the key string are selected.
-/

namespace FactCore

/-! ## 1. The code -/

/-- The types `long` and `str`, in the Python of Ghidra. -/
inductive ArgType
  | long
  | str
  deriving DecidableEq

/-- A possible value of an argument; the other values come with their `str`. -/
inductive Arg
  | long (n : Int)
  | str (s : String)
  | other (text : String)

def Arg.isInstance : Arg → ArgType → Bool
  | .long _, .long => true
  | .str _, .str => true
  | _, _ => false

/-- `str(arg)`. -/
def Arg.text : Arg → String
  | .long n => toString n
  | .str s => s
  | .other text => text

/-- `string_is_printable`, with the 100 characters of `string.printable`. -/
def stringIsPrintable (s : String) : Bool :=
  s.toList.all fun c => (32 ≤ c.toNat && c.toNat ≤ 126) || (9 ≤ c.toNat && c.toNat ≤ 13)

/-- `\w`, without the flag `re.UNICODE`. -/
def isWordChar (c : Char) : Bool := c.isAlphanum || decide (c = '_')

/-- `[a-z]`. -/
def isLetter (c : Char) : Bool := c.isLower

/-- Ghidra only has longs. -/
def longSpecifiers : List String :=
  ["%d", "%hi", "%hu", "%i", "%l", "%ld", "%li", "%lu", "%lli", "%lld", "%llu", "%u"]

def specifierType (formatSpecifier : String) : Option ArgType :=
  if formatSpecifier ∈ longSpecifiers then some .long
  else if formatSpecifier ∈ ["%s"] then some .str
  else none

/-- `get_format_types`. -/
def getFormatTypes (keyString : String) : List ArgType :=
  (findPairs '%' isLetter 0 keyString.toList).filterMap fun found =>
    specifierType (String.ofList ['%', found.2])

/-- Where `%\w` matches. -/
def specifierStarts (s : String) : List Nat :=
  (findPairs '%' isWordChar 0 s.toList).map Prod.fst

/-- `xs.index(x)`. -/
def listIndex (xs : List Nat) (x : Nat) : Except PyException Nat :=
  if x ∈ xs then .ok (xs.idxOf x) else .error (.valueError (toString x ++ " is not in list"))

/-- `get_format_specifier_indices`. -/
def getFormatSpecifierIndices (keyString fullString : String) : Except PyException (List Nat) :=
  if specifierStarts keyString ≠ [] then
    match firstOccurrence keyString.toList fullString.toList with
    | some offset =>
      ((specifierStarts keyString).map (· + offset)).mapM (listIndex (specifierStarts fullString))
    | none => .error (.valueError "substring not found")
  else .ok []

/-- `xs[i]`. -/
def getItem {α : Type} (xs : List α) (i : Nat) : Except PyException α :=
  match xs[i]? with
  | some x => .ok x
  | none => .error (.indexError "list index out of range")

/-- The inner loop of `filter_relevant_indices`. -/
def filterArgument (formatTypes : List ArgType) (i : Nat) (result : List String)
    (argument : List Arg) : Except PyException (List String) :=
  argument.foldlM (fun result arg => do
    let formatType ← getItem formatTypes i
    return if arg.isInstance formatType && stringIsPrintable arg.text then result ++ [arg.text]
      else result) result

/-- `filter_relevant_indices`. -/
def filterRelevantIndices (start : Nat) (argValues : List (List Arg)) (indices : List Nat)
    (formatTypes : List ArgType) : Except PyException (List String) :=
  indices.foldlM (fun result i => do
    let argument ← getItem argValues (start + i)
    filterArgument formatTypes i result argument) []

/-! ## 2. Format strings -/

/-- The conversions in the table of types. -/
inductive Conversion
  | s
  | d
  | i
  | u
  | hi
  | hu
  | ld
  | li
  | lu
  | lld
  | lli
  | llu
  deriving DecidableEq

namespace Conversion

/-- What stands behind the percent sign. -/
def letters : Conversion → List Char
  | s => ['s']
  | d => ['d']
  | i => ['i']
  | u => ['u']
  | hi => ['h', 'i']
  | hu => ['h', 'u']
  | ld => ['l', 'd']
  | li => ['l', 'i']
  | lu => ['l', 'u']
  | lld => ['l', 'l', 'd']
  | lli => ['l', 'l', 'i']
  | llu => ['l', 'l', 'u']

def argType : Conversion → ArgType
  | s => .str
  | _ => .long

/-- It has the length modifier `h`. -/
def isHalf (c : Conversion) : Bool := c = .hi || c = .hu

end Conversion

/-- A piece of a format string: a character of a literal text, `%%` or a conversion. -/
inductive Piece
  | text (c : Char) (literal : c ≠ '%')
  | escape
  | conversion (c : Conversion)

def Piece.chars : Piece → List Char
  | .text c _ => [c]
  | .escape => ['%', '%']
  | .conversion c => '%' :: c.letters

def pieceChars (pieces : List Piece) : List Char := pieces.flatMap Piece.chars

def formatText (pieces : List Piece) : String := String.ofList (pieceChars pieces)

def conversions (pieces : List Piece) : List Conversion :=
  pieces.filterMap fun
    | .conversion c => some c
    | _ => none

/-- A call of a formatting function. The key string is a part of its format string and stands there
only once. Its arguments are those up to the format string, and then one slot for each conversion,
with the values it can have. -/
structure FormatCall where
  front : List Piece
  key : List Piece
  back : List Piece
  arguments : List (List Arg)
  slots : List (List Arg)
  once : ∀ i ≤ (pieceChars (front ++ (key ++ back))).length,
    OccursAt (pieceChars key) (pieceChars (front ++ (key ++ back))) i →
      i = (pieceChars front).length
  oneSlot : slots.length = (conversions (front ++ (key ++ back))).length

namespace FormatCall

def full (call : FormatCall) : List Piece := call.front ++ (call.key ++ call.back)

/-- The printable values in a slot of the type of its conversion. -/
def relevant (c : Conversion) (slot : List Arg) : List String :=
  (slot.filter fun arg => arg.isInstance c.argType && stringIsPrintable arg.text).map Arg.text

/-- The types, the positions and the arguments are those of the conversions. -/
structure Resolved (call : FormatCall) : Prop where
  types : getFormatTypes (formatText call.full) =
    (conversions call.full).map Conversion.argType
  indices : getFormatSpecifierIndices (formatText call.key) (formatText call.full) =
    .ok (List.range' (conversions call.front).length (conversions call.key).length)
  values : ∃ indices,
    getFormatSpecifierIndices (formatText call.key) (formatText call.full) = .ok indices ∧
      filterRelevantIndices call.arguments.length (call.arguments ++ call.slots) indices
          (getFormatTypes (formatText call.full)) =
        .ok (((conversions call.key).zip
          (call.slots.drop (conversions call.front).length)).flatMap fun e => relevant e.1 e.2)

end FormatCall

/-! ## 3. What the expressions read -/

/-- What can be taken for a conversion: a conversion, or `%%` before a character. -/
inductive Mark
  | conversion (c : Conversion)
  | escape (next : Char)
  deriving DecidableEq

def Piece.marks : Piece → Option Char → List Mark
  | .text _ _, _ => []
  | .escape, some c => [.escape c]
  | .escape, none => []
  | .conversion c, _ => [.conversion c]

/-- The marks in pieces that are followed by `next`. -/
def marks : List Piece → Option Char → List Mark
  | [], _ => []
  | piece :: rest, next => piece.marks ((pieceChars rest).head?.or next) ++ marks rest next

/-- It is not counted with its own type. -/
def Mark.isHalf : Mark → Bool
  | .conversion c => c.isHalf
  | .escape _ => false

/-- It is counted as a `long`. -/
def Mark.looksLong : Mark → Bool
  | .conversion _ => false
  | .escape c => decide (c ∈ ['d', 'i', 'l', 'u'])

/-- No `%%` stands before an `s`, and in each stretch between two `%s` there are as many conversions
with `h` as `%%` before one of `d`, `i`, `l`, `u`. -/
structure TypesFit (ms : List Mark) : Prop where
  noString : .escape 's' ∉ ms
  balanced : ∀ stretch ∈ ms.splitOn (.conversion .s),
    stretch.countP Mark.isHalf = stretch.countP Mark.looksLong

/-- No `%%` stands before a word character. -/
def NoWordEscape (ms : List Mark) : Prop := ∀ c, .escape c ∈ ms → isWordChar c = false

/-- What is taken for a conversion does no harm. -/
structure FormatCall.Fits (call : FormatCall) : Prop where
  types : TypesFit (marks call.full none)
  key : NoWordEscape (marks call.key none)
  front : conversions call.key ≠ [] →
    NoWordEscape (marks call.front (pieceChars (call.key ++ call.back)).head?)

section Reading
variable {p : Char → Bool} {pos : Nat} {next : Option Char} {piece : Piece} {pieces : List Piece}

/-- The character behind the percent sign. -/
def Mark.second : Mark → Char
  | .conversion c => c.letters.headD ' '
  | .escape c => c

theorem letters_ne_nil (c : Conversion) : c.letters ≠ [] := by
  cases c <;> exact List.cons_ne_nil _ _

theorem percent_not_mem_letters (c : Conversion) : '%' ∉ c.letters := by
  cases c <;> decide

theorem isLetter_second (c : Conversion) : isLetter (Mark.conversion c).second = true := by
  cases c <;> decide

/-- The matches in one piece. -/
theorem pairs_chars (hpercent : p '%' = false) (hletter : ∀ c, isLetter c = true → p c = true)
    (piece : Piece) (pos : Nat) (next : Option Char) :
    (pairs '%' p pos piece.chars next).map Prod.snd =
      ((piece.marks next).map Mark.second).filter p := by
  cases piece with
  | text c literal =>
    rw [Piece.chars, pairs_of_not_mem (fun h => literal (List.mem_singleton.mp h).symm)]
    rfl
  | escape =>
    show (pairAt '%' p pos '%' (some '%') ++ (pairAt '%' p (pos + 1) '%' next ++ [])).map _ = _
    rw [pairAt_some, if_neg (by simp [hpercent]), List.nil_append, List.append_nil]
    cases next with
    | none => rfl
    | some c =>
      rw [pairAt_some, Piece.marks, List.map_singleton, Mark.second]
      cases hc : p c <;> simp [hc]
  | conversion c =>
    obtain ⟨letter, rest, hletters⟩ := List.exists_cons_of_ne_nil (letters_ne_nil c)
    have hsecond : (Mark.conversion c).second = letter := by
      rw [Mark.second, hletters]
      rfl
    have haccepted : p letter = true := hsecond ▸ hletter _ (isLetter_second c)
    rw [Piece.chars, pairs, pairs_of_not_mem (percent_not_mem_letters c), hletters,
      List.head?_cons, Option.some_or, pairAt_some, if_pos ⟨rfl, haccepted⟩, Piece.marks,
      List.map_singleton, hsecond, List.filter_singleton, haccepted]
    rfl

theorem pairs_pieceChars (hpercent : p '%' = false)
    (hletter : ∀ c, isLetter c = true → p c = true) (pieces : List Piece) (pos : Nat)
    (next : Option Char) :
    (pairs '%' p pos (pieceChars pieces) next).map Prod.snd =
      ((marks pieces next).map Mark.second).filter p := by
  induction pieces generalizing pos with
  | nil => rfl
  | cons piece pieces ih =>
    rw [pieceChars, List.flatMap_cons, pairs_append, List.map_append, marks, List.map_append,
      List.filter_append, pairs_chars hpercent hletter]
    exact congrArg _ (ih _)

/-- The type that is found for a mark. -/
def Mark.foundType (m : Mark) : Option ArgType := specifierType (String.ofList ['%', m.second])

/-- Two characters are found in the table only if they are one of five specifiers. -/
theorem specifierType_pair (c : Char) :
    specifierType (String.ofList ['%', c]) =
      if c ∈ ['d', 'i', 'l', 'u'] then some .long else if c = 's' then some .str else none := by
  have hmem : ∀ table : List String,
      String.ofList ['%', c] ∈ table ↔ ['%', c] ∈ table.map String.toList := by
    intro table
    rw [← List.mem_map_of_injective fun _ _ h => String.toList_inj.mp h, String.toList_ofList]
  have hlong : longSpecifiers.map String.toList =
      [['%', 'd'], ['%', 'h', 'i'], ['%', 'h', 'u'], ['%', 'i'], ['%', 'l'], ['%', 'l', 'd'],
        ['%', 'l', 'i'], ['%', 'l', 'u'], ['%', 'l', 'l', 'i'], ['%', 'l', 'l', 'd'],
        ['%', 'l', 'l', 'u'], ['%', 'u']] := by decide
  have hstr : ["%s"].map String.toList = [['%', 's']] := by decide
  rw [specifierType]
  simp only [hmem, hlong, hstr]
  simp

theorem getFormatTypes_text (pieces : List Piece) :
    getFormatTypes (formatText pieces) = (marks pieces none).filterMap Mark.foundType := by
  have hpercent : isLetter '%' = false := by decide
  have hskip : ∀ c, isLetter c = false → specifierType (String.ofList ['%', c]) = none := by
    intro c hc
    rw [specifierType_pair, if_neg, if_neg]
    · intro heq
      rw [heq] at hc
      cases hc
    · intro hmem
      have hletters : ['d', 'i', 'l', 'u'].all isLetter = true := by decide
      rw [List.all_eq_true.mp hletters c hmem] at hc
      cases hc
  have hpairs := pairs_pieceChars hpercent (fun _ h => h) pieces 0 none
  rw [getFormatTypes, formatText, String.toList_ofList, findPairs_eq_pairs hpercent]
  show (pairs '%' isLetter 0 (pieceChars pieces) none).filterMap
    ((fun c => specifierType (String.ofList ['%', c])) ∘ Prod.snd) = _
  rw [← List.filterMap_map, hpairs, List.filterMap_filter, List.filterMap_map]
  refine List.filterMap_congr fun m _ => ?_
  show (if isLetter m.second = true then specifierType (String.ofList ['%', m.second]) else none) = _
  cases hm : isLetter m.second with
  | true => rfl
  | false => exact (hskip _ hm).symm

end Reading

/-! ## 4. The types -/

section Types
variable {ms : List Mark} {stretch : List Mark} {stretches : List (List Mark)} {a b : Nat}

/-- The type of a conversion. -/
def Mark.argType : Mark → Option ArgType
  | .conversion c => some c.argType
  | .escape _ => none

theorem map_argType_conversions (pieces : List Piece) (next : Option Char) :
    (conversions pieces).map Conversion.argType = (marks pieces next).filterMap Mark.argType := by
  induction pieces with
  | nil => rfl
  | cons piece pieces ih =>
    rw [marks, List.filterMap_append, ← ih]
    cases piece with
    | text c literal => rfl
    | escape => cases (pieceChars pieces).head?.or next <;> rfl
    | conversion c => rfl

theorem foundType_conversion (c : Conversion) :
    (Mark.conversion c).foundType =
      if c = .s then some .str else if c.isHalf then none else some .long := by
  rw [Mark.foundType, specifierType_pair]
  cases c <;> decide

theorem foundType_escape (c : Char) :
    (Mark.escape c).foundType =
      if (Mark.escape c).looksLong then some .long else if c = 's' then some .str else none := by
  have hlong : c ∈ ['d', 'i', 'l', 'u'] ↔ (Mark.escape c).looksLong = true :=
    decide_eq_true_iff.symm
  rw [Mark.foundType, specifierType_pair]
  exact if_congr hlong rfl rfl

/-- Each `%%` before an `s` adds a `str`. -/
theorem count_foundType (ms : List Mark) :
    (ms.filterMap Mark.foundType).count .str =
      (ms.filterMap Mark.argType).count .str + ms.count (.escape 's') := by
  induction ms with
  | nil => rfl
  | cons m ms ih =>
    cases m with
    | conversion c =>
      have hcount : (Mark.conversion c :: ms).count (.escape 's') = ms.count (.escape 's') :=
        List.count_cons_of_ne (by simp)
      rw [hcount, List.filterMap_cons, List.filterMap_cons, foundType_conversion, Mark.argType]
      cases c <;> simp [Conversion.argType, Conversion.isHalf, ih, Nat.add_right_comm]
    | escape c =>
      rw [List.filterMap_cons, List.filterMap_cons, foundType_escape, Mark.argType]
      rcases eq_or_ne c 's' with rfl | hne
      · simp [Mark.looksLong, ih, Nat.add_assoc]
      · have hcount : (Mark.escape c :: ms).count (.escape 's') = ms.count (.escape 's') :=
          List.count_cons_of_ne (by simpa using hne)
        rw [hcount, ← ih, if_neg hne]
        cases (Mark.escape c).looksLong <;> simp

theorem replicate_append_cons_iff {α : Type} {x y : α} (hne : x ≠ y) {xs ys : List α} :
    List.replicate a x ++ y :: xs = List.replicate b x ++ y :: ys ↔ a = b ∧ xs = ys := by
  induction a generalizing b with
  | zero =>
    cases b with
    | zero => simp
    | succ b => simp [List.replicate_succ, hne.symm]
  | succ a ih =>
    cases b with
    | zero => simp [List.replicate_succ, hne]
    | succ b => simp [List.replicate_succ, ih]

theorem replicate_append_cons_self {α : Type} (n : Nat) (x : α) (xs : List α) :
    List.replicate n x ++ x :: xs = List.replicate (n + 1) x ++ xs := by
  rw [List.replicate_succ', List.append_assoc, List.singleton_append]

/-- Up to the next `%s` only the numbers of longs count. -/
theorem replicate_filterMap_iff (hno : .escape 's' ∉ ms)
    (hsplit : ms.splitOn (.conversion .s) = stretch :: stretches) :
    List.replicate a ArgType.long ++ ms.filterMap Mark.foundType =
        List.replicate b ArgType.long ++ ms.filterMap Mark.argType ↔
      a + stretch.countP Mark.looksLong = b + stretch.countP Mark.isHalf ∧
        ∀ other ∈ stretches, other.countP Mark.isHalf = other.countP Mark.looksLong := by
  induction ms generalizing a b stretch stretches with
  | nil =>
    cases hsplit
    simp [List.replicate_inj]
  | cons m ms ih =>
    rw [List.mem_cons, not_or] at hno
    obtain ⟨first, rest, hrest⟩ := List.exists_cons_of_ne_nil (List.splitOn_ne_nil (.conversion .s) ms)
    rw [List.splitOn_cons_eq_if_modifyHead, hrest] at hsplit
    have ih : ∀ a b, _ := fun a b => ih (a := a) (b := b) hno.2 hrest
    cases m with
    | conversion c =>
      rw [List.filterMap_cons, List.filterMap_cons, foundType_conversion, Mark.argType]
      rcases eq_or_ne c .s with rfl | hne
      · -- the stretch ends here
        have heq := ih 0 0
        rw [Nat.zero_add, Nat.zero_add] at heq
        rw [if_pos (beq_self_eq_true _)] at hsplit
        cases hsplit
        show List.replicate a ArgType.long ++ .str :: _ = List.replicate b .long ++ .str :: _ ↔ _
        rw [replicate_append_cons_iff (by decide), List.forall_mem_cons]
        refine and_congr Iff.rfl (heq.trans (and_congr_left' eq_comm))
      · have hlong : c.argType = .long := by
          cases c with
          | s => exact absurd rfl hne
          | _ => rfl
        rw [if_neg (by simpa using hne)] at hsplit
        cases hsplit
        rw [if_neg hne, hlong]
        show List.replicate a ArgType.long ++ _ = List.replicate b .long ++ .long :: _ ↔ _
        rw [replicate_append_cons_self]
        cases hhalf : c.isHalf with
        | true =>
          refine (ih a (b + 1)).trans (and_congr_left' ?_)
          rw [List.countP_cons_of_neg (by simp [Mark.looksLong]),
            List.countP_cons_of_pos (by simpa [Mark.isHalf] using hhalf)]
          omega
        | false =>
          show List.replicate a ArgType.long ++ .long :: _ = _ ↔ _
          rw [replicate_append_cons_self]
          refine (ih (a + 1) (b + 1)).trans (and_congr_left' ?_)
          rw [List.countP_cons_of_neg (by simp [Mark.looksLong]),
            List.countP_cons_of_neg (by simpa [Mark.isHalf] using hhalf)]
          omega
    | escape c =>
      have hne : c ≠ 's' := fun h => hno.1 (by rw [h])
      rw [if_neg (by simp)] at hsplit
      cases hsplit
      rw [List.filterMap_cons, List.filterMap_cons, foundType_escape, if_neg hne, Mark.argType]
      have hhalf : (Mark.escape c :: first).countP Mark.isHalf = first.countP Mark.isHalf :=
        List.countP_cons_of_neg (by simp [Mark.isHalf])
      rw [hhalf]
      cases hlong : (Mark.escape c).looksLong with
      | true =>
        show List.replicate a ArgType.long ++ .long :: _ = _ ↔ _
        rw [replicate_append_cons_self, List.countP_cons_of_pos hlong]
        refine (ih (a + 1) b).trans (and_congr_left' ?_)
        omega
      | false =>
        rw [List.countP_cons_of_neg (by simp [hlong])]
        exact ih a b

theorem typesFit_iff (pieces : List Piece) :
    getFormatTypes (formatText pieces) = (conversions pieces).map Conversion.argType ↔
      TypesFit (marks pieces none) := by
  obtain ⟨first, rest, hsplit⟩ := List.exists_cons_of_ne_nil
    (List.splitOn_ne_nil (.conversion .s) (marks pieces none))
  rw [getFormatTypes_text, map_argType_conversions pieces none]
  have hbalanced : ∀ hno : Mark.escape 's' ∉ marks pieces none,
      ((marks pieces none).filterMap Mark.foundType = (marks pieces none).filterMap Mark.argType ↔
        ∀ stretch ∈ (marks pieces none).splitOn (.conversion .s),
          stretch.countP Mark.isHalf = stretch.countP Mark.looksLong) := by
    intro hno
    have h := replicate_filterMap_iff (a := 0) (b := 0) hno hsplit
    rw [Nat.zero_add, Nat.zero_add] at h
    rw [hsplit, List.forall_mem_cons, ← and_congr_left' eq_comm]
    exact h
  constructor
  · intro h
    have hno : Mark.escape 's' ∉ marks pieces none := by
      have hcount := count_foundType (marks pieces none)
      rw [h, Nat.left_eq_add, List.count_eq_zero] at hcount
      exact hcount
    exact ⟨hno, (hbalanced hno).mp h⟩
  · intro h
    exact (hbalanced h.noString).mpr h.balanced

end Types

/-! ## 5. The positions -/

section Positions
variable {pieces : List Piece} {next : Option Char}

/-- The number of conversions that are counted. -/
def counted (ms : List Mark) : Nat := ((ms.map Mark.second).filter isWordChar).length

theorem isWordChar_of_isLetter {c : Char} (h : isLetter c = true) : isWordChar c = true := by
  have hlower : c.isLower = true := h
  have hclasses : isWordChar c = ((c.isUpper || c.isLower || c.isDigit) || decide (c = '_')) := rfl
  rw [hclasses, hlower, Bool.or_true, Bool.true_or, Bool.true_or]

theorem length_pairs (pos : Nat) (pieces : List Piece) (next : Option Char) :
    (pairs '%' isWordChar pos (pieceChars pieces) next).length = counted (marks pieces next) := by
  have hpairs := pairs_pieceChars (p := isWordChar) (by decide)
    (fun _ h => isWordChar_of_isLetter h) pieces pos next
  rw [counted, ← hpairs, List.length_map]

theorem specifierStarts_formatText (pieces : List Piece) :
    specifierStarts (formatText pieces) =
      (pairs '%' isWordChar 0 (pieceChars pieces) none).map Prod.fst := by
  rw [specifierStarts, formatText, String.toList_ofList, findPairs_eq_pairs (by decide)]

theorem counted_append (xs ys : List Mark) : counted (xs ++ ys) = counted xs + counted ys := by
  rw [counted, List.map_append, List.filter_append, List.length_append]
  rfl

/-- Every conversion is counted, and nothing else if no `%%` stands before a word character. -/
theorem counted_marks (pieces : List Piece) (next : Option Char) :
    ∃ escapes, counted (marks pieces next) = (conversions pieces).length + escapes ∧
      (escapes = 0 ↔ NoWordEscape (marks pieces next)) := by
  induction pieces with
  | nil => exact ⟨0, rfl, iff_of_true rfl fun _ h => absurd h List.not_mem_nil⟩
  | cons piece pieces ih =>
    obtain ⟨escapes, hcount, hescapes⟩ := ih
    rw [marks]
    generalize (pieceChars pieces).head?.or next = after
    have hsplit : ∀ ms, NoWordEscape (ms ++ marks pieces next) ↔
        (NoWordEscape ms ∧ NoWordEscape (marks pieces next)) := by
      simp [NoWordEscape, or_imp, forall_and]
    have hnone : ∀ ms, (∀ c, Mark.escape c ∉ ms) → NoWordEscape ms :=
      fun ms h c hc => absurd hc (h c)
    rw [counted_append, hcount, hsplit]
    cases piece with
    | text c literal =>
      exact ⟨escapes, Nat.zero_add _, hescapes.trans (and_iff_right (hnone [] (by simp))).symm⟩
    | conversion c =>
      have hone : counted (Piece.marks (.conversion c) after) = 1 := by
        simp [counted, Piece.marks, isWordChar_of_isLetter (isLetter_second c)]
      refine ⟨escapes, ?_, hescapes.trans (and_iff_right (hnone _ (by simp [Piece.marks]))).symm⟩
      rw [hone]
      show _ = (conversions pieces).length + 1 + escapes
      omega
    | escape =>
      cases after with
      | none =>
        exact ⟨escapes, Nat.zero_add _, hescapes.trans (and_iff_right (hnone [] (by simp))).symm⟩
      | some c =>
        have hword : NoWordEscape (Piece.marks .escape (some c)) ↔ isWordChar c = false := by
          simp [NoWordEscape, Piece.marks]
        rw [hword]
        show ∃ n, _ = (conversions pieces).length + n ∧ _
        cases hc : isWordChar c with
        | true =>
          have hone : counted (Piece.marks .escape (some c)) = 1 := by
            simp [counted, Piece.marks, Mark.second, hc]
          exact ⟨escapes + 1, by omega, by simp⟩
        | false =>
          have hzero : counted (Piece.marks .escape (some c)) = 0 := by
            simp [counted, Piece.marks, Mark.second, hc]
          exact ⟨escapes, by omega, by simpa using hescapes⟩

/-- The positions of a part of a list without duplicates. -/
theorem mapM_listIndex {front xs back : List Nat} (hnodup : (front ++ (xs ++ back)).Nodup) :
    xs.mapM (listIndex (front ++ (xs ++ back))) = .ok (List.range' front.length xs.length) := by
  induction xs generalizing front with
  | nil => rfl
  | cons x xs ih =>
    have hnot : x ∉ front := fun h =>
      (List.nodup_append.mp hnodup).2.2 x h x List.mem_cons_self rfl
    have hx : listIndex (front ++ (x :: xs ++ back)) x = .ok front.length := by
      rw [listIndex, if_pos (by simp), List.idxOf_append_of_notMem hnot, List.cons_append,
        List.idxOf_cons_self, Nat.add_zero]
    have hrest : front ++ (x :: xs ++ back) = (front ++ [x]) ++ (xs ++ back) := by simp
    rw [List.mapM_cons, hx, hrest, ih (hrest ▸ hnodup), List.length_append]
    rfl

theorem pieceChars_full (call : FormatCall) :
    pieceChars call.full =
      pieceChars call.front ++ (pieceChars call.key ++ pieceChars call.back) := by
  rw [FormatCall.full, pieceChars, List.flatMap_append, List.flatMap_append]
  rfl

theorem firstOccurrence_key (call : FormatCall) :
    firstOccurrence (pieceChars call.key) (pieceChars call.full) =
      some (pieceChars call.front).length := by
  have hlen : (pieceChars call.front).length ≤ (pieceChars call.full).length := by
    rw [pieceChars_full, List.length_append]
    omega
  refine firstOccurrence_eq_some hlen ?_ fun j hj h => ?_
  · show _ <+: (pieceChars call.full).drop _
    rw [pieceChars_full, List.drop_left]
    exact List.prefix_append _ _
  · have heq := call.once j (hj.le.trans hlen) h
    omega

/-- The places in the key string are some of those in the format string. -/
theorem starts_full (call : FormatCall) :
    ∃ front back, specifierStarts (formatText call.full) =
        front ++ ((specifierStarts (formatText call.key)).map (· + (pieceChars call.front).length) ++
          back) ∧
      front.length = counted (marks call.front (pieceChars (call.key ++ call.back)).head?) := by
  obtain ⟨seam, hseam⟩ := pairs_none_append (a := '%') (p := isWordChar)
    (0 + (pieceChars call.front).length) (pieceChars call.key) (pieceChars call.back).head?
  have hshift := pairs_add (a := '%') (p := isWordChar) 0 (pieceChars call.front).length
    (pieceChars call.key) none
  have hchars : (pieceChars call.key ++ pieceChars call.back).head? =
      (pieceChars (call.key ++ call.back)).head? := by
    rw [pieceChars, pieceChars, ← List.flatMap_append]
    rfl
  rw [specifierStarts_formatText, specifierStarts_formatText, pieceChars_full, pairs_append,
    pairs_append, Option.or_none, Option.or_none, hseam, hshift, hchars, List.map_append, List.map_append,
    List.map_append, List.append_assoc, List.map_map, List.map_map]
  refine ⟨_, _, rfl, ?_⟩
  rw [List.length_map, length_pairs]

/-- What is found for the key string, whatever stands behind `%%`. -/
theorem getFormatSpecifierIndices_text (call : FormatCall) :
    getFormatSpecifierIndices (formatText call.key) (formatText call.full) =
      .ok (List.range' (counted (marks call.front (pieceChars (call.key ++ call.back)).head?))
        (counted (marks call.key none))) := by
  have hlen : (specifierStarts (formatText call.key)).length = counted (marks call.key none) := by
    rw [specifierStarts_formatText, List.length_map, length_pairs]
  rw [getFormatSpecifierIndices]
  by_cases hstarts : specifierStarts (formatText call.key) = []
  · rw [hstarts] at hlen
    rw [if_neg (not_not.mpr hstarts), ← hlen]
    rfl
  · obtain ⟨front, back, hfull, hfront⟩ := starts_full call
    have hnodup : (specifierStarts (formatText call.full)).Nodup := by
      rw [specifierStarts_formatText]
      exact nodup_pairs _ _ _
    rw [hfull] at hnodup
    have hfirst : firstOccurrence (formatText call.key).toList (formatText call.full).toList =
        some (pieceChars call.front).length := by
      rw [formatText, formatText, String.toList_ofList, String.toList_ofList]
      exact firstOccurrence_key call
    rw [if_pos hstarts, hfirst]
    show ((specifierStarts (formatText call.key)).map (· + (pieceChars call.front).length)).mapM
      (listIndex (specifierStarts (formatText call.full))) = _
    rw [hfull, mapM_listIndex hnodup, hfront, List.length_map, hlen]

theorem indices_iff (call : FormatCall) :
    getFormatSpecifierIndices (formatText call.key) (formatText call.full) =
        .ok (List.range' (conversions call.front).length (conversions call.key).length) ↔
      NoWordEscape (marks call.key none) ∧ (conversions call.key ≠ [] →
        NoWordEscape (marks call.front (pieceChars (call.key ++ call.back)).head?)) := by
  obtain ⟨n, hkey, hn⟩ := counted_marks call.key none
  obtain ⟨m, hfront, hm⟩ :=
    counted_marks call.front (pieceChars (call.key ++ call.back)).head?
  rw [getFormatSpecifierIndices_text, Except.ok.injEq, List.range'_inj, hkey, hfront, ← hn, ← hm,
    Ne, ← List.length_eq_zero_iff]
  omega

end Positions

/-! ## 6. The arguments -/

section Arguments
variable {formatTypes : List ArgType} {i : Nat} {c : Conversion}

theorem filterArgument_eq (h : formatTypes[i]? = some c.argType) (result : List String)
    (argument : List Arg) :
    filterArgument formatTypes i result argument =
      .ok (result ++ FormatCall.relevant c argument) := by
  have hitem : getItem formatTypes i = .ok c.argType := by rw [getItem, h]
  unfold filterArgument FormatCall.relevant
  simp only [hitem]
  induction argument generalizing result with
  | nil => simp [pure, Except.pure]
  | cons arg argument ih =>
    rw [List.foldlM_cons]
    show List.foldlM _ (if arg.isInstance c.argType && stringIsPrintable arg.text then
      result ++ [arg.text] else result) argument = _
    rw [ih]
    cases h : arg.isInstance c.argType && stringIsPrintable arg.text <;> simp [h]

/-- The loop over the positions of some of the conversions. -/
theorem filterRelevant_loop {argValues : List (List Arg)} {start : Nat} {cs : List Conversion}
    {slots : List (List Arg)} {k : Nat} (result : List String) (hlen : cs.length ≤ slots.length)
    (htypes : ∀ j (hj : j < cs.length), formatTypes[k + j]? = some cs[j].argType)
    (hslots : ∀ j, j < cs.length → argValues[start + (k + j)]? = slots[j]?) :
    (List.range' k cs.length).foldlM (fun result i => do
        let argument ← getItem argValues (start + i)
        filterArgument formatTypes i result argument) result =
      .ok (result ++ (cs.zip slots).flatMap fun e => FormatCall.relevant e.1 e.2) := by
  induction cs generalizing slots k result with
  | nil => simp [pure, Except.pure]
  | cons c cs ih =>
    cases slots with
    | nil => exact absurd hlen (Nat.not_succ_le_zero _)
    | cons slot slots =>
      have hslot : getItem argValues (start + k) = .ok slot := by
        have h := hslots 0 (Nat.succ_pos _)
        rw [Nat.add_zero, List.getElem?_cons_zero] at h
        rw [getItem, h]
      have htype : formatTypes[k]? = some c.argType := htypes 0 (Nat.succ_pos _)
      rw [List.length_cons, List.range'_succ, List.foldlM_cons, hslot]
      show (filterArgument formatTypes k result slot >>= _) = _
      rw [filterArgument_eq htype]
      show List.foldlM _ (result ++ FormatCall.relevant c slot) _ = _
      rw [ih _ (Nat.le_of_succ_le_succ hlen) (fun j hj => ?_) (fun j hj => ?_), List.zip_cons_cons,
        List.flatMap_cons, List.append_assoc]
      · have h := htypes (j + 1) (Nat.succ_lt_succ hj)
        rwa [← Nat.add_assoc, Nat.add_right_comm] at h
      · have h := hslots (j + 1) (Nat.succ_lt_succ hj)
        rwa [← Nat.add_assoc k, Nat.add_right_comm k] at h

theorem conversions_append (xs ys : List Piece) :
    conversions (xs ++ ys) = conversions xs ++ conversions ys := List.filterMap_append

/-- With the types and the positions of the conversions, their arguments are selected. -/
theorem filterRelevantIndices_eq (call : FormatCall) :
    filterRelevantIndices call.arguments.length (call.arguments ++ call.slots)
        (List.range' (conversions call.front).length (conversions call.key).length)
        ((conversions call.full).map Conversion.argType) =
      .ok (((conversions call.key).zip
        (call.slots.drop (conversions call.front).length)).flatMap fun e =>
          FormatCall.relevant e.1 e.2) := by
  have hfull : conversions call.full =
      conversions call.front ++ (conversions call.key ++ conversions call.back) := by
    rw [FormatCall.full, conversions_append, conversions_append]
  have hslots : call.slots.length = (conversions call.full).length := call.oneSlot
  rw [hfull, List.length_append, List.length_append] at hslots
  rw [filterRelevantIndices, hfull]
  refine filterRelevant_loop [] ?_ (fun j hj => ?_)
    fun j hj => ?_
  · rw [List.length_drop]
    omega
  · rw [List.getElem?_map, List.getElem?_append_right (by omega), Nat.add_sub_cancel_left,
      List.getElem?_append_left hj, List.getElem?_eq_getElem hj]
    rfl
  · rw [List.getElem?_append_right (by omega), Nat.add_sub_cancel_left, List.getElem?_drop]

/-- The arguments of the key string are selected if and only if what is taken for a conversion does
no harm. -/
theorem resolved_iff (call : FormatCall) : call.Resolved ↔ call.Fits := by
  constructor
  · intro h
    obtain ⟨hkey, hfront⟩ := (indices_iff call).mp h.indices
    exact ⟨(typesFit_iff call.full).mp h.types, hkey, hfront⟩
  · intro h
    have htypes := (typesFit_iff call.full).mpr h.types
    have hindices := (indices_iff call).mpr ⟨h.key, h.front⟩
    exact ⟨htypes, hindices, _, hindices, by rw [htypes, filterRelevantIndices_eq]⟩

end Arguments

/-- A call that prints a single short number, with the key string `%hi`. -/
def shortNumberCall : FormatCall where
  front := []
  key := [.conversion .hi]
  back := []
  arguments := [[.str "%hi"]]
  slots := [[.long 7]]
  once := by
    intro i hi h
    have hlen : i + 3 ≤ 3 := h.length_le (List.cons_ne_nil _ _)
    show i = 0
    omega
  oneSlot := rfl

/-- The type of a short number is missing. -/
theorem shortNumber_type_missing : ¬∀ call : FormatCall, call.Resolved := by
  intro h
  have htypes := (h shortNumberCall).types
  have hnone : getFormatTypes (formatText shortNumberCall.full) = [] := by decide
  rw [hnone] at htypes
  cases htypes

end FactCore
