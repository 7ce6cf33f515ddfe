import FactCore.Lib.Decimal
import FactCore.Lib.Itertools
import FactCore.Lib.Markup
import FactCore.Lib.Separator
import Mathlib.Data.List.Forall2

/-!
# The hex preview of a file

`src/src/web_interface/components/hex_highlighting.py`: the bytes of a file are shown in rows, with
their hexadecimal digits in one column and the characters in another one. Groups of bytes are
highlighted: both columns hold spans that are opened and closed as the class of the bytes changes.
The text becomes part of a page, but its characters are not escaped.

Results:
1. `getHexAndStrPreview_eq`: the columns are tags and text, written out.
2. `nested_previewTokens`, `textOf_previewTokens`: spans are closed as they were opened, and between
   them stands the text of each byte.
3. `harmless_previewTokens_iff`: when no byte is read as markup.
4. `faithfulRow_iff`, `lines_previewDataAsHex`: when a row is right, and the rows of a preview.
5. `previewDataAsHex_iff`: the preview is right exactly for such bytes;
   `declaration_swallowed`: bytes that are lost.
-/

namespace FactCore

open MarkupToken

/-! ## 1. The preview -/

/-- The classes of bytes; their names are classes of the page. -/
inductive HighlightingClass
  | number
  | builtIn
  | keyword
  | comment
  deriving DecidableEq, Repr

def HighlightingClass.name : HighlightingClass → String
  | number => "number"
  | builtIn => "built_in"
  | keyword => "keyword"
  | comment => "comment"

def isAsciiLetter (char : UInt8) : Bool :=
  (65 ≤ char && char ≤ 90) || (97 ≤ char && char ≤ 122)

def isAsciiDigit (char : UInt8) : Bool := 48 ≤ char && char ≤ 57

/-- `HIGHLIGHTING_CLASSES`. -/
def highlightingClasses : List ((UInt8 → Bool) × HighlightingClass) :=
  [(isAsciiLetter, .number),
   (isAsciiDigit, .builtIn),
   (fun char => 128 ≤ char && char < 255, .keyword),
   -- \x00 and \xff
   (fun char => char == 0 || char == 255, .comment)]

/-- `PRINTABLE`: of the white space in `string.printable`, only the blank is left. -/
def isPrintable (char : UInt8) : Bool := 32 ≤ char && char ≤ 126

def closingSpan : String := "</span>"

/-- `_span_should_close`. -/
def spanShouldClose (lastClass currentClass : Option HighlightingClass) : Bool :=
  lastClass.isSome && currentClass != lastClass

/-- `_span_should_open`. -/
def spanShouldOpen (lastClass currentClass : Option HighlightingClass) : Bool :=
  currentClass.isSome && currentClass != lastClass

/-- `_get_highlighting_class`. -/
def getHighlightingClass (char : UInt8) : Option HighlightingClass :=
  (highlightingClasses.find? fun entry => entry.1 char).map Prod.snd

/-- `_get_html_span`. -/
def getHtmlSpan (highlightingClass : HighlightingClass) : String :=
  "<span class=\"hljs-" ++ highlightingClass.name ++ "\">"

/-- `f'{n:#0{width}x}'`: the sign and `0x`, filled up with zeros. -/
def formatHex (width : Nat) (n : Int) : String :=
  let sign := if n < 0 then "-0x" else "0x"
  let digits := Nat.toDigits 16 n.natAbs
  sign ++ String.ofList (List.replicate (width - sign.length - digits.length) '0' ++ digits)

/-- `_chr_to_hex`. -/
def chrToHex (char : UInt8) : String :=
  String.ofList (((formatHex 4 char.toNat).toList.drop 2).map Char.toUpper)

/-- `rjust`. -/
def rjust (width : Nat) (s : String) : String :=
  String.ofList (List.replicate (width - s.length) ' ') ++ s

/-- `center`. Where the number of blanks is odd, the left side has more if the width is odd. -/
def center (width : Nat) (s : String) : String :=
  let pad := width - s.length
  let left := pad / 2 + (if pad % 2 = 1 ∧ width % 2 = 1 then 1 else 0)
  String.ofList (List.replicate left ' ') ++ s ++ String.ofList (List.replicate (pad - left) ' ')

/-- `_format_offset`. -/
def formatOffset (offset : Int) : String := rjust 12 (formatHex 8 offset)

/-- The character of a byte in the second column. -/
def previewChar (char : UInt8) : Char := if isPrintable char then Char.ofNat char.toNat else '.'

/-- The variables of `_get_hex_and_str_preview`. -/
structure Preview where
  hexContent : String
  strPreview : String
  lastHighlightingClass : Option HighlightingClass

/-- The body of its loop. -/
def Preview.add (p : Preview) (char : UInt8) : Preview :=
  let highlightingClass := getHighlightingClass char
  let close := if spanShouldClose p.lastHighlightingClass highlightingClass then closingSpan else ""
  let span := match highlightingClass with
    | some c =>
      if spanShouldOpen p.lastHighlightingClass highlightingClass then getHtmlSpan c else ""
    | none => ""
  { hexContent := p.hexContent ++ close ++ span ++ (" " ++ chrToHex char)
    strPreview := p.strPreview ++ close ++ span ++ String.singleton (previewChar char)
    lastHighlightingClass := highlightingClass }

/-- `_get_hex_and_str_preview`. -/
def getHexAndStrPreview (line : List UInt8) : String × String :=
  let p := line.foldl Preview.add ⟨"", "", none⟩
  -- close last span
  let close := if p.lastHighlightingClass.isSome then closingSpan else ""
  (p.hexContent ++ close, p.strPreview ++ close)

/-- A row of the preview. -/
def previewRow (chunkSize : Nat) (startOffset relativeOffset : Int) (line : List UInt8) : String :=
  let (hexContent, strPreview) := getHexAndStrPreview line
  -- fill hex column if it isn't full
  let fill := String.ofList (List.replicate ((chunkSize - line.length) * 3) ' ')
  formatOffset startOffset ++ " | " ++ formatOffset relativeOffset ++ " | " ++
    (hexContent ++ fill) ++ " | " ++ strPreview

/-- The loop of `preview_data_as_hex`. -/
def previewRows (chunkSize : Nat) : Int → Int → List (List UInt8) → List String
  | _, _, [] => []
  | startOffset, relativeOffset, line :: lines =>
    previewRow chunkSize startOffset relativeOffset line ::
      previewRows chunkSize (startOffset + chunkSize) (relativeOffset + chunkSize) lines

/-- The first lines of the preview. -/
def previewHeader : List String :=
  [center 12 "rel. offset" ++ " | " ++ center 12 "abs. offset" ++ " | " ++
      center 48 "hex content" ++ " | string preview",
    String.ofList (List.replicate 12 '-') ++ " | " ++ String.ofList (List.replicate 12 '-') ++
      " | " ++ String.ofList (List.replicate 48 '-') ++ " | " ++
      String.ofList (List.replicate 16 '-')]

/-- `preview_data_as_hex`. -/
def previewDataAsHex (chunker : Chunker UInt8) (data : List UInt8) (chunkSize : Nat)
    (offset : Int) : String :=
  "\n".intercalate
    (previewHeader ++ previewRows chunkSize 0 offset (chunker.chunked data chunkSize))

/-! ## 2. The columns as tags and text -/

/-- The tags of the highlighting. -/
inductive HighlightTag
  | opened (highlightingClass : HighlightingClass)
  | closed
  deriving DecidableEq

/-- What stands after the `<` of a tag. -/
def HighlightTag.spelling : HighlightTag → List Char
  | opened highlightingClass =>
    ("span class=\"hljs-" ++ highlightingClass.name ++ "\">").toList
  | closed => "/span>".toList

theorem spelling_opened (c : HighlightingClass) :
    (HighlightTag.opened c).spelling = ("span class=\"hljs-" ++ c.name ++ "\">").toList := rfl

theorem spelling_closed : HighlightTag.closed.spelling = "/span>".toList := rfl

theorem spelling_opened_eq_cons (c : HighlightingClass) :
    ∃ rest, (HighlightTag.opened c).spelling = 's' :: rest := by
  simp [spelling_opened]

theorem spelling_closed_eq_cons : ∃ rest, HighlightTag.closed.spelling = '/' :: 's' :: rest := by
  simp [spelling_closed]

def highlightTags : TagSet HighlightTag where
  tags := [.opened .number, .opened .builtIn, .opened .keyword, .opened .comment, .closed]
  spelling := HighlightTag.spelling
  startsTag := by
    intro t _
    cases t with
    | opened c =>
      obtain ⟨rest, hrest⟩ := spelling_opened_eq_cons c
      exact .inl ⟨'s', rest, hrest, rfl⟩
    | closed =>
      obtain ⟨rest, hrest⟩ := spelling_closed_eq_cons
      exact .inr ⟨'s', rest, hrest⟩
  distinct := by
    intro t _ t' _ h
    rcases t with (_ | _ | _ | _) | _ <;> rcases t' with (_ | _ | _ | _) | _ <;>
      simp [spelling_opened, spelling_closed, HighlightingClass.name] at h ⊢

theorem mem_highlightTags (t : HighlightTag) : t ∈ highlightTags.tags := by
  cases t with
  | opened c => cases c <;> decide
  | closed => decide

/-- Every span that is closed was opened before, and all are closed in the end. -/
def nested : Nat → List (MarkupToken HighlightTag) → Bool
  | depth, [] => depth == 0
  | depth, text _ :: tokens => nested depth tokens
  | depth, tag (.opened _) :: tokens => nested (depth + 1) tokens
  | 0, tag .closed :: _ => false
  | depth + 1, tag .closed :: tokens => nested depth tokens

/-- The tags between two bytes. -/
def spanTokens (lastClass currentClass : Option HighlightingClass) :
    List (MarkupToken HighlightTag) :=
  (if spanShouldClose lastClass currentClass then [tag .closed] else []) ++
    match currentClass with
    | some c => if spanShouldOpen lastClass currentClass then [tag (.opened c)] else []
    | none => []

/-- The tokens of a column, in which each byte has the text of its cell. -/
def previewTokens (cell : UInt8 → List Char) :
    Option HighlightingClass → List UInt8 → List (MarkupToken HighlightTag)
  | lastClass, [] => if lastClass.isSome then [tag .closed] else []
  | lastClass, char :: line =>
    spanTokens lastClass (getHighlightingClass char) ++ (cell char).map text ++
      previewTokens cell (getHighlightingClass char) line

def hexCell (char : UInt8) : List Char := ' ' :: (chrToHex char).toList

def strCell (char : UInt8) : List Char := [previewChar char]

section Columns
variable {cell : UInt8 → List Char}

theorem toList_closingSpan : closingSpan.toList = '<' :: HighlightTag.closed.spelling := by
  simp [closingSpan, spelling_closed]

theorem toList_getHtmlSpan (c : HighlightingClass) :
    (getHtmlSpan c).toList = '<' :: (HighlightTag.opened c).spelling := by
  show ("<span class=\"hljs-" ++ c.name ++ "\">").toList = _
  simp [spelling_opened]

theorem render_spanTokens (lastClass currentClass : Option HighlightingClass) :
    render HighlightTag.spelling (spanTokens lastClass currentClass) =
      (if spanShouldClose lastClass currentClass then closingSpan else "").toList ++
        (match currentClass with
          | some c => if spanShouldOpen lastClass currentClass then getHtmlSpan c else ""
          | none => "").toList := by
  unfold spanTokens
  rw [render_append]
  congr 1
  · split
    · rw [toList_closingSpan]
      exact List.append_nil _
    · rfl
  · cases currentClass with
    | none => rfl
    | some c =>
      dsimp only
      split
      · rw [toList_getHtmlSpan]
        exact List.append_nil _
      · rfl

/-- The rest of the columns, from the state of the loop on. -/
theorem toList_foldl_add (line : List UInt8) (p : Preview) :
    ((line.foldl Preview.add p).hexContent ++
        if (line.foldl Preview.add p).lastHighlightingClass.isSome then closingSpan
        else "").toList =
      p.hexContent.toList ++
        render HighlightTag.spelling (previewTokens hexCell p.lastHighlightingClass line) ∧
    ((line.foldl Preview.add p).strPreview ++
        if (line.foldl Preview.add p).lastHighlightingClass.isSome then closingSpan
        else "").toList =
      p.strPreview.toList ++
        render HighlightTag.spelling (previewTokens strCell p.lastHighlightingClass line) := by
  induction line generalizing p with
  | nil =>
    have hclose : (if p.lastHighlightingClass.isSome then closingSpan else "").toList =
        render HighlightTag.spelling (previewTokens hexCell p.lastHighlightingClass []) := by
      rw [previewTokens]
      split
      · rw [toList_closingSpan]
        exact (List.append_nil _).symm
      · rfl
    rw [List.foldl_nil, String.toList_append, String.toList_append, hclose]
    exact ⟨rfl, rfl⟩
  | cons char line ih =>
    obtain ⟨hhex, hstr⟩ := ih (p.add char)
    have hspans := render_spanTokens p.lastHighlightingClass (getHighlightingClass char)
    rw [List.foldl_cons, hhex, hstr, previewTokens, previewTokens, render_append, render_append,
      render_append, render_append, render_map_text, render_map_text, hspans]
    constructor
    · simp [Preview.add, hexCell]
    · simp [Preview.add, strCell]

/-- The columns are tags and text, written out. -/
theorem getHexAndStrPreview_eq (line : List UInt8) :
    (getHexAndStrPreview line).1.toList =
        render HighlightTag.spelling (previewTokens hexCell none line) ∧
      (getHexAndStrPreview line).2.toList =
        render HighlightTag.spelling (previewTokens strCell none line) := by
  have h := toList_foldl_add line ⟨"", "", none⟩
  simp only [String.toList_empty, List.nil_append] at h
  exact h

example : getHexAndStrPreview [1, 97, 0] =
    (" 01<span class=\"hljs-number\"> 61</span><span class=\"hljs-comment\"> 00</span>",
      ".<span class=\"hljs-number\">a</span><span class=\"hljs-comment\">.</span>") := by
  decide +kernel

theorem nested_map_text (depth : Nat) (cs : List Char) (tokens : List (MarkupToken HighlightTag)) :
    nested depth (cs.map text ++ tokens) = nested depth tokens := by
  induction cs with
  | nil => rfl
  | cons c cs ih => exact ih

/-- Between two bytes, at most one span is closed and at most one is opened. -/
theorem nested_spanTokens (lastClass currentClass : Option HighlightingClass)
    (tokens : List (MarkupToken HighlightTag)) :
    nested (if lastClass.isSome then 1 else 0) (spanTokens lastClass currentClass ++ tokens) =
      nested (if currentClass.isSome then 1 else 0) tokens := by
  unfold spanTokens spanShouldClose spanShouldOpen
  by_cases hsame : currentClass = lastClass
  · subst hsame
    cases currentClass <;> simp
  · have hne : (currentClass != lastClass) = true := bne_iff_ne.mpr hsame
    cases lastClass <;> cases currentClass <;> simp [hne, nested]

/-- The spans of a column are properly nested. -/
theorem nested_previewTokens (lastClass : Option HighlightingClass) (line : List UInt8) :
    nested (if lastClass.isSome then 1 else 0) (previewTokens cell lastClass line) = true := by
  induction line generalizing lastClass with
  | nil => cases lastClass <;> rfl
  | cons char line ih =>
    rw [previewTokens, List.append_assoc, nested_spanTokens, nested_map_text]
    exact ih _

theorem textOf_spanTokens (lastClass currentClass : Option HighlightingClass) :
    textOf (spanTokens lastClass currentClass) = [] := by
  unfold spanTokens
  rw [textOf_append]
  cases currentClass with
  | none => split <;> rfl
  | some c => dsimp only; split <;> split <;> rfl

/-- Without the spans, a column is the text of its cells. -/
theorem textOf_previewTokens (lastClass : Option HighlightingClass) (line : List UInt8) :
    textOf (previewTokens cell lastClass line) = line.flatMap cell := by
  induction line generalizing lastClass with
  | nil => cases lastClass <;> rfl
  | cons char line ih =>
    rw [previewTokens, textOf_append, textOf_append, textOf_spanTokens, textOf_map_text, ih,
      List.flatMap_cons]
    rfl

end Columns

/-! ## 3. Bytes that are read as markup -/

/-- `/`, `!` and `?`: `<` is markup before them. (Before a letter it is, too, but there is always
a tag between a `<` of the file and a letter.) -/
def markupBytes : List UInt8 := [0x2F, 0x21, 0x3F]

theorem forall_byte {P : UInt8 → Prop} (h : ∀ n : Fin 256, P (UInt8.ofFin n)) (char : UInt8) :
    P char := h char.toFin

/-- What the classes and the characters of bytes have to do with markup, by evaluation. -/
theorem class_previewChar (char : UInt8) :
    (getHighlightingClass char = none → (previewChar char).isAlphanum = false) ∧
    (previewChar char = '<' ↔ char = 0x3C) ∧ (previewChar char = '/' ↔ char = 0x2F) ∧
    (previewChar char = '<' ∨ previewChar char = '&' → getHighlightingClass char = none) ∧
    previewChar char ≠ '\n' ∧ (char ∈ markupBytes → getHighlightingClass char = none) ∧
    (getHighlightingClass char = none → char ≠ 0x2F →
      (((previewChar char).isAlpha || previewChar char == '!' || previewChar char == '?') = true ↔
        char ∈ markupBytes)) := by
  revert char
  refine forall_byte fun n => ?_
  revert n
  decide +kernel

/-- A byte without a class is no letter and no digit. -/
theorem isAlphanum_previewChar {char : UInt8} (h : getHighlightingClass char = none) :
    (previewChar char).isAlphanum = false := (class_previewChar char).1 h

theorem previewChar_eq_less {char : UInt8} : previewChar char = '<' ↔ char = 0x3C :=
  (class_previewChar char).2.1

theorem previewChar_eq_slash {char : UInt8} : previewChar char = '/' ↔ char = 0x2F :=
  (class_previewChar char).2.2.1

/-- The two characters that could start markup or a reference have no class. -/
theorem getHighlightingClass_eq_none {char : UInt8}
    (h : previewChar char = '<' ∨ previewChar char = '&') : getHighlightingClass char = none :=
  (class_previewChar char).2.2.2.1 h

theorem previewChar_ne_newline (char : UInt8) : previewChar char ≠ '\n' :=
  (class_previewChar char).2.2.2.2.1

theorem getHighlightingClass_of_mem_markupBytes {char : UInt8} (h : char ∈ markupBytes) :
    getHighlightingClass char = none := (class_previewChar char).2.2.2.2.2.1 h

theorem previewChar_startsMarkup {char : UInt8} (h : getHighlightingClass char = none)
    (hslash : char ≠ 0x2F) : ((previewChar char).isAlpha || previewChar char == '!' ||
      previewChar char == '?') = true ↔ char ∈ markupBytes :=
  (class_previewChar char).2.2.2.2.2.2 h hslash

section LineRest

/-- What stands after a byte without a class: the rest of the row and the end of the line. -/
def lineRest (line : List UInt8) : List Char :=
  render HighlightTag.spelling (previewTokens strCell none line) ++ ['\n']

theorem lineRest_nil : lineRest [] = ['\n'] := rfl

theorem lineRest_cons_of_none {char : UInt8} (h : getHighlightingClass char = none)
    (line : List UInt8) : lineRest (char :: line) = previewChar char :: lineRest line := by
  unfold lineRest
  rw [previewTokens, h]
  rfl

theorem lineRest_cons_of_some {char : UInt8} {c : HighlightingClass}
    (h : getHighlightingClass char = some c) (line : List UInt8) :
    ∃ rest, lineRest (char :: line) = '<' :: 's' :: rest := by
  obtain ⟨spelling, hspelling⟩ := spelling_opened_eq_cons c
  refine ⟨spelling ++ (render HighlightTag.spelling ((strCell char).map text ++
    previewTokens strCell (some c) line) ++ ['\n']), ?_⟩
  have hspan : spanTokens none (some c) = [tag (.opened c)] := rfl
  unfold lineRest
  rw [previewTokens, h, hspan, List.append_assoc, render_append]
  simp [render, hspelling]

/-- No letter and no digit stands behind a byte without a class. -/
theorem exists_lineRest_eq_cons (line : List UInt8) :
    ∃ c rest, lineRest line = c :: rest ∧ c.isAlphanum = false := by
  cases line with
  | nil => exact ⟨'\n', [], rfl, rfl⟩
  | cons char line =>
    cases hclass : getHighlightingClass char with
    | none => exact ⟨_, _, lineRest_cons_of_none hclass line, isAlphanum_previewChar hclass⟩
    | some c =>
      obtain ⟨rest, hrest⟩ := lineRest_cons_of_some hclass line
      exact ⟨_, _, hrest, rfl⟩

theorem startsReference_cons {c d : Char} {rest : List Char} (hc : c.isAlphanum = false)
    (hd : c = '#' → d.isAlphanum = false) : startsReference (c :: d :: rest) = false := by
  by_cases hsharp : c = '#'
  · subst hsharp
    exact hd rfl
  · rwa [startsReference_cons_of_ne hsharp]

theorem startsReference_lineRest (line : List UInt8) : startsReference (lineRest line) = false := by
  cases line with
  | nil => rfl
  | cons char line =>
    cases hclass : getHighlightingClass char with
    | none =>
      obtain ⟨d, rest, hrest, hd⟩ := exists_lineRest_eq_cons line
      rw [lineRest_cons_of_none hclass, hrest]
      exact startsReference_cons (isAlphanum_previewChar hclass) fun _ => hd
    | some c =>
      obtain ⟨rest, hrest⟩ := lineRest_cons_of_some hclass line
      rw [hrest]
      exact startsReference_cons rfl fun hsharp => absurd hsharp (by decide)

/-- A `<` is markup exactly before the three bytes. -/
theorem startsMarkup_lineRest (line : List UInt8) :
    startsMarkup (lineRest line) = true ↔ ∃ char ∈ markupBytes, [char] <+: line := by
  cases line with
  | nil => simp [lineRest_nil, startsMarkup]
  | cons char line =>
    have hhead : (∃ char' ∈ markupBytes, [char'] <+: char :: line) ↔ char ∈ markupBytes := by
      simp [List.cons_prefix_cons]
    rw [hhead]
    cases hclass : getHighlightingClass char with
    | none =>
      rw [lineRest_cons_of_none hclass]
      by_cases hslash : char = 0x2F
      · obtain ⟨d, rest, hrest, -⟩ := exists_lineRest_eq_cons line
        rw [previewChar_eq_slash.mpr hslash, hrest, hslash]
        exact iff_of_true rfl (by decide)
      · have hne : previewChar char ≠ '/' := previewChar_eq_slash.not.mpr hslash
        rw [startsMarkup.eq_3 _ _ (by simpa using hne)]
        exact previewChar_startsMarkup hclass hslash
    | some c =>
      obtain ⟨rest, hrest⟩ := lineRest_cons_of_some hclass line
      rw [hrest]
      refine iff_of_false Bool.false_ne_true ?_
      intro hmem
      rw [getHighlightingClass_of_mem_markupBytes hmem] at hclass
      cases hclass

/-- The bytes of the file never make one of the tags. -/
theorem not_spelling_prefix_lineRest (t : HighlightTag) (line : List UInt8) :
    ¬t.spelling <+: lineRest line := by
  have hhead : ∀ {rest} line, ¬ 's' :: rest <+: lineRest line := by
    intro rest line hprefix
    obtain ⟨c, rest', hrest, hc⟩ := exists_lineRest_eq_cons line
    rw [hrest] at hprefix
    rw [← (List.cons_prefix_cons.mp hprefix).1] at hc
    cases hc
  cases t with
  | opened c =>
    obtain ⟨rest, hspelling⟩ := spelling_opened_eq_cons c
    rw [hspelling]
    exact hhead line
  | closed =>
    obtain ⟨rest, hspelling⟩ := spelling_closed_eq_cons
    rw [hspelling]
    intro hprefix
    cases line with
    | nil => exact absurd (List.cons_prefix_cons.mp hprefix).1 (by decide)
    | cons char line =>
      cases hclass : getHighlightingClass char with
      | none =>
        rw [lineRest_cons_of_none hclass] at hprefix
        exact hhead line (List.cons_prefix_cons.mp hprefix).2
      | some c =>
        obtain ⟨rest, hrest⟩ := lineRest_cons_of_some hclass line
        rw [hrest] at hprefix
        exact absurd (List.cons_prefix_cons.mp hprefix).1 (by decide)

theorem harmless_spanTokens (lastClass currentClass : Option HighlightingClass)
    (tokens : List (MarkupToken HighlightTag)) (rest : List Char) :
    harmless highlightTags (spanTokens lastClass currentClass ++ tokens) rest =
      harmless highlightTags tokens rest := by
  unfold spanTokens
  cases currentClass with
  | none => split <;> rfl
  | some c => dsimp only; split <;> split <;> rfl

theorem separate_spanTokens (lastClass currentClass : Option HighlightingClass)
    {tokens : List (MarkupToken HighlightTag)} {rest : List Char}
    (h : Separate highlightTags rest tokens) :
    Separate highlightTags rest (spanTokens lastClass currentClass ++ tokens) := by
  unfold spanTokens
  cases currentClass with
  | none =>
    split
    · exact .tag (mem_highlightTags _) h
    · exact h
  | some c =>
    dsimp only
    split <;> split
    · exact .tag (mem_highlightTags _) (.tag (mem_highlightTags _) h)
    · exact .tag (mem_highlightTags _) h
    · exact .tag (mem_highlightTags _) h
    · exact h

theorem separate_previewTokens (lastClass : Option HighlightingClass) (line : List UInt8) :
    Separate highlightTags ['\n'] (previewTokens strCell lastClass line) := by
  induction line generalizing lastClass with
  | nil =>
    cases lastClass with
    | none => exact .nil
    | some c => exact .tag (mem_highlightTags _) .nil
  | cons char line ih =>
    rw [previewTokens, List.append_assoc]
    refine separate_spanTokens _ _ (.text (fun hamp => ?_) (fun hless t _ => ?_) (ih _))
    · rw [getHighlightingClass_eq_none (.inr hamp)]
      exact startsReference_lineRest line
    · rw [getHighlightingClass_eq_none (.inl hless)]
      exact not_spelling_prefix_lineRest t line

/-- No byte of a line is read as markup exactly if no `<` stands before one of the three bytes. -/
theorem harmless_previewTokens_iff (lastClass : Option HighlightingClass) (line : List UInt8) :
    harmless highlightTags (previewTokens strCell lastClass line) ['\n'] = true ↔
      ∀ char ∈ markupBytes, ¬[0x3C, char] <:+: line := by
  induction line generalizing lastClass with
  | nil => cases lastClass <;> simp [previewTokens, harmless]
  | cons char line ih =>
    rw [previewTokens, List.append_assoc, harmless_spanTokens]
    have hfirst : (previewChar char == '<' && startsMarkup (render HighlightTag.spelling
        (previewTokens strCell (getHighlightingClass char) line) ++ ['\n'])) = true ↔
        char = 0x3C ∧ ∃ next ∈ markupBytes, [next] <+: line := by
      rw [Bool.and_eq_true, beq_iff_eq, previewChar_eq_less]
      refine and_congr_right fun hchar => ?_
      rw [getHighlightingClass_eq_none (.inl (previewChar_eq_less.mpr hchar))]
      exact startsMarkup_lineRest line
    have hpair : (∀ next ∈ markupBytes, ¬[0x3C, next] <:+: char :: line) ↔
        ¬(char = 0x3C ∧ ∃ next ∈ markupBytes, [next] <+: line) ∧
          ∀ next ∈ markupBytes, ¬[0x3C, next] <:+: line := by
      constructor
      · intro h
        refine ⟨?_, fun next hnext hline => h next hnext (List.infix_cons hline)⟩
        rintro ⟨rfl, next, hnext, hprefix⟩
        exact h next hnext (List.cons_prefix_cons.mpr ⟨rfl, hprefix⟩).isInfix
      · rintro ⟨hchar, hline⟩ next hnext hpair
        rcases List.infix_cons_iff.mp hpair with hprefix | hpair
        · obtain ⟨heq, hprefix⟩ := List.cons_prefix_cons.mp hprefix
          exact hchar ⟨heq.symm, next, hnext, hprefix⟩
        · exact hline next hnext hpair
    rw [hpair, ← hfirst, ← ih (getHighlightingClass char), Bool.not_eq_true,
      ← Bool.not_eq_true', ← Bool.and_eq_true]
    rfl

end LineRest

/-! ## 4. Rows -/

/-- The two digits of a byte. -/
def hexDigits (char : UInt8) : List Char :=
  [(Nat.digitChar (char.toNat / 16)).toUpper, (Nat.digitChar (char.toNat % 16)).toUpper]

/-- What stands before the columns of a row. -/
def rowOffsets (startOffset relativeOffset : Int) : List Char :=
  (formatOffset startOffset ++ " | " ++ formatOffset relativeOffset ++ " | ").toList

/-- What stands between the columns. -/
def rowFill (chunkSize : Nat) (line : List UInt8) : List Char :=
  List.replicate ((chunkSize - line.length) * 3) ' ' ++ " | ".toList

/-- A row, read with the end of the line, shows the bytes of a chunk: the columns have nested
spans, and without these the digits of the bytes and their characters. -/
def FaithfulRow (references : CharacterReferences) (chunkSize : Nat)
    (startOffset relativeOffset : Int) (line : List UInt8) (row : List Char) : Prop :=
  ∃ hexTokens strTokens,
    readMarkup highlightTags references 0 (row ++ ['\n']) =
      some ((rowOffsets startOffset relativeOffset).map text ++ hexTokens ++
        (rowFill chunkSize line).map text ++ strTokens ++ [text '\n']) ∧
    nested 0 hexTokens = true ∧ nested 0 strTokens = true ∧
    textOf hexTokens = line.flatMap (fun char => ' ' :: hexDigits char) ∧
    textOf strTokens = line.map previewChar

section Rows
variable {references : CharacterReferences} {chunkSize : Nat}
  {startOffset relativeOffset : Int} {line : List UInt8}

theorem toList_chrToHex (char : UInt8) :
    (chrToHex char).toList =
      (List.replicate (2 - (Nat.toDigits 16 char.toNat).length) '0' ++
        Nat.toDigits 16 char.toNat).map Char.toUpper := by
  have hsign : ¬(char.toNat : Int) < 0 := Int.not_lt.mpr (Int.natCast_nonneg _)
  have hlength : "0x".length = 2 := rfl
  simp only [chrToHex, formatHex, if_neg hsign, String.toList_append, String.toList_ofList, hlength]
  rfl

/-- The cell of a byte shows its two digits. -/
theorem hexCell_eq (char : UInt8) : hexCell char = ' ' :: hexDigits char := by
  have hdigits : List.replicate (2 - (Nat.toDigits 16 char.toNat).length) '0' ++
      Nat.toDigits 16 char.toNat =
        [Nat.digitChar (char.toNat / 16), Nat.digitChar (char.toNat % 16)] := by
    have hlow : char.toNat % 16 < 16 := Nat.mod_lt _ (by decide)
    have hhigh : char.toNat / 16 < 16 := Nat.div_lt_of_lt_mul char.toNat_lt
    rcases Nat.lt_or_ge char.toNat 16 with hone | htwo
    · rw [Nat.toDigits_of_lt_base hone, Nat.div_eq_of_lt hone, Nat.mod_eq_of_lt hone]
      rfl
    · have hpos : 0 < char.toNat / 16 := Nat.div_pos htwo (by decide)
      have happend := Nat.toDigits_append_toDigits (by decide) hpos hlow
      rw [Nat.div_add_mod, Nat.toDigits_of_lt_base hhigh, Nat.toDigits_of_lt_base hlow] at happend
      rw [← happend]
      rfl
  rw [hexCell, toList_chrToHex, hdigits]
  rfl

/-- The tokens of a row up to the second column. -/
def rowFront (chunkSize : Nat) (startOffset relativeOffset : Int) (line : List UInt8) :
    List (MarkupToken HighlightTag) :=
  (rowOffsets startOffset relativeOffset).map text ++ previewTokens hexCell none line ++
    (rowFill chunkSize line).map text

theorem toList_previewRow :
    (previewRow chunkSize startOffset relativeOffset line).toList =
      render HighlightTag.spelling (rowFront chunkSize startOffset relativeOffset line ++
        previewTokens strCell none line) := by
  obtain ⟨hhex, hstr⟩ := getHexAndStrPreview_eq line
  unfold previewRow rowFront
  simp only [render_append, render_map_text, ← hhex, ← hstr, rowOffsets, rowFill,
    String.toList_append, String.toList_ofList, List.append_assoc]

/-- A character of neither tags nor references, on a single line. -/
def IsPlain (c : Char) : Prop := c ≠ '<' ∧ c ≠ '&' ∧ c ≠ '\n'

instance : DecidablePred IsPlain := fun c =>
  inferInstanceAs (Decidable (c ≠ '<' ∧ c ≠ '&' ∧ c ≠ '\n'))

theorem isPlain_of_mem_formatOffset {offset : Int} {c : Char}
    (h : c ∈ (formatOffset offset).toList) : IsPlain c := by
  have hsign : ∀ {s : String}, s = "-0x" ∨ s = "0x" → ∀ c ∈ s.toList, IsPlain c := by
    rintro s (rfl | rfl) <;> simp [IsPlain]
  rw [formatOffset, rjust, String.toList_append, String.toList_ofList, List.mem_append] at h
  rcases h with hblank | h
  · rw [List.eq_of_mem_replicate hblank]
    decide
  · rw [formatHex, String.toList_append, String.toList_ofList, List.mem_append,
      List.mem_append] at h
    rcases h with hc | hzero | hdigit
    · exact hsign (by split <;> simp) c hc
    · rw [List.eq_of_mem_replicate hzero]
      decide
    · obtain ⟨d, hd, rfl⟩ := exists_digitChar_of_mem_toDigits (by decide) hdigit
      have hplain : ∀ d < 16, IsPlain (Nat.digitChar d) := by decide
      exact hplain d hd

theorem isPlain_of_mem_separator {c : Char} (h : c ∈ " | ".toList) : IsPlain c := by
  have hplain : ∀ c ∈ " | ".toList, IsPlain c := by simp [IsPlain]
  exact hplain c h

theorem isPlain_of_mem_rowOffsets {c : Char} (h : c ∈ rowOffsets startOffset relativeOffset) :
    IsPlain c := by
  simp only [rowOffsets, String.toList_append, List.mem_append] at h
  rcases h with ((h | h) | h) | h
  · exact isPlain_of_mem_formatOffset h
  · exact isPlain_of_mem_separator h
  · exact isPlain_of_mem_formatOffset h
  · exact isPlain_of_mem_separator h

theorem isPlain_of_mem_rowFill {c : Char} (h : c ∈ rowFill chunkSize line) : IsPlain c := by
  rcases List.mem_append.mp h with hblank | h
  · rw [List.eq_of_mem_replicate hblank]
    decide
  · exact isPlain_of_mem_separator h

/-- The text of a column is that of its cells. -/
theorem exists_mem_cell {cell : UInt8 → List Char} {lastClass : Option HighlightingClass}
    {c : Char} (h : text c ∈ previewTokens cell lastClass line) : ∃ char ∈ line, c ∈ cell char := by
  have hmem : c ∈ textOf (previewTokens cell lastClass line) :=
    List.mem_flatMap.mpr ⟨text c, h, List.mem_singleton_self c⟩
  rw [textOf_previewTokens] at hmem
  exact List.mem_flatMap.mp hmem

theorem isPlain_of_mem_hexTokens {c : Char} (h : text c ∈ previewTokens hexCell none line) :
    IsPlain c := by
  obtain ⟨char, -, hc⟩ := exists_mem_cell h
  have hdigit : ∀ d < 16, IsPlain (Nat.digitChar d).toUpper := by decide
  rw [hexCell_eq, hexDigits, List.mem_cons, List.mem_cons, List.mem_singleton] at hc
  rcases hc with rfl | rfl | rfl
  · decide
  · exact hdigit _ (Nat.div_lt_of_lt_mul char.toNat_lt)
  · exact hdigit _ (Nat.mod_lt _ (by decide))

/-- Everything before the second column is read as it is written. -/
theorem isPlain_of_mem_rowFront {c : Char}
    (h : text c ∈ rowFront chunkSize startOffset relativeOffset line) : IsPlain c := by
  rw [rowFront, List.mem_append, List.mem_append, List.mem_map, List.mem_map] at h
  rcases h with (⟨c', hc', heq⟩ | h) | ⟨c', hc', heq⟩
  · cases heq
    exact isPlain_of_mem_rowOffsets hc'
  · exact isPlain_of_mem_hexTokens h
  · cases heq
    exact isPlain_of_mem_rowFill hc'

/-- A row is read back exactly if no byte of it is read as markup. -/
theorem readMarkup_row :
    readMarkup highlightTags references 0
        ((previewRow chunkSize startOffset relativeOffset line).toList ++ ['\n']) =
      if harmless highlightTags (previewTokens strCell none line) ['\n'] then
        some (rowFront chunkSize startOffset relativeOffset line ++
          previewTokens strCell none line ++ [text '\n'])
      else none := by
  have hseparate : Separate highlightTags ['\n']
      (rowFront chunkSize startOffset relativeOffset line ++ previewTokens strCell none line) := by
    have htext : ∀ c, text c ∈ rowFront chunkSize startOffset relativeOffset line →
        c ≠ '<' ∧ c ≠ '&' := by
      intro c hc
      have hplain := isPlain_of_mem_rowFront hc
      exact ⟨hplain.1, hplain.2.1⟩
    have htags : ∀ t, tag t ∈ rowFront chunkSize startOffset relativeOffset line →
        t ∈ highlightTags.tags := fun t _ => mem_highlightTags t
    exact (separate_of_plain htext htags _).append (separate_previewTokens none line)
  have hharmless : harmless highlightTags (rowFront chunkSize startOffset relativeOffset line ++
      previewTokens strCell none line) ['\n'] =
        harmless highlightTags (previewTokens strCell none line) ['\n'] := by
    rw [harmless_append, harmless_of_plain (fun c hc => (isPlain_of_mem_rowFront hc).1),
      Bool.true_and]
  have hend : readMarkup highlightTags references 0 ['\n'] = some [text '\n'] :=
    readMarkup_text (fun h => absurd h (by decide)) fun h => absurd h (by decide)
  have hread := readMarkup_render references hseparate
  rw [hend, hharmless] at hread
  rw [toList_previewRow]
  exact hread

/-- A row is right exactly if no `<` stands before one of the three bytes. -/
theorem faithfulRow_iff :
    FaithfulRow references chunkSize startOffset relativeOffset line
        (previewRow chunkSize startOffset relativeOffset line).toList ↔
      ∀ char ∈ markupBytes, ¬[0x3C, char] <:+: line := by
  unfold FaithfulRow
  rw [readMarkup_row, ← harmless_previewTokens_iff none]
  constructor
  · rintro ⟨hexTokens, strTokens, hread, -⟩
    by_contra hnot
    rw [if_neg hnot] at hread
    cases hread
  · intro h
    refine ⟨previewTokens hexCell none line, previewTokens strCell none line, if_pos h,
      nested_previewTokens none line, nested_previewTokens none line, ?_, ?_⟩
    · rw [textOf_previewTokens]
      exact List.flatMap_congr fun char _ => hexCell_eq char
    · rw [textOf_previewTokens]
      exact List.map_eq_flatMap.symm

end Rows

/-! ## 5. The whole preview -/

/-- A preview is right: its chunks are the bytes of the file, it has one row for each of them below
the header, and the rows show them. -/
structure FaithfulPreview (references : CharacterReferences) (data : List UInt8) (chunkSize : Nat)
    (offset : Int) (preview : String) : Prop where
  complete : (partsOf chunkSize data).flatten = data
  rows : ∃ rows, preview.toList.splitOn '\n' = previewHeader.map String.toList ++ rows ∧
    List.Forall₂ (fun row entry => FaithfulRow references chunkSize (entry.2 * chunkSize)
      (offset + entry.2 * chunkSize) entry.1 row) rows (partsOf chunkSize data).zipIdx

section Whole
variable {chunker : Chunker UInt8} {chunkSize : Nat}

/-- The rows with the offsets of their chunks. -/
theorem previewRows_eq (startOffset relativeOffset : Int) (lines : List (List UInt8)) (k : Nat) :
    previewRows chunkSize (startOffset + k * chunkSize) (relativeOffset + k * chunkSize) lines =
      (lines.zipIdx k).map fun entry => previewRow chunkSize (startOffset + entry.2 * chunkSize)
        (relativeOffset + entry.2 * chunkSize) entry.1 := by
  induction lines generalizing k with
  | nil => rfl
  | cons line lines ih =>
    have hnext : ∀ n : Int, n + k * chunkSize + chunkSize = n + (k + 1 : Nat) * chunkSize := by
      intro n
      rw [Int.natCast_succ, Int.add_mul, Int.one_mul, Int.add_assoc]
    rw [previewRows, hnext, hnext, ih, List.zipIdx_cons, List.map_cons]

theorem newline_not_mem_render {tokens : List (MarkupToken HighlightTag)}
    (h : text '\n' ∉ tokens) : '\n' ∉ render HighlightTag.spelling tokens := by
  intro hmem
  obtain ⟨token, htoken, hmem⟩ := List.mem_flatMap.mp hmem
  cases token with
  | text c => exact h (List.mem_singleton.mp hmem ▸ htoken)
  | tag t =>
    have hspelling : '\n' ∉ t.spelling := by
      rcases t with (_ | _ | _ | _) | _ <;>
        simp [spelling_opened, spelling_closed, HighlightingClass.name]
    rcases List.mem_cons.mp hmem with hnewline | hmem
    · exact absurd hnewline (by decide)
    · exact hspelling hmem

/-- A row is a single line. -/
theorem newline_not_mem_previewRow (startOffset relativeOffset : Int) (line : List UInt8) :
    '\n' ∉ (previewRow chunkSize startOffset relativeOffset line).toList := by
  rw [toList_previewRow]
  refine newline_not_mem_render fun hmem => ?_
  rcases List.mem_append.mp hmem with hfront | hstr
  · exact (isPlain_of_mem_rowFront hfront).2.2 rfl
  · obtain ⟨char, -, hchar⟩ := exists_mem_cell hstr
    exact previewChar_ne_newline char (List.mem_singleton.mp hchar).symm

theorem newline_not_mem_center {s : String} (h : '\n' ∉ s.toList) (width : Nat) :
    '\n' ∉ (center width s).toList := by
  rw [center]
  simp [h]

theorem newline_not_mem_previewHeader : ∀ line ∈ previewHeader, '\n' ∉ line.toList := by
  have hrel := newline_not_mem_center (s := "rel. offset") (by simp) 12
  have habs := newline_not_mem_center (s := "abs. offset") (by simp) 12
  have hhex := newline_not_mem_center (s := "hex content") (by simp) 48
  intro line hline
  rw [previewHeader, List.mem_cons, List.mem_singleton] at hline
  rcases hline with rfl | rfl
  · simp [hrel, habs, hhex]
  · simp

/-- The lines of the preview are those of the header and the rows. -/
theorem lines_previewDataAsHex (chunker : Chunker UInt8) (hsize : 0 < chunkSize) (data : List UInt8)
    (offset : Int) :
    (previewDataAsHex chunker data chunkSize offset).toList.splitOn '\n' =
      previewHeader.map String.toList ++ (partsOf chunkSize data).zipIdx.map fun entry =>
        (previewRow chunkSize (entry.2 * chunkSize) (offset + entry.2 * chunkSize)
          entry.1).toList := by
  have hrows : previewRows chunkSize (0 + (0 : Nat) * chunkSize) (offset + (0 : Nat) * chunkSize)
      (partsOf chunkSize data) = _ := previewRows_eq 0 offset (partsOf chunkSize data) 0
  simp only [Int.natCast_zero, Int.zero_mul, Int.add_zero, Int.zero_add] at hrows
  have hsingle : ∀ part ∈ (previewHeader ++
      previewRows chunkSize 0 offset (partsOf chunkSize data)).map String.toList, '\n' ∉ part := by
    intro part hpart
    obtain ⟨line, hline, rfl⟩ := List.mem_map.mp hpart
    rcases List.mem_append.mp hline with hline | hline
    · exact newline_not_mem_previewHeader line hline
    · rw [hrows] at hline
      obtain ⟨entry, -, rfl⟩ := List.mem_map.mp hline
      exact newline_not_mem_previewRow _ _ _
  have hnewline : "\n".toList = ['\n'] := rfl
  rw [previewDataAsHex, chunker.chunked_eq data chunkSize hsize, String.toList_intercalate, hnewline,
    List.splitOn_intercalate _ hsingle (by simp [previewHeader]), List.map_append, hrows,
    List.map_map]
  rfl

theorem FaithfulPreview.chunks {references : CharacterReferences} {data : List UInt8}
    {offset : Int} (hsize : 0 < chunkSize)
    (h : FaithfulPreview references data chunkSize offset
      (previewDataAsHex chunker data chunkSize offset)) :
    ∀ line ∈ partsOf chunkSize data, ∀ char ∈ markupBytes, ¬[0x3C, char] <:+: line := by
  intro line hline
  obtain ⟨rows, hrows, hfaithful⟩ := h.rows
  rw [lines_previewDataAsHex chunker hsize, List.append_cancel_left_eq] at hrows
  rw [← hrows, List.forall₂_map_left_iff, List.forall₂_same] at hfaithful
  obtain ⟨i, hi⟩ := List.mem_iff_getElem?.mp hline
  have hrow := hfaithful (line, i) (List.mk_mem_zipIdx_iff_getElem?.mpr hi)
  dsimp only at hrow
  rwa [faithfulRow_iff] at hrow

/-- The preview is right exactly if no chunk has a `<` before `/`, `!` or `?`. -/
theorem previewDataAsHex_iff (chunker : Chunker UInt8) (references : CharacterReferences)
    (hsize : 0 < chunkSize) (data : List UInt8) (offset : Int) :
    FaithfulPreview references data chunkSize offset (previewDataAsHex chunker data chunkSize offset) ↔
      ∀ line ∈ partsOf chunkSize data, ∀ char ∈ markupBytes, ¬[0x3C, char] <:+: line := by
  constructor
  · exact FaithfulPreview.chunks hsize
  · intro h
    refine ⟨flatten_partsOf hsize data, _, lines_previewDataAsHex chunker hsize data offset, ?_⟩
    rw [List.forall₂_map_left_iff, List.forall₂_same]
    intro entry hentry
    rw [faithfulRow_iff]
    exact h entry.1 (List.fst_mem_of_mem_zipIdx hentry)

end Whole

/-- The references of the characters that HTML uses itself. -/
def basicReferences : CharacterReferences where
  read cs := ([("amp;", '&'), ("lt;", '<'), ("gt;", '>'), ("quot;", '"')].find? fun entry =>
    entry.1.toList.isPrefixOf cs).map fun entry => ([entry.2], entry.1.length)
  starts := by
    intro cs h
    rw [Option.isSome_map, List.find?_isSome] at h
    obtain ⟨entry, hentry, hprefix⟩ := h
    have hletter : ∀ entry ∈ [("amp;", '&'), ("lt;", '<'), ("gt;", '>'), ("quot;", '"')],
        ∃ c rest, entry.1.toList = c :: rest ∧ c ≠ '#' ∧ c.isAlphanum = true := by
      simp only [List.forall_mem_cons]
      exact ⟨⟨'a', _, rfl, by decide, rfl⟩, ⟨'l', _, rfl, by decide, rfl⟩,
        ⟨'g', _, rfl, by decide, rfl⟩, ⟨'q', _, rfl, by decide, rfl⟩, by simp⟩
    obtain ⟨c, rest, hname, hsharp, hc⟩ := hletter entry hentry
    obtain ⟨back, hcs⟩ := List.isPrefixOf_iff_prefix.mp hprefix
    rwa [← hcs, hname, List.cons_append, startsReference_cons_of_ne hsharp]

/-- `a<b>` and a `&`, in two rows. -/
theorem tagLikeText_faithful :
    FaithfulPreview basicReferences [0x61, 0x3C, 0x62, 0x3E, 0x26] 4 32
      (previewDataAsHex .exact [0x61, 0x3C, 0x62, 0x3E, 0x26] 4 32) :=
  (previewDataAsHex_iff .exact basicReferences (by decide) [0x61, 0x3C, 0x62, 0x3E, 0x26] 32).mpr
    (by decide +kernel)

/-- `<!` starts a declaration: what follows it is swallowed. -/
theorem declaration_swallowed :
    ¬∀ (chunker : Chunker UInt8) (references : CharacterReferences) (data : List UInt8)
      (chunkSize : Nat) (offset : Int), 0 < chunkSize →
        FaithfulPreview references data chunkSize offset
          (previewDataAsHex chunker data chunkSize offset) := by
  intro h
  have hchunks := (h .exact basicReferences [0x3C, 0x21] 16 0 (by decide)).chunks (by decide)
  exact hchunks [0x3C, 0x21] (by decide) 0x21 (by decide) List.infix_rfl

end FactCore
