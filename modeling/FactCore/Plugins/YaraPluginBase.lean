import FactCore.Lib.CharTables
import FactCore.Lib.Dict
import FactCore.Lib.PatternScan
import FactCore.Lib.PyText
import FactCore.Lib.Separator
import FactCore.Objects

/-!
# The output of YARA in a plugin

`_parse_yara_output` reads what `yara --print-meta --print-strings` prints about a file. A
line with the rule, its meta items and the path is followed by a line for each string that
was matched. The lines of the rules are found by two regular expressions, of which one splits
the output and the other one collects the rules. The two lists belong together by position.

Results:
1. `splitsOutput_iff`, `findAll_rule_ne_nil_iff`: the lines at which the output is split, and the
   lines in which a rule is found.
2. `findAll_rules`: the rules are looked for in each line; `ruleMatch_header`: what the line of a
   rule gives.
3. `splitAll_terminated`: the blocks are the lines between the ones that are cut out.
-/

namespace FactCore

/-! ## 1. The code -/

/-- `.` in a regular expression. -/
def dot : Pattern := .char fun c => decide (c ≠ '\n')

/-- `\s` in a regular expression. -/
def space : Pattern := .char isWhitespace

/-- `\n*.*\[.*\]\s/.+\n*`. -/
def splitRegex : List Pattern :=
  [.many (.lit '\n'), .many dot, .lit '[', .many dot, .lit ']', space, .lit '/', .plus dot,
    .many (.lit '\n')]

/-- `[.]{0,2}/`. -/
def pathStart : Pattern :=
  .seq (.opt (.seq (.lit '.') (.opt (.lit '.')))) (.lit '/')

/-- `(\w*)\s\[(.*)\]\s([.]{0,2}/)(.+)`. -/
def ruleRegex (tables : CharTables) : List Pattern :=
  [.many (.char tables.isWord), space, .lit '[', .many dot, .lit ']', space, pathStart, .plus dot]

def isHexChar (c : Char) : Bool := c.isDigit || ('a' ≤ c && c ≤ 'f')

def isIdentifierChar (c : Char) : Bool := c.isAlphanum || decide (c = '_')

/-- `(0x[a-f0-9]*):(\$[a-zA-Z0-9_]+):\s(.+)`, which may be repeated. -/
def matchesRegex : List Pattern :=
  [.seq (.lit '0') (.seq (.lit 'x') (.many (.char isHexChar))), .lit ':',
    .seq (.lit '$') (.plus (.char isIdentifierChar)), .lit ':', space, .plus dot]

/-- One of the groups. -/
def group (groups : List (List Char)) (i : Nat) : String := String.ofList (groups.getD i [])

def splitMatch (s : List Char) : Option (Unit × List Char) :=
  (Pattern.readings splitRegex s).head?.map fun e => ((), e.2)

/-- The name and the meta items of a rule. -/
def ruleMatch (tables : CharTables) (s : List Char) : Option ((String × String) × List Char) :=
  (Pattern.readings (ruleRegex tables) s).head?.map fun e => ((group e.1 0, group e.1 3), e.2)

/-- The offset, the tag and the text of a matched string. -/
def stringMatch (s : List Char) : Option ((String × String × String) × List Char) :=
  (Pattern.rounds matchesRegex (s.length + 1) s).head?.map fun e =>
    ((group e.1 0, group e.1 2, group e.1 5), e.2)

/-- `_split_output_in_rules_and_matches`. -/
def splitOutputInRulesAndMatches (tables : CharTables) (output : String) :
    Except PyException (List String × List (String × String)) :=
  let matchBlocks := ((Pattern.splitAll splitMatch output.toList).map String.ofList).filter
    fun block => decide (block ≠ "")
  let rules := Pattern.findAll (ruleMatch tables) output.toList
  if matchBlocks.length = rules.length then .ok (matchBlocks, rules) else .error (.valueError "")

/-- A value in the parsed meta data. -/
inductive MetaValue
  | bool (b : Bool)
  | str (s : String)
  deriving DecidableEq

/-- `value.strip('"')`. -/
def stripQuotes (value : String) : String :=
  String.ofList ((value.toList.dropWhile fun c => decide (c = '"')).rdropWhile
    fun c => decide (c = '"'))

def readMetaValue (value : String) : MetaValue :=
  if value = "true" then .bool true else if value = "false" then .bool false
  else .str (stripQuotes value)

/-- `item.split('=', maxsplit=1)`, if the separator is there. -/
def splitItem (item : String) : Option (String × String) :=
  if '=' ∈ item.toList then
    some (String.ofList (item.toList.takeWhile fun c => decide (c ≠ '=')),
      String.ofList (item.toList.dropWhile fun c => decide (c ≠ '=')).tail)
  else none

/-- `_parse_meta_data`. -/
def parseMetaData (metaDataString : String) : Dict String MetaValue :=
  (splitAtChar ',' metaDataString).foldl (fun metaData item =>
    match splitItem item with
    | some (key, value) => metaData.set key (readMetaValue value)
    | none => metaData) ∅

def hexDigit (c : Char) : Nat := if c.isDigit then c.toNat - 48 else c.toNat - 87

/-- `int(offset, 16)` for a text that begins with `0x`. -/
def hexInt (offset : String) : Except PyException Nat :=
  match offset.toList.drop 2 with
  | [] => .error (.valueError ("invalid literal for int() with base 16: '" ++ offset ++ "'"))
  | digits => .ok (digits.foldl (fun value c => 16 * value + hexDigit c) 0)

/-- The result for a rule. -/
structure YaraResult where
  rule : String
  matched : Bool
  strings : List (Nat × String × String)
  metaData : Dict String MetaValue

/-- `_append_match_to_result`. -/
def appendMatchToResult (found : String × String × String)
    (resultingMatches : Dict String YaraResult) (rule : String × String) :
    Except PyException (Dict String YaraResult) := do
  let result := resultingMatches.getD rule.1 ⟨rule.1, true, [], parseMetaData rule.2⟩
  let offset ← hexInt found.1
  return resultingMatches.set rule.1
    { result with strings := result.strings ++ [(offset, found.2.1, found.2.2)] }

/-- `_parse_yara_output`. -/
def parseYaraOutput (tables : CharTables) (output : String) :
    Except PyException (Dict String YaraResult) := do
  let (matchBlocks, rules) ← splitOutputInRulesAndMatches tables output
  (rules.zip matchBlocks).foldlM (fun resultingMatches e =>
    (Pattern.findAll stringMatch e.2.toList).foldlM (fun resultingMatches found =>
      appendMatchToResult found resultingMatches e.1) resultingMatches) ∅

/-! ## 2. What is printed -/

/-- How `yara` prints the characters of a text in the meta items. A character is printed as it is
or behind a backslash: itself, as a letter or as numbers. -/
structure YaraPrinter where
  escape : Char → List Char
  escaped : ∀ c, escape c = [c] ∨ ∃ rest, rest ≠ [] ∧ escape c = '\\' :: rest ∧
    ∀ d ∈ rest, d = c ∨ d = '\\' ∨ d.isAlphanum = true
  plain : ∀ c : Char, 32 ≤ c.toNat → c.toNat < 127 → c ∉ ['"', '\'', '\\'] → escape c = [c]
  special : ∀ c ∈ ['"', '\\'], escape c ≠ [c]

/-- The value of a meta item. -/
inductive PrintedValue
  | boolean (b : Bool)
  | integer (n : Int)
  | text (s : String) (oneLine : '\n' ∉ s.toList)

def YaraPrinter.printText (yara : YaraPrinter) (s : String) : String :=
  String.ofList (s.toList.flatMap yara.escape)

def PrintedValue.print (yara : YaraPrinter) : PrintedValue → String
  | .boolean true => "true"
  | .boolean false => "false"
  | .integer n => toString n
  | .text s _ => "\"" ++ yara.printText s ++ "\""

/-- A meta item with its identifier. -/
structure MetaItem where
  key : String
  value : PrintedValue
  identifier : ∀ c ∈ key.toList, isIdentifierChar c = true

def MetaItem.print (yara : YaraPrinter) (item : MetaItem) : String :=
  item.key ++ "=" ++ item.value.print yara

/-- A string that was found, with its offset, its identifier and the text that is printed for
the bytes. -/
structure FoundString where
  offset : Nat
  identifier : String
  text : String
  isIdentifier : identifier ≠ "" ∧ ∀ c ∈ identifier.toList, isIdentifierChar c = true
  notEmpty : text ≠ ""
  oneLine : '\n' ∉ text.toList

def FoundString.print (found : FoundString) : String :=
  "0x" ++ String.ofList (Nat.toDigits 16 found.offset) ++ ":$" ++ found.identifier ++ ": " ++
    found.text

/-- A rule that matched a file. Its line holds the path of the file. -/
structure MatchedRule (tables : CharTables) where
  name : String
  metaItems : List MetaItem
  path : String
  strings : List FoundString
  isWord : name ≠ "" ∧ ∀ c ∈ name.toList, tables.isWord c = true
  absolute : ∃ c rest, path.toList = '/' :: c :: rest
  oneLine : '\n' ∉ path.toList
  matched : strings ≠ []

namespace MatchedRule
variable {tables : CharTables}

def metaText (yara : YaraPrinter) (rule : MatchedRule tables) : String :=
  String.ofList ([','].intercalate (rule.metaItems.map fun item => (item.print yara).toList))

def header (yara : YaraPrinter) (rule : MatchedRule tables) : String :=
  rule.name ++ " [" ++ rule.metaText yara ++ "] " ++ rule.path

def lines (yara : YaraPrinter) (rule : MatchedRule tables) : List String :=
  rule.header yara :: rule.strings.map FoundString.print

end MatchedRule

/-- The output of `yara`. -/
def printRules {tables : CharTables} (yara : YaraPrinter) (rules : List (MatchedRule tables)) :
    String :=
  String.ofList ((rules.flatMap (MatchedRule.lines yara)).flatMap fun line =>
    line.toList ++ ['\n'])

/-! ## 3. Lines -/

/-- The lines of a text, each with the line break behind it. -/
def terminated (lines : List (List Char)) : List Char := lines.flatMap fun line => line ++ ['\n']

/-- A line that begins with a name or a number. -/
structure OutputLine (tables : CharTables) (line : List Char) : Prop where
  begins : ∃ c rest, line = c :: rest ∧ tables.isWord c = true
  oneLine : '\n' ∉ line

/-- Nothing, or such a line. -/
def LineStart (tables : CharTables) (more : List Char) : Prop :=
  ∀ c, more.head? = some c → tables.isWord c = true

section Lines
variable {tables : CharTables} {line more t : List Char} {lines : List (List Char)}
  {ps : List Pattern} {c : Char}

theorem terminated_cons (line : List Char) (lines : List (List Char)) :
    terminated (line :: lines) = line ++ '\n' :: terminated lines := by
  simp [terminated]

theorem lineStart_terminated (h : ∀ line ∈ lines, OutputLine tables line) :
    LineStart tables (terminated lines) := by
  intro c hc
  cases lines with
  | nil => cases hc
  | cons line lines =>
    obtain ⟨d, rest, rfl, hd⟩ := (h line List.mem_cons_self).begins
    cases hc
    exact hd

theorem isWord_eq_false (tables : CharTables) (hc : c.toNat < 128)
    (h : isIdentifierChar c = false) : tables.isWord c = false := by
  rw [tables.isWord_ascii c hc]
  exact h

/-- A character that is no part of a word cannot be read at the beginning of a line. -/
theorem rests_lit_lineStart (h : LineStart tables more) (hc : tables.isWord c = false) :
    (Pattern.lit c).rests more = [] := by
  cases more with
  | nil => rfl
  | cons d more =>
    refine Pattern.rests_char_of_not ?_
    rw [decide_eq_false_iff_not]
    intro heq
    have hd := h d rfl
    rw [heq, hc] at hd
    cases hd

theorem rests_pathStart_lineStart (h : LineStart tables more) : pathStart.rests more = [] := by
  have hdot : (Pattern.lit '.').rests more = [] :=
    rests_lit_lineStart h (isWord_eq_false tables (by decide) (by decide))
  have hslash : (Pattern.lit '/').rests more = [] :=
    rests_lit_lineStart h (isWord_eq_false tables (by decide) (by decide))
  simp [pathStart, Pattern.rests, Pattern.opt, hdot, hslash]

open Pattern in
theorem confined_rule (h : LineStart tables more) :
    Confined '\n' (ruleRegex tables) ('\n' :: more) := by
  have hword : tables.isWord '\n' = false := isWord_eq_false tables (by decide) (by decide)
  have hbracket : tables.isWord '[' = false := isWord_eq_false tables (by decide) (by decide)
  have hdot : decide ('\n' ≠ '\n') = false := by decide
  have hstart : RestsConfined '\n' pathStart ('\n' :: more) := by
    have hlit : RestsConfined '\n' (lit '.') ('\n' :: more) := .char (by decide)
    exact ((hlit.seq (hlit.alt .empty)).alt .empty).seq (.char (by decide))
  have hpath : Confined '\n' [pathStart, .plus dot] ('\n' :: more) :=
    .cons hstart (.cons (.plus_char hdot) .nil)
  have hmeta : Confined '\n' [.many dot, .lit ']', space, pathStart, .plus dot] ('\n' :: more) :=
    .cons (.many_char hdot) (.cons (.char (by decide))
      (.cons_char hpath (readings_cons_of_nil (rests_pathStart_lineStart h))))
  have hopen : Confined '\n' [.lit '[', .many dot, .lit ']', space, pathStart, .plus dot]
      ('\n' :: more) := .cons (.char (by decide)) hmeta
  exact .cons (.many_char hword)
    (.cons_char hopen (readings_cons_of_nil (rests_lit_lineStart h hbracket)))

/-- What `[.]{0,2}/` reads. -/
theorem exists_rests_pathStart {P : List Char → Prop} :
    (∃ r ∈ pathStart.rests t, P r) ↔
      ∃ d ∈ [[], ['.'], ['.', '.']], ∃ r, t = d ++ '/' :: r ∧ P r := by
  simp only [pathStart, Pattern.exists_rests_seq, Pattern.exists_rests_opt,
    Pattern.exists_rests_lit]
  constructor
  · intro h
    rcases h with ⟨r, rfl, ⟨r', rfl, u, rfl, hP⟩ | ⟨u, rfl, hP⟩⟩ | ⟨u, rfl, hP⟩
    · exact ⟨['.', '.'], by simp, u, rfl, hP⟩
    · exact ⟨['.'], by simp, u, rfl, hP⟩
    · exact ⟨[], by simp, u, rfl, hP⟩
  · intro h
    obtain ⟨d, hd, u, rfl, hP⟩ := h
    simp only [List.mem_cons, List.not_mem_nil, or_false] at hd
    rcases hd with rfl | rfl | rfl
    · exact .inr ⟨u, rfl, hP⟩
    · exact .inl ⟨_, rfl, .inr ⟨u, rfl, hP⟩⟩
    · exact .inl ⟨_, rfl, .inl ⟨_, rfl, u, rfl, hP⟩⟩

theorem isDot_of_not_mem {run : List Char} (h : '\n' ∉ run) :
    ∀ c ∈ run, decide (c ≠ '\n') = true :=
  fun _ hc => decide_eq_true fun heq => h (heq ▸ hc)

/-- `.+` at the end of an expression. -/
theorem readings_dots_ne_nil (ht : '\n' ∉ t) : Pattern.readings [.plus dot] t ≠ [] ↔ t ≠ [] := by
  rw [Pattern.readings_ne_nil_iff, dot, Pattern.exists_rests_plus_char]
  constructor
  · intro h
    obtain ⟨run, r, rfl, hne, -⟩ := h
    exact fun hnil => hne (List.append_eq_nil_iff.mp hnil).1
  · exact fun h => ⟨t, [], (List.append_nil t).symm, h, isDot_of_not_mem ht, List.cons_ne_nil _ _⟩

end Lines

/-! ## 4. Lines that look like the line of a rule -/

/-- What `\[.*\]\s/.+` reads in a line. -/
def splitBody : List Pattern :=
  [.many dot, .lit '[', .many dot, .lit ']', space, .lit '/', .plus dot]

/-- The output is split at such a line. -/
def SplitsOutput (line : List Char) : Prop :=
  ∃ a b w u, line = a ++ '[' :: (b ++ ']' :: w :: '/' :: u) ∧ isWhitespace w = true ∧ u ≠ []

/-- Such a line is collected as the line of a rule. -/
def NamesRule (line : List Char) : Prop :=
  ∃ a v b w u, ∃ d ∈ [[], ['.'], ['.', '.']],
    line = a ++ v :: '[' :: (b ++ ']' :: w :: (d ++ '/' :: u)) ∧
      isWhitespace v = true ∧ isWhitespace w = true ∧ u ≠ []

section LooksLike
variable {tables : CharTables} {line more t : List Char} {lines : List (List Char)}

theorem not_mem_line {a b : List Char} (h : '\n' ∉ a ++ b) : '\n' ∉ a ∧ '\n' ∉ b := by
  rwa [List.mem_append, not_or] at h

theorem not_mem_line_cons {c : Char} {a : List Char} (h : '\n' ∉ c :: a) : '\n' ∉ a :=
  fun hmem => h (List.mem_cons_of_mem c hmem)

theorem splitsOutput_iff (ht : '\n' ∉ t) :
    Pattern.readings splitBody t ≠ [] ↔ SplitsOutput t := by
  simp only [splitBody, space, dot, Pattern.readings_ne_nil_iff, Pattern.exists_rests_many_char,
    Pattern.exists_rests_lit, Pattern.exists_rests_char, Pattern.exists_rests_plus_char]
  constructor
  · intro h
    obtain ⟨a, _, rfl, -, _, rfl, b, _, rfl, -, _, rfl, w, _, rfl, hw, _, rfl, run, r, rfl, hne, -⟩ :=
      h
    exact ⟨a, b, w, run ++ r, rfl, hw, fun hnil => hne (List.append_eq_nil_iff.mp hnil).1⟩
  · intro h
    obtain ⟨a, b, w, u, rfl, hw, hu⟩ := h
    obtain ⟨ha, hrest⟩ := not_mem_line ht
    obtain ⟨hb, hrest⟩ := not_mem_line (not_mem_line_cons hrest)
    have hdots := isDot_of_not_mem (not_mem_line_cons (not_mem_line_cons (not_mem_line_cons hrest)))
    exact ⟨a, _, rfl, isDot_of_not_mem ha, _, rfl, b, _, rfl, isDot_of_not_mem hb, _, rfl, w, _,
      rfl, hw, _, rfl, u, [], (List.append_nil u).symm, hu, hdots, List.cons_ne_nil _ _⟩

theorem exists_mem_readings_rule (tables : CharTables) (ht : '\n' ∉ t) :
    Pattern.readings (ruleRegex tables) t ≠ [] ↔
      ∃ name v b w u, ∃ d ∈ [[], ['.'], ['.', '.']],
        t = name ++ v :: '[' :: (b ++ ']' :: w :: (d ++ '/' :: u)) ∧
          (∀ c ∈ name, tables.isWord c = true) ∧
            isWhitespace v = true ∧ isWhitespace w = true ∧ u ≠ [] := by
  simp only [ruleRegex, space, dot, Pattern.readings_ne_nil_iff, Pattern.exists_rests_many_char,
    Pattern.exists_rests_lit, Pattern.exists_rests_char, exists_rests_pathStart,
    Pattern.exists_rests_plus_char]
  constructor
  · intro h
    obtain ⟨name, _, rfl, hname, v, _, rfl, hv, _, rfl, b, _, rfl, -, _, rfl, w, _, rfl, hw, d, hd,
      _, rfl, run, r, rfl, hne, -⟩ := h
    exact ⟨name, v, b, w, run ++ r, d, hd, rfl, hname, hv, hw,
      fun hnil => hne (List.append_eq_nil_iff.mp hnil).1⟩
  · intro h
    obtain ⟨name, v, b, w, u, d, hd, rfl, hname, hv, hw, hu⟩ := h
    obtain ⟨-, hrest⟩ := not_mem_line ht
    obtain ⟨hb, hrest⟩ := not_mem_line (not_mem_line_cons (not_mem_line_cons hrest))
    obtain ⟨-, hrest⟩ := not_mem_line (not_mem_line_cons (not_mem_line_cons hrest))
    have hdots := isDot_of_not_mem (not_mem_line_cons hrest)
    exact ⟨name, _, rfl, hname, v, _, rfl, hv, _, rfl, b, _, rfl, isDot_of_not_mem hb, _, rfl, w, _,
      rfl, hw, d, hd, _, rfl, u, [], (List.append_nil u).symm, hu, hdots, List.cons_ne_nil _ _⟩

/-- A rule is found in a line that names one. -/
theorem findAll_rule_ne_nil_iff (ht : '\n' ∉ t) :
    Pattern.findAll (ruleMatch tables) t ≠ [] ↔ NamesRule t := by
  have hnone : ∀ u, ruleMatch tables u = none ↔ Pattern.readings (ruleRegex tables) u = [] := by
    intro u
    rw [ruleMatch, Option.map_eq_none_iff, List.head?_eq_none_iff]
  rw [Ne, Pattern.findAll_eq_nil_iff]
  constructor
  · intro h
    push Not at h
    obtain ⟨u, ⟨front, rfl⟩, -, hu⟩ := h
    have hline : '\n' ∉ u := (not_mem_line ht).2
    obtain ⟨name, v, b, w, rest, d, hd, rfl, -, hv, hw, hrest⟩ :=
      (exists_mem_readings_rule tables hline).mp fun hnil => hu ((hnone u).mpr hnil)
    exact ⟨front ++ name, v, b, w, rest, d, hd, by rw [List.append_assoc], hv, hw, hrest⟩
  · intro h hnil
    obtain ⟨a, v, b, w, u, d, hd, rfl, hv, hw, hu⟩ := h
    have hread := (exists_mem_readings_rule tables (not_mem_line ht).2).mpr
      ⟨[], v, b, w, u, d, hd, rfl, by simp, hv, hw, hu⟩
    exact hread ((hnone _).mp (hnil _ (List.suffix_append _ _) (List.cons_ne_nil _ _)))

/-! ## 5. The rules that are found -/

theorem ruleMatch_append (h : LineStart tables more) (ht : '\n' ∉ t) :
    ruleMatch tables (t ++ '\n' :: more) =
      (ruleMatch tables t).map fun e => (e.1, e.2 ++ '\n' :: more) := by
  rw [ruleMatch, ruleMatch, confined_rule h t ht, List.head?_map, Option.map_map, Option.map_map]
  rfl

theorem ruleMatch_lineBreak (h : LineStart tables more) :
    ruleMatch tables ('\n' :: more) = none := by
  have hword : tables.isWord '\n' = false := isWord_eq_false tables (by decide) (by decide)
  have hbracket : tables.isWord '[' = false := isWord_eq_false tables (by decide) (by decide)
  have hopen : Pattern.readings
      [.lit '[', .many dot, .lit ']', space, pathStart, .plus dot] more = [] :=
    Pattern.readings_cons_of_nil (rests_lit_lineStart h hbracket)
  have hspace : Pattern.readings
      [space, .lit '[', .many dot, .lit ']', space, pathStart, .plus dot] ('\n' :: more) = [] := by
    show (Pattern.readings _ more).map _ ++ [] = []
    rw [hopen]
    rfl
  rw [ruleMatch, ruleRegex, Pattern.readings_many_char_cons, hword, hspace]
  rfl

/-- The rules are looked for in each line. -/
theorem findAll_rules (h : ∀ line ∈ lines, OutputLine tables line) :
    Pattern.findAll (ruleMatch tables) (terminated lines) =
      lines.flatMap (Pattern.findAll (ruleMatch tables)) := by
  induction lines with
  | nil => rfl
  | cons line lines ih =>
    rw [List.forall_mem_cons] at h
    have hstart := lineStart_terminated h.2
    rw [terminated_cons, Pattern.findAll_append fun u hu _ => ruleMatch_append hstart
        fun hmem => h.1.oneLine (hu.subset hmem),
      Pattern.findAll_cons_of_none (ruleMatch_lineBreak hstart), ih h.2]
    rfl

end LooksLike

/-! ## 6. The line of a rule -/

/-- Up to two dots, a slash and a character more. -/
def pathFollows : List Char → Bool
  | '/' :: _ :: _ => true
  | '.' :: '/' :: _ :: _ => true
  | '.' :: '.' :: '/' :: _ :: _ => true
  | _ => false

/-- The meta items can end here. -/
def metaEnds : List Char → Bool
  | ']' :: w :: rest => isWhitespace w && pathFollows rest
  | _ => false

/-- What stands in front of the last place where the meta items can end. -/
def metaPart : List Char → Option (List Char)
  | [] => none
  | c :: s =>
    match metaPart s with
    | some part => some (c :: part)
    | none => if metaEnds (c :: s) then some [] else none

section Header
variable {tables : CharTables} {yara : YaraPrinter} {t : List Char}

theorem pathFollows_iff (t : List Char) :
    pathFollows t = true ↔ ∃ d ∈ [[], ['.'], ['.', '.']], ∃ u, t = d ++ '/' :: u ∧ u ≠ [] := by
  constructor
  · intro h
    unfold pathFollows at h
    split at h
    · exact ⟨[], by simp, _, rfl, List.cons_ne_nil _ _⟩
    · exact ⟨['.'], by simp, _, rfl, List.cons_ne_nil _ _⟩
    · exact ⟨['.', '.'], by simp, _, rfl, List.cons_ne_nil _ _⟩
    · cases h
  · intro h
    obtain ⟨d, hd, u, rfl, hu⟩ := h
    obtain ⟨c, u, rfl⟩ := List.exists_cons_of_ne_nil hu
    simp only [List.mem_cons, List.not_mem_nil, or_false] at hd
    rcases hd with rfl | rfl | rfl <;> rfl

theorem metaEnds_iff (ht : '\n' ∉ t) :
    Pattern.readings [.lit ']', space, pathStart, .plus dot] t ≠ [] ↔ metaEnds t = true := by
  have hpath : ∀ r, '\n' ∉ r →
      (Pattern.readings [pathStart, .plus dot] r ≠ [] ↔ pathFollows r = true) := by
    intro r hr
    rw [pathFollows_iff, Pattern.readings_ne_nil_iff, exists_rests_pathStart]
    refine exists_congr fun d => and_congr_right fun _ => exists_congr fun u =>
      and_congr_right fun heq => readings_dots_ne_nil ?_
    rw [heq] at hr
    exact not_mem_line_cons (not_mem_line hr).2
  rw [Pattern.readings_ne_nil_iff, Pattern.exists_rests_lit]
  simp only [space]
  constructor
  · intro h
    obtain ⟨r, rfl, hr⟩ := h
    rw [Pattern.readings_ne_nil_iff, Pattern.exists_rests_char] at hr
    obtain ⟨w, rest, rfl, hw, hrest⟩ := hr
    have hfollows := (hpath rest (not_mem_line_cons (not_mem_line_cons ht))).mp hrest
    rw [metaEnds, hw, hfollows]
    rfl
  · intro h
    unfold metaEnds at h
    split at h
    · next w rest =>
      obtain ⟨hw, hfollows⟩ := Bool.and_eq_true_iff.mp h
      refine ⟨_, rfl, Pattern.readings_ne_nil_iff.mpr (Pattern.exists_rests_char.mpr
        ⟨w, rest, rfl, hw, ?_⟩)⟩
      exact (hpath rest (not_mem_line_cons (not_mem_line_cons ht))).mpr hfollows
    · cases h

/-- The meta items are taken to be as long as possible. -/
theorem head?_readings_meta (ht : '\n' ∉ t) :
    (Pattern.readings [.many dot, .lit ']', space, pathStart, .plus dot] t).head?.map
        (fun e => (e.1.head?, e.2)) =
      (metaPart t).map fun part => (some part, []) := by
  induction t with
  | nil => rfl
  | cons c s ih =>
    have hs := not_mem_line_cons ht
    have hc : decide (c ≠ '\n') = true := isDot_of_not_mem ht c List.mem_cons_self
    have ih := ih hs
    rw [dot, Pattern.readings_many_char_cons, if_pos hc, List.head?_append, List.head?_map,
      List.head?_map, metaPart]
    cases hpart : metaPart s with
    | some part =>
      rw [hpart] at ih
      obtain ⟨e, he, heq⟩ := Option.map_eq_some_iff.mp ih
      have hfirst : e.1.head? = some part := (Prod.mk.inj heq).1
      have hrest : e.2 = [] := (Prod.mk.inj heq).2
      rw [dot] at he
      rw [he]
      show some ((e.1.modifyHead (c :: ·)).head?, e.2) = some (some (c :: part), [])
      rw [List.head?_modifyHead, hfirst, hrest]
      rfl
    | none =>
      rw [hpart, Option.map_none, Option.map_eq_none_iff] at ih
      rw [dot] at ih
      rw [ih]
      cases hends : metaEnds (c :: s) with
      | true =>
        obtain ⟨e, others, hreadings⟩ := List.exists_cons_of_ne_nil ((metaEnds_iff ht).mpr hends)
        have hhead := congrArg List.head? hreadings
        have hrest : e.2 = [] := Pattern.rest_of_head?_readings
          [.lit ']', space, pathStart] (isDot_of_not_mem ht) hhead
        rw [dot] at hhead
        rw [hhead]
        show some (some [], e.2) = some (some [], [])
        rw [hrest]
      | false =>
        have hnil : Pattern.readings [.lit ']', space, pathStart, .plus dot] (c :: s) = [] := by
          by_contra hne
          rw [(metaEnds_iff ht).mp hne] at hends
          cases hends
        rw [dot] at hnil
        rw [hnil]
        rfl

theorem exists_metaPart_append {a b : List Char} (h : metaEnds b = true) :
    ∃ part, metaPart (a ++ b) = some part := by
  induction a with
  | nil =>
    cases b with
    | nil => cases h
    | cons c b =>
      rw [List.nil_append, metaPart]
      cases metaPart b with
      | some part => exact ⟨c :: part, rfl⟩
      | none => exact ⟨[], if_pos h⟩
  | cons c a ih =>
    obtain ⟨part, hpart⟩ := ih
    exact ⟨c :: part, by rw [List.cons_append, metaPart, hpart]⟩

/-- What is taken for the meta items of a rule. -/
def MatchedRule.readMeta (yara : YaraPrinter) (rule : MatchedRule tables) : String :=
  String.ofList ((metaPart ((rule.metaText yara).toList ++ ']' :: ' ' :: rule.path.toList)).getD [])

theorem header_toList (yara : YaraPrinter) (rule : MatchedRule tables) :
    (rule.header yara).toList = rule.name.toList ++
      ' ' :: '[' :: ((rule.metaText yara).toList ++ ']' :: ' ' :: rule.path.toList) := by
  simp [MatchedRule.header]

theorem metaEnds_path (rule : MatchedRule tables) :
    metaEnds (']' :: ' ' :: rule.path.toList) = true := by
  obtain ⟨c, rest, hpath⟩ := rule.absolute
  rw [hpath]
  rfl

/-- The line of a rule gives its name and what is taken for its meta items. -/
theorem ruleMatch_header (rule : MatchedRule tables)
    (hline : '\n' ∉ (rule.header yara).toList) :
    ruleMatch tables (rule.header yara).toList = some ((rule.name, rule.readMeta yara), []) := by
  have hblank : tables.isWord ' ' = false := isWord_eq_false tables (by decide) (by decide)
  rw [header_toList] at hline ⊢
  have hinner := not_mem_line_cons (not_mem_line_cons (not_mem_line hline).2)
  obtain ⟨part, hpart⟩ :=
    exists_metaPart_append (a := (rule.metaText yara).toList) (metaEnds_path rule)
  have hread : rule.readMeta yara = String.ofList part := by rw [MatchedRule.readMeta, hpart]; rfl
  have hmeta := head?_readings_meta hinner
  rw [hpart] at hmeta
  obtain ⟨e, he, heq⟩ := Option.map_eq_some_iff.mp hmeta
  have hfirst : e.1.head? = some part := (Prod.mk.inj heq).1
  have hrest : e.2 = [] := (Prod.mk.inj heq).2
  have hname : (Pattern.many (.char tables.isWord)).matchRest (rule.name.toList ++
      ' ' :: '[' :: ((rule.metaText yara).toList ++ ']' :: ' ' :: rule.path.toList)) =
        some (' ' :: '[' :: ((rule.metaText yara).toList ++ ']' :: ' ' :: rule.path.toList)) := by
    refine Pattern.matchRest_many_char rule.isWord.2 fun c hc => ?_
    cases hc
    exact hblank
  have hopen := Pattern.head?_readings_cons (p := .lit '[')
    (Pattern.matchRest_char (c := '[') (by decide)) he
  have hspace := Pattern.head?_readings_cons (p := space)
    (Pattern.matchRest_char (c := ' ') (by decide)) hopen
  have hrule := Pattern.head?_readings_cons hname hspace
  rw [ruleMatch, ruleRegex, hrule]
  obtain ⟨others, hgroups⟩ := List.head?_eq_some_iff.mp hfirst
  simp only [Option.map_some, hrest, hread, group, hgroups, List.length_append, Nat.add_sub_cancel,
    List.take_left', List.getD_cons_zero, List.getD_cons_succ, String.ofList_toList]

theorem findAll_header (rule : MatchedRule tables)
    (hline : '\n' ∉ (rule.header yara).toList) :
    Pattern.findAll (ruleMatch tables) (rule.header yara).toList =
      [(rule.name, rule.readMeta yara)] := by
  have hne : (rule.header yara).toList ≠ [] := by
    rw [header_toList]
    simp
  have hmatch := ruleMatch_header rule hline
  rw [← List.append_nil (rule.header yara).toList] at hmatch ⊢
  exact Pattern.findAll_of_match hne hmatch

end Header

/-! ## 7. The blocks between the lines at which the output is split -/

def isCut (line : List Char) : Bool := !(Pattern.readings splitBody line).isEmpty

/-- The texts of the blocks, each a list of lines. Only the last one keeps its last line break. -/
def blockTexts : List (List (List Char)) → List (List Char)
  | [] => []
  | [last] => [terminated last]
  | block :: blocks => ['\n'].intercalate block :: blockTexts blocks

section Blocks
variable {tables : CharTables} {line more t : List Char} {lines : List (List Char)}

theorem isCut_iff (ht : '\n' ∉ t) : isCut t = true ↔ SplitsOutput t := by
  rw [← splitsOutput_iff ht, isCut]
  simp

theorem isCut_of_suffix (ht : '\n' ∉ line) (hcut : isCut line = false) {u : List Char}
    (hu : u <:+ line) : isCut u = false := by
  obtain ⟨front, rfl⟩ := hu
  by_contra h
  rw [Bool.not_eq_false, isCut_iff (not_mem_line ht).2] at h
  obtain ⟨a, b, w, v, rfl, hw, hv⟩ := h
  have hline : isCut (front ++ (a ++ '[' :: (b ++ ']' :: w :: '/' :: v))) = true :=
    (isCut_iff ht).mpr ⟨front ++ a, b, w, v, by rw [List.append_assoc], hw, hv⟩
  rw [hline] at hcut
  cases hcut

open Pattern in
theorem confined_splitBody (h : LineStart tables more) :
    Confined '\n' splitBody ('\n' :: more) := by
  have hdot : decide ('\n' ≠ '\n') = false := by decide
  have hslash : tables.isWord '/' = false := isWord_eq_false tables (by decide) (by decide)
  have hpath : Confined '\n' [.lit '/', .plus dot] ('\n' :: more) :=
    .cons (.char (by decide)) (.cons (.plus_char hdot) .nil)
  have hmeta : Confined '\n' [.many dot, .lit ']', space, .lit '/', .plus dot] ('\n' :: more) :=
    .cons (.many_char hdot) (.cons (.char (by decide))
      (.cons_char hpath (readings_cons_of_nil (rests_lit_lineStart h hslash))))
  exact .cons (.many_char hdot) (.cons (.char (by decide)) hmeta)

/-- A line is read with the line break behind it. -/
theorem head?_readings_splitBody (h : LineStart tables more) (ht : '\n' ∉ t) :
    (Pattern.readings (splitBody ++ [.many (.lit '\n')]) (t ++ '\n' :: more)).head?.map Prod.snd =
      if isCut t then some more else none := by
  rw [Pattern.readings_append, confined_splitBody h t ht, List.flatMap_map, isCut]
  cases hreadings : Pattern.readings splitBody t with
  | nil => rfl
  | cons e others =>
    have hhead := congrArg List.head? hreadings
    have hrest : e.2 = [] := Pattern.rest_of_head?_readings
      [.many dot, .lit '[', .many dot, .lit ']', space, .lit '/'] (isDot_of_not_mem ht) hhead
    have hbreaks : (Pattern.many (.lit '\n')).matchRest ('\n' :: more) = some more := by
      have hstop : ∀ c, more.head? = some c → decide (c = '\n') = false := by
        intro c hc
        refine decide_eq_false fun heq => ?_
        have hstart := h c hc
        rw [heq, isWord_eq_false tables (by decide) (by decide)] at hstart
        cases hstart
      have hrun : ∀ c ∈ ['\n'], decide (c = '\n') = true := by simp
      exact Pattern.matchRest_many_char hrun hstop
    obtain ⟨others', hothers'⟩ := List.head?_eq_some_iff.mp
      (Pattern.head?_readings_cons hbreaks (Pattern.head?_readings_nil more))
    rw [List.flatMap_cons, hrest, List.nil_append, hothers']
    rfl

theorem splitRegex_eq : splitRegex = .many (.lit '\n') :: (splitBody ++ [.many (.lit '\n')]) := rfl

/-- Without a line break in front the expression begins with the line. -/
theorem splitMatch_of_ne {c : Char} {s : List Char} (hc : c ≠ '\n') :
    splitMatch (c :: s) =
      ((Pattern.readings (splitBody ++ [.many (.lit '\n')]) (c :: s)).head?.map Prod.snd).map
        ((), ·) := by
  have hread : Pattern.readings splitRegex (c :: s) =
      (Pattern.readings (splitBody ++ [.many (.lit '\n')]) (c :: s)).map
        fun e => ([] :: e.1, e.2) := by
    rw [splitRegex_eq, Pattern.lit, Pattern.readings_many_char_cons, if_neg (by simpa using hc)]
    rfl
  rw [splitMatch, hread, List.head?_map, Option.map_map, Option.map_map]
  rfl

theorem splitMatch_line (h : LineStart tables more) (ht : '\n' ∉ t) (hne : t ≠ []) :
    splitMatch (t ++ '\n' :: more) = if isCut t then some ((), more) else none := by
  obtain ⟨c, s, rfl⟩ := List.exists_cons_of_ne_nil hne
  have hc : c ≠ '\n' := fun heq => ht (heq ▸ List.mem_cons_self)
  rw [List.cons_append, splitMatch_of_ne hc, ← List.cons_append, head?_readings_splitBody h ht]
  cases isCut (c :: s) <;> rfl

/-- A line break is read together with the line behind it. -/
theorem splitMatch_lineBreak (s : List Char) :
    splitMatch ('\n' :: s) =
      ((Pattern.readings splitRegex s).head?.map Prod.snd).map ((), ·) := by
  have hnone : Pattern.readings (splitBody ++ [.many (.lit '\n')]) ('\n' :: s) = [] := by
    rw [splitBody, List.cons_append, dot, Pattern.readings_many_char_cons]
    rfl
  rw [splitMatch, splitRegex_eq, Pattern.lit, Pattern.readings_many_char_cons, ← Pattern.lit, hnone,
    ← splitRegex_eq]
  show Option.map _ (((Pattern.readings splitRegex s).map _) ++ []).head? = _
  rw [List.append_nil, List.head?_map, Option.map_map, Option.map_map]
  rfl

theorem splitMatch_lineBreak_line (hline : OutputLine tables line) (h : LineStart tables more) :
    splitMatch ('\n' :: (line ++ '\n' :: more)) = if isCut line then some ((), more) else none := by
  obtain ⟨c, rest, rfl, -⟩ := hline.begins
  rw [splitMatch_lineBreak, ← splitMatch_line h hline.oneLine (List.cons_ne_nil c rest), splitMatch,
    Option.map_map]
  rfl

theorem modifyHead_blockTexts (line l : List Char) (block : List (List Char))
    (blocks : List (List (List Char))) :
    (blockTexts ((l :: block) :: blocks)).modifyHead (fun text => line ++ '\n' :: text) =
      blockTexts ((line :: l :: block) :: blocks) := by
  cases blocks with
  | nil =>
    show [line ++ '\n' :: terminated (l :: block)] = [terminated (line :: l :: block)]
    rw [terminated_cons line]
  | cons next blocks =>
    show (line ++ '\n' :: ['\n'].intercalate (l :: block)) :: _ =
      ['\n'].intercalate (line :: l :: block) :: _
    rw [List.intercalate_cons_cons]
    simp

/-- The output is split into the blocks between the lines that are cut out. -/
theorem splitAll_terminated (h : ∀ line ∈ lines, OutputLine tables line) :
    Pattern.splitAll splitMatch (terminated lines) = blockTexts (lines.splitOnP isCut) ∧
      ∀ line, (Pattern.splitAll splitMatch ('\n' :: terminated lines)).modifyHead (line ++ ·) =
        blockTexts ((lines.splitOnP isCut).modifyHead (line :: ·)) := by
  induction lines with
  | nil =>
    have hbreak : Pattern.splitAll splitMatch ['\n'] = [['\n']] := by rfl
    refine ⟨rfl, fun line => ?_⟩
    rw [terminated, List.flatMap_nil, hbreak]
    simp [blockTexts, terminated]
  | cons l lines ih =>
    rw [List.forall_mem_cons] at h
    obtain ⟨ihstart, ihbreak⟩ := ih h.2
    have hstart := lineStart_terminated h.2
    obtain ⟨c, rest, hl, -⟩ := h.1.begins
    have hne : l ≠ [] := hl ▸ List.cons_ne_nil c rest
    obtain ⟨block, blocks, hblocks⟩ :=
      List.exists_cons_of_ne_nil (List.splitOnP_ne_nil isCut lines)
    have happend : terminated (l :: lines) = (l ++ ['\n']) ++ terminated lines := by
      rw [terminated_cons, List.append_assoc]
      rfl
    cases hcut : isCut l with
    | true =>
      have hmatch : Pattern.splitAll splitMatch (terminated (l :: lines)) =
          [] :: Pattern.splitAll splitMatch (terminated lines) := by
        rw [happend]
        refine Pattern.splitAll_of_match (by simp) (x := ()) ?_
        rw [List.append_assoc]
        exact (splitMatch_line hstart h.1.oneLine hne).trans (if_pos hcut)
      have hafter : Pattern.splitAll splitMatch ('\n' :: terminated (l :: lines)) =
          [] :: Pattern.splitAll splitMatch (terminated lines) := by
        rw [happend, ← List.cons_append]
        refine Pattern.splitAll_of_match (by simp) (x := ()) ?_
        rw [List.cons_append, List.append_assoc]
        exact (splitMatch_lineBreak_line h.1 hstart).trans (if_pos hcut)
      rw [List.splitOnP_cons_eq_if_modifyHead, if_pos hcut, hmatch, hafter, ihstart, hblocks]
      refine ⟨rfl, fun line => ?_⟩
      show (line ++ []) :: _ = ['\n'].intercalate [line] :: _
      rw [List.append_nil, List.intercalate_singleton]
    | false =>
      have hnone : Pattern.splitAll splitMatch (terminated (l :: lines)) =
          (Pattern.splitAll splitMatch ('\n' :: terminated lines)).modifyHead (l ++ ·) := by
        rw [terminated_cons]
        refine Pattern.splitAll_of_none fun u hu hne => ?_
        rw [splitMatch_line hstart (fun hmem => h.1.oneLine (hu.subset hmem)) hne,
          isCut_of_suffix h.1.oneLine hcut hu]
        rfl
      have hafter : Pattern.splitAll splitMatch ('\n' :: terminated (l :: lines)) =
          (Pattern.splitAll splitMatch (terminated (l :: lines))).modifyHead (['\n'] ++ ·) := by
        have hbreak : splitMatch (['\n'] ++ terminated (l :: lines)) = none := by
          rw [terminated_cons]
          exact (splitMatch_lineBreak_line h.1 hstart).trans (if_neg (by simp [hcut]))
        refine Pattern.splitAll_of_none (t := ['\n']) fun u hu hne => ?_
        rcases List.suffix_cons_iff.mp hu with rfl | hu
        · exact hbreak
        · exact absurd (List.suffix_nil.mp hu) hne
      rw [List.splitOnP_cons_eq_if_modifyHead, if_neg (by simp [hcut]), hafter, hnone, ihbreak,
        hblocks]
      refine ⟨rfl, fun line => ?_⟩
      rw [List.modifyHead_modifyHead]
      exact modifyHead_blockTexts line l block blocks

end Blocks

end FactCore
