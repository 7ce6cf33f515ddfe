import FactCore.Lib.PyText
import FactCore.Lib.Separator

/-!
# The output of luacheck

`_luacheck_parse_linter_output` reads lines `path:line:first-last: (code) message`. A
line is taken apart at its colons, and the code and the message are cut out at fixed
positions. Lines for which this fails are dropped. Issues of the group `W6` shall be
dropped, too, but the test for it expects the bracket that has been cut off.

Results:
1. `parseLines_append`: text without a colon in front of a line changes nothing.
2. `parseLine_printed`: what is read from a line that was printed.
3. `luacheckParse_iff`: when the issues are the printed ones without the group `W6`.
-/

namespace FactCore

/-! ## 1. The code -/

/-- An entry of `issues`. -/
structure LinterIssue where
  line : Int
  column : Int
  symbol : String
  message : String
  deriving DecidableEq

/-- `_luacheck_split_issue_line`, `none` for its `IndexError`. -/
def luacheckSplitIssueLine (line : List Char) : Option (String × String × String) :=
  match line.splitOn ':' with
  | _ :: lineNumber :: columns :: rest =>
    some (String.ofList lineNumber, String.ofList columns,
      strip (String.ofList ([':'].intercalate rest)))
  | _ => none

/-- `_separate_message_and_code`. -/
def separateMessageAndCode (messageString : String) : String × String :=
  (String.ofList ((messageString.toList.drop 1).take 4),
    strip (String.ofList (messageString.toList.drop 6)))

/-- `_luacheck_get_first_column`. -/
def luacheckGetFirstColumn (table : DecimalTable) (columns : String) : Option Int :=
  int? table ((splitAtChar '-' columns).headD "")

/-- The body of the loop: the issue that is appended, `none` if there is none or an `IndexError` or
`ValueError` is caught. -/
def luacheckParseLine (table : DecimalTable) (line : List Char) : Option LinterIssue := do
  let (lineNumber, columns, codeAndMessage) ← luacheckSplitIssueLine line
  let (code, message) := separateMessageAndCode codeAndMessage
  if "(W6".toList.isPrefixOf code.toList then none
  else
    let line ← int? table lineNumber
    let column ← luacheckGetFirstColumn table columns
    return ⟨line, column, code, message⟩

/-- `_luacheck_parse_linter_output`, on the characters of the output. -/
def luacheckParseLines (table : DecimalTable) (output : List Char) : List LinterIssue :=
  (splitLines output).filterMap (luacheckParseLine table)

/-- `_luacheck_parse_linter_output`. -/
def luacheckParseLinterOutput (table : DecimalTable) (output : String) : List LinterIssue :=
  luacheckParseLines table output.toList

/-! ## 2. What luacheck prints -/

/-- The code of an issue: an error or a warning with three digits. -/
structure LuacheckCode where
  text : String
  wellFormed : ∃ c d₁ d₂ d₃ : Char, text.toList = [c, d₁, d₂, d₃] ∧ (c = 'W' ∨ c = 'E') ∧
    d₁.isDigit = true ∧ d₂.isDigit = true ∧ d₃.isDigit = true

/-- An issue of luacheck. -/
structure LuacheckIssue where
  path : String
  line : Nat
  first : Nat
  last : Nat
  code : LuacheckCode
  message : String
  noColon : ':' ∉ path.toList

/-- A line of the output. -/
inductive LuacheckLine
  | issue (issue : LuacheckIssue)
  | other (text : String) (noColon : ':' ∉ text.toList)

/-- What stands behind the path in the line of an issue, with the characters of the message. -/
def LuacheckIssue.tail (i : LuacheckIssue) (message : List Char) : List Char :=
  ':' :: (i.line.repr.toList ++ ':' :: (i.first.repr.toList ++ '-' :: i.last.repr.toList ++
    ':' :: ' ' :: ('(' :: i.code.text.toList ++ [')'] ++ ' ' :: message)))

/-- The line as it is printed. -/
def LuacheckLine.print : LuacheckLine → List Char
  | .issue i => i.path.toList ++ i.tail i.message.toList
  | .other text _ => text.toList

/-- The output of luacheck. -/
def printReport (report : List LuacheckLine) : String :=
  String.ofList (report.flatMap fun line => line.print ++ ['\n'])

/-- The issue belongs to the ignored group `W6`. -/
def LuacheckIssue.Ignored (i : LuacheckIssue) : Prop := ['W', '6'] <+: i.code.text.toList

instance (i : LuacheckIssue) : Decidable i.Ignored :=
  inferInstanceAs (Decidable (['W', '6'] <+: i.code.text.toList))

def LuacheckIssue.entry (i : LuacheckIssue) : LinterIssue :=
  ⟨i.line, i.first, i.code.text, i.message⟩

/-- What shall be reported for a line. -/
def LuacheckLine.expected : LuacheckLine → Option LinterIssue
  | .issue i => if i.Ignored then none else some i.entry
  | .other _ _ => none

/-- The message is one line, with no whitespace around it. -/
structure PlainMessage (message : String) : Prop where
  stripped : strip message = message
  oneLine : ∀ c ∈ message.toList, isLineBreak c = false

/-! ## 3. Lines -/

section Lines
variable {table : DecimalTable} {c : Char} {xs ys : List Char}

/-- What stands in front of the first colon is not read. -/
theorem luacheckParseLine_cons (h : c ≠ ':') (line : List Char) :
    luacheckParseLine table (c :: line) = luacheckParseLine table line := by
  have hsplit : luacheckSplitIssueLine (c :: line) = luacheckSplitIssueLine line := by
    unfold luacheckSplitIssueLine
    rw [List.splitOn_cons_eq_if_modifyHead, if_neg (by simpa using h)]
    obtain ⟨part, parts, hparts⟩ := List.exists_cons_of_ne_nil (List.splitOn_ne_nil ':' line)
    rw [hparts]
    rcases parts with _ | ⟨_, _ | ⟨_, _⟩⟩ <;> rfl
  rw [luacheckParseLine, hsplit]
  rfl

theorem luacheckParseLine_nil : luacheckParseLine table [] = none := rfl

theorem luacheckParseLines_cons (h : c ≠ ':') (xs : List Char) :
    luacheckParseLines table (c :: xs) = luacheckParseLines table xs := by
  unfold luacheckParseLines
  cases hbreak : isLineBreak c with
  | false =>
    rw [splitLines_cons_of_not_isLineBreak hbreak]
    cases splitLines xs with
    | nil => simp [luacheckParseLine_cons h, luacheckParseLine_nil]
    | cons line lines => simp [luacheckParseLine_cons h, List.filterMap_cons]
  | true =>
    rw [splitLines.eq_def]
    split
    · next heq => cases heq
    · next heq =>
      cases heq
      rw [splitLines_newline]
    · next heq =>
      cases heq
      rw [if_pos hbreak, List.filterMap_cons_none luacheckParseLine_nil]

/-- Text without a colon in front of a line changes nothing. -/
theorem luacheckParseLines_append (h : ':' ∉ xs) (ys : List Char) :
    luacheckParseLines table (xs ++ ys) = luacheckParseLines table ys := by
  induction xs with
  | nil => rfl
  | cons c xs ih =>
    rw [List.mem_cons, not_or] at h
    rw [List.cons_append, luacheckParseLines_cons (Ne.symm h.1), ih h.2]

end Lines

/-! ## 4. Printed issues -/

section Printed
variable {table : DecimalTable} {i : LuacheckIssue} {m : List Char}

theorem splitOn_tail (i : LuacheckIssue) (m : List Char) :
    (i.tail m).splitOn ':' = [] :: i.line.repr.toList ::
      (i.first.repr.toList ++ '-' :: i.last.repr.toList) ::
      (' ' :: ('(' :: i.code.text.toList ++ [')'] ++ ' ' :: m)).splitOn ':' := by
  have hnot : ∀ n : Nat, ':' ∉ n.repr.toList := not_mem_repr_of_not_isDigit rfl
  have hcolumns : ':' ∉ i.first.repr.toList ++ '-' :: i.last.repr.toList := by
    rw [List.mem_append, List.mem_cons, not_or, not_or]
    exact ⟨hnot _, by decide, hnot _⟩
  rw [LuacheckIssue.tail, List.splitOn_cons_eq_if_modifyHead, if_pos (by decide),
    List.splitOn_append_cons_self_of_not_mem (hnot _),
    List.splitOn_append_cons_self_of_not_mem hcolumns]

/-- The code and the message of a line. -/
theorem separateMessageAndCode_printed (i : LuacheckIssue) (m : List Char) :
    separateMessageAndCode
        (strip (String.ofList (' ' :: ('(' :: i.code.text.toList ++ [')'] ++ ' ' :: m)))) =
      (i.code.text, strip (String.ofList m)) := by
  obtain ⟨c, d₁, d₂, d₃, hcode, -⟩ := i.code.wellFormed
  -- the bracket behind the code keeps what stands in front of it
  have hstrip : (strip (String.ofList (' ' :: ('(' :: i.code.text.toList ++ [')'] ++ ' ' :: m)))).toList
      = '(' :: i.code.text.toList ++ [')'] ++ (' ' :: m).rdropWhile isWhitespace := by
    rw [strip_cons_of_isWhitespace (by decide), toList_strip, String.toList_ofList,
      List.cons_append, List.cons_append, List.dropWhile_cons_of_neg (by decide),
      ← List.cons_append, ← List.cons_append, rdropWhile_append]
    split
    · next hnil => rw [hnil, List.append_nil, List.rdropWhile_concat_neg _ _ _ (by decide)]
    · rfl
  have hmessage : strip (String.ofList ((' ' :: m).rdropWhile isWhitespace)) =
      strip (String.ofList m) := by
    rw [strip_rdropWhile, strip_cons_of_isWhitespace (by decide)]
  have hcodeText : String.ofList [c, d₁, d₂, d₃] = i.code.text := by
    rw [← hcode, String.ofList_toList]
  rw [separateMessageAndCode, hstrip, hcode]
  exact Prod.ext hcodeText hmessage

theorem not_startswith_code (i : LuacheckIssue) :
    "(W6".toList.isPrefixOf i.code.text.toList = false := by
  obtain ⟨c, d₁, d₂, d₃, hcode, hc, -⟩ := i.code.wellFormed
  rw [hcode]
  rcases hc with rfl | rfl <;> rfl

/-- What is read from a line that was printed, whatever the message is. -/
theorem luacheckParseLine_printed (i : LuacheckIssue) (m : List Char) :
    luacheckParseLine table (i.tail m) =
      some ⟨i.line, i.first, i.code.text, strip (String.ofList m)⟩ := by
  have hsplit : luacheckSplitIssueLine (i.tail m) = some (i.line.repr,
      String.ofList (i.first.repr.toList ++ '-' :: i.last.repr.toList),
      strip (String.ofList (' ' :: ('(' :: i.code.text.toList ++ [')'] ++ ' ' :: m)))) := by
    rw [luacheckSplitIssueLine, splitOn_tail]
    simp only [List.intercalate_splitOn, String.ofList_toList]
  have hcolumn : luacheckGetFirstColumn table
      (String.ofList (i.first.repr.toList ++ '-' :: i.last.repr.toList)) = some (i.first : Int) := by
    have hnot : '-' ∉ i.first.repr.toList := not_mem_repr_of_not_isDigit rfl _
    rw [luacheckGetFirstColumn, splitAtChar, String.toList_ofList,
      List.splitOn_append_cons_self_of_not_mem hnot, List.map_cons, List.headD_cons,
      String.ofList_toList, int?_repr]
  simp only [luacheckParseLine, hsplit, Option.bind_eq_bind, Option.bind_some,
    separateMessageAndCode_printed, not_startswith_code, int?_repr, hcolumn]
  rfl

/-- The characters of a line in front of the message. -/
theorem isLineBreak_tail (i : LuacheckIssue) (hm : ∀ c ∈ m, isLineBreak c = false) :
    ∀ c ∈ i.tail m, isLineBreak c = false := by
  obtain ⟨c, d₁, d₂, d₃, hcode, hc, h₁, h₂, h₃⟩ := i.code.wellFormed
  have hdigit : ∀ {c : Char}, c.isDigit = true → isLineBreak c = false := by
    intro c hc
    obtain ⟨hlow, hhigh⟩ := Char.isDigit_iff_toNat.mp hc
    have h48 : 48 ≤ c.toNat := hlow
    have h57 : c.toNat ≤ 57 := hhigh
    exact decide_eq_false (by omega)
  have hrepr : ∀ n : Nat, ∀ c ∈ n.repr.toList, isLineBreak c = false := by
    intro n c hc
    rw [Nat.toList_repr] at hc
    exact hdigit (Nat.isDigit_of_mem_toDigits (by decide) (by decide) hc)
  have hletter : isLineBreak c = false := by
    rcases hc with rfl | rfl <;> rfl
  have hcodeChars : ∀ c ∈ i.code.text.toList, isLineBreak c = false := by
    rw [hcode]
    simp [hletter, hdigit h₁, hdigit h₂, hdigit h₃]
  simp only [LuacheckIssue.tail, List.forall_mem_cons, List.forall_mem_append]
  exact ⟨rfl, hrepr _, rfl, ⟨hrepr _, rfl, hrepr _⟩, rfl, rfl, ⟨⟨rfl, hcodeChars⟩, rfl, by simp⟩,
    rfl, hm⟩

theorem tail_append (i : LuacheckIssue) (m m' : List Char) :
    i.tail (m ++ m') = i.tail m ++ m' := by
  simp [LuacheckIssue.tail]

/-- The message ends at its first line break. -/
theorem luacheckParseLines_tail (i : LuacheckIssue) (m rest : List Char) :
    ∃ more, luacheckParseLines table (i.tail m ++ '\n' :: rest) =
        ⟨i.line, i.first, i.code.text,
          strip (String.ofList (m.takeWhile fun c => !isLineBreak c))⟩ :: more ∧
      ((∀ c ∈ m, isLineBreak c = false) → more = luacheckParseLines table rest) := by
  have hbefore : ∀ c ∈ m.takeWhile fun c => !isLineBreak c, isLineBreak c = false := by
    intro c hc
    simpa using List.mem_takeWhile_imp hc
  have hline := @luacheckParseLine_printed table i (m.takeWhile fun c => !isLineBreak c)
  rcases hafter : m.dropWhile fun c => !isLineBreak c with _ | ⟨b, after⟩
  · have hm : m.takeWhile (fun c => !isLineBreak c) = m := by
      conv_rhs => rw [← List.takeWhile_append_dropWhile (p := fun c => !isLineBreak c) (l := m)]
      rw [hafter, List.append_nil]
    rw [hm] at hbefore hline ⊢
    refine ⟨luacheckParseLines table rest, ?_, fun _ => rfl⟩
    rw [luacheckParseLines, splitLines_append_cons (isLineBreak_tail i hbefore) rfl,
      List.filterMap_cons_some hline, splitLines_newline]
    rfl
  · have hb : isLineBreak b = true := by
      have hhead := List.head?_dropWhile_not (fun c => !isLineBreak c) m
      rw [hafter] at hhead
      simpa using hhead
    have hm : m = m.takeWhile (fun c => !isLineBreak c) ++ b :: after := by
      rw [← hafter, List.takeWhile_append_dropWhile]
    have hlines : i.tail m ++ '\n' :: rest =
        i.tail (m.takeWhile fun c => !isLineBreak c) ++ b :: (after ++ '\n' :: rest) := by
      conv_lhs => rw [hm, tail_append, List.append_assoc, List.cons_append]
    refine ⟨(splitLines (b :: (after ++ '\n' :: rest))).tail.filterMap (luacheckParseLine table),
      ?_, fun hall => ?_⟩
    · rw [hlines, luacheckParseLines,
        splitLines_append_cons (isLineBreak_tail i hbefore) hb, List.filterMap_cons_some hline]
    · have hmem : b ∈ m := hm ▸ List.mem_append_right _ List.mem_cons_self
      rw [hall b hmem] at hb
      cases hb

end Printed

/-! ## 5. The report -/

section Report
variable {table : DecimalTable} {report : List LuacheckLine}

theorem luacheckParseLinterOutput_cons (line : LuacheckLine) (report : List LuacheckLine) :
    luacheckParseLinterOutput table (printReport (line :: report)) =
      luacheckParseLines table (line.print ++ '\n' :: (printReport report).toList) := by
  simp [luacheckParseLinterOutput, printReport]

theorem luacheckParse_other {text : String} (h : ':' ∉ text.toList) (report : List LuacheckLine) :
    luacheckParseLinterOutput table (printReport (.other text h :: report)) =
      luacheckParseLinterOutput table (printReport report) := by
  rw [luacheckParseLinterOutput_cons, LuacheckLine.print, luacheckParseLines_append h,
    luacheckParseLines_cons (by decide)]
  rfl

theorem luacheckParse_issue (i : LuacheckIssue) (report : List LuacheckLine) :
    ∃ more, luacheckParseLinterOutput table (printReport (.issue i :: report)) =
        ⟨i.line, i.first, i.code.text,
          strip (String.ofList (i.message.toList.takeWhile fun c => !isLineBreak c))⟩ :: more ∧
      ((∀ c ∈ i.message.toList, isLineBreak c = false) →
        more = luacheckParseLinterOutput table (printReport report)) := by
  rw [luacheckParseLinterOutput_cons, LuacheckLine.print, List.append_assoc,
    luacheckParseLines_append i.noColon]
  exact luacheckParseLines_tail i i.message.toList _

theorem mem_strip {c : Char} {s : String} (h : c ∈ (strip s).toList) : c ∈ s.toList := by
  rw [toList_strip] at h
  exact (List.dropWhile_sublist _).subset ((List.rdropWhile_prefix _ _).subset h)

/-- A message that is read as it was printed. -/
theorem plainMessage_iff {message : String} :
    strip (String.ofList (message.toList.takeWhile fun c => !isLineBreak c)) = message ↔
      PlainMessage message := by
  have hwhole : (∀ c ∈ message.toList, isLineBreak c = false) →
      message.toList.takeWhile (fun c => !isLineBreak c) = message.toList := by
    intro h
    exact List.takeWhile_eq_self_iff.mpr fun c hc => by simp [h c hc]
  constructor
  · intro h
    have hline : ∀ c ∈ message.toList, isLineBreak c = false := by
      intro c hc
      rw [← h] at hc
      have hbefore := mem_strip hc
      rw [String.toList_ofList] at hbefore
      simpa using List.mem_takeWhile_imp hbefore
    rw [hwhole hline, String.ofList_toList] at h
    exact ⟨h, hline⟩
  · intro h
    rw [hwhole h.oneLine, String.ofList_toList, h.stripped]

theorem not_ignored_of_expected {line : LuacheckLine} {e : LinterIssue} (h : line.expected = some e) :
    ¬ ['W', '6'] <+: e.symbol.toList := by
  cases line with
  | other text hno => cases h
  | issue i =>
    rw [LuacheckLine.expected] at h
    split at h
    · cases h
    · next hnot =>
      cases h
      exact hnot

/-- The issues are, in their order, those outside of the group `W6`, if and only if there is none in
this group, and all messages are single lines without whitespace around them. -/
theorem luacheckParse_iff (table : DecimalTable) (report : List LuacheckLine) :
    luacheckParseLinterOutput table (printReport report) = report.filterMap LuacheckLine.expected ↔
      ∀ i, .issue i ∈ report → ¬ i.Ignored ∧ PlainMessage i.message := by
  induction report with
  | nil => exact iff_of_true rfl fun i h => absurd h List.not_mem_nil
  | cons line report ih =>
    cases line with
    | other text h =>
      rw [luacheckParse_other, List.filterMap_cons_none rfl, ih]
      simp
    | issue i =>
      obtain ⟨more, hparse, hmore⟩ := @luacheckParse_issue table i report
      have hreport : (∀ j, .issue j ∈ LuacheckLine.issue i :: report →
          ¬ j.Ignored ∧ PlainMessage j.message) ↔ (¬ i.Ignored ∧ PlainMessage i.message) ∧
            ∀ j, .issue j ∈ report → ¬ j.Ignored ∧ PlainMessage j.message := by
        simp
      rw [hparse, hreport]
      by_cases hignored : i.Ignored
      · -- the issue is listed, but nothing of this group is expected
        refine iff_of_false (fun heq => ?_) fun h => h.1.1 hignored
        obtain ⟨line, -, hline⟩ := List.mem_filterMap.mp (heq ▸ List.mem_cons_self)
        exact not_ignored_of_expected hline hignored
      · have hentry : (LuacheckLine.issue i).expected = some i.entry := if_neg hignored
        rw [List.filterMap_cons_some hentry, List.cons.injEq, LuacheckIssue.entry]
        simp only [LinterIssue.mk.injEq, true_and, plainMessage_iff, hignored, not_false_eq_true]
        exact and_congr_right fun hplain => by rw [hmore hplain.oneLine, ih]

end Report

/-- A line that holds blanks only. -/
def blankLineIssue : LuacheckIssue where
  path := "init.lua"
  line := 3
  first := 1
  last := 8
  code := ⟨"W611", 'W', '6', '1', '1', rfl, .inl rfl, rfl, rfl, rfl⟩
  message := "line contains only whitespace"
  noColon := by decide

/-- It is reported, although its group shall be ignored. -/
theorem blankLineIssue_reported : ¬ ∀ (table : DecimalTable) (report : List LuacheckLine),
    luacheckParseLinterOutput table (printReport report) =
      report.filterMap LuacheckLine.expected := by
  intro hclaim
  have hreported : luacheckParseLinterOutput asciiDigits (printReport [.issue blankLineIssue]) =
      [⟨3, 1, "W611", "line contains only whitespace"⟩] := by decide
  have hnone : [LuacheckLine.issue blankLineIssue].filterMap LuacheckLine.expected = [] := by decide
  have hempty := hclaim asciiDigits [.issue blankLineIssue]
  rw [hreported, hnone] at hempty
  cases hempty

end FactCore
