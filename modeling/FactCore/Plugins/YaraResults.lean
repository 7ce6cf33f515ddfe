import FactCore.Plugins.YaraMetaData

/-!
# The results of YARA

The output of `yara` is split at the lines of the rules, and what stands between them is given to
the rules that are collected, by position. The text of a string comes from the analysed file and
can look like the line of a rule itself.

Results:
1. `stringsOf_blockTexts`: the strings of a block are found as they are printed.
2. `findAll_output`, `stringsOf_output`: the rules and the blocks that an output gives.
3. `get?_foldl_appendFound`: the result under the name of a rule.
4. `parseYaraOutput_iff`: when the results are the rules that `yara` lists;
   `forgedString_splits_output`: a string that looks like a rule.
-/

namespace FactCore

/-! ## 1. The strings in a block -/

namespace FoundString

def line (found : FoundString) : List Char := found.print.toList

/-- What the expression for a string takes from its line. -/
def groups (found : FoundString) : String × String × String :=
  ("0x" ++ String.ofList (Nat.toDigits 16 found.offset), "$" ++ found.identifier, found.text)

/-- The string in a result. -/
def entry (found : FoundString) : Nat × String × String :=
  (found.offset, "$" ++ found.identifier, found.text)

end FoundString

section Strings
variable {found other : FoundString}

theorem hexDigit_digitChar :
    ∀ d < 16, hexDigit (Nat.digitChar d) = d ∧ isHexChar (Nat.digitChar d) = true := by decide

theorem hexDigits_toDigits (n : Nat) :
    (Nat.toDigits 16 n).foldl (fun value c => 16 * value + hexDigit c) 0 = n ∧
      ∀ c ∈ Nat.toDigits 16 n, isHexChar c = true := by
  have hbase : 1 < 16 := by decide
  induction n using Nat.base_induction 16 hbase with
  | single d hd =>
    obtain ⟨hvalue, hchar⟩ := hexDigit_digitChar d hd
    rw [Nat.toDigits_of_lt_base hd]
    exact ⟨by simp [hvalue], by simpa using hchar⟩
  | digit n d hd hn ih =>
    obtain ⟨hvalue, hchar⟩ := hexDigit_digitChar d hd
    rw [← Nat.toDigits_append_toDigits hbase hn hd, Nat.toDigits_of_lt_base hd]
    refine ⟨?_, fun c hc => ?_⟩
    · rw [List.foldl_append, ih.1]
      simp [hvalue]
    · rcases List.mem_append.mp hc with hc | hc
      · exact ih.2 c hc
      · rw [List.mem_singleton.mp hc]
        exact hchar

/-- An offset is read as it is printed. -/
theorem hexInt_offset (found : FoundString) : hexInt found.groups.1 = .ok found.offset := by
  have hdigits : found.groups.1.toList.drop 2 = Nat.toDigits 16 found.offset := by
    simp [FoundString.groups]
  rw [hexInt, hdigits]
  split
  · next hnil => exact absurd hnil Nat.toDigits_ne_nil
  · rw [(hexDigits_toDigits found.offset).1]

theorem line_eq (found : FoundString) :
    found.line = ('0' :: 'x' :: Nat.toDigits 16 found.offset) ++ ':' ::
      (('$' :: found.identifier.toList) ++ ':' :: ' ' :: found.text.toList) := by
  simp [FoundString.line, FoundString.print]

/-- A line is the only one with its string. -/
theorem line_eq_of_entry_eq (h : found.entry = other.entry) : found.line = other.line := by
  have hoffset : found.offset = other.offset := congrArg Prod.fst h
  have htag : "$" ++ found.identifier = "$" ++ other.identifier :=
    congrArg (fun entry => entry.2.1) h
  have htext : found.text = other.text := congrArg (fun entry => entry.2.2) h
  have hidentifier : found.identifier.toList = other.identifier.toList := by
    simpa using congrArg String.toList htag
  rw [line_eq, line_eq, hoffset, hidentifier, htext]

theorem outputLine_found (tables : CharTables) (found : FoundString) :
    OutputLine tables found.line := by
  have hzero : tables.isWord '0' = true := by
    rw [tables.isWord_ascii _ (by decide)]
    decide
  refine ⟨⟨'0', _, line_eq found, hzero⟩, fun hmem => ?_⟩
  rw [line_eq] at hmem
  simp only [List.mem_append, List.mem_cons] at hmem
  rcases hmem with (h | h | h) | h | (h | h) | h | h | h
  · exact absurd h (by decide)
  · exact absurd h (by decide)
  · have hchar := (hexDigits_toDigits found.offset).2 _ h
    exact absurd hchar (by decide)
  · exact absurd h (by decide)
  · exact absurd h (by decide)
  · exact absurd (found.isIdentifier.2 _ h) (by decide)
  · exact absurd h (by decide)
  · exact absurd h (by decide)
  · exact found.oneLine h

theorem rounds_of_not_zero {s : List Char} (h : s.head? ≠ some '0') (fuel : ℕ) :
    Pattern.rounds matchesRegex fuel s = [] := by
  cases fuel with
  | zero => rfl
  | succ fuel =>
    have hzero : (Pattern.lit '0').rests s = [] := by
      cases s with
      | nil => rfl
      | cons c s => exact Pattern.rests_char_of_not (decide_eq_false fun heq => h (heq ▸ rfl))
    have hread : Pattern.readings matchesRegex s = [] :=
      Pattern.readings_cons_of_nil (Pattern.rests_seq_of_nil hzero)
    rw [Pattern.rounds, hread]
    rfl

/-- A printed string is found again at the beginning of its line. -/
theorem stringMatch_line (found : FoundString) (more : List Char)
    (hmore : ∀ c, more.head? = some c → c = '\n') :
    stringMatch (found.line ++ more) = some (found.groups, more) := by
  have hoffset : (Pattern.seq (.lit '0') (.seq (.lit 'x') (.many (.char isHexChar)))).matchRest
      (('0' :: 'x' :: Nat.toDigits 16 found.offset) ++ ':' ::
        (('$' :: found.identifier.toList) ++ ':' :: ' ' :: (found.text.toList ++ more))) =
      some (':' :: (('$' :: found.identifier.toList) ++ ':' :: ' ' ::
        (found.text.toList ++ more))) := by
    refine Pattern.matchRest_seq (Pattern.matchRest_char (by decide))
      (Pattern.matchRest_seq (Pattern.matchRest_char (by decide)) ?_)
    refine Pattern.matchRest_many_char (hexDigits_toDigits found.offset).2 fun c hc => ?_
    cases hc
    decide
  have hname : found.identifier.toList ≠ [] := by
    intro hnil
    exact found.isIdentifier.1 (String.toList_eq_nil_iff.mp hnil)
  have hidentifier : (Pattern.seq (.lit '$') (.plus (.char isIdentifierChar))).matchRest
      (('$' :: found.identifier.toList) ++ ':' :: ' ' :: (found.text.toList ++ more)) =
      some (':' :: ' ' :: (found.text.toList ++ more)) := by
    refine Pattern.matchRest_seq (Pattern.matchRest_char (by decide)) ?_
    refine Pattern.matchRest_plus_char hname found.isIdentifier.2 fun c hc => ?_
    cases hc
    decide
  have htext : (Pattern.plus dot).matchRest (found.text.toList ++ more) = some more := by
    have hne : found.text.toList ≠ [] :=
      fun hnil => found.notEmpty (String.toList_eq_nil_iff.mp hnil)
    refine Pattern.matchRest_plus_char hne (isDot_of_not_mem found.oneLine) fun c hc => ?_
    rw [hmore c hc]
    decide
  have hread := Pattern.head?_readings_cons hoffset
    (Pattern.head?_readings_cons (p := .lit ':') (Pattern.matchRest_char (by decide))
      (Pattern.head?_readings_cons hidentifier
        (Pattern.head?_readings_cons (p := .lit ':') (Pattern.matchRest_char (by decide))
          (Pattern.head?_readings_cons (p := space) (Pattern.matchRest_char (by decide))
            (Pattern.head?_readings_cons htext (Pattern.head?_readings_nil more))))))
  have hstop : more.head? ≠ some '0' := by
    intro hzero
    exact absurd (hmore '0' hzero) (by decide)
  have hrounds := Pattern.head?_rounds hread (rounds_of_not_zero hstop)
  have hline : found.line ++ more = ('0' :: 'x' :: Nat.toDigits 16 found.offset) ++ ':' ::
      (('$' :: found.identifier.toList) ++ ':' :: ' ' :: (found.text.toList ++ more)) := by
    rw [line_eq]
    simp
  have hprefix : String.ofList ('0' :: 'x' :: Nat.toDigits 16 found.offset) =
      "0x" ++ String.ofList (Nat.toDigits 16 found.offset) := by
    rw [← String.toList_inj]
    simp
  have htag : String.ofList ('$' :: found.identifier.toList) = "$" ++ found.identifier := by
    rw [← String.toList_inj]
    simp
  rw [stringMatch, hline, matchesRegex, hrounds]
  simp only [Option.map_some, group, FoundString.groups, List.length_append, Nat.add_sub_cancel,
    List.take_left', List.getD_cons_zero, List.getD_cons_succ, String.ofList_toList, hprefix, htag]

theorem findAll_stringMatch_lineBreak (s : List Char) :
    Pattern.findAll stringMatch ('\n' :: s) = Pattern.findAll stringMatch s := by
  refine Pattern.findAll_cons_of_none ?_
  rw [stringMatch, rounds_of_not_zero (by simp)]
  rfl

theorem line_ne_nil (found : FoundString) : found.line ≠ [] := by
  rw [line_eq]
  exact List.cons_ne_nil _ _

theorem findAll_terminated (founds : List FoundString) :
    Pattern.findAll stringMatch (terminated (founds.map FoundString.line)) =
      founds.map FoundString.groups := by
  induction founds with
  | nil => rfl
  | cons found founds ih =>
    have hmatch := stringMatch_line found ('\n' :: terminated (founds.map FoundString.line))
      (by simp)
    rw [List.map_cons, terminated_cons, Pattern.findAll_of_match (line_ne_nil found) hmatch,
      findAll_stringMatch_lineBreak, ih]
    rfl

theorem findAll_intercalate (founds : List FoundString) :
    Pattern.findAll stringMatch (['\n'].intercalate (founds.map FoundString.line)) =
      founds.map FoundString.groups := by
  induction founds with
  | nil => rfl
  | cons found founds ih =>
    cases founds with
    | nil =>
      have hmatch := stringMatch_line found [] (by simp)
      have hfound := Pattern.findAll_of_match (line_ne_nil found) hmatch
      rw [List.append_nil] at hfound
      rw [List.map_singleton, List.intercalate_singleton, hfound]
      rfl
    | cons next founds =>
      have hmatch := stringMatch_line found
        ('\n' :: ['\n'].intercalate ((next :: founds).map FoundString.line)) (by simp)
      have hfound := Pattern.findAll_of_match (line_ne_nil found) hmatch
      rw [findAll_stringMatch_lineBreak, ih] at hfound
      rw [List.map_cons, List.map_cons, List.intercalate_cons_cons]
      simpa using hfound

/-- The strings in the texts that are not empty. -/
def stringsOf (texts : List (List Char)) : List (List (String × String × String)) :=
  (texts.filter fun text => decide (text ≠ [])).map (Pattern.findAll stringMatch)

theorem stringsOf_cons {text : List Char} {block : List FoundString} (texts : List (List Char))
    (htext : Pattern.findAll stringMatch text = block.map FoundString.groups)
    (hnil : block = [] → text = []) :
    stringsOf (text :: texts) =
      ([block].filter fun block => !block.isEmpty).map (List.map FoundString.groups) ++
        stringsOf texts := by
  cases block with
  | nil =>
    rw [stringsOf, List.filter_cons_of_neg (by simp [hnil rfl])]
    rfl
  | cons found founds =>
    have hne : text ≠ [] := by
      rintro rfl
      cases htext
    rw [stringsOf, List.filter_cons_of_pos (by simp [hne]), List.map_cons, htext]
    rfl

/-- Each block that is not empty gives its strings. -/
theorem stringsOf_blockTexts (blocks : List (List FoundString)) :
    stringsOf (blockTexts (blocks.map (List.map FoundString.line))) =
      (blocks.filter fun block => !block.isEmpty).map (List.map FoundString.groups) := by
  induction blocks with
  | nil => rfl
  | cons block blocks ih =>
    cases blocks with
    | nil =>
      refine (stringsOf_cons [] (findAll_terminated block) fun hnil => ?_).trans (List.append_nil _)
      rw [hnil]
      rfl
    | cons next blocks =>
      have hnil : block = [] → ['\n'].intercalate (block.map FoundString.line) = [] := by
        intro hblock
        rw [hblock]
        rfl
      have hcons := stringsOf_cons (blockTexts ((next :: blocks).map (List.map FoundString.line)))
        (findAll_intercalate block) hnil
      rw [ih, ← List.map_append, ← List.filter_append] at hcons
      exact hcons

end Strings

/-! ## 2. The rules and the blocks of the output -/

section Output
variable {tables : CharTables} {yara : YaraPrinter}

/-- The lines of the output. -/
def outputLines (yara : YaraPrinter) (rules : List (MatchedRule tables)) : List (List Char) :=
  rules.flatMap fun rule => (rule.header yara).toList :: rule.strings.map FoundString.line

/-- The rules that are collected. -/
def collectedRules (yara : YaraPrinter) (rules : List (MatchedRule tables)) :
    List (String × String) :=
  rules.flatMap fun rule => (rule.name, rule.readMeta yara) ::
    rule.strings.flatMap fun found => Pattern.findAll (ruleMatch tables) found.line

/-- The strings between the lines at which the output is split. -/
def foundBlocks (rules : List (MatchedRule tables)) : List (List FoundString) :=
  (rules.flatMap fun rule => rule.strings.splitOnP fun found => isCut found.line).filter
    fun block => !block.isEmpty

theorem printRules_toList (rules : List (MatchedRule tables)) :
    (printRules yara rules).toList = terminated (outputLines yara rules) := by
  have hlines : ∀ rule : MatchedRule tables,
      (rule.header yara).toList :: rule.strings.map FoundString.line =
        (rule.lines yara).map String.toList := by
    intro rule
    rw [MatchedRule.lines, List.map_cons, List.map_map]
    rfl
  rw [printRules, String.toList_ofList, terminated, outputLines]
  simp only [hlines, ← List.map_flatMap, List.flatMap_map]

theorem oneLine_item (item : MetaItem) : '\n' ∉ (item.print yara).toList := by
  intro hmem
  obtain ⟨s, oneLine, -, hs⟩ := mem_item_print (by decide) (by decide) hmem
  exact oneLine hs

theorem outputLine_header (rule : MatchedRule tables) :
    OutputLine tables (rule.header yara).toList := by
  obtain ⟨c, rest, hname⟩ := List.exists_cons_of_ne_nil
    fun hnil => rule.isWord.1 (String.toList_eq_nil_iff.mp hnil)
  have hc : tables.isWord c = true := rule.isWord.2 c (by rw [hname]; exact List.mem_cons_self)
  refine ⟨⟨c, _, by rw [header_toList, hname]; rfl, hc⟩, fun hmem => ?_⟩
  rw [header_toList] at hmem
  simp only [List.mem_append, List.mem_cons] at hmem
  rcases hmem with h | h | h | h | h | h | h
  · have hword := rule.isWord.2 _ h
    rw [isWord_eq_false tables (by decide) (by decide)] at hword
    cases hword
  · exact absurd h (by decide)
  · exact absurd h (by decide)
  · rw [MatchedRule.metaText, String.toList_ofList] at h
    obtain ⟨part, hpart, h⟩ := (mem_intercalate_iff (by decide)).mp h
    obtain ⟨item, -, rfl⟩ := List.mem_map.mp hpart
    exact oneLine_item item h
  · exact absurd h (by decide)
  · exact absurd h (by decide)
  · exact rule.oneLine h

theorem outputLine_of_mem {rules : List (MatchedRule tables)} {line : List Char}
    (h : line ∈ outputLines yara rules) : OutputLine tables line := by
  obtain ⟨rule, -, hline⟩ := List.mem_flatMap.mp h
  rcases List.mem_cons.mp hline with rfl | hline
  · exact outputLine_header rule
  · obtain ⟨found, -, rfl⟩ := List.mem_map.mp hline
    exact outputLine_found tables found

/-- The output is split at the line of each rule. -/
theorem isCut_header (rule : MatchedRule tables) : isCut (rule.header yara).toList = true := by
  obtain ⟨c, rest, hpath⟩ := rule.absolute
  rw [isCut_iff (outputLine_header rule).oneLine]
  refine ⟨rule.name.toList ++ [' '], (rule.metaText yara).toList, ' ', c :: rest, ?_, by decide,
    List.cons_ne_nil c rest⟩
  rw [header_toList, hpath, List.append_assoc]
  rfl

theorem findAll_output (rules : List (MatchedRule tables)) :
    Pattern.findAll (ruleMatch tables) (printRules yara rules).toList =
      collectedRules yara rules := by
  have hrule : ∀ rule : MatchedRule tables,
      ((rule.header yara).toList :: rule.strings.map FoundString.line).flatMap
          (Pattern.findAll (ruleMatch tables)) =
        (rule.name, rule.readMeta yara) ::
          rule.strings.flatMap fun found => Pattern.findAll (ruleMatch tables) found.line := by
    intro rule
    rw [List.flatMap_cons, findAll_header rule (outputLine_header rule).oneLine, List.flatMap_map]
    rfl
  rw [printRules_toList, findAll_rules fun _ => outputLine_of_mem, outputLines, List.flatMap_assoc,
    collectedRules]
  simp only [hrule]

theorem splitOnP_outputLines (rules : List (MatchedRule tables)) :
    (outputLines yara rules).splitOnP isCut =
      ([] :: rules.flatMap fun rule => rule.strings.splitOnP fun found => isCut found.line).map
        (List.map FoundString.line) := by
  have htail : ∀ founds : List FoundString,
      (founds.map FoundString.line ++ outputLines yara rules).splitOnP isCut =
        ((founds.splitOnP fun found => isCut found.line) ++
          rules.flatMap fun rule => rule.strings.splitOnP fun found => isCut found.line).map
            (List.map FoundString.line) := by
    induction rules with
    | nil =>
      intro founds
      rw [outputLines, List.flatMap_nil, List.append_nil, splitOnP_map, List.flatMap_nil,
        List.append_nil]
    | cons rule rules ih =>
      intro founds
      rw [outputLines, List.flatMap_cons, List.cons_append,
        List.splitOnP_append_cons _ _ (isCut_header rule), splitOnP_map, List.flatMap_cons,
        List.map_append, ← ih rule.strings]
      rfl
  have hnil := htail []
  rw [List.splitOnP_nil] at hnil
  exact hnil

/-- The strings in the blocks of the output. -/
theorem stringsOf_output (yara : YaraPrinter) (rules : List (MatchedRule tables)) :
    stringsOf (Pattern.splitAll splitMatch (printRules yara rules).toList) =
      (foundBlocks rules).map (List.map FoundString.groups) := by
  rw [printRules_toList, (splitAll_terminated fun _ => outputLine_of_mem).1, splitOnP_outputLines,
    stringsOf_blockTexts]
  rfl

end Output

/-! ## 3. The results -/

/-- A string of a rule is appended to the result of this rule. -/
def appendFound (resultingMatches : Dict String YaraResult)
    (e : (String × String) × FoundString) : Dict String YaraResult :=
  let result := resultingMatches.getD e.1.1 ⟨e.1.1, true, [], parseMetaData e.1.2⟩
  resultingMatches.set e.1.1 { result with strings := result.strings ++ [e.2.entry] }

/-- The strings, each with the rule of its block. -/
def pairUp (rules : List (String × String)) (blocks : List (List FoundString)) :
    List ((String × String) × FoundString) :=
  (rules.zip blocks).flatMap fun e => e.2.map fun found => (e.1, found)

/-- The result for some strings with their rules. -/
def resultOf : List ((String × String) × FoundString) → Option YaraResult
  | [] => none
  | e :: entries =>
    some ⟨e.1.1, true, (e :: entries).map fun e => e.2.entry, parseMetaData e.1.2⟩

section Results
variable {tables : CharTables} {yara : YaraPrinter}

theorem appendMatchToResult_groups (found : FoundString) (results : Dict String YaraResult)
    (rule : String × String) :
    appendMatchToResult found.groups results rule = .ok (appendFound results (rule, found)) := by
  rw [appendMatchToResult, hexInt_offset]
  rfl

theorem foldlM_groups (block : List FoundString) (results : Dict String YaraResult)
    (rule : String × String) :
    (block.map FoundString.groups).foldlM
        (fun results found => appendMatchToResult found results rule) results =
      .ok ((block.map fun found => (rule, found)).foldl appendFound results) := by
  simp only [List.foldlM_map, appendMatchToResult_groups, List.foldl_map]
  exact List.foldlM_pure

theorem foldlM_blocks {rules : List (String × String)} {texts : List String}
    {blocks : List (List FoundString)}
    (h : texts.map (fun text => Pattern.findAll stringMatch text.toList) =
      blocks.map (List.map FoundString.groups)) :
    ((rules.zip texts).foldlM (fun results e =>
        (Pattern.findAll stringMatch e.2.toList).foldlM (fun results found =>
          appendMatchToResult found results e.1) results) (∅ : Dict String YaraResult)) =
      .ok ((pairUp rules blocks).foldl appendFound ∅) := by
  have hzip : (rules.zip texts).map
      (Prod.map id fun text => Pattern.findAll stringMatch text.toList) =
        (rules.zip blocks).map (Prod.map id (List.map FoundString.groups)) := by
    rw [← List.zip_map, ← List.zip_map, h]
  calc (rules.zip texts).foldlM (fun results e =>
        (Pattern.findAll stringMatch e.2.toList).foldlM (fun results found =>
          appendMatchToResult found results e.1) results) ∅
    _ = ((rules.zip texts).map
          (Prod.map id fun text => Pattern.findAll stringMatch text.toList)).foldlM
            (fun results e => e.2.foldlM (fun results found =>
              appendMatchToResult found results e.1) results) ∅ := by
        rw [List.foldlM_map]
        rfl
    _ = (rules.zip blocks).foldlM (fun results e =>
          (e.2.map FoundString.groups).foldlM (fun results found =>
            appendMatchToResult found results e.1) results) ∅ := by
        rw [hzip, List.foldlM_map]
        rfl
    _ = .ok ((rules.zip blocks).foldl (fun results e =>
          (e.2.map fun found => (e.1, found)).foldl appendFound results) ∅) := by
        simp only [foldlM_groups]
        exact List.foldlM_pure
    _ = .ok ((pairUp rules blocks).foldl appendFound ∅) := by
        rw [pairUp, List.foldl_flatMap]

/-- The output is parsed if there are as many blocks as rules. -/
theorem parseYaraOutput_printRules (rules : List (MatchedRule tables)) :
    parseYaraOutput tables (printRules yara rules) =
      if (foundBlocks rules).length = (collectedRules yara rules).length then
        .ok ((pairUp (collectedRules yara rules) (foundBlocks rules)).foldl appendFound ∅)
      else .error (.valueError "") := by
  have htexts : (((Pattern.splitAll splitMatch (printRules yara rules).toList).map
      String.ofList).filter fun block => decide (block ≠ "")).map
        (fun text => Pattern.findAll stringMatch text.toList) =
        (foundBlocks rules).map (List.map FoundString.groups) := by
    rw [← stringsOf_output yara, stringsOf, List.filter_map, List.map_map]
    simp [Function.comp_def]
  have hlength := congrArg List.length htexts
  rw [List.length_map, List.length_map] at hlength
  rw [parseYaraOutput, splitOutputInRulesAndMatches, findAll_output, hlength]
  split
  · exact foldlM_blocks htexts
  · rfl

/-- The strings of all rules with a name, and the meta items of the first. -/
theorem get?_foldl_appendFound (entries : List ((String × String) × FoundString)) (name : String) :
    (entries.foldl appendFound ∅).get? name =
      resultOf (entries.filter fun e => decide (e.1.1 = name)) := by
  induction entries using List.reverseRecOn with
  | nil => rfl
  | append_singleton entries e ih =>
    rw [List.foldl_append, List.filter_append]
    show (appendFound (entries.foldl appendFound ∅) e).get? name = _
    rcases eq_or_ne e.1.1 name with rfl | hne
    · rw [List.filter_singleton, decide_eq_true rfl, appendFound, Dict.get?_set_self, Dict.getD, ih]
      cases entries.filter fun e' => decide (e'.1.1 = e.1.1) with
      | nil => rfl
      | cons first others => simp [resultOf]
    · rw [List.filter_singleton, decide_eq_false hne, appendFound,
        Dict.get?_set_of_ne _ hne.symm, ih]
      simp

end Results

/-! ## 4. Which output is parsed -/

/-- The result of a rule holds its strings in order and its meta items. Rules of the same name
share a result. -/
structure IsResult {tables : CharTables} (rules : List (MatchedRule tables))
    (rule : MatchedRule tables) (result : YaraResult) : Prop where
  name : result.rule = rule.name
  matched : result.matched = true
  strings : result.strings = (rules.filter fun other => decide (other.name = rule.name)).flatMap
    fun other => other.strings.map FoundString.entry
  metaItems : HoldsItems result.metaData rule.metaItems

/-- The results are the rules. -/
structure RulesParsed {tables : CharTables} (rules : List (MatchedRule tables))
    (results : Dict String YaraResult) : Prop where
  names : ∀ name, name ∈ results ↔ name ∈ rules.map MatchedRule.name
  results : ∀ rule ∈ rules, ∀ result, results.get? rule.name = some result →
    IsResult rules rule result

/-- No string looks like a rule, no value holds a comma or has a quote at an end, rules of the same
name have the same meta items, and `yara` prints those of the first one as they are and no path is
taken for meta items. -/
structure RulesFit {tables : CharTables} (yara : YaraPrinter)
    (rules : List (MatchedRule tables)) : Prop where
  lines : ∀ rule ∈ rules, ∀ found ∈ rule.strings,
    ¬SplitsOutput found.line ∧ ¬NamesRule found.line
  values : ∀ rule ∈ rules, ∀ item ∈ rule.metaItems, item.value.Fits
  agree : ∀ rule ∈ rules, ∀ other ∈ rules, rule.name = other.name →
    ItemsAgree rule.metaItems other.metaItems
  read : ∀ rule, rules.find? (fun other => decide (other.name = rule.name)) = some rule →
    ∀ item ∈ rule.metaItems, ItemRead yara rule.path.toList item
  paths : ∀ rule, rules.find? (fun other => decide (other.name = rule.name)) = some rule →
    ∀ part, metaPart rule.path.toList = some part → PathItemsFit rule.metaItems part

section Parsed
variable {tables : CharTables} {yara : YaraPrinter} {rules : List (MatchedRule tables)}

theorem length_le_collectedRules (yara : YaraPrinter) (rules : List (MatchedRule tables)) :
    rules.length ≤ (collectedRules yara rules).length := by
  induction rules with
  | nil => exact Nat.le_refl 0
  | cons rule rules ih =>
    rw [collectedRules, List.flatMap_cons, List.length_append, List.length_cons, List.length_cons]
    have ih : rules.length ≤ (rules.flatMap _).length := ih
    omega

/-- There are as many rules as collected, if no string is taken for a rule. -/
theorem findAll_eq_nil_of_length (h : (collectedRules yara rules).length = rules.length) :
    ∀ rule ∈ rules, ∀ found ∈ rule.strings,
      Pattern.findAll (ruleMatch tables) found.line = [] := by
  induction rules with
  | nil => simp
  | cons rule rules ih =>
    have hle := length_le_collectedRules yara rules
    rw [collectedRules, List.flatMap_cons, List.length_append, List.length_cons, List.length_cons,
      ← collectedRules] at h
    have hnil : (rule.strings.flatMap fun found =>
        Pattern.findAll (ruleMatch tables) found.line).length = 0 := by omega
    rw [List.forall_mem_cons]
    exact ⟨List.flatMap_eq_nil_iff.mp (List.length_eq_zero_iff.mp hnil), ih (by omega)⟩

theorem foundBlocks_of_uncut
    (h : ∀ rule ∈ rules, ∀ found ∈ rule.strings, isCut found.line = false) :
    foundBlocks rules = rules.map MatchedRule.strings := by
  have hsplit : (rules.flatMap fun rule => rule.strings.splitOnP fun found => isCut found.line) =
      rules.map MatchedRule.strings := by
    rw [List.map_eq_flatMap]
    exact List.flatMap_congr fun rule hrule => List.splitOnP_eq_singleton (h rule hrule)
  rw [foundBlocks, hsplit, List.filter_eq_self]
  intro block hblock
  obtain ⟨rule, -, rfl⟩ := List.mem_map.mp hblock
  simpa using rule.matched

theorem collectedRules_of_findAll_nil
    (h : ∀ rule ∈ rules, ∀ found ∈ rule.strings,
      Pattern.findAll (ruleMatch tables) found.line = []) :
    collectedRules yara rules = rules.map fun rule => (rule.name, rule.readMeta yara) := by
  rw [collectedRules, List.map_eq_flatMap]
  refine List.flatMap_congr fun rule hrule => ?_
  rw [List.flatMap_eq_nil_iff.mpr (h rule hrule)]

/-- The strings of each rule stand with this rule. -/
theorem pairUp_rules (rules : List (MatchedRule tables)) :
    pairUp (rules.map fun rule => (rule.name, rule.readMeta yara)) (rules.map MatchedRule.strings) =
      rules.flatMap fun rule =>
        rule.strings.map fun found => ((rule.name, rule.readMeta yara), found) := by
  induction rules with
  | nil => rfl
  | cons rule rules ih =>
    rw [List.flatMap_cons, ← ih]
    rfl

theorem filter_entries (rules : List (MatchedRule tables)) (name : String) :
    (rules.flatMap fun rule =>
        rule.strings.map fun found => ((rule.name, rule.readMeta yara), found)).filter
          (fun e => decide (e.1.1 = name)) =
      (rules.filter fun rule => decide (rule.name = name)).flatMap fun rule =>
        rule.strings.map fun found => ((rule.name, rule.readMeta yara), found) := by
  induction rules with
  | nil => rfl
  | cons rule rules ih =>
    rw [List.flatMap_cons, List.filter_append, ih]
    rcases eq_or_ne rule.name name with hname | hne
    · have hall : ∀ e ∈ rule.strings.map fun found => ((rule.name, rule.readMeta yara), found),
          decide (e.1.1 = name) = true := by
        intro e he
        obtain ⟨found, -, rfl⟩ := List.mem_map.mp he
        exact decide_eq_true hname
      rw [List.filter_eq_self.mpr hall, List.filter_cons_of_pos (by simp [hname]),
        List.flatMap_cons]
    · have hnone : ∀ e ∈ rule.strings.map fun found => ((rule.name, rule.readMeta yara), found),
          ¬decide (e.1.1 = name) = true := by
        intro e he
        obtain ⟨found, -, rfl⟩ := List.mem_map.mp he
        simpa using hne
      rw [List.filter_eq_nil_iff.mpr hnone, List.filter_cons_of_neg (by simp [hne]),
        List.nil_append]

/-- The result under a name, if each string stands with its rule. -/
theorem get?_results (yara : YaraPrinter) (rules : List (MatchedRule tables)) (name : String) :
    ((pairUp (rules.map fun rule => (rule.name, rule.readMeta yara))
        (rules.map MatchedRule.strings)).foldl appendFound ∅).get? name =
      (rules.find? fun rule => decide (rule.name = name)).map fun first =>
        ⟨name, true, (rules.filter fun rule => decide (rule.name = name)).flatMap
          fun rule => rule.strings.map FoundString.entry, parseMetaData (first.readMeta yara)⟩ := by
  rw [get?_foldl_appendFound, pairUp_rules, filter_entries, ← List.head?_filter]
  cases hfilter : rules.filter fun rule => decide (rule.name = name) with
  | nil => rfl
  | cons first others =>
    have hname : first.name = name := by
      have hmem : first ∈ rules.filter fun rule => decide (rule.name = name) := by
        rw [hfilter]
        exact List.mem_cons_self
      exact of_decide_eq_true (List.mem_filter.mp hmem).2
    have hstrings : ((first :: others).flatMap fun rule => rule.strings.map fun found =>
        ((rule.name, rule.readMeta yara), found)).map (fun e => e.2.entry) =
          (first :: others).flatMap fun rule => rule.strings.map FoundString.entry := by
      rw [List.map_flatMap]
      simp only [List.map_map]
      rfl
    obtain ⟨found, founds, hfirst⟩ := List.exists_cons_of_ne_nil first.matched
    rw [← hstrings, List.flatMap_cons, hfirst, List.map_cons, List.cons_append, resultOf]
    simp [hname]

/-- A string of a result stands in a line at which the output is not split. -/
theorem isCut_of_mem_results {name : String} {result : YaraResult} {found : FoundString}
    (h : ((pairUp (collectedRules yara rules) (foundBlocks rules)).foldl appendFound ∅).get? name =
      some result) (hfound : found.entry ∈ result.strings) : isCut found.line = false := by
  rw [get?_foldl_appendFound] at h
  obtain ⟨e, he, hentry⟩ : ∃ e ∈ (pairUp (collectedRules yara rules) (foundBlocks rules)).filter
      (fun e => decide (e.1.1 = name)), e.2.entry = found.entry := by
    cases hfilter : (pairUp (collectedRules yara rules) (foundBlocks rules)).filter
        fun e => decide (e.1.1 = name) with
    | nil =>
      rw [hfilter] at h
      cases h
    | cons first others =>
      rw [hfilter] at h
      cases h
      exact List.mem_map.mp hfound
  obtain ⟨pair, hpair, hmem⟩ := List.mem_flatMap.mp (List.mem_filter.mp he).1
  obtain ⟨other, hother, rfl⟩ := List.mem_map.mp hmem
  have hblock := (List.mem_filter.mp (List.of_mem_zip hpair).2).1
  obtain ⟨rule, -, hsplit⟩ := List.mem_flatMap.mp hblock
  rw [← line_eq_of_entry_eq hentry]
  have hcut := eq_false_of_mem_splitOnP hsplit hother
  exact hcut

theorem parseYaraOutput_of_lines
    (h : ∀ rule ∈ rules, ∀ found ∈ rule.strings,
      isCut found.line = false ∧ Pattern.findAll (ruleMatch tables) found.line = []) :
    parseYaraOutput tables (printRules yara rules) =
      .ok ((pairUp (rules.map fun rule => (rule.name, rule.readMeta yara))
        (rules.map MatchedRule.strings)).foldl appendFound ∅) := by
  have hcut := fun rule hrule found hfound => (h rule hrule found hfound).1
  have hname := fun rule hrule found hfound => (h rule hrule found hfound).2
  rw [parseYaraOutput_printRules, foundBlocks_of_uncut hcut, collectedRules_of_findAll_nil hname,
    if_pos (by rw [List.length_map, List.length_map])]

/-- If the results are the rules, no string looks like a rule. -/
theorem lines_of_parsed {results : Dict String YaraResult}
    (hparse : parseYaraOutput tables (printRules yara rules) = .ok results)
    (hparsed : RulesParsed rules results) :
    ∀ rule ∈ rules, ∀ found ∈ rule.strings,
      isCut found.line = false ∧ Pattern.findAll (ruleMatch tables) found.line = [] := by
  rw [parseYaraOutput_printRules] at hparse
  split at hparse
  · next hlength =>
    cases hparse
    have hcut : ∀ rule ∈ rules, ∀ found ∈ rule.strings, isCut found.line = false := by
      intro rule hrule found hfound
      obtain ⟨result, hresult⟩ := Dict.mem_iff.mp
        ((hparsed.names rule.name).mpr (List.mem_map_of_mem hrule))
      refine isCut_of_mem_results hresult ?_
      rw [(hparsed.results rule hrule result hresult).strings]
      exact List.mem_flatMap.mpr ⟨rule, List.mem_filter.mpr ⟨hrule, decide_eq_true rfl⟩,
        List.mem_map_of_mem hfound⟩
    rw [foundBlocks_of_uncut hcut, List.length_map] at hlength
    have hname := findAll_eq_nil_of_length hlength.symm
    exact fun rule hrule found hfound =>
      ⟨hcut rule hrule found hfound, hname rule hrule found hfound⟩
  · cases hparse

theorem lines_iff (found : FoundString) :
    isCut found.line = false ∧ Pattern.findAll (ruleMatch tables) found.line = [] ↔
      ¬SplitsOutput found.line ∧ ¬NamesRule found.line := by
  have honeLine := (outputLine_found tables found).oneLine
  rw [← isCut_iff honeLine, ← @findAll_rule_ne_nil_iff tables _ honeLine]
  simp

/-- The output of `yara` is parsed to the rules that it lists if no string looks like a rule, all
values fit and are printed as they are, rules of the same name have the same meta items and no path
is taken for meta items. -/
theorem parseYaraOutput_iff (yara : YaraPrinter) (tables : CharTables)
    (rules : List (MatchedRule tables)) :
    (∃ results, parseYaraOutput tables (printRules yara rules) = .ok results ∧
        RulesParsed rules results) ↔ RulesFit yara rules := by
  constructor
  · intro h
    obtain ⟨results, hparse, hparsed⟩ := h
    have hlines := lines_of_parsed hparse hparsed
    have hresults := (parseYaraOutput_of_lines hlines).symm.trans hparse
    have hholds : ∀ name first, rules.find? (fun rule => decide (rule.name = name)) = some first →
        ∀ rule ∈ rules, rule.name = name →
          HoldsItems (parseMetaData (first.readMeta yara)) rule.metaItems := by
      intro name first hfirst rule hrule hname
      have hresult := get?_results yara rules name
      rw [Except.ok.inj hresults, hfirst, Option.map_some, ← hname] at hresult
      have hitems := (hparsed.results rule hrule _ hresult).metaItems
      dsimp only at hitems
      exact hitems
    have hexists : ∀ rule ∈ rules, ∃ first,
        rules.find? (fun other => decide (other.name = rule.name)) = some first := by
      intro rule hrule
      exact Option.isSome_iff_exists.mp (List.find?_isSome.mpr ⟨rule, hrule, decide_eq_true rfl⟩)
    refine ⟨fun rule hrule found hfound => (lines_iff found).mp (hlines rule hrule found hfound),
      fun rule hrule => ?_, fun rule hrule other hother hname => ?_, fun rule hfirst => ?_,
      fun rule hfirst => ?_⟩
    · obtain ⟨first, hfirst⟩ := hexists rule hrule
      have hrule' := hholds rule.name first hfirst rule hrule rfl
      rw [readMeta_eq, parseMetaData_ofList] at hrule'
      exact fits_of_holdsItems hrule'
    · obtain ⟨first, hfirst⟩ := hexists rule hrule
      exact itemsAgree_of_holdsItems (hholds rule.name first hfirst rule hrule rfl)
        (hholds rule.name first hfirst other hother hname.symm)
    · have hself := hholds rule.name rule hfirst rule (List.mem_of_find?_eq_some hfirst) rfl
      exact ((holdsItems_readMeta_iff rule).mp hself).2.2.1
    · have hself := hholds rule.name rule hfirst rule (List.mem_of_find?_eq_some hfirst) rfl
      exact ((holdsItems_readMeta_iff rule).mp hself).2.2.2
  · intro h
    have hlines : ∀ rule ∈ rules, ∀ found ∈ rule.strings,
        isCut found.line = false ∧ Pattern.findAll (ruleMatch tables) found.line = [] :=
      fun rule hrule found hfound => (lines_iff found).mpr (h.lines rule hrule found hfound)
    refine ⟨_, parseYaraOutput_of_lines hlines, fun name => ?_, fun rule hrule result hresult => ?_⟩
    · rw [← Dict.isSome_get?, get?_results, Option.isSome_map, List.find?_isSome, List.mem_map]
      simp only [decide_eq_true_eq]
    · rw [get?_results] at hresult
      obtain ⟨first, hfirst, rfl⟩ := Option.map_eq_some_iff.mp hresult
      have hmem := List.mem_of_find?_eq_some hfirst
      have hname : first.name = rule.name := by simpa using List.find?_some hfirst
      have hself : rules.find? (fun other => decide (other.name = first.name)) = some first := by
        rw [hname]
        exact hfirst
      have hholds : HoldsItems (parseMetaData (first.readMeta yara)) first.metaItems :=
        (holdsItems_readMeta_iff first).mpr ⟨h.values first hmem, h.agree first hmem first hmem rfl,
          h.read first hself, h.paths first hself⟩
      refine ⟨rfl, rfl, rfl, ?_⟩
      dsimp only
      exact hholds.congr (h.agree first hmem rule hrule hname)
        (h.agree rule hrule first hmem hname.symm)

end Parsed

/-- Quotes and backslashes are printed behind a backslash. -/
def backslashPrinter : YaraPrinter where
  escape c := if c ∈ ['"', '\'', '\\'] then ['\\', c] else [c]
  escaped c := by
    split
    · exact .inr ⟨[c], List.cons_ne_nil _ _, rfl, fun d hd => .inl (List.mem_singleton.mp hd)⟩
    · exact .inl rfl
  plain c _ _ hc := if_neg hc
  special c hc := by
    have hmem : c ∈ ['"', '\'', '\\'] := by
      simp only [List.mem_cons, List.not_mem_nil, or_false] at hc ⊢
      exact hc.elim .inl fun h => .inr (.inr h)
    rw [if_pos hmem]
    simp

example (oneLine : '\n' ∉ "SQLite \\d".toList) :
    ¬(PrintedValue.text "SQLite \\d" oneLine).Kept backslashPrinter :=
  not_kept_of_mem (c := '\\') (by simp) (by simp)

/-- A string that looks like the line of a rule. -/
def forgedString : FoundString where
  offset := 4
  identifier := "b"
  text := "x [bar] /etc/passwd"
  isIdentifier := ⟨by decide, List.all_eq_true.mp (by decide)⟩
  notEmpty := by decide
  oneLine := by simp

/-- A rule with such a string between two others. -/
def forgedRule : MatchedRule CharTables.ascii where
  name := "a"
  metaItems := []
  path := "/file"
  strings := [
    ⟨0, "a", "blah", ⟨by decide, List.all_eq_true.mp (by decide)⟩, by decide, by simp⟩,
    forgedString,
    ⟨42, "c", "foo", ⟨by decide, List.all_eq_true.mp (by decide)⟩, by decide, by simp⟩]
  isWord := ⟨by decide, List.all_eq_true.mp (by decide)⟩
  absolute := ⟨'f', "ile".toList, by decide⟩
  oneLine := by simp
  matched := List.cons_ne_nil _ _

/-- The text of a string can be taken for a rule. -/
theorem forgedString_splits_output :
    ¬∀ (yara : YaraPrinter) (tables : CharTables) (rules : List (MatchedRule tables)),
      ∃ results, parseYaraOutput tables (printRules yara rules) = .ok results ∧
        RulesParsed rules results := by
  intro h
  obtain ⟨results, hparse, hparsed⟩ := h backslashPrinter CharTables.ascii [forgedRule]
  have hlines := lines_of_parsed hparse hparsed forgedRule List.mem_cons_self forgedString
    (by simp [forgedRule])
  have hsplits : SplitsOutput forgedString.line :=
    ⟨"0x4:$b: x ".toList, "bar".toList, ' ', "etc/passwd".toList, by rw [line_eq]; decide,
      by decide, by decide⟩
  rw [(isCut_iff (outputLine_found CharTables.ascii forgedString).oneLine).mpr hsplits] at hlines
  cases hlines.1

end FactCore
