import FactCore.Lib.Dict
import FactCore.Lib.MapM
import FactCore.Lib.Separator
import FactCore.Objects
import Mathlib.Data.List.Dedup
import Mathlib.Data.List.Infix
import Mathlib.Data.List.Sort
import Mathlib.Data.String.Basic

/-!
# The binary search with YARA

`get_binary_search_result` runs `yara` on the stored files and reads what it prints. A
match is a line with the rule and the path of a file. Warnings and errors are printed in
between, since the two output streams are merged. Lines with `warning` in them are left
out, and each other line is split into two words.

Results:
1. `foldlM_parse_eq_ok`: when the lines can be parsed, and what is read.
2. `searchResults_iff`: the answer is right when the entries that are read are the matches.
3. `binarySearch_iff`: when the answer consists of the matches.
-/

namespace FactCore

/-! ## 1. The code -/

/-- `os.path.basename`. -/
def basename (path : String) : String := (splitAtChar '/' path).getLastD ""

/-- The test `line and 'warning' not in line`. -/
def isRead (line : String) : Bool :=
  decide (line ≠ "") && !decide ("warning".toList <:+: line.toList)

/-- The rule and the name of the file in a line of two words. -/
def lineEntry (line : String) : Option (String × String) :=
  match splitAtChar ' ' line with
  | [rule, file] => some (rule, basename file)
  | _ => none

/-- The message of `rule, match = line.split(' ')` for another number of words. -/
def unpackError (line : String) : PyException :=
  if (splitAtChar ' ' line).length < 2 then
    .valueError "not enough values to unpack (expected 2, got 1)"
  else .valueError "too many values to unpack (expected 2)"

/-- The body of the loop in `_parse_raw_result`. -/
def parseLine (results : Dict String (List String)) (line : String) :
    Except PyException (Dict String (List String)) :=
  if isRead line then
    match lineEntry line with
    | some entry => .ok (results.push entry.1 entry.2)
    | none => .error (unpackError line)
  else .ok results

/-- `_parse_raw_result`. -/
def parseRawResult (rawResult : String) : Except PyException (Dict String (List String)) :=
  (splitAtChar '\n' rawResult).foldlM parseLine ∅

/-- `_eliminate_duplicates`. -/
def eliminateDuplicates (resultDict : Dict String (List String)) : Dict String (List String) :=
  resultDict.mapValues fun _ uids => uids.dedup.insertionSort fun a b => a ≤ b

/-- What `get_binary_search_result` returns. -/
inductive SearchAnswer
  | results (results : Dict String (List String))
  | message (text : String)

/-- The part of `get_binary_search_result` in front of the parser: the output of `yara`, or one of
the exceptions that are caught, with its text. -/
inductive YaraOutcome
  | output (rawResult : String)
  | syntaxError (text : String)
  | calledProcessError (text : String)

/-- `get_binary_search_result`. -/
def getBinarySearchResult : YaraOutcome → Except PyException SearchAnswer
  | .output rawResult => do
    let results ← parseRawResult rawResult
    return .results (eliminateDuplicates results)
  | .syntaxError text =>
    .ok (.message ("There seems to be an error in the rule file:\n" ++ text))
  | .calledProcessError text => .ok (.message ("Error when calling YARA:\n" ++ text))

/-! ## 2. What `yara` prints -/

/-- A match of a rule in a stored file. -/
structure YaraMatch where
  rule : String
  directory : String
  uid : Uid
  identifier : rule.toList ≠ [] ∧ ∀ c ∈ rule.toList, c.isAlphanum = true ∨ c = '_'
  fileName : '/' ∉ uid.toList

/-- A line of the output. -/
inductive YaraLine
  | found (m : YaraMatch)
  | warning (text : String) (contains : "warning".toList <:+: text.toList)
  | error (text : String)

/-- The line as it is printed. -/
def YaraLine.text : YaraLine → String
  | .found m => m.rule ++ " " ++ (m.directory ++ "/" ++ m.uid)
  | .warning text _ => text
  | .error text => text

/-- The output with these lines; the empty text behind its last line break is one of them. -/
structure YaraOutput where
  lines : List YaraLine
  oneLine : ∀ line ∈ lines, '\n' ∉ line.text.toList

def YaraOutput.print (output : YaraOutput) : String :=
  String.ofList (['\n'].intercalate (output.lines.map fun line => line.text.toList))

/-- The rules with their files, each list sorted and without duplicates. -/
structure SearchResults (output : YaraOutput) (results : Dict String (List String)) : Prop where
  rules : ∀ rule, rule ∈ results ↔ ∃ m, .found m ∈ output.lines ∧ m.rule = rule
  sorted : ∀ rule uids, results.get? rule = some uids → uids.Pairwise (· < ·)
  uids : ∀ rule uids, results.get? rule = some uids →
    ∀ uid, uid ∈ uids ↔ ∃ m, .found m ∈ output.lines ∧ m.rule = rule ∧ m.uid = uid

/-- Lines that are read have two words; an error that is read looks like one of the matches, and a
match that is not read stands in another line. -/
structure LinesApart (output : YaraOutput) : Prop where
  twoWords : ∀ line ∈ output.lines, isRead line.text = true →
    (splitAtChar ' ' line.text).length = 2
  errors : ∀ text, .error text ∈ output.lines → isRead text = true →
    ∃ m, .found m ∈ output.lines ∧ lineEntry text = some (m.rule, m.uid)
  unread : ∀ m, .found m ∈ output.lines → isRead (YaraLine.found m).text = false →
    ∃ line ∈ output.lines, isRead line.text = true ∧ lineEntry line.text = some (m.rule, m.uid)

/-! ## 3. One line -/

section Lines
variable {line rule : String} {entry : String × String} {m : YaraMatch} {output : YaraOutput}

theorem lineEntry_isSome_iff :
    (∃ entry, lineEntry line = some entry) ↔ (splitAtChar ' ' line).length = 2 := by
  unfold lineEntry
  rcases splitAtChar ' ' line with _ | ⟨a, _ | ⟨b, _ | ⟨c, rest⟩⟩⟩ <;> simp

/-- What is read from the line of a match. -/
theorem lineEntry_found (h : lineEntry (YaraLine.found m).text = some entry) :
    entry = (m.rule, m.uid) := by
  have hblank : ' ' ∉ m.rule.toList := by
    intro hmem
    rcases m.identifier.2 ' ' hmem with hc | hc <;> cases hc
  have hchars : (YaraLine.found m).text.toList =
      m.rule.toList ++ ' ' :: (m.directory ++ "/" ++ m.uid).toList := by
    simp [YaraLine.text]
  have hsplit : splitAtChar ' ' (YaraLine.found m).text =
      m.rule :: splitAtChar ' ' (m.directory ++ "/" ++ m.uid) := by
    rw [splitAtChar, hchars, List.splitOn_append_cons_self_of_not_mem hblank, List.map_cons,
      String.ofList_toList]
    rfl
  have hbasename : basename (m.directory ++ "/" ++ m.uid) = m.uid := by
    have happend := splitAtChar_append '/' m.directory m.uid m.fileName
    rw [show String.singleton '/' = "/" from rfl] at happend
    rw [basename, happend, List.getLastD_concat]
  rw [lineEntry, hsplit] at h
  cases hrest : splitAtChar ' ' (m.directory ++ "/" ++ m.uid) with
  | nil => exact absurd hrest (splitAtChar_ne_nil _ _)
  | cons word words =>
    rw [hrest] at h
    cases words with
    | nil =>
      cases h
      rw [eq_of_splitAtChar_eq_singleton hrest, hbasename]
    | cons _ _ => cases h

theorem not_isRead_warning {text : String} (h : "warning".toList <:+: text.toList) :
    isRead text = false := by
  rw [isRead, decide_eq_true h, Bool.not_true, Bool.and_false]

/-! ## 4. The whole output -/

/-- The rules and files of the lines that are read. -/
def readEntries (lines : List String) : List (String × String) :=
  lines.filterMap fun line => if isRead line then lineEntry line else none

theorem mem_readEntries {lines : List String} :
    entry ∈ readEntries lines ↔
      ∃ line ∈ lines, isRead line = true ∧ lineEntry line = some entry := by
  simp [readEntries, List.mem_filterMap]

/-- The loop over the lines. -/
theorem foldlM_parse_eq_ok {lines : List String} {d results : Dict String (List String)} :
    lines.foldlM parseLine d = .ok results ↔
      (∀ line ∈ lines, isRead line = true → ∃ entry, lineEntry line = some entry) ∧
        results = (readEntries lines).foldl (fun d e => d.push e.1 e.2) d := by
  induction lines generalizing d with
  | nil =>
    constructor
    · intro h
      exact ⟨fun _ hmem => absurd hmem List.not_mem_nil, (Except.ok.inj h).symm⟩
    · intro h
      rw [h.2]
      rfl
  | cons line lines ih =>
    rw [List.foldlM_cons, List.forall_mem_cons]
    cases hread : isRead line with
    | false =>
      have hentries : readEntries (line :: lines) = readEntries lines := by
        simp [readEntries, hread]
      have hline : parseLine d line = .ok d := by simp [parseLine, hread]
      rw [hline, hentries]
      show lines.foldlM parseLine d = .ok results ↔ _
      rw [ih]
      simp
    | true =>
      cases hentry : lineEntry line with
      | none =>
        have hline : parseLine d line = .error (unpackError line) := by
          simp [parseLine, hread, hentry]
        rw [hline]
        refine iff_of_false (fun h => by cases h) fun h => ?_
        obtain ⟨entry, heq⟩ := h.1.1 rfl
        cases heq
      | some entry =>
        have hentries : readEntries (line :: lines) = entry :: readEntries lines := by
          simp [readEntries, hread, hentry]
        have hline : parseLine d line = .ok (d.push entry.1 entry.2) := by
          simp [parseLine, hread, hentry]
        rw [hline, hentries]
        show lines.foldlM parseLine (d.push entry.1 entry.2) = .ok results ↔ _
        rw [ih]
        simp

theorem parseRawResult_print (output : YaraOutput) :
    parseRawResult output.print = (output.lines.map YaraLine.text).foldlM parseLine ∅ := by
  cases hlines : output.lines with
  | nil =>
    rw [YaraOutput.print, hlines]
    rfl
  | cons line lines =>
    have hsplit : splitAtChar '\n' output.print = output.lines.map YaraLine.text := by
      have hparts : ∀ part ∈ output.lines.map (fun line => line.text.toList), '\n' ∉ part := by
        intro part hpart
        obtain ⟨line, hline, rfl⟩ := List.mem_map.mp hpart
        exact output.oneLine line hline
      rw [splitAtChar, YaraOutput.print, String.toList_ofList,
        List.splitOn_intercalate _ hparts (by simp [hlines]), List.map_map]
      exact List.map_congr_left fun line _ => String.ofList_toList
    rw [parseRawResult, hsplit, hlines]

/-- What the lists hold after the duplicates are gone. -/
theorem get?_eliminateDuplicates (entries : List (String × String)) (rule : String) :
    (eliminateDuplicates (entries.foldl (fun d e => d.push e.1 e.2) ∅)).get? rule =
      if rule ∈ entries.map Prod.fst then
        some ((((entries.filter fun e => decide (e.1 = rule)).map Prod.snd).dedup).insertionSort
          fun a b => a ≤ b)
      else none := by
  rw [eliminateDuplicates, Dict.get?_mapValues, Dict.get?_foldl_push]
  split <;> simp [Dict.getD]

theorem mem_uids {entries : List (String × String)} {uid : String} :
    uid ∈ (((entries.filter fun e => decide (e.1 = rule)).map Prod.snd).dedup).insertionSort
        (fun a b => a ≤ b) ↔ (rule, uid) ∈ entries := by
  rw [List.mem_insertionSort, List.mem_dedup]
  simp

/-- The result is right if and only if the entries that were read are the matches. -/
theorem searchResults_iff {entries : List (String × String)} :
    SearchResults output (eliminateDuplicates (entries.foldl (fun d e => d.push e.1 e.2) ∅)) ↔
      ∀ rule uid, (rule, uid) ∈ entries ↔
        ∃ m, .found m ∈ output.lines ∧ m.rule = rule ∧ m.uid = uid := by
  have hget := get?_eliminateDuplicates entries
  generalize eliminateDuplicates (entries.foldl (fun d e => d.push e.1 e.2) ∅) = results at hget ⊢
  have hrule : ∀ rule, rule ∈ results ↔ rule ∈ entries.map Prod.fst := by
    intro rule
    rw [← Dict.isSome_get?, hget rule]
    split <;> simp_all
  constructor
  · intro h rule uid
    constructor
    · intro hmem
      have hkey : rule ∈ entries.map Prod.fst := List.mem_map_of_mem hmem
      have hsome := (hget rule).trans (if_pos hkey)
      exact (h.uids rule _ hsome uid).mp (mem_uids.mpr hmem)
    · intro hfound
      obtain ⟨m, hm, hr, hu⟩ := hfound
      have hkey : rule ∈ entries.map Prod.fst := (hrule rule).mp ((h.rules rule).mpr ⟨m, hm, hr⟩)
      have hsome := (hget rule).trans (if_pos hkey)
      exact mem_uids.mp ((h.uids rule _ hsome uid).mpr ⟨m, hm, hr, hu⟩)
  · intro h
    refine ⟨fun rule => ?_, fun rule uids huids => ?_, fun rule uids huids uid => ?_⟩
    · rw [hrule, List.mem_map]
      constructor
      · intro hmem
        obtain ⟨⟨_, uid⟩, hmem, rfl⟩ := hmem
        obtain ⟨m, hm, hr, -⟩ := (h _ uid).mp hmem
        exact ⟨m, hm, hr⟩
      · intro hfound
        obtain ⟨m, hm, hr⟩ := hfound
        exact ⟨(rule, m.uid), (h rule m.uid).mpr ⟨m, hm, hr, rfl⟩, rfl⟩
    · rw [hget rule] at huids
      split at huids
      · cases huids
        have hnodup : (((entries.filter fun e => decide (e.1 = rule)).map
            Prod.snd).dedup.insertionSort fun a b => a ≤ b).Nodup :=
          (List.perm_insertionSort _ _).nodup_iff.mpr (List.nodup_dedup _)
        have hsorted := List.pairwise_insertionSort (fun a b : String => a ≤ b)
          ((entries.filter fun e => decide (e.1 = rule)).map Prod.snd).dedup
        exact (hsorted.and hnodup).imp fun h => lt_of_le_of_ne h.1 h.2
      · cases huids
    · rw [hget rule] at huids
      split at huids
      · cases huids
        rw [mem_uids, h]
      · cases huids

/-- A warning is never read, so an entry comes from a match or from an error. -/
theorem entry_cases {line : YaraLine} (hline : line ∈ output.lines)
    (hread : isRead line.text = true) (hentry : lineEntry line.text = some entry) :
    (∃ m, .found m ∈ output.lines ∧ entry = (m.rule, m.uid)) ∨
      ∃ text, .error text ∈ output.lines ∧ isRead text = true ∧ lineEntry text = some entry := by
  cases line with
  | found m => exact .inl ⟨m, hline, lineEntry_found hentry⟩
  | warning text contains =>
    have hunread := not_isRead_warning contains
    rw [YaraLine.text, hunread] at hread
    cases hread
  | error text => exact .inr ⟨text, hline, hread, hentry⟩

/-- The entries are the matches, if and only if no error adds one and no match is lost. -/
theorem readEntries_iff
    (htwo : ∀ line ∈ output.lines, isRead line.text = true →
      (splitAtChar ' ' line.text).length = 2) :
    (∀ rule uid, (rule, uid) ∈ readEntries (output.lines.map YaraLine.text) ↔
      ∃ m, .found m ∈ output.lines ∧ m.rule = rule ∧ m.uid = uid) ↔ LinesApart output := by
  have hmem : ∀ entry, entry ∈ readEntries (output.lines.map YaraLine.text) ↔
      ∃ line ∈ output.lines, isRead line.text = true ∧ lineEntry line.text = some entry := by
    intro entry
    simp only [mem_readEntries, List.mem_map, exists_exists_and_eq_and]
  constructor
  · intro h
    refine ⟨htwo, fun text htext hread => ?_, fun m hm _ => ?_⟩
    · obtain ⟨⟨rule, uid⟩, hentry⟩ := lineEntry_isSome_iff.mpr (htwo _ htext hread)
      obtain ⟨m, hm, rfl, rfl⟩ := (h rule uid).mp ((hmem _).mpr ⟨_, htext, hread, hentry⟩)
      exact ⟨m, hm, hentry⟩
    · exact (hmem _).mp ((h m.rule m.uid).mpr ⟨m, hm, rfl, rfl⟩)
  · intro h rule uid
    rw [hmem]
    constructor
    · intro hfound
      obtain ⟨line, hline, hread, hentry⟩ := hfound
      rcases entry_cases hline hread hentry with ⟨m, hm, heq⟩ | ⟨text, htext, hread, hentry⟩
      · cases heq
        exact ⟨m, hm, rfl, rfl⟩
      · obtain ⟨m, hm, heq⟩ := h.errors text htext hread
        cases hentry.symm.trans heq
        exact ⟨m, hm, rfl, rfl⟩
    · intro hfound
      obtain ⟨m, hm, rfl, rfl⟩ := hfound
      cases hread : isRead (YaraLine.found m).text with
      | false => exact h.unread m hm hread
      | true =>
        obtain ⟨entry, hentry⟩ := lineEntry_isSome_iff.mpr (htwo _ hm hread)
        cases lineEntry_found hentry
        exact ⟨_, hm, hread, hentry⟩

/-- The answer consists of the matches, if and only if the lines that are read are two words and
tell them apart. -/
theorem binarySearch_iff (output : YaraOutput) :
    (∃ results, getBinarySearchResult (.output output.print) = .ok (.results results) ∧
      SearchResults output results) ↔ LinesApart output := by
  constructor
  · intro h
    obtain ⟨results, hanswer, hresults⟩ := h
    obtain ⟨raw, hraw, hreturn⟩ := except_bind_eq_ok hanswer
    cases hreturn
    rw [parseRawResult_print, foldlM_parse_eq_ok] at hraw
    obtain ⟨hlines, rfl⟩ := hraw
    refine (readEntries_iff fun line hline hread => ?_).mp (searchResults_iff.mp hresults)
    exact lineEntry_isSome_iff.mp (hlines line.text (List.mem_map_of_mem hline) hread)
  · intro h
    have hlines : ∀ text ∈ output.lines.map YaraLine.text, isRead text = true →
        ∃ entry, lineEntry text = some entry := by
      intro text htext hread
      obtain ⟨line, hline, rfl⟩ := List.mem_map.mp htext
      exact lineEntry_isSome_iff.mpr (h.twoWords line hline hread)
    have hraw := (parseRawResult_print output).trans (foldlM_parse_eq_ok.mpr ⟨hlines, rfl⟩)
    refine ⟨_, ?_, searchResults_iff.mpr ((readEntries_iff h.twoWords).mpr h)⟩
    show (parseRawResult output.print >>= fun results =>
      .ok (SearchAnswer.results (eliminateDuplicates results))) = _
    rw [hraw]
    rfl

end Lines

/-- One file that `yara` cannot open, and the request is never answered. -/
theorem unreadableFile_no_answer :
    ¬∀ output : YaraOutput, ∃ results,
      getBinarySearchResult (.output output.print) = .ok (.results results) ∧
        SearchResults output results := by
  intro h
  have hline : '\n' ∉ "error scanning /media/data/a1/a1_8: could not open file".toList := by
    decide +kernel
  obtain ⟨results, hanswer, -⟩ :=
    h ⟨[.error "error scanning /media/data/a1/a1_8: could not open file"],
      fun _ hmem => by rwa [List.mem_singleton.mp hmem]⟩
  obtain ⟨raw, hraw, -⟩ := except_bind_eq_ok hanswer
  rw [parseRawResult_print, foldlM_parse_eq_ok] at hraw
  obtain ⟨entry, hentry⟩ := hraw.1 _ List.mem_cons_self (by decide +kernel)
  have hnone : lineEntry "error scanning /media/data/a1/a1_8: could not open file" = none := by
    decide +kernel
  cases hnone.symm.trans hentry

end FactCore
