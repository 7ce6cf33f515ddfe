import FactCore.Lib.Dict

/-!
# CVE feeds

`src/src/plugins/analysis/cve_lookup/internal/data_parsing.py` and
`helper_functions.py`: what is read from the items of an NVD feed. An item with
configuration nodes becomes a `CveEntry` with the CPEs of its vulnerable nodes; any
other item becomes a `CveSummaryEntry`, unless it was rejected.

An item is modelled as far as it is read, and its id is any text. A score is the text that the
`TEXT` columns of the database make of it.
-/

namespace FactCore

/-! ## 1. The items of a feed -/

/-- An entry of `cpe_match`. -/
structure CpeMatch where
  cpe23Uri : Option String
  vulnerable : Bool
  versionStartIncluding : Option String
  versionStartExcluding : Option String
  versionEndIncluding : Option String
  versionEndExcluding : Option String

/-- A configuration node. The key `cpe_match` is read first, so a node that has both keys is a
`cpeMatch`. -/
inductive CveNode
  | cpeMatch (matches' : List CpeMatch)
  | children (nodes : List CveNode)
  | other

/-- `baseMetricV2` or `baseMetricV3`: the score below `cvssV2` or `cvssV3`, if it is there. -/
structure BaseMetric where
  baseScore : Option String

/-- `impact`. -/
structure CveImpact where
  baseMetricV2 : Option BaseMetric
  baseMetricV3 : Option BaseMetric

/-- An element of `CVE_Items`. -/
structure CveItem where
  cveId : String
  summary : String
  impact : Option CveImpact
  nodes : List CveNode

/-! ## 2. What is extracted -/

/-- A CPE with the bounds on its versions. -/
structure CpeEntry where
  cpeId : String
  versionStartIncluding : String
  versionStartExcluding : String
  versionEndIncluding : String
  versionEndExcluding : String
  deriving DecidableEq, Repr

structure CveEntry where
  cveId : String
  impact : Dict String String
  cpeList : List CpeEntry

structure CveSummaryEntry where
  cveId : String
  summary : String
  impact : Dict String String

/-- The tuple of one entry of `cpe_match`. -/
def cpeEntry? (cpe : CpeMatch) : Option CpeEntry :=
  match cpe.cpe23Uri with
  | none => none
  | some uri =>
    if cpe.vulnerable then
      some {
        cpeId := uri
        versionStartIncluding := cpe.versionStartIncluding.getD ""
        versionStartExcluding := cpe.versionStartExcluding.getD ""
        versionEndIncluding := cpe.versionEndIncluding.getD ""
        versionEndExcluding := cpe.versionEndExcluding.getD "" }
    else none

mutual

/-- The part of `extract_cpe_data_from_cve` for one node. -/
def CveNode.cpeEntries : CveNode → List CpeEntry
  | .cpeMatch matches' => matches'.filterMap cpeEntry?
  | .children nodes => extractCpeDataFromCve nodes
  | .other => []

/-- `extract_cpe_data_from_cve`. -/
def extractCpeDataFromCve : List CveNode → List CpeEntry
  | [] => []
  | node :: nodes => node.cpeEntries ++ extractCpeDataFromCve nodes

end

/-- The score of one version of the metric, under its key. -/
def cvssScore (key : String) (metric : Option BaseMetric) : List (String × String) :=
  match metric.bind BaseMetric.baseScore with
  | some score => [(key, score)]
  | none => []

/-- `extract_cve_impact`. -/
def extractCveImpact (entry : CveImpact) : Dict String String :=
  Dict.ofList (cvssScore "cvssV2" entry.baseMetricV2 ++ cvssScore "cvssV3" entry.baseMetricV3)

/-- The impact of an item: an empty dict when there is none. -/
def CveItem.extractedImpact (feed : CveItem) : Dict String String :=
  feed.impact.elim ∅ extractCveImpact

/-- The summary starts with `** REJECT **`. -/
def CveItem.Rejected (feed : CveItem) : Prop := "** REJECT **".toList <+: feed.summary.toList

instance (feed : CveItem) : Decidable feed.Rejected := inferInstanceAs (Decidable (_ <+: _))

/-- The `CveEntry` of an item with nodes. The CPEs are a set. -/
def CveItem.cveEntry (feed : CveItem) : CveEntry where
  cveId := feed.cveId
  impact := feed.extractedImpact
  cpeList := (extractCpeDataFromCve feed.nodes).dedup

/-- The `CveSummaryEntry` of an item without nodes. -/
def CveItem.summaryEntry (feed : CveItem) : CveSummaryEntry where
  cveId := feed.cveId
  summary := feed.summary
  impact := feed.extractedImpact

/-- `extract_data_from_cve`. -/
def extractDataFromCve : List CveItem → List CveEntry × List CveSummaryEntry
  | [] => ([], [])
  | feed :: feeds =>
    let rest := extractDataFromCve feeds
    if !feed.nodes.isEmpty then (feed.cveEntry :: rest.1, rest.2)
    else if ¬ feed.Rejected then (rest.1, feed.summaryEntry :: rest.2)
    else rest

theorem mem_extractDataFromCve_fst {items : List CveItem} {e : CveEntry} :
    e ∈ (extractDataFromCve items).1 ↔ ∃ m ∈ items, m.nodes ≠ [] ∧ e = m.cveEntry := by
  induction items with
  | nil => simp [extractDataFromCve]
  | cons feed feeds ih =>
    unfold extractDataFromCve
    rw [List.exists_mem_cons_iff, ← ih]
    cases hnodes : feed.nodes with
    | nil =>
      simp only [List.isEmpty_nil, Bool.not_true, Bool.false_eq_true, if_false, ne_eq,
        not_true_eq_false, false_and, false_or]
      split <;> rfl
    | cons node nodes => simp

theorem mem_extractDataFromCve_snd {items : List CveItem} {e : CveSummaryEntry} :
    e ∈ (extractDataFromCve items).2 ↔
      ∃ m ∈ items, (m.nodes = [] ∧ ¬ m.Rejected) ∧ e = m.summaryEntry := by
  induction items with
  | nil => simp [extractDataFromCve]
  | cons feed feeds ih =>
    unfold extractDataFromCve
    rw [List.exists_mem_cons_iff, ← ih]
    cases hnodes : feed.nodes with
    | nil =>
      rcases Decidable.em feed.Rejected with hrej | hrej <;> simp [hrej]
    | cons node nodes => simp

/-! ## 3. The attributes of a CPE -/

/-- The splits of `CPE_SPLIT_REGEX`, with the two characters before the text (the nearer one
first): at a colon between characters other than `\` and `:`, and at the colon after `\:`. -/
def splitCpe : Option Char → Option Char → List Char → List (List Char)
  | _, _, [] => [[]]
  | near, far, c :: rest =>
    let parts := splitCpe (some c) near rest
    if c = ':' ∧ ((near ≠ some '\\' ∧ near ≠ some ':' ∧ rest.head? ≠ some ':') ∨
        (near = some ':' ∧ far = some '\\')) then
      [] :: parts
    else match parts with
      | [] => [[c]]
      | part :: parts => (c :: part) :: parts

/-- `\s` in a regular expression. -/
def isPySpace (c : Char) : Bool :=
  decide (c.toNat ∈ [0x9, 0xa, 0xb, 0xc, 0xd, 0x1c, 0x1d, 0x1e, 0x1f, 0x20, 0x85, 0xa0, 0x1680, 0x2000,
    0x2001, 0x2002, 0x2003, 0x2004, 0x2005, 0x2006, 0x2007, 0x2008, 0x2009, 0x200a, 0x2028, 0x2029,
    0x202f, 0x205f, 0x3000])

/-- `[a-zA-Z0-9]`. -/
def isAsciiAlphanum (c : Char) : Bool := c.isUpper || c.isLower || c.isDigit

/-- `[^a-zA-Z0-9\s?*_\\]`. -/
def isSpecial (c : Char) : Bool :=
  !(isAsciiAlphanum c || isPySpace c || decide (c ∈ ['?', '*', '_', '\\']))

/-- A character that `SPECIAL_CHAR_REGEX` looks at alone, with the one before it. The first
character of a text is never escaped. -/
def escapeSingle (before : Option Char) (c : Char) : List Char :=
  match before with
  | none => [c]
  | some b => if b ≠ '\\' ∧ isSpecial c = true then ['\\', c] else [c]

/-- `escape_special_characters`, with the character before the text. The first alternative of the
expression takes a wildcard between two characters that are no dots. -/
def escapeFrom : Option Char → List Char → List Char
  | _, [] => []
  | before, a :: rest =>
    match rest with
    | b :: c :: rest' =>
      if a ≠ '.' ∧ a ≠ '\\' ∧ (b = '*' ∨ b = '?') ∧ c ≠ '.' then
        a :: '\\' :: b :: c :: escapeFrom (some c) rest'
      else escapeSingle before a ++ escapeFrom (some a) (b :: c :: rest')
    | [b] => escapeSingle before a ++ escapeFrom (some a) [b]
    | [] => escapeSingle before a

/-- `.*$`: a line break stands at most at the very end. -/
def reachesEnd : List Char → Bool
  | [] => true
  | c :: rest => rest.isEmpty || (decide (c ≠ '\n') && reachesEnd rest)

/-- `NON_ALPHANUM_REGEX` matches: some character is not `[a-zA-Z0-9_\\:]`. A dot takes no line
break, so it is found in the first line or is the break behind it. -/
def hasNonAlphanum : List Char → Bool
  | [] => false
  | c :: rest =>
    (!(isAsciiAlphanum c || decide (c ∈ ['_', '\\', ':'])) && reachesEnd rest) ||
      (decide (c ≠ '\n') && hasNonAlphanum rest)

/-- One round of the loop in `replace_characters_and_wildcards`. -/
def replaceAttribute (attr : List Char) : String :=
  if attr = ['*'] then "ANY"
  else if attr = ['-'] then "N/A"
  else if hasNonAlphanum attr then String.ofList (escapeFrom none attr)
  else String.ofList attr

/-- The columns that `setup_cve_feeds_table` makes of a CPE. -/
def cpeElements (cpeId : String) : List String :=
  ((splitCpe none none cpeId.toList).drop 2).map replaceAttribute

/-- A wildcard in a version is escaped, and a lone one is spelled out. -/
example : cpeElements "cpe:2.3:a:vendor:pro\\:duct:1.*x:-:*" =
    ["a", "vendor", "pro\\:duct", "1\\.*x", "N/A", "ANY"] := by decide

end FactCore
