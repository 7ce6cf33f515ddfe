import FactCore.Lib.PyText
import FactCore.Lib.Separator
import FactCore.Scheduler.Analysis

/-!
# MIME filters from the configuration

`_parse_dict` turns the entries `mime_whitelist` and `mime_blacklist` of a plugin's
section into lists, and `_next_analysis_is_blacklisted` decides by them whether the
plugin is skipped for a file. If both lists are empty, the lists of the plugin
itself are used.

The parser leaves out empty items, but it looks for them before it strips the
others. A blank item is kept as the empty string, which occurs in every file type.

Results:
1. `substringIsInList_parse`: a list with a blank item matches everything.
2. `mimeFilter_iff`: when the decision is the one that the items ask for.
-/

namespace FactCore

/-! ## 1. The code -/

/-- `parse_comma_separated_list`. -/
def parseCommaSeparatedList (listString : String) : List String :=
  ((splitAtChar ',' listString).filter fun item => decide (item ≠ "")).map strip

/-- The sections of the configuration file, with underscores in the names. -/
abbrev ConfigSections := Dict String (Dict String String)

/-- The configured value of an entry, empty if there is none. -/
def ConfigSections.entry (sections : ConfigSections) (plugin key : String) : String :=
  (((sections.get? plugin).getD ∅).get? key).getD ""

/-- `_get_blacklist_and_whitelist_from_config`, for a configuration that went through
`_parse_dict`. -/
def getBlacklistAndWhitelistFromConfig (sections : ConfigSections) (analysisPlugin : String) :
    List String × List String :=
  (parseCommaSeparatedList (sections.entry analysisPlugin "mime_blacklist"),
    parseCommaSeparatedList (sections.entry analysisPlugin "mime_whitelist"))

/-- The scheduler with this configuration. -/
def AnalysisEnv.configured (env : AnalysisEnv) (sections : ConfigSections) : AnalysisEnv :=
  { env with mimeConfig := getBlacklistAndWhitelistFromConfig sections }

/-! ## 2. What the items ask for -/

/-- An item that consists of blanks, at least one. -/
def HasBlankItem (listString : String) : Prop :=
  ∃ item ∈ splitAtChar ',' listString, item ≠ "" ∧ strip item = ""

instance (listString : String) : Decidable (HasBlankItem listString) :=
  inferInstanceAs (Decidable (∃ item ∈ splitAtChar ',' listString, item ≠ "" ∧ strip item = ""))

/-- The items with something else than blanks. -/
def configuredItems (listString : String) : List String :=
  ((splitAtChar ',' listString).map strip).filter fun item => decide (item ≠ "")

/-- Some item of the list occurs in the file type. -/
def Matches (fileType listString : String) : Prop :=
  ∃ item ∈ configuredItems listString, item.toList <:+: fileType.toList

/-- The plugin's own lists exclude the file type. -/
def SkippedByPlugin (plugin : Plugin) (fileType : String) : Prop :=
  isBlacklisted plugin.mimeBlacklist plugin.mimeWhitelist fileType = true

/-- The file type is to be skipped: the whitelist comes first, then the blacklist, then the lists of
the plugin. -/
def ShouldSkip (plugin : Plugin) (blacklist whitelist fileType : String) : Prop :=
  (configuredItems whitelist ≠ [] ∧ ¬ Matches fileType whitelist) ∨
  (configuredItems whitelist = [] ∧ configuredItems blacklist ≠ [] ∧ Matches fileType blacklist) ∨
  (configuredItems whitelist = [] ∧ configuredItems blacklist = [] ∧
    SkippedByPlugin plugin fileType)

/-- A blank item does no harm: in the whitelist, if the file is to be analysed anyway, in the
blacklist, if there is a whitelist or the file is to be skipped anyway. -/
structure BlanksHarmless (plugin : Plugin) (blacklist whitelist fileType : String) : Prop where
  inWhitelist : HasBlankItem whitelist →
    Matches fileType whitelist ∨
    (configuredItems whitelist = [] ∧ configuredItems blacklist ≠ [] ∧
      ¬ Matches fileType blacklist) ∨
    (configuredItems whitelist = [] ∧ configuredItems blacklist = [] ∧
      ¬ SkippedByPlugin plugin fileType)
  inBlacklist : HasBlankItem blacklist → ¬ HasBlankItem whitelist → configuredItems whitelist = [] →
    Matches fileType blacklist ∨
    (configuredItems blacklist = [] ∧ SkippedByPlugin plugin fileType)

/-! ## 3. Lists with blank items -/

section Items
variable {listString fileType blacklist whitelist : String} {plugin : Plugin}

theorem mem_parseCommaSeparatedList {x : String} :
    x ∈ parseCommaSeparatedList listString ↔
      (x = "" ∧ HasBlankItem listString) ∨ x ∈ configuredItems listString := by
  simp only [parseCommaSeparatedList, configuredItems, HasBlankItem, List.mem_map, List.mem_filter,
    decide_eq_true_eq]
  constructor
  · intro h
    obtain ⟨item, ⟨hmem, hne⟩, rfl⟩ := h
    rcases eq_or_ne (strip item) "" with hblank | hnot
    · exact .inl ⟨hblank, item, hmem, hne, hblank⟩
    · exact .inr ⟨⟨item, hmem, rfl⟩, hnot⟩
  · intro h
    rcases h with ⟨rfl, item, hmem, hne, hblank⟩ | ⟨⟨item, hmem, rfl⟩, hnot⟩
    · exact ⟨item, ⟨hmem, hne⟩, hblank⟩
    · refine ⟨item, ⟨hmem, fun heq => hnot ?_⟩, rfl⟩
      rw [heq]
      rfl

theorem parseCommaSeparatedList_eq_nil_iff :
    parseCommaSeparatedList listString = [] ↔
      ¬ HasBlankItem listString ∧ configuredItems listString = [] := by
  simp only [List.eq_nil_iff_forall_not_mem, mem_parseCommaSeparatedList, not_or, not_and]
  constructor
  · intro h
    exact ⟨(h "").1 rfl, fun x => (h x).2⟩
  · intro h x
    exact ⟨fun _ => h.1, h.2 x⟩

/-- A blank item occurs in every file type. -/
theorem substringIsInList_parse :
    substringIsInList fileType (parseCommaSeparatedList listString) = true ↔
      HasBlankItem listString ∨ Matches fileType listString := by
  simp only [substringIsInList, List.any_eq_true, decide_eq_true_eq, mem_parseCommaSeparatedList]
  constructor
  · intro h
    obtain ⟨x, ⟨-, hblank⟩ | hmem, hin⟩ := h
    · exact .inl hblank
    · exact .inr ⟨x, hmem, hin⟩
  · intro h
    rcases h with hblank | ⟨x, hmem, hin⟩
    · exact ⟨"", .inl ⟨rfl, hblank⟩, List.nil_infix⟩
    · exact ⟨x, .inr hmem, hin⟩

theorem configuredItems_ne_nil (h : Matches fileType listString) :
    configuredItems listString ≠ [] := by
  obtain ⟨item, hmem, -⟩ := h
  exact List.ne_nil_of_mem hmem

/-- Blank items are harmless where they force what the other items ask for. -/
theorem blanksHarmless_iff : BlanksHarmless plugin blacklist whitelist fileType ↔
    (HasBlankItem whitelist → ¬ ShouldSkip plugin blacklist whitelist fileType) ∧
    (HasBlankItem blacklist → ¬ HasBlankItem whitelist → configuredItems whitelist = [] →
      ShouldSkip plugin blacklist whitelist fileType) := by
  have hwhite : Matches fileType whitelist → _ := configuredItems_ne_nil
  have hblack : Matches fileType blacklist → _ := configuredItems_ne_nil
  have hiff : BlanksHarmless plugin blacklist whitelist fileType ↔ _ ∧ _ :=
    ⟨fun h => ⟨h.inWhitelist, h.inBlacklist⟩, fun h => ⟨h.1, h.2⟩⟩
  rw [hiff, ShouldSkip]
  by_cases hnil : configuredItems whitelist = []
  · have hno : ¬ Matches fileType whitelist := fun h => hwhite h hnil
    by_cases hnil' : configuredItems blacklist = []
    · have hno' : ¬ Matches fileType blacklist := fun h => hblack h hnil'
      simp [hnil, hnil', hno, hno']
    · simp [hnil, hnil', hno]
  · simp [hnil]

end Items

/-! ## 4. The decision -/

section Decision
variable {env : AnalysisEnv} {db : Db} {name fileType : String} {plugin : Plugin}
  {fo fo' : FileObject} {blacklist whitelist : String}

/-- What is decided for a file type, whether or not there are lists. -/
theorem nextAnalysisIsBlacklisted_fst
    (hmime : getFileTypeFromObjectOrDb env.lower db fo = .ok (fileType, fo')) :
    (nextAnalysisIsBlacklisted env db name plugin fo).map Prod.fst =
      .ok (isBlacklisted (getBlacklistAndWhitelist env name plugin).1
        (getBlacklistAndWhitelist env name plugin).2 fileType) := by
  unfold nextAnalysisIsBlacklisted
  cases hlists : (getBlacklistAndWhitelist env name plugin).1.isEmpty &&
      (getBlacklistAndWhitelist env name plugin).2.isEmpty with
  | true =>
    obtain ⟨hblack, hwhite⟩ := Bool.and_eq_true_iff.mp hlists
    simp only [hlists, if_true]
    rw [List.isEmpty_iff.mp hblack, List.isEmpty_iff.mp hwhite]
    rfl
  | false =>
    simp only [hlists, hmime]
    rfl

/-- The code's decision for the entries of the configuration. -/
theorem isBlacklisted_configured (sections : ConfigSections)
    (hblack : sections.entry name "mime_blacklist" = blacklist)
    (hwhite : sections.entry name "mime_whitelist" = whitelist) :
    isBlacklisted (getBlacklistAndWhitelist (env.configured sections) name plugin).1
        (getBlacklistAndWhitelist (env.configured sections) name plugin).2 fileType = true ↔
      (parseCommaSeparatedList whitelist ≠ [] ∧
        ¬ (HasBlankItem whitelist ∨ Matches fileType whitelist)) ∨
      (parseCommaSeparatedList whitelist = [] ∧ parseCommaSeparatedList blacklist ≠ [] ∧
        (HasBlankItem blacklist ∨ Matches fileType blacklist)) ∨
      (parseCommaSeparatedList whitelist = [] ∧ parseCommaSeparatedList blacklist = [] ∧
        SkippedByPlugin plugin fileType) := by
  have hconfig : (env.configured sections).mimeConfig name =
      (parseCommaSeparatedList blacklist, parseCommaSeparatedList whitelist) := by
    rw [← hblack, ← hwhite]
    rfl
  rw [← substringIsInList_parse, ← substringIsInList_parse]
  simp only [getBlacklistAndWhitelist, hconfig]
  cases hw : parseCommaSeparatedList whitelist with
  | cons item items => simp [isBlacklisted]
  | nil =>
    cases hb : parseCommaSeparatedList blacklist with
    | cons item items => simp [isBlacklisted]
    | nil => simp [SkippedByPlugin]

/-- The plugin is skipped for the files that the items of the configuration ask for, if and only if
blank items do no harm. -/
theorem mimeFilter_iff (env : AnalysisEnv) (db : Db) (sections : ConfigSections) (name : String)
    (plugin : Plugin) (fo fo' : FileObject) (fileType : String)
    (hmime : getFileTypeFromObjectOrDb env.lower db fo = .ok (fileType, fo')) :
    (∃ skip, (nextAnalysisIsBlacklisted (env.configured sections) db name plugin fo).map Prod.fst =
        .ok skip ∧
      (skip = true ↔ ShouldSkip plugin (sections.entry name "mime_blacklist")
        (sections.entry name "mime_whitelist") fileType)) ↔
      BlanksHarmless plugin (sections.entry name "mime_blacklist")
        (sections.entry name "mime_whitelist") fileType := by
  generalize hblack : sections.entry name "mime_blacklist" = blacklist
  generalize hwhite : sections.entry name "mime_whitelist" = whitelist
  have hmime' : getFileTypeFromObjectOrDb (env.configured sections).lower db fo = .ok (fileType, fo') :=
    hmime
  rw [nextAnalysisIsBlacklisted_fst hmime']
  simp only [Except.ok.injEq, exists_eq_left', isBlacklisted_configured sections hblack hwhite,
    parseCommaSeparatedList_eq_nil_iff, ne_eq]
  rw [blanksHarmless_iff]
  by_cases hblankWhite : HasBlankItem whitelist
  · -- the file is not skipped, whatever the items are
    simp [hblankWhite]
  · by_cases hnil : configuredItems whitelist = []
    · by_cases hblankBlack : HasBlankItem blacklist
      · -- without a whitelist the file is skipped
        simp [hblankWhite, hnil, hblankBlack]
      · simp [hblankWhite, hnil, hblankBlack, ShouldSkip]
    · simp [hblankWhite, hnil, ShouldSkip]

end Decision

/-- A scheduler with plugins that have no lists. -/
def filteringEnv : AnalysisEnv where
  plugins := examplePlugins
  shuffle := ⟨fun _ l => l, fun _ l => .refl l⟩
  mimeConfig _ := ([], [])
  outcome _ := .success []
  driver := acceptAll
  versionNewer _ _ := .ok false
  lower s := String.ofList (s.toList.map Char.toLower)
  time n := n

/-- A text file whose type is known. -/
def typedText : FileObject :=
  { newFirmware ⟨"readme", "ab", "README", 5⟩ routerMeta [] with
    processedAnalysis := Dict.ofList [("file_type", .dict [("mime", .str "text/plain")])] }

/-- A plugin section with a blacklist. -/
def blacklistSection (blacklist : String) : ConfigSections :=
  Dict.ofList [("strings", Dict.ofList [("mime_blacklist", blacklist)])]

/-- A blacklist without blank items is obeyed. -/
theorem mimeFilter_images :
    ∃ skip, (nextAnalysisIsBlacklisted (filteringEnv.configured (blacklistSection " image/,,video/ "))
        Db.empty "strings" ⟨"1", none, [], [], [], false⟩ typedText).map Prod.fst = .ok skip ∧
      (skip = true ↔ ShouldSkip ⟨"1", none, [], [], [], false⟩ " image/,,video/ " "" "text/plain") :=
  (mimeFilter_iff filteringEnv Db.empty (blacklistSection " image/,,video/ ") "strings"
    ⟨"1", none, [], [], [], false⟩ typedText typedText "text/plain" rfl).mpr
    ⟨fun h => absurd h (by decide), fun h => absurd h (by decide)⟩

/-- A blank item between two commas: the plugin is skipped for a text file, too. -/
theorem blankItem_skips_all : ¬ ∀ (env : AnalysisEnv) (db : Db) (sections : ConfigSections)
    (name : String) (plugin : Plugin) (fo fo' : FileObject) (fileType : String),
    getFileTypeFromObjectOrDb env.lower db fo = .ok (fileType, fo') →
    ∃ skip, (nextAnalysisIsBlacklisted (env.configured sections) db name plugin fo).map Prod.fst =
        .ok skip ∧
      (skip = true ↔ ShouldSkip plugin (sections.entry name "mime_blacklist")
        (sections.entry name "mime_whitelist") fileType) := by
  intro hclaim
  obtain ⟨skip, hskip, hiff⟩ := hclaim filteringEnv Db.empty (blacklistSection "image/, ,video/")
    "strings" ⟨"1", none, [], [], [], false⟩ typedText typedText "text/plain" rfl
  have hcode : (nextAnalysisIsBlacklisted
      (filteringEnv.configured (blacklistSection "image/, ,video/")) Db.empty "strings"
      ⟨"1", none, [], [], [], false⟩ typedText).map Prod.fst = .ok true := rfl
  obtain rfl := Except.ok.inj (hcode.symm.trans hskip)
  rcases hiff.mp rfl with ⟨hwhite, -⟩ | ⟨-, -, item, hmem, hin⟩ | ⟨-, hblack, -⟩
  · exact hwhite (by decide)
  · have hnone : ∀ item ∈ configuredItems "image/, ,video/",
        ¬ item.toList <:+: "text/plain".toList := by decide
    exact hnone item hmem hin
  · exact absurd hblack (by decide)

end FactCore
