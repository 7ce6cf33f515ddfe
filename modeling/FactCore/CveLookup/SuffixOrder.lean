import FactCore.CveLookup.Versions
import FactCore.Lib.Pep440

/-!
# Versions with letter suffixes

OpenSSL numbers its releases with letters: 1.0.1, 1.0.1a, ..., 1.0.1z, 1.0.1za, ...,
1.0.1zz. The letters a, b, c and r mean something in PEP 440: the first three are read as
pre-releases, r as a post-release. The other suffixes are no PEP 440 and become a local
version.

That a parser follows PEP 440 here is a hypothesis.

Results:
1. `coerceVersion_suffix`: what a version with a suffix is coerced to.
2. `suffixKey_lt_iff`: how these compare.
3. `suffixOrder_iff`: which comparisons and which intervals are right.
4. `post_release_suffix`: r comes behind all others.
-/

namespace FactCore

open Pep440 (Release Implements)

/-- `"a"`, `"b"`, ..., `"z"`. -/
def suffixLetters : List String := ["a", "b", "c", "d", "e", "f", "g", "h", "i", "j", "k", "l", "m",
  "n", "o", "p", "q", "r", "s", "t", "u", "v", "w", "x", "y", "z"]

/-- The release suffixes, in their order. -/
def releaseSuffixes : List String := suffixLetters ++ suffixLetters.map ("z" ++ ·)

abbrev ReleaseSuffix := {s : String // s ∈ releaseSuffixes}

/-- The version `n + s`. -/
def suffixed (n : Release) (s : String) : String := n.text ++ s

/-! ## 1. What a version with a suffix is coerced to -/

section Characters
variable {tables : CharTables} {c : Char}

theorem toNat_lt_of_isDigit (h : c.isDigit = true) : c.toNat < 58 := by
  simp only [Char.isDigit, Bool.and_eq_true, decide_eq_true_iff] at h
  have hle : c.toNat ≤ 57 := h.2
  omega

theorem isDecimal_of_isDigit (h : c.isDigit = true) : tables.isDecimal c = true := by
  rw [tables.isDecimal_ascii c (by have := toNat_lt_of_isDigit h; omega), h]

theorem isDecimal_of_isLower (h : c.isLower = true) : tables.isDecimal c = false := by
  have hc := Pep440.toNat_of_isLower h
  rw [tables.isDecimal_ascii c (by omega), (Pep440.endsRelease_of_isLower h).1]

/-- A character of a release with a suffix. -/
def InSeries (c : Char) : Prop := c.isDigit = true ∨ c = '.' ∨ c.isLower = true

instance (c : Char) : Decidable (InSeries c) := inferInstanceAs (Decidable (_ ∨ _))

theorem InSeries.toNat_lt (h : InSeries c) : c.toNat < 128 := by
  rcases h with h | rfl | h
  · have hc := toNat_lt_of_isDigit h
    omega
  · decide
  · have hc := Pep440.toNat_of_isLower h
    omega

theorem InSeries.toLower (h : InSeries c) : c.toLower = c := by
  unfold Char.toLower
  rw [dif_neg]
  rintro ⟨hA, hZ⟩
  have hA' : 65 ≤ c.toNat := hA
  have hZ' : c.toNat ≤ 90 := hZ
  rcases h with h | rfl | h
  · have hc := toNat_lt_of_isDigit h
    omega
  · exact absurd hA' (by decide)
  · have hc := Pep440.toNat_of_isLower h
    omega

theorem InSeries.ne (h : InSeries c) {d : Char} (hd : ¬ InSeries d) : c ≠ d :=
  fun heq => hd (heq ▸ h)

end Characters

variable {tables : CharTables} {n : Release} {letters : List Char}

theorem inSeries_of_mem (hlower : ∀ c ∈ letters, c.isLower = true) :
    ∀ c ∈ n.chars ++ letters, InSeries c := by
  intro c hc
  rcases List.mem_append.mp hc with hc | hc
  · rcases n.chars_spec hc with hdigit | rfl
    · exact .inl hdigit
    · exact .inr (.inl rfl)
  · exact .inr (.inr (hlower c hc))

section Regex
variable (hlower : ∀ c ∈ letters, c.isLower = true)
include hlower

/-- Behind the digits of a part stands a dot or a letter. -/
theorem matchRest_digits (part : Pep440.Numeral) (parts : List Pep440.Numeral) :
    (Pattern.plus (.char tables.isDecimal)).matchRest
      (part.digits ++ (Release.dotted parts ++ letters)) =
        some (Release.dotted parts ++ letters) := by
  refine Pattern.matchRest_plus_char part.ne_nil
    (fun c hc => isDecimal_of_isDigit (part.isDigit c hc)) fun c hc => ?_
  cases parts with
  | nil => exact isDecimal_of_isLower (hlower c (List.mem_of_mem_head? hc))
  | cons part parts =>
    rw [← Option.some.inj hc]
    exact tables.isDecimal_ascii '.' (by decide)

theorem matchRest_dotted (parts : List Pep440.Numeral) :
    (Pattern.many (.seq (.lit '.') (.plus (.char tables.isDecimal)))).matchRest
      (Release.dotted parts ++ letters) = some letters := by
  induction parts with
  | nil =>
    refine Pattern.matchRest_many_stop ?_
    cases letters with
    | nil => rfl
    | cons c letters =>
      have hc : c ≠ '.' := (Pep440.endsRelease_of_isLower (hlower c List.mem_cons_self)).2
      exact Pattern.rests_seq_of_nil (Pattern.rests_char_of_not (decide_eq_false hc))
  | cons part parts ih =>
    rw [Release.dotted_cons, List.cons_append, List.append_assoc]
    refine Pattern.matchRest_many_step (Pattern.matchRest_seq (Pattern.matchRest_char rfl)
      (matchRest_digits hlower part parts)) ?_ ih
    simp only [List.length_cons, List.length_append]
    omega

/-- No suffix of the letters has a digit in it. -/
theorem rests_digits_eq_nil {p : Pattern} {r : List Char} (hr : r <:+ letters) :
    (Pattern.seq (.plus (.char tables.isDecimal)) p).rests r = [] :=
  Pattern.rests_seq_of_nil (Pattern.rests_plus_char_eq_nil fun c hc =>
    isDecimal_of_isLower (hlower c (hr.subset hc)))

/-- The release is what the regular expression takes of the text. -/
theorem matchRest_validVersionRegex :
    (validVersionRegex tables).matchRest (n.chars ++ letters) = some letters := by
  have hseries := inSeries_of_mem (n := n) hlower
  have hv : (Pattern.opt (.lit 'v')).matchRest (n.chars ++ letters) = some (n.chars ++ letters) := by
    obtain ⟨d, digits, hdigits⟩ := List.exists_cons_of_ne_nil n.first.ne_nil
    have hd : d ≠ 'v' := by
      rintro rfl
      exact absurd (n.first.isDigit 'v' (hdigits ▸ List.mem_cons_self)) (by decide)
    rw [Release.chars, hdigits]
    exact Pattern.matchRest_opt_of_nil (Pattern.rests_char_of_not (decide_eq_false hd))
  have hepoch : (Pattern.opt (.seq (.plus (.char tables.isDecimal)) (.lit '!'))).matchRest
      (n.chars ++ letters) = some (n.chars ++ letters) := by
    refine Pattern.matchRest_opt_of_nil (Pattern.rests_seq_char_eq_nil fun c hc => ?_)
    exact decide_eq_false ((hseries c hc).ne (by decide))
  have hfirst : (Pattern.plus (.char tables.isDecimal)).matchRest (n.chars ++ letters) =
      some (Release.dotted n.rest ++ letters) := by
    rw [Release.chars, List.append_assoc]
    exact matchRest_digits hlower n.first n.rest
  refine Pattern.matchRest_seq hv (Pattern.matchRest_seq hepoch (Pattern.matchRest_seq hfirst
    (Pattern.matchRest_seq (matchRest_dotted hlower n.rest) (Pattern.matchRest_seq
      (Pattern.matchRest_opt_of_nil ?_) Pattern.matchRest_empty))))
  refine Pattern.rests_seq_eq_nil fun r hr => Pattern.rests_seq_eq_nil fun r' hr' => ?_
  exact rests_digits_eq_nil hlower (hr'.trans hr)

end Regex

variable {V : Type} {env : VersionEnv V} {s : String}

theorem toList_suffixed : (suffixed n s).toList = n.chars ++ s.toList := by
  rw [suffixed, String.toList_append, Release.text, String.toList_ofList]

/-- Such a version follows the conventions already. -/
theorem fixedVersion_suffixed (hlower : ∀ c ∈ s.toList, c.isLower = true) :
    env.fixedVersion (suffixed n s) = suffixed n s := by
  have hseries : ∀ c ∈ (suffixed n s).toList, InSeries c := by
    rw [toList_suffixed]
    exact inSeries_of_mem hlower
  have hlowered : env.tables.lower (suffixed n s) = suffixed n s := by
    rw [env.tables.lower_ascii _ fun c hc => (hseries c hc).toNat_lt,
      List.map_congr_left fun c hc => (hseries c hc).toLower, List.map_id', String.ofList_toList]
  have hreplace : ∀ {old new : Char}, ¬ InSeries old →
      (suffixed n s).toList.map (fun c => if c = old then new else c) = (suffixed n s).toList := by
    intro old new hold
    rw [List.map_congr_left fun c hc => if_neg ((hseries c hc).ne hold), List.map_id']
  have hcolon : ':' ∉ (suffixed n s).toList := fun hmem => absurd (hseries _ hmem) (by decide)
  unfold VersionEnv.fixedVersion
  dsimp only
  rw [hlowered, hreplace (by decide), List.replace_of_not_mem hcolon, hreplace (by decide),
    String.ofList_toList]

theorem isWord_of_isLower {c : Char} (h : c.isLower = true) : tables.isWord c = true := by
  have hc := Pep440.toNat_of_isLower h
  rw [tables.isWord_ascii c (by omega)]
  show ((c.isUpper || c.isLower) || c.isDigit || decide (c = '_')) = true
  rw [h, Bool.or_true, Bool.true_or, Bool.true_or]

/-- The letters become a local version. -/
theorem lastResort_suffixed (hlower : ∀ c ∈ s.toList, c.isLower = true) :
    env.lastResort (suffixed n s) = n.text ++ "+" ++ s := by
  have hwords : (s.toList.filter fun c => env.tables.isWord c || decide (c = '.' ∨ c = '-')) =
      s.toList := by
    refine List.filter_eq_self.mpr fun c hc => ?_
    rw [isWord_of_isLower (hlower c hc), Bool.true_or]
  have hstrip : (s.toList.dropWhile fun c => decide (c = '.' ∨ c = '_' ∨ c = '-')) = s.toList := by
    cases hs : s.toList with
    | nil => rfl
    | cons c rest =>
      have hc : InSeries c ∧ c ≠ '.' :=
        have hlow := hlower c (hs ▸ List.mem_cons_self)
        ⟨.inr (.inr hlow), (Pep440.endsRelease_of_isLower hlow).2⟩
      refine List.dropWhile_cons_of_neg ?_
      simp [hc.2, hc.1.ne (d := '_') (by decide), hc.1.ne (d := '-') (by decide)]
  unfold VersionEnv.lastResort
  rw [toList_suffixed, matchRest_validVersionRegex hlower]
  dsimp only
  rw [hwords, hstrip, List.length_append, Nat.add_sub_cancel_right, List.take_left,
    ← String.toList_inj]
  simp [Release.text]

/-- What PEP 440 makes of a, b and c. -/
def suffixLabel (s : String) : Pep440.PreLabel := if s = "a" then .a else if s = "b" then .b else .rc

/-- The key of a version with a suffix. -/
def suffixKey (n : Release) (s : String) : Pep440.Key :=
  if s ∈ ["a", "b", "c"] then (Pep440.Version.preRelease n.numbers (suffixLabel s)).key
  else if s = "r" then (Pep440.Version.postRelease n.numbers).key
  else (Pep440.Version.localVersion n.numbers s).key

theorem suffixLabel_spec : ∀ s ∈ ["a", "b", "c"], (s, suffixLabel s) ∈ Pep440.preLabels := by decide

/-- Suffixes are letters, and of them four are suffixes of PEP 440. -/
theorem releaseSuffix_spec : ∀ s ∈ releaseSuffixes, s ≠ "" ∧ s.toList.all Char.isLower = true ∧
    (s ∉ ["a", "b", "c"] → s ≠ "r" → s ∉ Pep440.letterSuffixes) := by decide

theorem coerceVersion_of_parse {version : String} {v : V} (h : env.parseVersion version = some v) :
    env.coerceVersion version = some v := by
  rw [VersionEnv.coerceVersion, h]

theorem coerceVersion_suffix {env : VersionEnv Pep440.Key} (hparse : Implements env.parseVersion)
    (n : Release) (s : ReleaseSuffix) :
    env.coerceVersion (suffixed n s) = some (suffixKey n s) := by
  obtain ⟨s, hs⟩ := s
  obtain ⟨hne, hletters, hinvalid⟩ := releaseSuffix_spec s hs
  have hlower : ∀ c ∈ s.toList, c.isLower = true := List.all_eq_true.mp hletters
  unfold suffixKey
  split
  · next hpre => exact coerceVersion_of_parse (hparse.pre n _ (suffixLabel_spec s hpre))
  · next hpre =>
    split
    · next hr => exact coerceVersion_of_parse (hr ▸ hparse.post n "r" (by decide))
    · next hr =>
      have hnone : env.parseVersion (suffixed n s) = none :=
        hparse.invalid n s hlower (hinvalid hpre hr)
      rw [VersionEnv.coerceVersion, hnone]
      dsimp only
      rw [fixedVersion_suffixed hlower, hnone]
      dsimp only
      rw [lastResort_suffixed hlower]
      exact hparse.localPart n s hne hlower

/-! ## 2. How the coerced versions compare -/

/-- All suffixes but three come behind these three. -/
theorem lt_of_not_pre : ∀ s ∈ releaseSuffixes, s ∉ ["a", "b", "c"] →
    ∀ t ∈ ["a", "b", "c"], t < s := by decide

theorem suffixLabel_lt : ∀ s ∈ ["a", "b", "c"], ∀ t ∈ ["a", "b", "c"], s < t →
    (suffixLabel s).rank < (suffixLabel t).rank := by decide

/-- Without r the keys have the order of the suffixes. -/
theorem suffixKey_lt_of_lt {s t : ReleaseSuffix} (hs : s.1 ≠ "r") (ht : t.1 ≠ "r") (h : s < t) :
    suffixKey n s < suffixKey n t := by
  have hlt : s.1 < t.1 := h
  unfold suffixKey
  rw [if_neg hs, if_neg ht]
  split
  · next hpre =>
    split
    · next hpre' =>
      exact Pep440.Version.preRelease_lt_preRelease.mpr (suffixLabel_lt _ hpre _ hpre' hlt)
    · exact Pep440.Version.preRelease_lt_localVersion
  · next hpre =>
    split
    · next hpre' => exact absurd hlt (lt_of_not_pre s s.2 hpre t hpre').asymm
    · exact Pep440.Version.localVersion_lt_localVersion.mpr hlt

/-- The key of r is the greatest one. -/
theorem suffixKey_lt_r {s : ReleaseSuffix} (hs : s.1 ≠ "r") : suffixKey n s < suffixKey n "r" := by
  have hr : suffixKey n "r" = (Pep440.Version.postRelease n.numbers).key := by
    rw [suffixKey, if_neg (by decide), if_pos rfl]
  rw [hr]
  unfold suffixKey
  rw [if_neg hs]
  split
  · exact Pep440.Version.preRelease_lt_postRelease
  · exact Pep440.Version.localVersion_lt_postRelease

theorem suffixKey_lt_iff {s t : ReleaseSuffix} :
    suffixKey n s < suffixKey n t ↔ s.1 ≠ "r" ∧ (t.1 = "r" ∨ s < t) := by
  rcases Decidable.em (s.1 = "r") with hs | hs
  · refine iff_of_false ?_ fun h => h.1 hs
    rw [hs]
    rcases Decidable.em (t.1 = "r") with ht | ht
    · rw [ht]
      exact lt_irrefl _
    · exact (suffixKey_lt_r ht).asymm
  · rcases Decidable.em (t.1 = "r") with ht | ht
    · rw [ht]
      exact iff_of_true (suffixKey_lt_r hs) ⟨hs, .inl rfl⟩
    · rw [and_iff_right hs, or_iff_right ht]
      rcases lt_trichotomy s t with hlt | rfl | hgt
      · exact iff_of_true (suffixKey_lt_of_lt hs ht hlt) hlt
      · exact iff_of_false (lt_irrefl _) (lt_irrefl _)
      · exact iff_of_false (suffixKey_lt_of_lt ht hs hgt).asymm hgt.asymm

/-! ## 3. Bounds and intervals -/

/-- The bounds of a CVE entry. -/
inductive BoundKind where
  | startIncluding
  | startExcluding
  | endIncluding
  | endExcluding
  deriving DecidableEq

/-- A value that a bound lets pass. -/
def BoundKind.Admits {α : Type} [LinearOrder α] (bound value : α) : BoundKind → Prop
  | startIncluding => bound ≤ value
  | startExcluding => bound < value
  | endIncluding => value ≤ bound
  | endExcluding => value < bound

def BoundKind.IsStart : BoundKind → Prop
  | startIncluding | startExcluding => True
  | endIncluding | endExcluding => False

/-- The suffixes of the bounds of an entry. -/
abbrev SuffixBounds := BoundKind → Option ReleaseSuffix

def boundText (n : Release) (bound : Option ReleaseSuffix) : String :=
  bound.elim "" fun s => suffixed n s

/-- The entry has these bounds and no version of its own. -/
structure OnlyBounds (cveEntry : CveDbEntry) (n : Release) (bounds : SuffixBounds) : Prop where
  version : unescape cveEntry.version ∈ ["ANY", "N/A"]
  startIncluding : cveEntry.versionStartIncluding = boundText n (bounds .startIncluding)
  startExcluding : cveEntry.versionStartExcluding = boundText n (bounds .startExcluding)
  endIncluding : cveEntry.versionEndIncluding = boundText n (bounds .endIncluding)
  endExcluding : cveEntry.versionEndExcluding = boundText n (bounds .endExcluding)

/-- The suffix lies in the interval. -/
def InInterval (bounds : SuffixBounds) (x : ReleaseSuffix) : Prop :=
  ∀ kind bound, bounds kind = some bound → kind.Admits bound x

/-- One of the suffixes is r and the other one comes behind it. -/
def Misjudged (bound x : ReleaseSuffix) : Prop :=
  (bound.1 = "r" ∧ bound < x) ∨ (x.1 = "r" ∧ x < bound)

theorem misjudged_comm {s t : ReleaseSuffix} : Misjudged s t ↔ Misjudged t s := or_comm

/-- The keys compare the wrong way round exactly where a bound is misjudged. -/
theorem suffixKey_lt_iff_misjudged {s t : ReleaseSuffix} :
    suffixKey n s < suffixKey n t ↔ (s < t ↔ ¬ Misjudged s t) := by
  rw [suffixKey_lt_iff]
  unfold Misjudged
  rcases Decidable.em (s.1 = "r") with hs | hs
  · rcases Decidable.em (t.1 = "r") with ht | ht
    · have heq : s = t := Subtype.ext (hs.trans ht.symm)
      simp [heq, ht]
    · rcases lt_or_ge s t with hlt | hge
      · simp [hs, ht, hlt]
      · simp [hs, ht, not_lt.mpr hge]
  · rcases Decidable.em (t.1 = "r") with ht | ht
    · have hne : s ≠ t := fun heq => hs (heq ▸ ht)
      rcases lt_or_gt_of_ne hne with hlt | hgt
      · simp [hs, ht, hlt, hlt.asymm]
      · simp [hs, ht, hgt, hgt.asymm]
    · simp [hs, ht]

theorem admits_suffixKey_iff {kind : BoundKind} {bound x : ReleaseSuffix} :
    kind.Admits (suffixKey n bound) (suffixKey n x) ↔
      (kind.Admits bound x ↔ ¬ Misjudged bound x) := by
  cases kind with
  | startIncluding =>
    show _ ≤ _ ↔ (bound ≤ x ↔ _)
    rw [← not_lt, suffixKey_lt_iff_misjudged, ← not_lt, misjudged_comm]
    tauto
  | startExcluding => exact suffixKey_lt_iff_misjudged
  | endIncluding =>
    show _ ≤ _ ↔ (x ≤ bound ↔ _)
    rw [← not_lt, suffixKey_lt_iff_misjudged, ← not_lt]
    tauto
  | endExcluding =>
    show _ < _ ↔ (x < bound ↔ _)
    rw [suffixKey_lt_iff_misjudged, misjudged_comm]

theorem compareVersion_suffixed {env : VersionEnv Pep440.Key} (hparse : Implements env.parseVersion)
    (n : Release) (s t : ReleaseSuffix) (compOperator : Pep440.Key → Pep440.Key → Bool) :
    env.compareVersion (suffixed n s) (suffixed n t) compOperator =
      compOperator (suffixKey n s) (suffixKey n t) := by
  rw [VersionEnv.compareVersion, coerceVersion_suffix hparse, coerceVersion_suffix hparse]

theorem suffixed_ne_empty (n : Release) (s : String) : suffixed n s ≠ "" := by
  intro h
  have hnil : (suffixed n s).toList = [] := by rw [h]; rfl
  rw [toList_suffixed, Release.chars] at hnil
  exact n.first.ne_nil (List.append_eq_nil_iff.mp (List.append_eq_nil_iff.mp hnil).1).1

/-- A bound that is given is compared; one that is not given lets everything pass. -/
theorem boundary_iff {env : VersionEnv Pep440.Key} (hparse : Implements env.parseVersion)
    {bound : Option ReleaseSuffix} {x : ReleaseSuffix}
    {compOperator : Pep440.Key → Pep440.Key → Bool} :
    (boundText n bound ≠ "" →
      env.compareVersion (boundText n bound) (suffixed n x) compOperator = true) ↔
    ∀ s, bound = some s → compOperator (suffixKey n s) (suffixKey n x) = true := by
  cases bound with
  | none => simp [boundText]
  | some s =>
    rw [boundText, Option.elim_some, compareVersion_suffixed hparse]
    simp [suffixed_ne_empty]

theorem versionsMatch_suffixed {env : VersionEnv Pep440.Key} (hparse : Implements env.parseVersion)
    {cveEntry : CveDbEntry} {bounds : SuffixBounds} (h : OnlyBounds cveEntry n bounds)
    (x : ReleaseSuffix) : env.versionsMatch (suffixed n x) cveEntry = true ↔
      ∀ kind bound, bounds kind = some bound →
        kind.Admits (suffixKey n bound) (suffixKey n x) := by
  have hversion : ¬ unescape cveEntry.version ∉ ["ANY", "N/A"] := not_not.mpr h.version
  rw [VersionEnv.versionsMatch_iff, and_iff_left fun hno => absurd hno hversion,
    VersionEnv.versionBoundaries, h.startIncluding, h.startExcluding, h.endIncluding,
    h.endExcluding]
  simp only [List.forall_mem_cons, List.not_mem_nil, false_implies, implies_true, and_true,
    boundary_iff hparse, decide_eq_true_iff]
  constructor
  · rintro ⟨hsi, hse, hei, hee⟩ kind bound hbound
    cases kind with
    | startIncluding => exact hsi bound hbound
    | startExcluding => exact hse bound hbound
    | endIncluding => exact hei bound hbound
    | endExcluding => exact hee bound hbound
  · intro hall
    exact ⟨hall .startIncluding, hall .startExcluding, hall .endIncluding, hall .endExcluding⟩

/-- No bound is misjudged, or another one excludes the version anyway, or a start and an end are
misjudged, so that one of them excludes it either way. -/
def JudgedWell (bounds : SuffixBounds) (x : ReleaseSuffix) : Prop :=
  (∀ kind bound, bounds kind = some bound → ¬ Misjudged bound x) ∨
  (∃ kind bound, bounds kind = some bound ∧ ¬ Misjudged bound x ∧ ¬ kind.Admits bound x) ∨
  ((∃ kind bound, kind.IsStart ∧ bounds kind = some bound ∧ Misjudged bound x) ∧
    ∃ kind bound, ¬ kind.IsStart ∧ bounds kind = some bound ∧ Misjudged bound x)

/-- A misjudged start should exclude r only, a misjudged end all but r. -/
theorem admits_iff_of_misjudged {kind : BoundKind} {bound x : ReleaseSuffix}
    (h : Misjudged bound x) : kind.Admits bound x ↔ (kind.IsStart ↔ x.1 ≠ "r") := by
  rcases h with ⟨hbound, hlt⟩ | ⟨hx, hlt⟩
  · have hx : x.1 ≠ "r" := fun hx => hlt.ne (Subtype.ext (hbound.trans hx.symm))
    cases kind with
    | startIncluding => exact iff_of_true hlt.le (iff_of_true trivial hx)
    | startExcluding => exact iff_of_true hlt (iff_of_true trivial hx)
    | endIncluding => exact iff_of_false hlt.not_ge fun h => h.mpr hx
    | endExcluding => exact iff_of_false hlt.asymm fun h => h.mpr hx
  · cases kind with
    | startIncluding => exact iff_of_false hlt.not_ge fun h => h.mp trivial hx
    | startExcluding => exact iff_of_false hlt.asymm fun h => h.mp trivial hx
    | endIncluding => exact iff_of_true hlt.le (iff_of_false id fun h => h hx)
    | endExcluding => exact iff_of_true hlt (iff_of_false id fun h => h hx)

/-- Bounds of which some are misjudged, all as starts or all as ends, while the others let the
version pass: the code and the interval disagree. -/
theorem disagree_of_misjudged {bounds : SuffixBounds} {x : ReleaseSuffix} {kind : BoundKind}
    {bound : ReleaseSuffix} (hbound : bounds kind = some bound) (hmis : Misjudged bound x)
    (hothers : ∀ k b, bounds k = some b → ¬ Misjudged b x → k.Admits b x)
    (hsame : ∀ k b, bounds k = some b → Misjudged b x → (k.IsStart ↔ kind.IsStart)) :
    ¬ ((∀ k b, bounds k = some b → (k.Admits b x ↔ ¬ Misjudged b x)) ↔ InInterval bounds x) := by
  have hadmits : ∀ k b, bounds k = some b → Misjudged b x →
      (k.Admits b x ↔ kind.Admits bound x) := by
    intro k b hb hm
    rw [admits_iff_of_misjudged hm, admits_iff_of_misjudged hmis, hsame k b hb hm]
  intro hagree
  rcases Classical.em (kind.Admits bound x) with hpass | hexcl
  · have hinterval : InInterval bounds x := by
      intro k b hb
      rcases Classical.em (Misjudged b x) with hm | hm
      · exact (hadmits k b hb hm).mpr hpass
      · exact hothers k b hb hm
    exact (hagree.mpr hinterval kind bound hbound).mp hpass hmis
  · refine hexcl (hagree.mp (fun k b hb => ?_) kind bound hbound)
    rcases Classical.em (Misjudged b x) with hm | hm
    · exact iff_of_false (fun h => hexcl ((hadmits k b hb hm).mp h)) (not_not.mpr hm)
    · exact iff_of_true (hothers k b hb hm) hm

/-- The code agrees with the interval exactly if the version is judged well. -/
theorem admits_all_iff {bounds : SuffixBounds} {x : ReleaseSuffix} :
    ((∀ kind bound, bounds kind = some bound →
        kind.Admits (suffixKey n bound) (suffixKey n x)) ↔ InInterval bounds x) ↔
      JudgedWell bounds x := by
  simp only [admits_suffixKey_iff]
  constructor
  · intro hagree
    by_contra hno
    obtain ⟨hsome, hothers, hboth⟩ := not_or.mp hno |>.imp_right not_or.mp
    push Not at hsome hothers
    obtain ⟨kind, bound, hbound, hmis⟩ := hsome
    refine disagree_of_misjudged hbound hmis hothers (fun k b hb hm => ?_) hagree
    by_contra hdiffer
    refine hboth ?_
    rcases Classical.em k.IsStart with hstart | hend
    · exact ⟨⟨k, b, hstart, hb, hm⟩, kind, bound,
        fun h => hdiffer (iff_of_true hstart h), hbound, hmis⟩
    · exact ⟨⟨kind, bound, by tauto, hbound, hmis⟩, k, b, hend, hb, hm⟩
  · rintro (hnone | ⟨kind, bound, hbound, hwell, hexcl⟩ |
      ⟨⟨kind, bound, hstart, hbound, hmis⟩, kind', bound', hend, hbound', hmis'⟩)
    · refine forall₃_congr fun kind bound hbound => ?_
      rw [iff_true_right (hnone kind bound hbound)]
    · exact iff_of_false (fun h => hexcl ((h kind bound hbound).mpr hwell))
        fun h => hexcl (h kind bound hbound)
    · rcases Decidable.em (x.1 = "r") with hx | hx
      · have hexcl : ¬ kind.Admits bound x := by
          rw [admits_iff_of_misjudged hmis]
          exact fun h => h.mp hstart hx
        have hpass : kind'.Admits bound' x :=
          (admits_iff_of_misjudged hmis').mpr (iff_of_false hend fun h => h hx)
        exact iff_of_false (fun h => (h kind' bound' hbound').mp hpass hmis')
          fun h => hexcl (h kind bound hbound)
      · have hpass : kind.Admits bound x :=
          (admits_iff_of_misjudged hmis).mpr (iff_of_true hstart hx)
        have hexcl : ¬ kind'.Admits bound' x := by
          rw [admits_iff_of_misjudged hmis']
          exact fun h => hend (h.mpr hx)
        exact iff_of_false (fun h => (h kind bound hbound).mp hpass hmis)
          fun h => hexcl (h kind' bound' hbound')

/-! ## 4. Right and wrong -/

/-- `coerce_version(n + s) < coerce_version(n + t)`. -/
def CoercedBelow (env : VersionEnv Pep440.Key) (n : Release) (s t : ReleaseSuffix) : Prop :=
  ∃ v w, env.coerceVersion (suffixed n s) = some v ∧ env.coerceVersion (suffixed n t) = some w ∧ v < w

/-- With a parser that follows PEP 440, a suffix comes before a later one if and only if it is not
r, and the bounds of an entry accept and exclude a version of the series rightly if and only if
it is judged well. -/
theorem suffixOrder_iff (env : VersionEnv Pep440.Key) (hparse : Implements env.parseVersion)
    (n : Release) :
    (∀ s t : ReleaseSuffix, s < t → (CoercedBelow env n s t ↔ s.1 ≠ "r")) ∧
    ∀ cveEntry bounds, OnlyBounds cveEntry n bounds → ∀ x : ReleaseSuffix,
      ((env.versionsMatch (suffixed n x) cveEntry = true ↔ InInterval bounds x) ↔
        JudgedWell bounds x) := by
  refine ⟨fun s t hlt => ?_, fun cveEntry bounds hbounds x => ?_⟩
  · unfold CoercedBelow
    rw [coerceVersion_suffix hparse, coerceVersion_suffix hparse]
    have hkeys : suffixKey n s < suffixKey n t ↔ s.1 ≠ "r" := by
      rw [suffixKey_lt_iff, and_iff_left (.inr hlt)]
    rw [← hkeys]
    exact ⟨fun ⟨v, w, hv, hw, h⟩ => by rwa [Option.some.inj hv, Option.some.inj hw],
      fun h => ⟨_, _, rfl, rfl, h⟩⟩
  · rw [versionsMatch_suffixed hparse hbounds]
    exact admits_all_iff

/-- A parser of the kind, and the release 0.9.8. -/
def readEnv : VersionEnv Pep440.Key := ⟨.ascii, Pep440.read⟩

def release098 : Release :=
  ⟨⟨['0'], by decide, by simp⟩, [⟨['9'], by decide, by simp⟩, ⟨['8'], by decide, by simp⟩]⟩

/-- An entry for the versions between 0.9.8f and 0.9.8t. -/
def boundsFT : SuffixBounds
  | .startExcluding => some ⟨"f", by decide⟩
  | .endExcluding => some ⟨"t", by decide⟩
  | _ => none

def entryFT : CveDbEntry := ⟨"CVE-1", "openssl", "openssl", "ANY", "5.0", "N/A", "",
  suffixed release098 "f", "", suffixed release098 "t"⟩

theorem suffixOrder_098 :
    CoercedBelow readEnv release098 ⟨"f", by decide⟩ ⟨"m", by decide⟩ ∧
    (readEnv.versionsMatch (suffixed release098 "m") entryFT = true ↔
      InInterval boundsFT ⟨"m", by decide⟩) := by
  obtain ⟨horder, hbounds⟩ := suffixOrder_iff readEnv Pep440.implements_read release098
  refine ⟨(horder _ _ (by decide)).mpr (by decide), ?_⟩
  refine (hbounds entryFT boundsFT ⟨by decide, rfl, rfl, rfl, rfl⟩ ⟨"m", by decide⟩).mpr (.inl ?_)
  intro kind bound hbound hmis
  rcases hmis with ⟨hr, -⟩ | ⟨hr, -⟩
  · cases kind with
    | startIncluding => cases hbound
    | startExcluding => cases hbound; exact absurd hr (by decide)
    | endIncluding => cases hbound
    | endExcluding => cases hbound; exact absurd hr (by decide)
  · exact absurd hr (by decide)

/-- 0.9.8r is read as a post-release and comes behind 0.9.8s. -/
theorem post_release_suffix :
    ¬ ∀ (env : VersionEnv Pep440.Key), Implements env.parseVersion → ∀ n : Release,
      (∀ s t : ReleaseSuffix, s < t → CoercedBelow env n s t) ∧
      ∀ cveEntry bounds, OnlyBounds cveEntry n bounds → ∀ x : ReleaseSuffix,
        (env.versionsMatch (suffixed n x) cveEntry = true ↔ InInterval bounds x) := by
  intro h
  have hbelow := (h readEnv Pep440.implements_read release098).1 ⟨"r", by decide⟩ ⟨"s", by decide⟩
    (by decide)
  obtain ⟨v, w, hv, hw, hlt⟩ := hbelow
  rw [coerceVersion_suffix Pep440.implements_read] at hv hw
  rw [← Option.some.inj hv, ← Option.some.inj hw, suffixKey_lt_iff] at hlt
  exact hlt.1 rfl

end FactCore
