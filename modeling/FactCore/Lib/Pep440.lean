import FactCore.Lib.Separator
import Mathlib.Data.List.DropRight
import Mathlib.Data.List.Lex
import Mathlib.Data.Prod.Lex
import Mathlib.Data.String.Basic
import Mathlib.Order.WithBot

/-!
# PEP 440 versions

The order of PEP 440 versions, and what a parser does with a release that has nothing but
letters or a local version behind it. Before a release come its pre-releases, behind it its
local versions, and behind these its post-releases.
-/

namespace Pep440

/-- The kinds of pre-releases. -/
inductive PreLabel where
  | a
  | b
  | rc
  deriving DecidableEq, Repr

def PreLabel.rank : PreLabel → ℕ
  | a => 0
  | b => 1
  | rc => 2

/-- A segment of a local version. -/
inductive LocalPart where
  | number (n : ℕ)
  | text (s : String)
  deriving DecidableEq

/-- A version that is read. A version without a local part has no local segments. -/
structure Version where
  epoch : ℕ
  release : List ℕ
  pre : Option (PreLabel × ℕ)
  post : Option ℕ
  dev : Option ℕ
  localParts : List LocalPart

/-- Versions compare by epoch, release, pre-release, post-release, development release and local
version. -/
abbrev Key := ℕ ×ₗ List ℕ ×ₗ WithBot (WithTop (ℕ ×ₗ ℕ)) ×ₗ WithBot ℕ ×ₗ WithTop ℕ ×ₗ
  WithBot (List (WithBot ℕ ×ₗ String))

namespace Version

/-- A development release alone comes before the pre-releases, a release behind them. -/
def preKey (v : Version) : WithBot (WithTop (ℕ ×ₗ ℕ)) :=
  match v.pre, v.post, v.dev with
  | some (label, n), _, _ => ((toLex (label.rank, n) : ℕ ×ₗ ℕ) : WithTop (ℕ ×ₗ ℕ))
  | none, none, some _ => ⊥
  | none, _, _ => (⊤ : WithTop (ℕ ×ₗ ℕ))

def localKey (v : Version) : WithBot (List (WithBot ℕ ×ₗ String)) :=
  if v.localParts = [] then ⊥
  else (v.localParts.map fun part => match part with
    | .number n => toLex (WithBot.some n, "")
    | .text s => toLex (⊥, s) : List (WithBot ℕ ×ₗ String))

/-- Zeros at the end of a release do not count. -/
def key (v : Version) : Key :=
  toLex (v.epoch, toLex (v.release.rdropWhile (fun n => n = 0), toLex (v.preKey,
    toLex (v.post.elim ⊥ WithBot.some, toLex (v.dev.elim ⊤ WithTop.some, v.localKey)))))

/-! ## The versions of one release -/

variable {release : List ℕ} {l l' : PreLabel} {n : ℕ} {s t : String}

def preRelease (release : List ℕ) (l : PreLabel) : Version := ⟨0, release, some (l, 0), none, none, []⟩

def postRelease (release : List ℕ) : Version := ⟨0, release, none, some 0, none, []⟩

def localVersion (release : List ℕ) (s : String) : Version := ⟨0, release, none, none, none, [.text s]⟩

theorem preRelease_lt_preRelease :
    (preRelease release l).key < (preRelease release l').key ↔ l.rank < l'.rank := by
  simp [key, preRelease, preKey, localKey, Prod.Lex.toLex_lt_toLex]

/-- Within a release the pre-release part decides first. -/
theorem key_lt_of_preKey_lt {v w : Version} (hepoch : v.epoch = w.epoch)
    (hrelease : v.release = w.release) (hpre : v.preKey < w.preKey) : v.key < w.key := by
  unfold key
  rw [hepoch, hrelease]
  refine Prod.Lex.toLex_lt_toLex.mpr (.inr ⟨rfl, ?_⟩)
  refine Prod.Lex.toLex_lt_toLex.mpr (.inr ⟨rfl, ?_⟩)
  exact Prod.Lex.toLex_lt_toLex.mpr (.inl hpre)

theorem preKey_preRelease_lt :
    (preRelease release l).preKey < ((⊤ : WithTop (ℕ ×ₗ ℕ)) : WithBot (WithTop (ℕ ×ₗ ℕ))) :=
  WithBot.coe_lt_coe.mpr (WithTop.coe_lt_top _)

theorem preRelease_lt_localVersion : (preRelease release l).key < (localVersion release s).key :=
  key_lt_of_preKey_lt rfl rfl preKey_preRelease_lt

theorem preRelease_lt_postRelease : (preRelease release l).key < (postRelease release).key :=
  key_lt_of_preKey_lt rfl rfl preKey_preRelease_lt

theorem localVersion_lt_postRelease : (localVersion release s).key < (postRelease release).key := by
  simp [key, localVersion, postRelease, preKey, Prod.Lex.toLex_lt_toLex]

theorem localVersion_lt_localVersion :
    (localVersion release s).key < (localVersion release t).key ↔ s < t := by
  have hlist : ([toLex (⊥, s)] : List (WithBot ℕ ×ₗ String)) < [toLex (⊥, t)] ↔ s < t := by
    rw [List.cons_lt_cons_iff, Prod.Lex.toLex_lt_toLex]
    simp only [lt_self_iff_false, false_or, true_and, and_false, or_false]
  rw [← hlist]
  simp only [key, localVersion, preKey, localKey, Prod.Lex.toLex_lt_toLex, lt_self_iff_false,
    false_or, true_and]
  exact WithBot.coe_lt_coe

end Version

/-! ## The texts of a release -/

/-- A number as it is written. -/
structure Numeral where
  digits : List Char
  ne_nil : digits ≠ []
  isDigit : ∀ c ∈ digits, c.isDigit = true

/-- A dotted number. -/
structure Release where
  first : Numeral
  rest : List Numeral

namespace Release

/-- The parts behind the first one, each with its dot. -/
def dotted (parts : List Numeral) : List Char := parts.flatMap fun part => '.' :: part.digits

theorem dotted_cons (part : Numeral) (parts : List Numeral) :
    dotted (part :: parts) = '.' :: (part.digits ++ dotted parts) := by
  rw [dotted, List.flatMap_cons, List.cons_append]
  rfl

def chars (release : Release) : List Char := release.first.digits ++ dotted release.rest

def text (release : Release) : String := String.ofList release.chars

/-- The numbers between the dots. -/
def numbersOf (chars : List Char) : List ℕ :=
  (chars.splitOn '.').map fun digits => Nat.ofDigitChars 10 digits 0

def numbers (release : Release) : List ℕ := numbersOf release.chars

theorem chars_spec (release : Release) {c : Char} (h : c ∈ release.chars) :
    c.isDigit = true ∨ c = '.' := by
  rcases List.mem_append.mp h with hfirst | hrest
  · exact .inl (release.first.isDigit c hfirst)
  · obtain ⟨part, -, hc⟩ := List.mem_flatMap.mp hrest
    rcases List.mem_cons.mp hc with rfl | hc
    · exact .inr rfl
    · exact .inl (part.isDigit c hc)

end Release

/-- The labels of pre-releases. -/
def preLabels : List (String × PreLabel) := [("a", .a), ("b", .b), ("c", .rc), ("rc", .rc),
  ("alpha", .a), ("beta", .b), ("pre", .rc), ("preview", .rc)]

/-- The labels of post-releases. -/
def postLabels : List String := ["post", "rev", "r"]

/-- What may stand behind a release, if it is made of letters only. -/
def letterSuffixes : List String :=
  ("" :: preLabels.map Prod.fst).flatMap fun pre => ("" :: postLabels).flatMap fun post =>
    [pre ++ post, pre ++ post ++ "dev"]

/-- The parser follows PEP 440 where a release has a label, or a local version, or other letters
behind it. -/
structure Implements (parse : String → Option Key) : Prop where
  pre : ∀ (release : Release), ∀ label ∈ preLabels,
    parse (release.text ++ label.1) = some (Version.preRelease release.numbers label.2).key
  post : ∀ (release : Release), ∀ label ∈ postLabels,
    parse (release.text ++ label) = some (Version.postRelease release.numbers).key
  localPart : ∀ (release : Release) (part : String), part ≠ "" →
    (∀ c ∈ part.toList, c.isLower = true) →
      parse (release.text ++ "+" ++ part) = some (Version.localVersion release.numbers part).key
  invalid : ∀ (release : Release) (letters : String), (∀ c ∈ letters.toList, c.isLower = true) →
    letters ∉ letterSuffixes → parse (release.text ++ letters) = none

/-! ## A reader of such texts -/

/-- Reads a local version of one segment of letters. -/
def readLocal (release : List ℕ) : List Char → Option Version
  | '+' :: part =>
    if part ≠ [] ∧ part.all Char.isLower then some (.localVersion release (String.ofList part))
    else none
  | _ => none

/-- Reads what stands behind a release: one label, or a local version. -/
def readSuffix (release : List ℕ) (suffix : String) : Option Version :=
  match preLabels.lookup suffix with
  | some label => some (.preRelease release label)
  | none =>
    if suffix ∈ postLabels then some (.postRelease release) else readLocal release suffix.toList

/-- Reads a release and what stands behind it. -/
def read (s : String) : Option Key :=
  let inRelease := fun c : Char => c.isDigit || decide (c = '.')
  (readSuffix (Release.numbersOf (s.toList.takeWhile inRelease))
    (String.ofList (s.toList.dropWhile inRelease))).map Version.key

theorem toNat_of_isLower {c : Char} (h : c.isLower = true) : 97 ≤ c.toNat ∧ c.toNat ≤ 122 := by
  obtain ⟨hfrom, hto⟩ := Bool.and_eq_true_iff.mp h
  exact ⟨of_decide_eq_true hfrom, of_decide_eq_true hto⟩

/-- A character that ends a release. -/
def EndsRelease (c : Char) : Prop := c.isDigit = false ∧ c ≠ '.'

instance (c : Char) : Decidable (EndsRelease c) := inferInstanceAs (Decidable (_ ∧ _))

theorem endsRelease_of_isLower {c : Char} (h : c.isLower = true) : EndsRelease c := by
  have hc := toNat_of_isLower h
  constructor
  · refine Bool.eq_false_iff.mpr fun hdigit => ?_
    simp only [Char.isDigit, Bool.and_eq_true, decide_eq_true_iff] at hdigit
    have hle : c.toNat ≤ 57 := hdigit.2
    omega
  · rintro rfl
    exact absurd h (by decide)

theorem read_append (release : Release) {suffix : String}
    (h : ∀ c ∈ suffix.toList.head?, EndsRelease c) :
    read (release.text ++ suffix) = (readSuffix release.numbers suffix).map Version.key := by
  have hall : ∀ d ∈ release.chars, (d.isDigit || decide (d = '.')) = true := by
    intro d hd
    rcases release.chars_spec hd with h | rfl
    · rw [h, Bool.true_or]
    · rfl
  have hstop : ∀ d ∈ suffix.toList.head?, ¬ (d.isDigit || decide (d = '.')) = true := by
    intro d hd
    rw [(h d hd).1, decide_eq_false (h d hd).2]
    exact Bool.false_ne_true
  have htake : suffix.toList.takeWhile (fun d => d.isDigit || decide (d = '.')) = [] := by
    cases hchars : suffix.toList with
    | nil => rfl
    | cons d rest => exact List.takeWhile_cons_of_neg (hstop d (by rw [hchars]; rfl))
  have hdrop : suffix.toList.dropWhile (fun d => d.isDigit || decide (d = '.')) =
      suffix.toList := by
    cases hchars : suffix.toList with
    | nil => rfl
    | cons d rest => exact List.dropWhile_cons_of_neg (hstop d (by rw [hchars]; rfl))
  unfold read
  rw [Release.text, String.toList_append, String.toList_ofList]
  dsimp only
  rw [List.takeWhile_append_of_pos hall, htake, List.dropWhile_append_of_pos hall, hdrop,
    List.append_nil, String.ofList_toList]
  rfl

theorem lookup_preLabels_eq_none {s : String} (h : s ∉ preLabels.map Prod.fst) :
    preLabels.lookup s = none := by
  refine List.lookup_eq_none_iff.mpr fun label hlabel => ?_
  refine bne_iff_ne.mpr fun heq => h ?_
  exact heq ▸ List.mem_map_of_mem hlabel

theorem readSuffix_of_not_label {release : List ℕ} {suffix : String}
    (hpre : suffix ∉ preLabels.map Prod.fst) (hpost : suffix ∉ postLabels) :
    readSuffix release suffix = readLocal release suffix.toList := by
  rw [readSuffix, lookup_preLabels_eq_none hpre]
  exact if_neg hpost

theorem implements_read : Implements read where
  pre release label hlabel := by
    have hlabels : ∀ label ∈ preLabels,
        label.1.toList.head?.all (fun c => decide (EndsRelease c)) = true ∧
        preLabels.lookup label.1 = some label.2 := by decide
    obtain ⟨hhead, hlookup⟩ := hlabels label hlabel
    rw [read_append release fun c hc => of_decide_eq_true ((Option.all_eq_true _ _).mp hhead c hc),
      readSuffix, hlookup]
    rfl
  post release label hlabel := by
    have hlabels : ∀ label ∈ postLabels,
        label.toList.head?.all (fun c => decide (EndsRelease c)) = true ∧
        preLabels.lookup label = none := by decide
    obtain ⟨hhead, hlookup⟩ := hlabels label hlabel
    rw [read_append release fun c hc => of_decide_eq_true ((Option.all_eq_true _ _).mp hhead c hc),
      readSuffix, hlookup]
    dsimp only
    rw [if_pos hlabel]
    rfl
  localPart release part hne hlower := by
    have hchars : ("+" ++ part).toList = '+' :: part.toList := by simp
    have hhead : ∀ c ∈ ("+" ++ part).toList.head?, EndsRelease c := by
      rw [hchars]
      intro c hc
      rw [← Option.some.inj hc]
      decide
    -- no label starts with a plus
    have hlabel : ∀ labels : List String, (∀ label ∈ labels, label.toList.head? ≠ some '+') →
        "+" ++ part ∉ labels := by
      intro labels hlabels hmem
      exact hlabels _ hmem (by rw [hchars]; rfl)
    have hpart : part.toList ≠ [] ∧ part.toList.all Char.isLower = true :=
      ⟨fun hnil => hne (String.toList_eq_nil_iff.mp hnil), List.all_eq_true.mpr hlower⟩
    rw [String.append_assoc, read_append release hhead,
      readSuffix_of_not_label (hlabel _ (by decide)) (hlabel _ (by decide)), hchars, readLocal,
      if_pos hpart, String.ofList_toList]
    rfl
  invalid release letters hlower hno := by
    have hhead : ∀ c ∈ letters.toList.head?, EndsRelease c := fun c hc =>
      endsRelease_of_isLower (hlower c (List.mem_of_mem_head? hc))
    have hpre : letters ∉ preLabels.map Prod.fst := fun hmem =>
      hno ((by decide : ∀ s ∈ preLabels.map Prod.fst, s ∈ letterSuffixes) letters hmem)
    have hpost : letters ∉ postLabels := fun hmem =>
      hno ((by decide : ∀ s ∈ postLabels, s ∈ letterSuffixes) letters hmem)
    rw [read_append release hhead, readSuffix_of_not_label hpre hpost]
    unfold readLocal
    split
    · next part hchars =>
      have hplus : ('+').isLower = true := hlower '+' (hchars ▸ List.mem_cons_self)
      exact absurd hplus (by decide)
    · rfl

end Pep440
