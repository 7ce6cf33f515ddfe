import FactCore.Lib.Regex
import Mathlib.Algebra.Ring.Nat

/-!
# Reading regular expressions

How Python's `re` reads a regular expression: the text becomes tokens, a backslash taking the next
character with it; the tokens become lexemes, some of which take several tokens (sets, numbers,
codes of characters); and the lexemes become a regular expression, with a stack for open groups.
`none` is an error. Left out are the extensions that begin with `(?`, names of characters, and lazy
and possessive repetitions; they are errors here.

Results:
1. `lexemes_cons`: the first lexeme, and what is left.
2. `parse_sets`: a text without operators is the sequence of its sets.
3. `parse_atMost`: how many characters of some kind a match can have, from the lexemes.
4. `escape_spec`, `bracket_spec`, `bound_spec`: the tokens that belong to a lexeme.
-/

/-- A character of a regular expression, after a backslash (`esc`) or not. -/
inductive RegexToken
  | raw (c : Char)
  | esc (c : Char)
  deriving DecidableEq

/-- The parts of a regular expression. -/
inductive Lexeme
  | atom (a : RegexAtom)
  | repeated (min : ℕ) (max : Option ℕ)
  | opening
  | closing
  | alternative

/-- The characters that `\d`, `\s` and `\w` stand for. -/
structure CharacterClasses where
  digit : Char → Bool
  space : Char → Bool
  word : Char → Bool

/-- The classes under `re.ASCII`. -/
def CharacterClasses.ascii : CharacterClasses where
  digit := Char.isDigit
  space c := c == ' ' || (9 ≤ c.toNat && c.toNat ≤ 13)
  word c := c.isAlphanum || c == '_'

namespace PyRegex

/-! ## 1. Tokens and escapes -/

/-- The tokens of a text. A backslash at the end is an error. -/
def regexTokens : List Char → Option (List RegexToken)
  | [] => some []
  | c :: cs =>
    if c = '\\' then
      match cs with
      | [] => none
      | d :: ds => (regexTokens ds).map (.esc d :: ·)
    else (regexTokens cs).map (.raw c :: ·)

theorem regexTokens_backslash (d : Char) (ds : List Char) :
    regexTokens ('\\' :: d :: ds) = (regexTokens ds).map (.esc d :: ·) := by
  rw [regexTokens.eq_def]
  exact if_pos rfl

theorem regexTokens_cons {c : Char} (hc : c ≠ '\\') (cs : List Char) :
    regexTokens (c :: cs) = (regexTokens cs).map (.raw c :: ·) := by
  rw [regexTokens.eq_def]
  exact if_neg hc

/-- The first characters without a backslash that have a property, at most `n` of them. -/
def rawPrefix (p : Char → Bool) : ℕ → List RegexToken → List Char
  | n + 1, .raw c :: rest => if p c then c :: rawPrefix p n rest else []
  | _, _ => []

def isOctDigit (c : Char) : Bool := '0' ≤ c && c ≤ '7'

def isHexDigit (c : Char) : Bool :=
  c.isDigit || ('a' ≤ c && c ≤ 'f') || ('A' ≤ c && c ≤ 'F')

/-- The value of a digit. -/
def digitValue (c : Char) : ℕ :=
  if c.isDigit then c.toNat - 48 else if 'a' ≤ c then c.toNat - 87 else c.toNat - 55

def number (base : ℕ) (digits : List Char) : ℕ :=
  digits.foldl (fun value c => base * value + digitValue c) 0

/-- The character with a code. -/
def charSet (code : ℕ) : Char → Bool := fun c => c.toNat == code

/-- `\xhh`, `\uhhhh` and `\Uhhhhhhhh`: the code and the number of tokens after the letter. -/
def hexCode (n : ℕ) (rest : List RegexToken) : Option (ℕ × ℕ) :=
  let digits := rawPrefix isHexDigit n rest
  let code := number 16 digits
  if digits.length = n ∧ code ≤ 0x10FFFF then some (code, n) else none

/-- The characters for which a letter stands after a backslash. -/
def letterCodes : List (Char × ℕ) :=
  [('a', 7), ('f', 12), ('n', 10), ('r', 13), ('t', 9), ('v', 11)]

/-- `\d` and the like. -/
def category (classes : CharacterClasses) (c : Char) : Option (Char → Bool) :=
  if c = 'd' then some classes.digit
  else if c = 'D' then some fun d => !classes.digit d
  else if c = 's' then some classes.space
  else if c = 'S' then some fun d => !classes.space d
  else if c = 'w' then some classes.word
  else if c = 'W' then some fun d => !classes.word d
  else none

/-- Is there a word on one side only? -/
def atWordBoundary (classes : CharacterClasses) (before after : List Char) : Bool :=
  before.getLast?.any classes.word != after.head?.any classes.word

/-- The assertions with a letter. -/
def letterAssertion (classes : CharacterClasses) (c : Char) :
    Option (List Char → List Char → Bool) :=
  if c = 'A' then some fun before _ => before.isEmpty
  else if c = 'Z' then some fun _ after => after.isEmpty
  else if c = 'b' then some (atWordBoundary classes)
  else if c = 'B' then some fun before after => !atWordBoundary classes before after
  else none

/-- A digit after a backslash: three octal digits are the code of a character, otherwise it is the
number of a group, with one or two digits. -/
def digitEscape (groups : ℕ) (c : Char) (rest : List RegexToken) : Option (RegexAtom × ℕ) :=
  if c = '0' then
    let digits := rawPrefix isOctDigit 2 rest
    some (.set (charSet (number 8 digits)), digits.length)
  else
    let digits := rawPrefix isOctDigit 2 rest
    if isOctDigit c ∧ digits.length = 2 then
      let code := number 8 (c :: digits)
      if code ≤ 255 then some (.set (charSet code), 2) else none
    else
      let digits := rawPrefix Char.isDigit 1 rest
      let group := number 10 (c :: digits)
      if group ≤ groups then some (.backreference group, digits.length) else none

/-- `_escape`: what a character stands for after a backslash, and the number of tokens after it
that belong to it. -/
def escape (classes : CharacterClasses) (groups : ℕ) (c : Char) (rest : List RegexToken) :
    Option (RegexAtom × ℕ) :=
  match letterAssertion classes c, category classes c, letterCodes.lookup c with
  | some holds, _, _ => some (.assertion holds, 0)
  | none, some accepts, _ => some (.set accepts, 0)
  | none, none, some code => some (.set (charSet code), 0)
  | none, none, none =>
    if c = 'x' then (hexCode 2 rest).map fun (code, n) => (.set (charSet code), n)
    else if c = 'u' then (hexCode 4 rest).map fun (code, n) => (.set (charSet code), n)
    else if c = 'U' then (hexCode 8 rest).map fun (code, n) => (.set (charSet code), n)
    else if c.isDigit then digitEscape groups c rest
    else if c.isAlpha then none
    else some (.set (· == c), 0)

/-! ## 2. Sets -/

/-- A member of a set: a character or a category. -/
inductive SetMember
  | code (code : ℕ)
  | category (accepts : Char → Bool)

def SetMember.accepts : SetMember → Char → Bool
  | code n => charSet n
  | category accepts => accepts

/-- `_class_escape` and single characters. -/
def setMember (classes : CharacterClasses) : RegexToken → List RegexToken →
    Option (SetMember × ℕ)
  | .raw c, _ => some (.code c.toNat, 0)
  | .esc c, rest =>
    match letterCodes.lookup c, category classes c with
    | some code, _ => some (.code code, 0)
    | none, some accepts => some (.category accepts, 0)
    | none, none =>
      if c = 'b' then some (.code 8, 0)
      else if c = 'x' then (hexCode 2 rest).map fun (code, n) => (.code code, n)
      else if c = 'u' then (hexCode 4 rest).map fun (code, n) => (.code code, n)
      else if c = 'U' then (hexCode 8 rest).map fun (code, n) => (.code code, n)
      else if isOctDigit c then
        let digits := rawPrefix isOctDigit 2 rest
        let code := number 8 (c :: digits)
        if code ≤ 255 then some (.code code, digits.length) else none
      else if c.isAlphanum then none
      else some (.code c.toNat, 0)

/-- The members of a set up to the bracket that closes it, and the number of tokens. The first
bracket does not close it. Tokens that belong to the member before are skipped. -/
def readSet (classes : CharacterClasses) : ℕ → Bool → List RegexToken →
    Option ((Char → Bool) × ℕ)
  | _, _, [] => none
  | skip + 1, first, _ :: rest =>
    (readSet classes skip first rest).map fun (accepts, n) => (accepts, n + 1)
  | 0, first, t :: rest =>
    if t = .raw ']' ∧ first = false then some (fun _ => false, 1)
    else
      match setMember classes t rest with
      | none => none
      | some (member, n) =>
        if (rest.drop n).head? ≠ some (.raw '-') then
          (readSet classes n false rest).map fun (accepts, k) =>
            (fun c => member.accepts c || accepts c, k + 1)
        else
          match rest.drop (n + 1) with
          | [] => none
          | t' :: rest' =>
            if t' = .raw ']' then
              (readSet classes (n + 1) false rest).map fun (accepts, k) =>
                (fun c => member.accepts c || c == '-' || accepts c, k + 1)
            else
              match member, setMember classes t' rest' with
              | .code low, some (.code high, n') =>
                if low ≤ high then
                  (readSet classes (n + 2 + n') false rest).map fun (accepts, k) =>
                    (fun c => (low ≤ c.toNat && c.toNat ≤ high) || accepts c, k + 1)
                else none
              | _, _ => none

/-- The set after an opening bracket. -/
def bracket (classes : CharacterClasses) (rest : List RegexToken) :
    Option ((Char → Bool) × ℕ) :=
  match rest with
  | .raw '^' :: rest' =>
    (readSet classes 0 true rest').map fun (accepts, n) => (fun c => !accepts c, n + 1)
  | _ => readSet classes 0 true rest

/-! ## 3. Lexemes -/

/-- `{m}`, `{m,}`, `{,n}` and `{m,n}`, from the text after the brace. Other braces are text. -/
def bound (rest : List RegexToken) : Option (ℕ × Option ℕ × ℕ) :=
  let low := rawPrefix Char.isDigit rest.length rest
  match rest.drop low.length with
  | .raw '}' :: _ =>
    if low = [] then none else some (number 10 low, some (number 10 low), low.length + 1)
  | .raw ',' :: rest' =>
    let high := rawPrefix Char.isDigit rest'.length rest'
    match rest'.drop high.length with
    | .raw '}' :: _ =>
      some (number 10 low, if high = [] then none else some (number 10 high),
        low.length + high.length + 2)
    | _ => none
  | _ => none

/-- The lexeme that begins with a token, and the number of further tokens. -/
def lexemeAt (classes : CharacterClasses) (groups : ℕ) : RegexToken → List RegexToken →
    Option (Lexeme × ℕ)
  | .esc c, rest => (escape classes groups c rest).map fun (a, n) => (.atom a, n)
  | .raw c, rest =>
    if c = '(' then if rest.head? = some (.raw '?') then none else some (.opening, 0)
    else if c = ')' then some (.closing, 0)
    else if c = '|' then some (.alternative, 0)
    else if c = '*' then some (.repeated 0 none, 0)
    else if c = '+' then some (.repeated 1 none, 0)
    else if c = '?' then some (.repeated 0 (some 1), 0)
    else if c = '[' then (bracket classes rest).map fun (accepts, n) => (.atom (.set accepts), n)
    else if c = '.' then some (.atom (.set (· != '\n')), 0)
    else if c = '^' then some (.atom (.assertion fun before _ => before.isEmpty), 0)
    else if c = '$' then
      some (.atom (.assertion fun _ after => after.isEmpty || after == ['\n']), 0)
    else if c = '{' then
      match bound rest with
      | some (min, max, n) => some (.repeated min max, n)
      | none => some (.atom (.set (· == c)), 0)
    else some (.atom (.set (· == c)), 0)

/-- The lexemes of a text, with the number of groups before. -/
def lexemes (classes : CharacterClasses) : ℕ → ℕ → List RegexToken → Option (List Lexeme)
  | _, _, [] => some []
  | skip + 1, groups, _ :: rest => lexemes classes skip groups rest
  | 0, groups, t :: rest =>
    match lexemeAt classes groups t rest with
    | none => none
    | some (.opening, n) => (lexemes classes n (groups + 1) rest).map (.opening :: ·)
    | some (l, n) => (lexemes classes n groups rest).map (l :: ·)

/-! ## 4. Groups and alternatives -/

/-- A group that is not closed yet: its number, the alternatives before the current one, and what
the current one consists of, the last item first. -/
structure Level where
  number : ℕ
  alternatives : Option Regex
  items : List Regex

/-- The regular expression of a group. -/
def Level.close (level : Level) : Regex :=
  match level.alternatives with
  | none => Regex.seqOf level.items
  | some r => .alt r (Regex.seqOf level.items)

def Level.add (level : Level) (r : Regex) : Level := { level with items := r :: level.items }

/-- Assertions and repetitions cannot be repeated. -/
def repeatable : Regex → Bool
  | .atom (.assertion _) => false
  | .repeated _ _ _ => false
  | _ => true

/-- The regular expression of lexemes; the open groups, the innermost one first, are on a stack. -/
def parse : ℕ → List Level → Level → List Lexeme → Option Regex
  | _, [], level, [] => some level.close
  | _, _ :: _, _, [] => none
  | groups, outer, level, .atom a :: rest =>
    match a with
    | .backreference n =>
      -- a group that is still open
      if (level :: outer).any fun l => l.number == n then none
      else parse groups outer (level.add (.atom a)) rest
    | _ => parse groups outer (level.add (.atom a)) rest
  | groups, outer, level, .repeated min max :: rest =>
    match level.items with
    | [] => none
    | item :: items =>
      if repeatable item ∧ ∀ n ∈ max, min ≤ n then
        parse groups outer { level with items := .repeated min max item :: items } rest
      else none
  | groups, outer, level, .opening :: rest =>
    parse (groups + 1) (level :: outer) ⟨groups + 1, none, []⟩ rest
  | _, [], _, .closing :: _ => none
  | groups, above :: outer, level, .closing :: rest =>
    parse groups outer (above.add (.group level.number level.close)) rest
  | groups, outer, level, .alternative :: rest =>
    parse groups outer { level with alternatives := some level.close, items := [] } rest

/-- `re.compile`. -/
def compile (classes : CharacterClasses) (text : List Char) : Option Regex := do
  let tokens ← regexTokens text
  let lexemes ← lexemes classes 0 0 tokens
  parse 0 [] ⟨0, none, []⟩ lexemes

/-! ## 5. The sequence of lexemes -/

theorem lexemes_skip (classes : CharacterClasses) (skip groups : ℕ) (tokens : List RegexToken) :
    lexemes classes skip groups tokens = lexemes classes 0 groups (tokens.drop skip) := by
  induction skip generalizing tokens with
  | zero => rfl
  | succ skip ih =>
    cases tokens with
    | nil => simp [lexemes]
    | cons t rest =>
      rw [lexemes, List.drop_succ_cons]
      exact ih rest

/-- The number of groups that a lexeme opens. -/
def opened : Lexeme → ℕ
  | .opening => 1
  | _ => 0

theorem lexemes_cons {classes : CharacterClasses} {groups : ℕ} {t : RegexToken}
    {rest : List RegexToken} {ls : List Lexeme} :
    lexemes classes 0 groups (t :: rest) = some ls ↔
      ∃ l n ls', lexemeAt classes groups t rest = some (l, n) ∧
        lexemes classes 0 (groups + opened l) (rest.drop n) = some ls' ∧ ls = l :: ls' := by
  rw [lexemes]
  cases hl : lexemeAt classes groups t rest with
  | none => simp
  | some entry =>
    obtain ⟨l, n⟩ := entry
    constructor
    · intro h
      cases l <;>
      · obtain ⟨ls', hls', rfl⟩ := Option.map_eq_some_iff.mp h
        exact ⟨_, n, ls', rfl, (lexemes_skip ..).symm.trans hls', rfl⟩
    · rintro ⟨l', n', ls', hl', hls', rfl⟩
      cases hl'
      rw [← lexemes_skip] at hls'
      cases l <;> exact Option.map_eq_some_iff.mpr ⟨ls', hls', rfl⟩

/-- Sets alone are put one after the other. -/
theorem parse_sets (groups : ℕ) (level : Level) (sets : List (Char → Bool)) :
    parse groups [] level (sets.map fun accepts => .atom (.set accepts)) =
      some (Level.close { level with
        items := (sets.map fun accepts => .atom (.set accepts)).reverse ++ level.items }) := by
  induction sets generalizing level with
  | nil => rfl
  | cons accepts sets ih =>
    have h := ih (level.add (.atom (.set accepts)))
    simp only [Level.add] at h
    simp only [List.map_cons, List.reverse_cons, List.append_assoc, parse, Level.add,
      List.singleton_append, h]

/-! ## 6. The number of characters -/

/-- How many characters of a kind the atoms of lexemes have together. Only atoms without such
characters are repeated. -/
inductive Bounded (p : Char → Bool) : List Lexeme → ℕ → Prop
  | nil : Bounded p [] 0
  | atom {a : RegexAtom} {ls : List Lexeme} {k k' : ℕ} : (Regex.atom a).AtMost p k →
      Bounded p ls k' → Bounded p (.atom a :: ls) (k + k')
  | repeated {a : RegexAtom} {min : ℕ} {max : Option ℕ} {ls : List Lexeme} {k : ℕ} :
      (Regex.atom a).AtMost p 0 → Bounded p ls k →
      Bounded p (.atom a :: .repeated min max :: ls) k
  | opening {ls : List Lexeme} {k : ℕ} : Bounded p ls k → Bounded p (.opening :: ls) k
  | closing {ls : List Lexeme} {k : ℕ} : Bounded p ls k → Bounded p (.closing :: ls) k
  | alternative {ls : List Lexeme} {k : ℕ} : Bounded p ls k → Bounded p (.alternative :: ls) k

/-- Each alternative of a level has at most so many characters of a kind. -/
def Level.AtMost (p : Char → Bool) (k : ℕ) (level : Level) : Prop :=
  (∀ r ∈ level.alternatives, r.AtMost p k) ∧ (Regex.seqOf level.items).AtMost p k

section Bounds
variable {p : Char → Bool} {k k' : ℕ} {level : Level}

theorem Level.AtMost.close (h : level.AtMost p k) : level.close.AtMost p k := by
  unfold Level.close
  split
  · exact h.2
  · next r hr => exact (h.1 r hr).alt h.2

theorem Level.AtMost.add {r : Regex} (h : level.AtMost p k) (hr : r.AtMost p k') :
    (level.add r).AtMost p (k + k') :=
  ⟨fun r' hr' => (h.1 r' hr').mono (Nat.le_add_right k k'), h.2.seq hr⟩

theorem Level.AtMost.alternative (h : level.AtMost p k) :
    Level.AtMost p k { level with alternatives := some level.close, items := [] } := by
  constructor
  · intro r hr
    cases hr
    exact h.close
  · exact Regex.atMost_empty.mono (Nat.zero_le k)

theorem Level.atMost_zero (number : ℕ) : Level.AtMost p 0 ⟨number, none, []⟩ :=
  ⟨nofun, Regex.atMost_empty⟩

end Bounds

/-- An atom is added to the innermost level. -/
theorem parse_atom {groups : ℕ} {outer : List Level} {level : Level} {a : RegexAtom}
    {ls : List Lexeme} {r : Regex} (h : parse groups outer level (.atom a :: ls) = some r) :
    parse groups outer (level.add (.atom a)) ls = some r := by
  cases a with
  | backreference n =>
    simp only [parse] at h
    split at h
    · cases h
    · exact h
  | set accepts => simpa only [parse] using h
  | assertion holds => simpa only [parse] using h

/-- A match has at most as many characters of a kind as the open levels and the lexemes. -/
theorem parse_atMost {p : Char → Bool} {groups : ℕ} {outer : List Level} {level : Level}
    {ls : List Lexeme} {r : Regex} {k kl : ℕ} {ks : List ℕ} (hls : Bounded p ls kl)
    (hlevel : level.AtMost p k) (houter : List.Forall₂ (fun l k => l.AtMost p k) outer ks)
    (h : parse groups outer level ls = some r) : r.AtMost p (k + ks.sum + kl) := by
  induction hls generalizing groups outer level k ks with
  | nil =>
    cases houter with
    | nil =>
      cases h
      exact hlevel.close
    | cons _ _ => cases h
  | @atom a ls ka kl ha _ ih =>
    have hk : k + ks.sum + (ka + kl) = k + ka + ks.sum + kl := by ac_rfl
    rw [hk]
    exact ih (hlevel.add ha) houter (parse_atom h)
  | @repeated a min max ls kl ha _ ih =>
    have h := parse_atom h
    simp only [parse, Level.add] at h
    split at h
    · exact ih (hlevel.add (ha.repeated min max)) houter h
    · cases h
  | opening _ ih =>
    simp only [parse] at h
    have hr := ih (Level.atMost_zero (groups + 1)) (.cons hlevel houter) h
    rwa [List.sum_cons, Nat.zero_add] at hr
  | @closing ls kl _ ih =>
    cases houter with
    | nil => cases h
    | @cons above ka outer ks habove houter =>
      have hr := ih (habove.add (hlevel.close.group level.number)) houter h
      rwa [List.sum_cons, ← Nat.add_assoc, Nat.add_comm k ka]
  | alternative _ ih =>
    simp only [parse] at h
    exact ih hlevel.alternative houter h

/-! ## 7. The tokens of a lexeme -/

section Spans
variable {classes : CharacterClasses} {groups : ℕ} {rest : List RegexToken}

theorem le_foldl_digits {base : ℕ} (hbase : 0 < base) (digits : List Char) (value : ℕ) :
    value ≤ digits.foldl (fun value c => base * value + digitValue c) value := by
  induction digits generalizing value with
  | nil => exact Nat.le_refl value
  | cons c digits ih =>
    calc value ≤ base * value := Nat.le_mul_of_pos_left value hbase
      _ ≤ base * value + digitValue c := Nat.le_add_right ..
      _ ≤ _ := ih _

/-- The number of a group is not zero. -/
theorem number_pos {c : Char} (hdigit : c.isDigit = true) (hzero : c ≠ '0') (digits : List Char) :
    0 < number 10 (c :: digits) := by
  have hc := Char.isDigit_iff_toNat.mp hdigit
  have hne : c.toNat ≠ '0'.toNat := fun h => hzero (Char.toNat_inj.mp h)
  have hlow : '0'.toNat < c.toNat := Nat.lt_of_le_of_ne hc.1 (Ne.symm hne)
  have hvalue : 0 < digitValue c := by
    rw [digitValue, if_pos hdigit]
    exact Nat.sub_pos_of_lt hlow
  have hle := le_foldl_digits (by decide : 0 < 10) digits (digitValue c)
  exact Nat.lt_of_lt_of_le hvalue (by simpa [number] using hle)

theorem hexCode_spec {n code k : ℕ} (h : hexCode n rest = some (code, k)) :
    k = (rawPrefix isHexDigit n rest).length := by
  simp only [hexCode] at h
  split at h
  · next hdigits =>
    cases h
    exact hdigits.1.symm
  · cases h

theorem digitEscape_spec {c : Char} {a : RegexAtom} {n : ℕ} (hdigit : c.isDigit = true)
    (h : digitEscape groups c rest = some (a, n)) :
    (∃ p m, n = (rawPrefix p m rest).length) ∧ ∀ k, a = .backreference k → 0 < groups := by
  simp only [digitEscape] at h
  split at h
  · cases h
    exact ⟨⟨_, _, rfl⟩, nofun⟩
  · next hzero =>
    split at h
    · next hoctal =>
      split at h
      · cases h
        exact ⟨⟨_, _, hoctal.2.symm⟩, nofun⟩
      · cases h
    · split at h
      · next hgroup =>
        cases h
        exact ⟨⟨_, _, rfl⟩, fun _ _ => Nat.lt_of_lt_of_le (number_pos hdigit hzero _) hgroup⟩
      · cases h

/-- After a backslash, a lexeme takes tokens without a backslash; only a digit is a reference, to
one of the groups before. -/
theorem escape_spec {c : Char} {a : RegexAtom} {n : ℕ}
    (h : escape classes groups c rest = some (a, n)) :
    (∃ p m, n = (rawPrefix p m rest).length) ∧
      ∀ k, a = .backreference k → c.isDigit = true ∧ 0 < groups := by
  have hnone : ∃ p m, 0 = (rawPrefix p m rest).length := ⟨fun _ => false, 0, rfl⟩
  have hhex : ∀ m, ((hexCode m rest).map fun (code, n) => (RegexAtom.set (charSet code), n)) =
      some (a, n) → (∃ p m, n = (rawPrefix p m rest).length) ∧
        ∀ k, a = .backreference k → c.isDigit = true ∧ 0 < groups := by
    intro m hm
    obtain ⟨⟨code, k⟩, hcode, heq⟩ := Option.map_eq_some_iff.mp hm
    cases heq
    exact ⟨⟨_, _, hexCode_spec hcode⟩, nofun⟩
  simp only [escape] at h
  split at h
  · cases h
    exact ⟨hnone, nofun⟩
  · cases h
    exact ⟨hnone, nofun⟩
  · cases h
    exact ⟨hnone, nofun⟩
  · split at h
    · exact hhex 2 h
    · split at h
      · exact hhex 4 h
      · split at h
        · exact hhex 8 h
        · split at h
          · next hdigit =>
            have hspec := digitEscape_spec hdigit h
            exact ⟨hspec.1, fun k hk => ⟨hdigit, hspec.2 k hk⟩⟩
          · split at h
            · cases h
            · cases h
              exact ⟨hnone, nofun⟩

/-- A set ends with the first bracket that closes it. -/
theorem readSet_spec {skip : ℕ} {first : Bool} {tokens : List RegexToken} {accepts : Char → Bool}
    {n : ℕ} (h : readSet classes skip first tokens = some (accepts, n)) :
    ∃ front back, tokens = front ++ .raw ']' :: back ∧ n = front.length + 1 := by
  induction tokens generalizing skip first accepts n with
  | nil => simp [readSet] at h
  | cons t rest ih =>
    -- what is read from the rest ends in the rest
    have hrest : ∀ {skip' : ℕ} {first' : Bool} {f : (Char → Bool) × ℕ → (Char → Bool) × ℕ},
        (readSet classes skip' first' rest).map f = some (accepts, n) →
        (∀ entry, (f entry).2 = entry.2 + 1) →
        ∃ front back, t :: rest = front ++ .raw ']' :: back ∧ n = front.length + 1 := by
      intro skip' first' f hmap hf
      obtain ⟨⟨accepts', k⟩, hread, heq⟩ := Option.map_eq_some_iff.mp hmap
      obtain ⟨front, back, rfl, rfl⟩ := ih hread
      have hn := hf (accepts', front.length + 1)
      rw [heq] at hn
      exact ⟨t :: front, back, rfl, hn⟩
    cases skip with
    | succ skip =>
      rw [readSet] at h
      exact hrest h fun _ => rfl
    | zero =>
      rw [readSet] at h
      split at h
      · next hclose =>
        cases h
        exact ⟨[], rest, by rw [hclose.1]; rfl, rfl⟩
      · split at h
        · cases h
        · split at h
          · exact hrest h fun _ => rfl
          · split at h
            · cases h
            · split at h
              · exact hrest h fun _ => rfl
              · split at h
                · split at h
                  · exact hrest h fun _ => rfl
                  · cases h
                · cases h

theorem bracket_spec {accepts : Char → Bool} {n : ℕ}
    (h : bracket classes rest = some (accepts, n)) :
    ∃ front back, rest = front ++ .raw ']' :: back ∧ n = front.length + 1 := by
  unfold bracket at h
  split at h
  · next rest' =>
    obtain ⟨⟨accepts', k⟩, hread, heq⟩ := Option.map_eq_some_iff.mp h
    obtain ⟨front, back, rfl, rfl⟩ := readSet_spec hread
    cases heq
    exact ⟨.raw '^' :: front, back, rfl, rfl⟩
  · exact readSet_spec h

/-- A brace that is closed after digits, or after a comma between digits. -/
theorem bound_spec {min : ℕ} {max : Option ℕ} {n : ℕ} (h : bound rest = some (min, max, n)) :
    ∃ m back, rest.drop (rawPrefix Char.isDigit m rest).length = .raw '}' :: back ∨
      ∃ rest' m', rest.drop (rawPrefix Char.isDigit m rest).length = .raw ',' :: rest' ∧
        rest'.drop (rawPrefix Char.isDigit m' rest').length = .raw '}' :: back := by
  simp only [bound] at h
  split at h
  · next back hback => exact ⟨_, back, .inl hback⟩
  · next rest' hrest' =>
    split at h
    · next back hback => exact ⟨_, back, .inr ⟨rest', _, hrest', hback⟩⟩
    · cases h
  · cases h

end Spans

end PyRegex
