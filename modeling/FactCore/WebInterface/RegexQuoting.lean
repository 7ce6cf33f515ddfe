import FactCore.Lib.MapM
import FactCore.Lib.PyRegex

/-!
# Quoting for regular expressions

`comment_out_regex_meta_chars` of `src/src/web_interface/filter.py`: a template filter that quotes
the characters with a meaning in regular expressions, one after the other, each of them with a
replacement in the whole text. The backslash is not among these characters.

Results:
1. `toList_commentOutRegexMetaChars`: the replacements together quote each character once.
2. `quoted_of_regexTokens`: what the tokens of quoted text look like.
3. `lexemes_of_quotable`: the text whose characters are all read as themselves.
4. `reading_of_guarded`: other text is read as something with fewer characters.
5. `commentOutRegexMetaChars_matchesExactly`: when a quoted text matches itself and nothing else.
-/

namespace FactCore

open PyRegex

/-! ## 1. The filter -/

/-- `meta_chars`. -/
def regexMetaChars : List Char :=
  ['^', '$', '.', '[', ']', '|', '(', ')', '?', '*', '+', '{', '}']

/-- `input_data.replace(char, f'\\{char}')`. -/
def replaceChar (char : Char) (inputData : String) : String :=
  String.ofList (inputData.toList.flatMap fun c => if c = char then ['\\', char] else [c])

/-- `comment_out_regex_meta_chars`. -/
def commentOutRegexMetaChars (inputData : String) : String :=
  regexMetaChars.foldl (fun inputData char =>
    if char ∈ inputData.toList then replaceChar char inputData else inputData) inputData

/-- A character with the backslash that it gets. -/
def quoteChar (chars : List Char) (c : Char) : List Char :=
  if c ∈ chars then ['\\', c] else [c]

theorem replaceChar_eq_self {char : Char} {s : String} (h : char ∉ s.toList) :
    replaceChar char s = s := by
  have hsame : ∀ c ∈ s.toList, (if c = char then ['\\', char] else [c]) = [c] := by
    intro c hc
    exact if_neg fun (heq : c = char) => h (heq ▸ hc)
  rw [replaceChar, List.flatMap_congr hsame, List.flatMap_singleton', String.ofList_toList]

/-- The replacements leave alone what the ones before have added. -/
theorem toList_foldl_replaceChar {chars : List Char} (hnodup : chars.Nodup)
    (hbackslash : '\\' ∉ chars) (s : String) :
    (chars.foldl (fun s char => if char ∈ s.toList then replaceChar char s else s) s).toList =
      s.toList.flatMap (quoteChar chars) := by
  induction chars generalizing s with
  | nil => exact (List.flatMap_singleton' _).symm
  | cons char chars ih =>
    have hstep : (if char ∈ s.toList then replaceChar char s else s) = replaceChar char s := by
      split
      · rfl
      · next hmem => exact (replaceChar_eq_self hmem).symm
    obtain ⟨hchar, hnodup⟩ := List.nodup_cons.mp hnodup
    rw [List.mem_cons, not_or] at hbackslash
    rw [List.foldl_cons, hstep, ih hnodup hbackslash.2, replaceChar, String.toList_ofList,
      List.flatMap_assoc]
    congr 1
    funext c
    by_cases hc : c = char
    · subst hc
      simp [quoteChar, hchar, hbackslash.2]
    · simp [quoteChar, hc]

theorem toList_commentOutRegexMetaChars (s : String) :
    (commentOutRegexMetaChars s).toList = s.toList.flatMap (quoteChar regexMetaChars) :=
  toList_foldl_replaceChar (by decide) (by decide) s

theorem commentOutRegexMetaChars_append (s t : String) :
    commentOutRegexMetaChars (s ++ t) =
      commentOutRegexMetaChars s ++ commentOutRegexMetaChars t := by
  apply String.toList_inj.mp
  rw [String.toList_append, toList_commentOutRegexMetaChars, toList_commentOutRegexMetaChars,
    toList_commentOutRegexMetaChars, String.toList_append, List.flatMap_append]

/-! ## 2. The tokens of quoted text -/

/-- The text and the tokens of what it becomes. A backslash of the text takes the next character
with it, or the backslash of this character. -/
inductive Quoted : List Char → List RegexToken → Prop
  | nil : Quoted [] []
  | plain {c : Char} {s : List Char} {ts : List RegexToken} : c ≠ '\\' → c ∉ regexMetaChars →
      Quoted s ts → Quoted (c :: s) (.raw c :: ts)
  | quoted {c : Char} {s : List Char} {ts : List RegexToken} : c ∈ regexMetaChars →
      Quoted s ts → Quoted (c :: s) (.esc c :: ts)
  | escaped {c : Char} {s : List Char} {ts : List RegexToken} : c ∉ regexMetaChars →
      Quoted s ts → Quoted ('\\' :: c :: s) (.esc c :: ts)
  | unquoted {c : Char} {s : List Char} {ts : List RegexToken} : c ∈ regexMetaChars →
      Quoted s ts → Quoted ('\\' :: c :: s) (.esc '\\' :: .raw c :: ts)

theorem ne_backslash_of_mem {c : Char} (h : c ∈ regexMetaChars) : c ≠ '\\' := by
  rintro rfl
  exact absurd h (by decide)

theorem quoteChar_backslash : quoteChar regexMetaChars '\\' = ['\\'] := rfl

theorem quoteChar_of_mem {c : Char} (h : c ∈ regexMetaChars) :
    quoteChar regexMetaChars c = ['\\', c] :=
  if_pos h

theorem quoteChar_of_not_mem {c : Char} (h : c ∉ regexMetaChars) :
    quoteChar regexMetaChars c = [c] :=
  if_neg h

theorem quoted_of_regexTokens {s : List Char} {ts : List RegexToken}
    (h : regexTokens (s.flatMap (quoteChar regexMetaChars)) = some ts) : Quoted s ts := by
  induction s using regexTokens.induct generalizing ts with
  | case1 =>
    cases h
    exact .nil
  | case2 => cases h
  | case3 d ds ih =>
    rw [List.flatMap_cons, List.flatMap_cons, quoteChar_backslash] at h
    by_cases hd : d ∈ regexMetaChars
    · rw [quoteChar_of_mem hd] at h
      simp only [List.cons_append, List.nil_append, regexTokens_backslash,
        regexTokens_cons (ne_backslash_of_mem hd), Option.map_map] at h
      obtain ⟨ts', hts', rfl⟩ := Option.map_eq_some_iff.mp h
      exact .unquoted hd (ih hts')
    · rw [quoteChar_of_not_mem hd] at h
      simp only [List.cons_append, List.nil_append, regexTokens_backslash] at h
      obtain ⟨ts', hts', rfl⟩ := Option.map_eq_some_iff.mp h
      exact .escaped hd (ih hts')
  | case4 c cs hc ih =>
    rw [List.flatMap_cons] at h
    by_cases hmem : c ∈ regexMetaChars
    · rw [quoteChar_of_mem hmem] at h
      simp only [List.cons_append, List.nil_append, regexTokens_backslash] at h
      obtain ⟨ts', hts', rfl⟩ := Option.map_eq_some_iff.mp h
      exact .quoted hmem (ih hts')
    · rw [quoteChar_of_not_mem hmem] at h
      simp only [List.cons_append, List.nil_append, regexTokens_cons hc] at h
      obtain ⟨ts', hts', rfl⟩ := Option.map_eq_some_iff.mp h
      exact .plain hc hmem (ih hts')

section Quoted
variable {s : List Char} {ts : List RegexToken}

theorem Quoted.length_le (h : Quoted s ts) : ts.length ≤ s.length := by
  induction h with
  | nil => exact Nat.le_refl 0
  | plain _ _ _ ih => exact Nat.succ_le_succ ih
  | quoted _ _ ih => exact Nat.succ_le_succ ih
  | escaped _ _ ih => exact Nat.succ_le_succ (Nat.le_succ_of_le ih)
  | unquoted _ _ ih => exact Nat.succ_le_succ (Nat.succ_le_succ ih)

/-- The tokens of some quoted text. -/
def Guarded (ts : List RegexToken) : Prop := ∃ s, Quoted s ts

/-- A token without a backslash that begins the text is a plain character. -/
theorem Guarded.of_raw {c : Char} (h : Guarded (.raw c :: ts)) :
    c ∉ regexMetaChars ∧ Guarded ts := by
  obtain ⟨s, hs⟩ := h
  cases hs with
  | plain _ hc hs => exact ⟨hc, _, hs⟩

theorem Guarded.drop_rawPrefix (h : Guarded ts) (p : Char → Bool) (n : ℕ) :
    Guarded (ts.drop (rawPrefix p n ts).length) := by
  induction n generalizing ts with
  | zero => exact h
  | succ n ih =>
    cases ts with
    | nil => exact h
    | cons t ts =>
      cases t with
      | esc c => exact h
      | raw c =>
        rw [rawPrefix]
        split
        · exact ih h.of_raw.2
        · exact h

/-- After a token without a backslash, quoted text begins anew. -/
theorem Guarded.after_raw {front back : List RegexToken} {c : Char}
    (h : Guarded (front ++ .raw c :: back)) : Guarded back := by
  obtain ⟨s, hs⟩ := h
  generalize hts : front ++ .raw c :: back = ts at hs
  induction hs generalizing front with
  | nil => simp at hts
  | plain _ _ hs ih =>
    cases front with
    | nil =>
      cases hts
      exact ⟨_, hs⟩
    | cons t front => exact ih (List.cons.inj hts).2
  | quoted _ hs ih =>
    cases front with
    | nil => cases hts
    | cons t front => exact ih (List.cons.inj hts).2
  | escaped _ hs ih =>
    cases front with
    | nil => cases hts
    | cons t front => exact ih (List.cons.inj hts).2
  | unquoted _ hs ih =>
    match front, hts with
    | [_], hts =>
      cases hts
      exact ⟨_, hs⟩
    | _ :: _ :: front, hts => exact ih (List.cons.inj (List.cons.inj hts).2).2

/-- No brace of quoted text begins a number of repetitions. -/
theorem Guarded.bound_eq_none (h : Guarded ts) : bound ts = none := by
  have hbrace : ∀ {back}, ¬ Guarded (.raw '}' :: back) :=
    fun hback => hback.of_raw.1 (by decide)
  cases hbound : bound ts with
  | none => rfl
  | some entry =>
    obtain ⟨m, back, hback | ⟨rest', m', hcomma, hback⟩⟩ := bound_spec hbound
    · exact absurd (hback ▸ h.drop_rawPrefix _ m) hbrace
    · have hrest := h.drop_rawPrefix Char.isDigit m
      rw [hcomma] at hrest
      exact absurd (hback ▸ hrest.of_raw.2.drop_rawPrefix _ m') hbrace

end Quoted

/-! ## 3. Text that is read as itself -/

/-- What comes after each backslash of a text, a character or the end, has a property. -/
def backslashesBefore (p : Option Char → Bool) : List Char → Bool
  | [] => true
  | c :: cs => (c != '\\' || p cs.head?) && backslashesBefore p cs

theorem backslashesBefore_cons {p : Option Char → Bool} {c : Char} (h : c ≠ '\\')
    (cs : List Char) : backslashesBefore p (c :: cs) = backslashesBefore p cs := by
  simp [backslashesBefore, h]

theorem backslashesBefore_backslash (p : Option Char → Bool) (cs : List Char) :
    backslashesBefore p ('\\' :: cs) = (p cs.head? && backslashesBefore p cs) := rfl

/-- The characters that are text without a backslash, though they are quoted. -/
def isTextOnly (c : Char) : Bool := c == ']' || c == '{' || c == '}'

/-- Every backslash of the text is directly followed by `]`, `{` or `}`. -/
def quotable (s : List Char) : Bool := backslashesBefore (fun next => next.any isTextOnly) s

theorem mem_of_isTextOnly {c : Char} (h : isTextOnly c = true) : c ∈ regexMetaChars := by
  simp only [isTextOnly, Bool.or_eq_true, beq_iff_eq] at h
  rcases h with (rfl | rfl) | rfl <;> decide

theorem exists_quoted_of_quotable {s : List Char} (h : quotable s = true) :
    ∃ ts, regexTokens (s.flatMap (quoteChar regexMetaChars)) = some ts := by
  induction s using regexTokens.induct with
  | case1 => exact ⟨[], rfl⟩
  | case2 => cases h
  | case3 d ds ih =>
    rw [quotable, backslashesBefore_backslash, Bool.and_eq_true] at h
    have hmem := mem_of_isTextOnly h.1
    have hd := ne_backslash_of_mem hmem
    obtain ⟨ts, hts⟩ := ih ((backslashesBefore_cons hd ds).symm.trans h.2)
    rw [List.flatMap_cons, List.flatMap_cons, quoteChar_backslash, quoteChar_of_mem hmem]
    exact ⟨.esc '\\' :: .raw d :: ts, by
      simp [regexTokens_backslash, regexTokens_cons hd, hts]⟩
  | case4 c cs hc ih =>
    obtain ⟨ts, hts⟩ := ih ((backslashesBefore_cons hc cs).symm.trans h)
    rw [List.flatMap_cons]
    by_cases hmem : c ∈ regexMetaChars
    · rw [quoteChar_of_mem hmem]
      exact ⟨.esc c :: ts, by simp [regexTokens_backslash, hts]⟩
    · rw [quoteChar_of_not_mem hmem]
      exact ⟨.raw c :: ts, by simp [regexTokens_cons hc, hts]⟩

section Lexemes
variable {classes : CharacterClasses} {groups : ℕ} {rest : List RegexToken} {c : Char}

theorem lexemeAt_plain (h : c ∉ regexMetaChars) :
    lexemeAt classes groups (.raw c) rest = some (.atom (.set (· == c)), 0) := by
  simp only [regexMetaChars, List.mem_cons, List.not_mem_nil, or_false, not_or] at h
  simp [lexemeAt, h]

theorem escape_metaChar (h : c ∈ '\\' :: regexMetaChars) :
    escape classes groups c rest = some (.set (· == c), 0) := by
  simp only [regexMetaChars, List.mem_cons, List.not_mem_nil, or_false] at h
  rcases h with rfl | rfl | rfl | rfl | rfl | rfl | rfl | rfl | rfl | rfl | rfl | rfl | rfl | rfl
    <;> rfl

theorem lexemeAt_esc (h : c ∈ '\\' :: regexMetaChars) :
    lexemeAt classes groups (.esc c) rest = some (.atom (.set (· == c)), 0) := by
  rw [lexemeAt, escape_metaChar h]
  rfl

theorem lexemeAt_textOnly (h : isTextOnly c = true) (hrest : bound rest = none) :
    lexemeAt classes groups (.raw c) rest = some (.atom (.set (· == c)), 0) := by
  simp only [isTextOnly, Bool.or_eq_true, beq_iff_eq] at h
  rcases h with (rfl | rfl) | rfl
  · rfl
  · simp [lexemeAt, hrest]
  · rfl

end Lexemes

/-- The lexemes of a text that is read as itself. -/
theorem lexemes_of_quotable {classes : CharacterClasses} {s : List Char} {ts : List RegexToken}
    (h : Quoted s ts) (hs : quotable s = true) (groups : ℕ) :
    lexemes classes 0 groups ts =
      some ((s.map fun c c' => c' == c).map fun accepts => .atom (.set accepts)) := by
  induction h with
  | nil => rfl
  | plain hc hmem _ ih =>
    rw [quotable, backslashesBefore_cons hc] at hs
    exact lexemes_cons.mpr ⟨_, _, _, lexemeAt_plain hmem, ih hs, rfl⟩
  | quoted hmem _ ih =>
    rw [quotable, backslashesBefore_cons (ne_backslash_of_mem hmem)] at hs
    exact lexemes_cons.mpr ⟨_, _, _, lexemeAt_esc (List.mem_cons_of_mem _ hmem), ih hs, rfl⟩
  | escaped hmem _ _ =>
    rw [quotable, backslashesBefore_backslash, Bool.and_eq_true] at hs
    exact absurd (mem_of_isTextOnly hs.1) hmem
  | unquoted hmem hquoted ih =>
    rw [quotable, backslashesBefore_backslash, Bool.and_eq_true,
      backslashesBefore_cons (ne_backslash_of_mem hmem)] at hs
    have hbound := Guarded.bound_eq_none ⟨_, hquoted⟩
    have hrest := lexemes_cons.mpr ⟨_, _, _, lexemeAt_textOnly hs.1 hbound, ih hs.2, rfl⟩
    exact lexemes_cons.mpr ⟨_, _, _, lexemeAt_esc List.mem_cons_self, hrest, rfl⟩

/-! ## 4. Text that is read as something else -/

def isPlain (c : Char) : Bool := c != '\\'

/-- How many characters of the text, other than backslashes, a token stands for. -/
def tokenWeight : RegexToken → ℕ
  | .raw _ => 1
  | .esc c => if c = '\\' then 0 else 1

def weight (ts : List RegexToken) : ℕ := (ts.map tokenWeight).sum

theorem tokenWeight_esc {c : Char} (h : c ≠ '\\') : tokenWeight (.esc c) = 1 := if_neg h

theorem weight_cons (t : RegexToken) (ts : List RegexToken) :
    weight (t :: ts) = tokenWeight t + weight ts := by
  rw [weight, List.map_cons, List.sum_cons]
  rfl

theorem weight_append (front back : List RegexToken) :
    weight (front ++ back) = weight front + weight back := by
  rw [weight, List.map_append, List.sum_append]
  rfl

theorem weight_of_quoted {s : List Char} {ts : List RegexToken} (h : Quoted s ts) :
    weight ts = s.countP isPlain := by
  induction h with
  | nil => rfl
  | @plain c _ _ hc _ _ ih =>
    have hplain : isPlain c = true := bne_iff_ne.mpr hc
    rw [weight_cons, ih, List.countP_cons_of_pos hplain, Nat.add_comm]
    rfl
  | @quoted c _ _ hmem _ ih =>
    have hc := ne_backslash_of_mem hmem
    have hplain : isPlain c = true := bne_iff_ne.mpr hc
    rw [weight_cons, ih, List.countP_cons_of_pos hplain, Nat.add_comm, tokenWeight_esc hc]
  | @escaped c s ts _ _ ih =>
    rw [weight_cons, ih, List.countP_cons_of_neg (by decide), List.countP_cons, Nat.add_comm]
    by_cases hc : c = '\\'
    · simp [tokenWeight, isPlain, hc]
    · simp [tokenWeight, isPlain, hc]
  | @unquoted c _ _ hmem _ ih =>
    have hplain : isPlain c = true := bne_iff_ne.mpr (ne_backslash_of_mem hmem)
    rw [weight_cons, weight_cons, ih, List.countP_cons_of_neg (by decide),
      List.countP_cons_of_pos hplain, Nat.add_comm (List.countP ..) 1]
    exact Nat.zero_add _

theorem weight_drop_rawPrefix (p : Char → Bool) (n : ℕ) (ts : List RegexToken) :
    weight ts = (rawPrefix p n ts).length + weight (ts.drop (rawPrefix p n ts).length) := by
  induction n generalizing ts with
  | zero => simp [rawPrefix]
  | succ n ih =>
    cases ts with
    | nil => rfl
    | cons t ts =>
      cases t with
      | esc c => simp [rawPrefix]
      | raw c =>
        rw [rawPrefix]
        split
        · rw [List.length_cons, List.drop_succ_cons, weight_cons, ih ts]
          simp only [tokenWeight]
          ac_rfl
        · simp

/-- A set that can stand for a single token. -/
def TokenSet : RegexToken → (Char → Bool) → Prop
  | .raw c, accepts => c ∈ regexMetaChars →
      (c = '.' ∧ accepts = fun c' => c' != '\n') ∨ isTextOnly c = true
  | .esc _, _ => True

/-- The lexemes stand for at most as many characters as the tokens. If they stand for as many,
each token is a set. -/
def Reading (ts : List RegexToken) (ls : List Lexeme) : Prop :=
  ∃ k, Bounded isPlain ls k ∧ k ≤ weight ts ∧ (weight ts ≤ k →
    ∃ sets, ls = sets.map (fun accepts => .atom (.set accepts)) ∧ List.Forall₂ TokenSet ts sets)

section Reading
variable {ts ts' : List RegexToken} {ls ls' : List Lexeme}

theorem Reading.nil : Reading [] [] :=
  ⟨0, .nil, Nat.le_refl 0, fun _ => ⟨[], rfl, .nil⟩⟩

/-- A token that is a set. -/
theorem Reading.single {t : RegexToken} {accepts : Char → Bool} (h : Reading ts ls)
    (hatom : (Regex.atom (.set accepts)).AtMost isPlain (tokenWeight t)) (ht : TokenSet t accepts) :
    Reading (t :: ts) (.atom (.set accepts) :: ls) := by
  obtain ⟨k, hbounded, hle, htight⟩ := h
  refine ⟨tokenWeight t + k, .atom hatom hbounded, ?_, ?_⟩
  · rw [weight_cons]
    exact Nat.add_le_add_left hle _
  · intro hge
    rw [weight_cons] at hge
    obtain ⟨sets, rfl, hsets⟩ := htight (Nat.le_of_add_le_add_left hge)
    exact ⟨accepts :: sets, rfl, .cons ht hsets⟩

/-- Tokens that stand for more characters than what they are read as. -/
theorem Reading.slack {k : ℕ} (h : Reading ts ls)
    (hbounded : ∀ {k'}, Bounded isPlain ls k' → Bounded isPlain ls' (k + k'))
    (hweight : k + weight ts < weight ts') : Reading ts' ls' := by
  obtain ⟨k', hls, hle, _⟩ := h
  have hlt : k + k' < weight ts' := Nat.lt_of_le_of_lt (Nat.add_le_add_left hle k) hweight
  exact ⟨k + k', hbounded hls, Nat.le_of_lt hlt, fun hge => absurd hge (Nat.not_le.mpr hlt)⟩

/-- Tokens that stand for more characters than what they are read as, which has none. -/
theorem Reading.slack_zero (h : Reading ts ls)
    (hbounded : ∀ {k}, Bounded isPlain ls k → Bounded isPlain ls' k)
    (hweight : weight ts < weight ts') : Reading ts' ls' :=
  h.slack (fun hk => by rw [Nat.zero_add]; exact hbounded hk) (by rwa [Nat.zero_add])

theorem atMost_backslash : (Regex.atom (.set (· == '\\'))).AtMost isPlain 0 := by
  apply Regex.atMost_set_zero
  intro c hc
  rw [eq_of_beq hc]
  rfl

/-- A backslash that stands for itself. -/
theorem Reading.backslash (h : Reading ts ls) :
    Reading (.esc '\\' :: ts) (.atom (.set (· == '\\')) :: ls) :=
  h.single atMost_backslash trivial

end Reading

/-- What a quoted character is read as that has lost its backslash to the one before. -/
inductive MetaLexeme (classes : CharacterClasses) (rest : List RegexToken) :
    Char → Lexeme → ℕ → Prop
  | opening : MetaLexeme classes rest '(' .opening 0
  | closing : MetaLexeme classes rest ')' .closing 0
  | alternative : MetaLexeme classes rest '|' .alternative 0
  | repeated {c : Char} {min : ℕ} {max : Option ℕ} :
      MetaLexeme classes rest c (.repeated min max) 0
  | assertion {c : Char} {holds : List Char → List Char → Bool} :
      MetaLexeme classes rest c (.atom (.assertion holds)) 0
  | bracket {accepts : Char → Bool} {n : ℕ} : bracket classes rest = some (accepts, n) →
      MetaLexeme classes rest '[' (.atom (.set accepts)) n
  | set {c : Char} {accepts : Char → Bool} : TokenSet (.raw c) accepts →
      MetaLexeme classes rest c (.atom (.set accepts)) 0

theorem metaLexeme_of_lexemeAt {classes : CharacterClasses} {groups : ℕ} {c : Char}
    {rest : List RegexToken} {l : Lexeme} {n : ℕ} (hc : c ∈ regexMetaChars)
    (hrest : bound rest = none) (h : lexemeAt classes groups (.raw c) rest = some (l, n)) :
    MetaLexeme classes rest c l n := by
  by_cases htext : isTextOnly c = true
  · rw [lexemeAt_textOnly htext hrest] at h
    cases h
    exact .set fun _ => .inr htext
  · simp only [regexMetaChars, List.mem_cons, List.not_mem_nil, or_false] at hc
    rcases hc with rfl | rfl | rfl | rfl | rfl | rfl | rfl | rfl | rfl | rfl | rfl | rfl | rfl
    · cases h
      exact .assertion
    · cases h
      exact .assertion
    · cases h
      exact .set fun _ => .inl ⟨rfl, rfl⟩
    · obtain ⟨⟨accepts, k⟩, hset, heq⟩ := Option.map_eq_some_iff.mp h
      cases heq
      exact .bracket hset
    · exact absurd rfl htext
    · cases h
      exact .alternative
    · -- what begins with `(?` is an error
      simp only [lexemeAt, if_pos] at h
      split at h
      · cases h
      · cases h
        exact .opening
    · cases h
      exact .closing
    · cases h
      exact .repeated
    · cases h
      exact .repeated
    · cases h
      exact .repeated
    · exact absurd rfl htext
    · exact absurd rfl htext

/-- There is no group, or nothing that refers to one. -/
def ReferenceFree (groups : ℕ) (ts : List RegexToken) : Prop :=
  groups = 0 ∧ .raw '(' ∉ ts ∨ ∀ c, .esc c ∈ ts → c.isDigit = false

section ReferenceFree
variable {groups : ℕ} {t : RegexToken} {ts : List RegexToken}

theorem ReferenceFree.of_subset {ts' : List RegexToken} (h : ReferenceFree groups ts)
    (hsubset : ts' ⊆ ts) : ReferenceFree groups ts' := by
  obtain ⟨hgroups, hopening⟩ | hdigit := h
  · exact .inl ⟨hgroups, fun hmem => hopening (hsubset hmem)⟩
  · exact .inr fun c hc => hdigit c (hsubset hc)

theorem ReferenceFree.opening (h : ReferenceFree groups (.raw '(' :: ts)) :
    ReferenceFree (groups + 1) ts := by
  obtain ⟨_, hopening⟩ | hdigit := h
  · exact absurd List.mem_cons_self hopening
  · exact .inr fun c hc => hdigit c (List.mem_cons_of_mem _ hc)

theorem ReferenceFree.not_backreference {classes : CharacterClasses} {c : Char} {k n : ℕ}
    (h : ReferenceFree groups (.esc c :: ts)) :
    escape classes groups c ts ≠ some (.backreference k, n) := by
  intro hescape
  obtain ⟨hdigit, hgroups⟩ := (escape_spec hescape).2 k rfl
  obtain ⟨hzero, _⟩ | hnone := h
  · exact absurd hzero (Nat.ne_of_gt hgroups)
  · rw [hnone c List.mem_cons_self] at hdigit
    cases hdigit

end ReferenceFree

theorem weight_lt_cons_raw (c : Char) (ts : List RegexToken) :
    weight ts < weight (.raw c :: ts) := by
  rw [weight_cons, Nat.add_comm]
  exact Nat.lt_succ_self _

section Readings
variable {classes : CharacterClasses} {groups : ℕ} {ts : List RegexToken} {ls : List Lexeme}

/-- A character that has lost its backslash, if what follows can be read. -/
theorem reading_raw {c : Char} (hc : c ∈ regexMetaChars) (hts : Guarded ts)
    (href : ReferenceFree groups (.raw c :: ts))
    (hls : lexemes classes 0 groups (.raw c :: ts) = some ls)
    (hreading : ∀ {groups' n ls'}, Guarded (ts.drop n) → ReferenceFree groups' (ts.drop n) →
      lexemes classes 0 groups' (ts.drop n) = some ls' → Reading (ts.drop n) ls') :
    Reading (.esc '\\' :: .raw c :: ts) (.atom (.set (· == '\\')) :: ls) := by
  have hlt := weight_lt_cons_raw c ts
  have hsame : ReferenceFree groups ts := href.of_subset (List.subset_cons_self _ _)
  obtain ⟨l, n, ls', hl, hls', rfl⟩ := lexemes_cons.mp hls
  cases metaLexeme_of_lexemeAt hc hts.bound_eq_none hl with
  | opening => exact ((hreading (n := 0) hts href.opening hls').slack_zero .opening hlt).backslash
  | closing => exact ((hreading (n := 0) hts hsame hls').slack_zero .closing hlt).backslash
  | alternative =>
    exact ((hreading (n := 0) hts hsame hls').slack_zero .alternative hlt).backslash
  | repeated =>
    -- only the backslash is repeated
    apply (hreading (n := 0) hts hsame hls').slack_zero (.repeated atMost_backslash)
    rw [weight_cons]
    exact Nat.lt_of_lt_of_le hlt (Nat.le_add_left ..)
  | assertion =>
    have h := hreading (n := 0) hts hsame hls'
    exact (h.slack (.atom (Regex.atMost_assertion _)) (by rwa [Nat.zero_add])).backslash
  | bracket hset =>
    obtain ⟨front, back, rfl, rfl⟩ := bracket_spec hset
    have hdrop : (front ++ .raw ']' :: back).drop (front.length + 1) = back := by simp
    have hback : Guarded ((front ++ .raw ']' :: back).drop (front.length + 1)) := by
      rw [hdrop]
      exact hts.after_raw
    have h := hreading hback (hsame.of_subset (List.drop_subset _ _)) hls'
    rw [hdrop] at h
    apply Reading.backslash
    apply h.slack (.atom (Regex.atMost_set _))
    have hclose := weight_lt_cons_raw ']' back
    rw [weight_cons, weight_append]
    exact Nat.add_lt_add_left (Nat.lt_of_lt_of_le hclose (Nat.le_add_left ..)) 1
  | set hset =>
    exact ((hreading (n := 0) hts hsame hls').single (Regex.atMost_set _) hset).backslash

/-- A character after a backslash, if what follows can be read. -/
theorem reading_esc {c : Char} (hc : c ≠ '\\') (hts : Guarded ts)
    (href : ReferenceFree groups (.esc c :: ts))
    (hls : lexemes classes 0 groups (.esc c :: ts) = some ls)
    (hreading : ∀ {groups' n ls'}, Guarded (ts.drop n) → ReferenceFree groups' (ts.drop n) →
      lexemes classes 0 groups' (ts.drop n) = some ls' → Reading (ts.drop n) ls') :
    Reading (.esc c :: ts) ls := by
  have hsame : ReferenceFree groups ts := href.of_subset (List.subset_cons_self _ _)
  obtain ⟨l, n, ls', hl, hls', rfl⟩ := lexemes_cons.mp hls
  obtain ⟨⟨a, k⟩, hescape, heq⟩ := Option.map_eq_some_iff.mp hl
  cases heq
  obtain ⟨p, m, rfl⟩ := (escape_spec hescape).1
  have h := hreading (hts.drop_rawPrefix p m) (hsame.of_subset (List.drop_subset _ _)) hls'
  have hweight := weight_drop_rawPrefix p m ts
  cases a with
  | set accepts =>
    rcases Nat.eq_zero_or_pos (rawPrefix p m ts).length with hzero | hpos
    · rw [hzero] at h
      exact h.single (by rw [tokenWeight_esc hc]; exact Regex.atMost_set _) trivial
    · apply h.slack (.atom (Regex.atMost_set _))
      rw [weight_cons, tokenWeight_esc hc, hweight]
      exact Nat.add_lt_add_left (Nat.lt_add_of_pos_left hpos) 1
  | assertion holds =>
    apply h.slack (.atom (Regex.atMost_assertion _))
    rw [weight_cons, tokenWeight_esc hc, hweight, Nat.zero_add, Nat.add_comm 1]
    exact Nat.lt_succ_of_le (Nat.le_add_left ..)
  | backreference k => exact absurd hescape href.not_backreference

/-- All text that has no back reference has a reading. -/
theorem reading_of_guarded (hts : Guarded ts) (href : ReferenceFree groups ts)
    (hls : lexemes classes 0 groups ts = some ls) : Reading ts ls := by
  induction hn : ts.length using Nat.strongRecOn generalizing groups ts ls with
  | ind n ih =>
  have hrest : ∀ {rest : List RegexToken}, rest.length < n → ∀ {groups' k ls'},
      Guarded (rest.drop k) → ReferenceFree groups' (rest.drop k) →
      lexemes classes 0 groups' (rest.drop k) = some ls' → Reading (rest.drop k) ls' := by
    intro rest hlt groups' k ls' hguarded hfree hrest
    have hdrop : (rest.drop k).length < n := by
      rw [List.length_drop]
      exact Nat.lt_of_le_of_lt (Nat.sub_le ..) hlt
    exact ih _ hdrop hguarded hfree hrest rfl
  subst hn
  obtain ⟨s, hs⟩ := hts
  cases hs with
  | nil =>
    cases hls
    exact .nil
  | @plain c s ts hc hmem hs =>
    obtain ⟨l, k, ls', hl, hls', rfl⟩ := lexemes_cons.mp hls
    rw [lexemeAt_plain hmem] at hl
    cases hl
    have h := hrest (k := 0) (Nat.lt_succ_self _) ⟨s, hs⟩
      (href.of_subset (List.subset_cons_self _ _)) hls'
    exact h.single (Regex.atMost_set _) fun hmem' => absurd hmem' hmem
  | @quoted c s ts hmem hs =>
    exact reading_esc (ne_backslash_of_mem hmem) ⟨s, hs⟩ href hls (hrest (Nat.lt_succ_self _))
  | @escaped c s ts hmem hs =>
    by_cases hc : c = '\\'
    · subst hc
      obtain ⟨l, k, ls', hl, hls', rfl⟩ := lexemes_cons.mp hls
      rw [lexemeAt_esc List.mem_cons_self] at hl
      cases hl
      exact (hrest (k := 0) (Nat.lt_succ_self _) ⟨s, hs⟩
        (href.of_subset (List.subset_cons_self _ _)) hls').backslash
    · exact reading_esc hc ⟨s, hs⟩ href hls (hrest (Nat.lt_succ_self _))
  | @unquoted c s ts hmem hs =>
    obtain ⟨l, k, ls', hl, hls', rfl⟩ := lexemes_cons.mp hls
    rw [lexemeAt_esc List.mem_cons_self] at hl
    cases hl
    exact reading_raw hmem ⟨s, hs⟩ (href.of_subset (List.subset_cons_self _ _)) hls'
      (hrest (Nat.lt_succ_of_lt (Nat.lt_succ_self _)))

end Readings

/-! ## 5. The filter as a quotation -/

/-- The quoted text, as a regular expression, matches the text and nothing else. -/
def MatchesExactly (classes : CharacterClasses) (s : String) : Prop :=
  ∃ r, compile classes (commentOutRegexMetaChars s).toList = some r ∧
    ∀ text, r.FullMatch text ↔ text = s.toList

/-- There is no backslash before an opening parenthesis, or none before a digit. -/
def withoutBackReferences (s : List Char) : Bool :=
  backslashesBefore (· != some '(') s || backslashesBefore (fun next => !next.any Char.isDigit) s

theorem compile_eq_some_iff {classes : CharacterClasses} {s : String} {r : Regex} :
    compile classes (commentOutRegexMetaChars s).toList = some r ↔
      ∃ ts ls, regexTokens (s.toList.flatMap (quoteChar regexMetaChars)) = some ts ∧
        lexemes classes 0 0 ts = some ls ∧ parse 0 [] ⟨0, none, []⟩ ls = some r := by
  rw [toList_commentOutRegexMetaChars]
  simp [compile, Option.bind_eq_some_iff]

theorem backslashesBefore_tail {p : Option Char → Bool} {c : Char} {cs : List Char}
    (h : backslashesBefore p (c :: cs) = true) : backslashesBefore p cs = true := by
  rw [backslashesBefore, Bool.and_eq_true] at h
  exact h.2

section Quoted
variable {s : List Char} {ts : List RegexToken}

theorem Quoted.opening_not_mem (h : Quoted s ts)
    (hs : backslashesBefore (· != some '(') s = true) : .raw '(' ∉ ts := by
  induction h with
  | nil => exact List.not_mem_nil
  | plain _ hmem _ ih =>
    intro hopening
    rcases List.mem_cons.mp hopening with heq | hrest
    · cases heq
      exact hmem (by decide)
    · exact ih (backslashesBefore_tail hs) hrest
  | quoted _ _ ih =>
    intro hopening
    exact ih (backslashesBefore_tail hs) (by simpa using hopening)
  | escaped _ _ ih =>
    intro hopening
    exact ih (backslashesBefore_tail (backslashesBefore_tail hs)) (by simpa using hopening)
  | @unquoted c _ ts _ _ ih =>
    intro hopening
    have hopening' : .raw '(' ∈ RegexToken.raw c :: ts := by simpa using hopening
    rcases List.mem_cons.mp hopening' with heq | hrest
    · cases heq
      cases hs
    · exact ih (backslashesBefore_tail (backslashesBefore_tail hs)) hrest

theorem not_isDigit_of_mem {c : Char} (h : c ∈ regexMetaChars) : c.isDigit = false := by
  simp only [regexMetaChars, List.mem_cons, List.not_mem_nil, or_false] at h
  rcases h with rfl | rfl | rfl | rfl | rfl | rfl | rfl | rfl | rfl | rfl | rfl | rfl | rfl <;> rfl

theorem Quoted.not_isDigit (h : Quoted s ts)
    (hs : backslashesBefore (fun next => !next.any Char.isDigit) s = true) :
    ∀ c, .esc c ∈ ts → c.isDigit = false := by
  induction h with
  | nil => exact fun c hc => absurd hc List.not_mem_nil
  | plain _ _ _ ih =>
    intro c hc
    exact ih (backslashesBefore_tail hs) c (by simpa using hc)
  | quoted hmem _ ih =>
    intro c hc
    rcases List.mem_cons.mp hc with heq | hrest
    · cases heq
      exact not_isDigit_of_mem hmem
    · exact ih (backslashesBefore_tail hs) c hrest
  | escaped _ _ ih =>
    intro c hc
    rcases List.mem_cons.mp hc with heq | hrest
    · cases heq
      rw [backslashesBefore_backslash, Bool.and_eq_true, Bool.not_eq_true'] at hs
      exact hs.1
    · exact ih (backslashesBefore_tail (backslashesBefore_tail hs)) c hrest
  | unquoted _ _ ih =>
    intro c hc
    rcases List.mem_cons.mp hc with heq | hrest
    · cases heq
      rfl
    · exact ih (backslashesBefore_tail (backslashesBefore_tail hs)) c
        (by simpa using hrest)

theorem Quoted.referenceFree (h : Quoted s ts) (hs : withoutBackReferences s = true) :
    ReferenceFree 0 ts := by
  rw [withoutBackReferences, Bool.or_eq_true] at hs
  exact hs.imp (fun hopening => ⟨rfl, h.opening_not_mem hopening⟩) h.not_isDigit

/-- A token for each character, and no operators. -/
theorem Quoted.quotable (h : Quoted s ts) (hlength : s.length ≤ ts.length)
    (htext : ∀ c ∈ regexMetaChars, .raw c ∈ ts → isTextOnly c = true) : quotable s = true := by
  induction h with
  | nil => rfl
  | plain hc _ _ ih =>
    rw [FactCore.quotable, backslashesBefore_cons hc]
    exact ih (Nat.le_of_succ_le_succ hlength)
      fun c hmem hraw => htext c hmem (List.mem_cons_of_mem _ hraw)
  | quoted hmem _ ih =>
    rw [FactCore.quotable, backslashesBefore_cons (ne_backslash_of_mem hmem)]
    exact ih (Nat.le_of_succ_le_succ hlength)
      fun c hmem hraw => htext c hmem (List.mem_cons_of_mem _ hraw)
  | escaped _ hs _ =>
    -- a backslash without a token of its own
    have hle := hs.length_le
    exact absurd (Nat.le_trans (Nat.le_of_succ_le_succ hlength) hle) (Nat.not_succ_le_self _)
  | unquoted hmem _ ih =>
    rw [FactCore.quotable, backslashesBefore_backslash, Bool.and_eq_true,
      backslashesBefore_cons (ne_backslash_of_mem hmem)]
    refine ⟨htext _ hmem (List.mem_cons_of_mem _ List.mem_cons_self), ?_⟩
    exact ih (Nat.le_of_succ_le_succ (Nat.le_of_succ_le_succ hlength))
      fun c hmem hraw => htext c hmem (List.mem_cons_of_mem _ (List.mem_cons_of_mem _ hraw))

end Quoted

section Exact
variable {classes : CharacterClasses} {s : String}

theorem matchesExactly_of_quotable (h : quotable s.toList = true) : MatchesExactly classes s := by
  obtain ⟨ts, hts⟩ := exists_quoted_of_quotable h
  have hquoted := quoted_of_regexTokens hts
  refine ⟨_, compile_eq_some_iff.mpr
    ⟨ts, _, hts, lexemes_of_quotable hquoted h 0, parse_sets _ _ _⟩, fun text => ?_⟩
  simp only [Level.close, List.append_nil]
  rw [Regex.fullMatch_sets_iff, List.forall₂_map_left_iff]
  simp only [beq_iff_eq]
  constructor
  · intro htext
    have hflip : List.Forall₂ Eq text s.toList := htext.flip
    rwa [List.forall₂_eq_eq_eq] at hflip
  · rintro rfl
    exact List.forall₂_same.mpr fun c _ => rfl

/-- What does not match more characters than the text has, other than backslashes, reads each of
its characters as a set. -/
theorem sets_of_matchesExactly {ts : List RegexToken} {ls : List Lexeme} {r : Regex}
    (hquoted : Quoted s.toList ts) (hreading : Reading ts ls)
    (hparse : parse 0 [] ⟨0, none, []⟩ ls = some r) (hself : r.FullMatch s.toList) :
    ∃ sets, r = Regex.seqOf (sets.map fun accepts => .atom (.set accepts)).reverse ∧
      List.Forall₂ TokenSet ts sets := by
  obtain ⟨k, hbounded, _, htight⟩ := hreading
  have hatmost := parse_atMost hbounded (Level.atMost_zero 0) .nil hparse
  obtain ⟨captures, hmatch⟩ := hself
  have hcount := hatmost _ _ _ _ _ hmatch
  rw [← weight_of_quoted hquoted, List.sum_nil, Nat.zero_add, Nat.zero_add] at hcount
  obtain ⟨sets, rfl, hsets⟩ := htight hcount
  rw [parse_sets, Option.some_inj] at hparse
  refine ⟨sets, ?_, hsets⟩
  rw [← hparse, List.append_nil]
  rfl

theorem quotable_of_matchesExactly (hfree : withoutBackReferences s.toList = true)
    (h : MatchesExactly classes s) : quotable s.toList = true := by
  obtain ⟨r, hr, hmatch⟩ := h
  obtain ⟨ts, ls, hts, hls, hparse⟩ := compile_eq_some_iff.mp hr
  have hquoted := quoted_of_regexTokens hts
  have hreading := reading_of_guarded ⟨_, hquoted⟩ (hquoted.referenceFree hfree) hls
  obtain ⟨sets, rfl, hsets⟩ :=
    sets_of_matchesExactly hquoted hreading hparse ((hmatch _).mpr rfl)
  have hall := fun text => Regex.fullMatch_sets_iff.symm.trans (hmatch text)
  apply hquoted.quotable
  · exact Nat.le_of_eq (((hall _).mpr rfl).length_eq.symm.trans hsets.length_eq.symm)
  · intro c hc hraw
    obtain ⟨accepts, hmem, hset⟩ := forall₂_mem_left hsets hraw
    rcases hset hc with ⟨_, rfl⟩ | htext
    · -- the dot matches more than one character
      have ha : ('a' != '\n') = true := rfl
      have hb : ('b' != '\n') = true := rfl
      exact absurd (Regex.accepts_unique hall hmem ha hb) (by decide)
    · exact htext

end Exact

/-- The quotation is right if each backslash of the text comes before a character that is text
without its own backslash, and otherwise wrong, unless the text can refer to a part of itself. -/
theorem commentOutRegexMetaChars_matchesExactly (classes : CharacterClasses) (s : String) :
    (quotable s.toList = true → MatchesExactly classes s) ∧
      (withoutBackReferences s.toList = true →
        (MatchesExactly classes s ↔ quotable s.toList = true)) ∧
      ∀ t, commentOutRegexMetaChars (s ++ t) =
        commentOutRegexMetaChars s ++ commentOutRegexMetaChars t :=
  ⟨matchesExactly_of_quotable,
    fun hfree => ⟨quotable_of_matchesExactly hfree, matchesExactly_of_quotable⟩,
    commentOutRegexMetaChars_append s⟩

/-- `\d`, a backslash and a letter, matches a digit. -/
theorem backslash_letter_not_matchesExactly : ¬ MatchesExactly .ascii "\\d" := by
  rintro ⟨r, hr, hmatch⟩
  have hcompile : compile .ascii (commentOutRegexMetaChars "\\d").toList =
      some (Regex.seqOf ([Char.isDigit].map fun accepts => .atom (.set accepts)).reverse) :=
    compile_eq_some_iff.mpr ⟨[.esc 'd'], [.atom (.set Char.isDigit)], rfl, rfl, rfl⟩
  cases hr.symm.trans hcompile
  have hdigit : ['7'] = "\\d".toList :=
    (hmatch _).mp (Regex.fullMatch_sets_iff.mpr (.cons rfl .nil))
  exact absurd (congrArg List.length hdigit) (by decide)

end FactCore
