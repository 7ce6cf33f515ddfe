import FactCore.CveLookup.Feeds
import FactCore.CveLookup.Products

/-!
# Escaped attributes

`escape_special_characters` and `replace_characters_and_wildcards`: the names and versions of
the CPE dictionary are stored escaped, those found in a binary are escaped for the lookup, and
the two are compared as strings. A text without wildcards should have one form, whichever of its
special characters come with a backslash.

Two places break it. The first character is never escaped, so a backslash in front of it
stays. And a text whose only special characters are colons is not looked at, as the gate takes
every colon for an escaped one.

Results:
1. `hasNonAlphanum_partlyEscaped`: backslashes do not change whether a text is looked at.
2. `escapeFrom_partlyEscaped`: behind the first character every special one is escaped once.
3. `canonicalForm_iff`: exactly when two spellings of a text have one form.
4. `two_forms`: a name with a colon has two.
-/

namespace FactCore

/-! ## 1. Spellings -/

/-- The second text is the first with a backslash before some of its special characters. -/
inductive PartlyEscaped : List Char → List Char → Prop
  | nil : PartlyEscaped [] []
  | keep (c : Char) {text text' : List Char} (h : PartlyEscaped text text') :
      PartlyEscaped (c :: text) (c :: text')
  | escape (c : Char) {text text' : List Char} (hc : isSpecial c = true)
      (h : PartlyEscaped text text') : PartlyEscaped (c :: text) ('\\' :: c :: text')

/-- No character is a backslash or a wildcard. -/
def PlainText (text : List Char) : Prop := ∀ c ∈ text, c ≠ '\\' ∧ c ≠ '*' ∧ c ≠ '?'

instance (text : List Char) : Decidable (PlainText text) :=
  List.decidableBAll (fun c => c ≠ '\\' ∧ c ≠ '*' ∧ c ≠ '?') text

/-- A backslash before every special character. -/
def escapeAll (text : List Char) : List Char :=
  text.flatMap fun c => if isSpecial c = true then ['\\', c] else [c]

/-- The text and its spelling are stored in one form, which is read back as the text and is not
escaped again. -/
structure CanonicalForm (attr attr' : List Char) : Prop where
  same : replaceAttribute attr' = replaceAttribute attr
  unescaped : unescape (replaceAttribute attr) = String.ofList attr
  stable : replaceAttribute (replaceAttribute attr).toList = replaceAttribute attr

theorem partlyEscaped_refl : ∀ text, PartlyEscaped text text
  | [] => .nil
  | c :: text => .keep c (partlyEscaped_refl text)

theorem partlyEscaped_escapeAll (text : List Char) : PartlyEscaped text (escapeAll text) := by
  induction text with
  | nil => exact .nil
  | cons c text ih =>
    show PartlyEscaped _ ((if isSpecial c = true then ['\\', c] else [c]) ++ escapeAll text)
    split
    · next hc => exact .escape c hc ih
    · exact .keep c ih

/-! ## 2. The gate -/

section Spellings
variable {text text' : List Char} {c : Char}

theorem ne_backslash_of_isSpecial (h : isSpecial c = true) : c ≠ '\\' := by
  rintro rfl
  revert h
  decide

theorem isEmpty_partlyEscaped (h : PartlyEscaped text text') : text'.isEmpty = text.isEmpty := by
  cases h <;> rfl

theorem reachesEnd_partlyEscaped (h : PartlyEscaped text text') :
    reachesEnd text' = reachesEnd text := by
  induction h with
  | nil => rfl
  | keep c h ih => rw [reachesEnd, reachesEnd, ih, isEmpty_partlyEscaped h]
  | escape c hc h ih =>
    rw [reachesEnd, reachesEnd, reachesEnd, ih, isEmpty_partlyEscaped h]
    rfl

/-- The backslashes do not open the gate, and they do not close it. -/
theorem hasNonAlphanum_partlyEscaped (h : PartlyEscaped text text') :
    hasNonAlphanum text' = hasNonAlphanum text := by
  induction h with
  | nil => rfl
  | keep c h ih => rw [hasNonAlphanum, hasNonAlphanum, ih, reachesEnd_partlyEscaped h]
  | escape c hc h ih =>
    have hslash : (isAsciiAlphanum '\\' || decide ('\\' ∈ ['_', '\\', ':'])) = true := by decide
    rw [hasNonAlphanum, hslash, hasNonAlphanum, hasNonAlphanum, ih, reachesEnd_partlyEscaped h]
    rfl

/-! ## 3. Escaping -/

/-- Without wildcards the first alternative of `SPECIAL_CHAR_REGEX` takes nothing. -/
theorem escapeFrom_cons {before : Option Char} {rest : List Char}
    (h : ∀ b ∈ rest.head?, b ≠ '*' ∧ b ≠ '?') :
    escapeFrom before (c :: rest) = escapeSingle before c ++ escapeFrom (some c) rest := by
  match rest with
  | [] => simp [escapeFrom]
  | [b] => rw [escapeFrom]
  | b :: d :: rest =>
    have hb := h b rfl
    rw [escapeFrom, if_neg]
    rintro ⟨-, -, hstar | hquestion, -⟩
    · exact hb.1 hstar
    · exact hb.2 hquestion

theorem head?_partlyEscaped (h : PartlyEscaped text text') (hplain : PlainText text) :
    ∀ b ∈ text'.head?, b ≠ '*' ∧ b ≠ '?' := by
  intro b hb
  cases h with
  | nil => cases hb
  | keep c h =>
    obtain rfl := Option.some.inj hb
    exact (hplain _ List.mem_cons_self).2
  | escape c hc h =>
    obtain rfl := Option.some.inj hb
    decide

theorem escapeAll_cons (c : Char) (text : List Char) :
    escapeAll (c :: text) = (if isSpecial c = true then ['\\', c] else [c]) ++ escapeAll text :=
  List.flatMap_cons

theorem escapeSingle_of_ne {b : Char} (hb : b ≠ '\\') (c : Char) :
    escapeSingle (some b) c = if isSpecial c = true then ['\\', c] else [c] := by
  simp only [escapeSingle, hb, ne_eq, not_false_eq_true, true_and]

theorem escapeSingle_backslash (before : Option Char) : escapeSingle before '\\' = ['\\'] := by
  cases before with
  | none => rfl
  | some b => exact if_neg fun hand => absurd hand.2 (by decide)

/-- Nothing is put between a backslash and the character that it escapes. -/
theorem escapeFrom_quoted {before : Option Char} {rest : List Char} (hc : c ≠ '*' ∧ c ≠ '?')
    (hrest : ∀ b ∈ rest.head?, b ≠ '*' ∧ b ≠ '?') :
    escapeFrom before ('\\' :: c :: rest) = '\\' :: c :: escapeFrom (some c) rest := by
  have hhead : ∀ b ∈ (c :: rest).head?, b ≠ '*' ∧ b ≠ '?' := by
    intro b hb
    obtain rfl := Option.some.inj hb
    exact hc
  have hafter : escapeSingle (some '\\') c = [c] := by simp [escapeSingle]
  rw [escapeFrom_cons hhead, escapeFrom_cons hrest, escapeSingle_backslash, hafter]
  rfl

/-- Behind a character that is no backslash, a spelling is completed. -/
theorem escapeFrom_partlyEscaped (h : PartlyEscaped text text') (hplain : PlainText text)
    {b : Char} (hb : b ≠ '\\') : escapeFrom (some b) text' = escapeAll text := by
  induction h generalizing b with
  | nil => rfl
  | @keep c text text' h ih =>
    obtain ⟨hc, htext⟩ := List.forall_mem_cons.mp hplain
    rw [escapeFrom_cons (head?_partlyEscaped h htext), ih htext hc.1, escapeSingle_of_ne hb,
      escapeAll_cons]
  | @escape c text text' hspecial h ih =>
    obtain ⟨hc, htext⟩ := List.forall_mem_cons.mp hplain
    rw [escapeFrom_quoted hc.2 (head?_partlyEscaped h htext), ih htext hc.1, escapeAll_cons,
      if_pos hspecial]
    rfl

/-- The first character stays as it is spelled. -/
theorem escapeFrom_keep (h : PartlyEscaped text text') (hplain : PlainText (c :: text)) :
    escapeFrom none (c :: text') = c :: escapeAll text := by
  obtain ⟨hc, htext⟩ := List.forall_mem_cons.mp hplain
  rw [escapeFrom_cons (head?_partlyEscaped h htext), escapeFrom_partlyEscaped h htext hc.1]
  rfl

theorem escapeFrom_escape (h : PartlyEscaped text text') (hplain : PlainText (c :: text)) :
    escapeFrom none ('\\' :: c :: text') = '\\' :: c :: escapeAll text := by
  obtain ⟨hc, htext⟩ := List.forall_mem_cons.mp hplain
  rw [escapeFrom_quoted hc.2 (head?_partlyEscaped h htext), escapeFrom_partlyEscaped h htext hc.1]

/-! ## 4. Forms -/

/-- A spelling of a text is no lone `*` and no lone `-`. -/
theorem replaceAttribute_partlyEscaped (h : PartlyEscaped text text') (hplain : PlainText text)
    (hdash : text ≠ ['-']) : replaceAttribute text' =
      String.ofList (if hasNonAlphanum text = true then escapeFrom none text' else text') := by
  have hone : ∀ d, text' = [d] → text = [d] := by
    rintro d rfl
    cases h with
    | keep c h =>
      cases h
      rfl
  have hany : text' ≠ ['*'] := fun heq =>
    (hplain '*' (hone '*' heq ▸ List.mem_cons_self)).2.1 rfl
  have hnone : text' ≠ ['-'] := fun heq => hdash (hone '-' heq)
  rw [replaceAttribute, if_neg hany, if_neg hnone, hasNonAlphanum_partlyEscaped h]
  split <;> rfl

theorem filter_escapeAll (hplain : PlainText text) :
    (escapeAll text).filter (fun c => decide (c ≠ '\\')) = text := by
  induction text with
  | nil => rfl
  | cons c text ih =>
    obtain ⟨hc, htext⟩ := List.forall_mem_cons.mp hplain
    rw [escapeAll_cons, List.filter_append, ih htext]
    split <;> simp [hc.1]

theorem unescape_replaceAttribute (hplain : PlainText text) (hdash : text ≠ ['-']) :
    unescape (replaceAttribute text) = String.ofList text := by
  have hself : text.filter (fun c => decide (c ≠ '\\')) = text :=
    List.filter_eq_self.mpr fun c hc => decide_eq_true (hplain c hc).1
  rw [replaceAttribute_partlyEscaped (partlyEscaped_refl text) hplain hdash, unescape,
    String.toList_ofList]
  split
  · cases text with
    | nil => rfl
    | cons c text =>
      obtain ⟨hc, htext⟩ := List.forall_mem_cons.mp hplain
      rw [escapeFrom_keep (partlyEscaped_refl text) hplain, List.filter_cons,
        if_pos (decide_eq_true hc.1), filter_escapeAll htext]
  · rw [hself]

/-- A form is a spelling, in which the first character has no backslash. -/
theorem replaceAttribute_stable (hplain : PlainText text) (hdash : text ≠ ['-']) :
    replaceAttribute (replaceAttribute text).toList = replaceAttribute text := by
  rw [replaceAttribute_partlyEscaped (partlyEscaped_refl text) hplain hdash, String.toList_ofList]
  split
  · next hgate =>
    cases text with
    | nil => rfl
    | cons c text =>
      rw [escapeFrom_keep (partlyEscaped_refl text) hplain, replaceAttribute_partlyEscaped
        (.keep c (partlyEscaped_escapeAll text)) hplain hdash, if_pos hgate,
        escapeFrom_keep (partlyEscaped_escapeAll text) hplain]
  · next hgate =>
    rw [replaceAttribute_partlyEscaped (partlyEscaped_refl text) hplain hdash, if_neg hgate]

theorem replaceAttribute_eq_iff (h : PartlyEscaped text text') (hplain : PlainText text)
    (hdash : text ≠ ['-']) : replaceAttribute text' = replaceAttribute text ↔
      text' = text ∨ (hasNonAlphanum text = true ∧ text'.head? ≠ some '\\') := by
  rw [replaceAttribute_partlyEscaped h hplain hdash,
    replaceAttribute_partlyEscaped (partlyEscaped_refl text) hplain hdash, String.ofList_inj]
  split
  · next hgate =>
    cases h with
    | nil => exact iff_of_true rfl (.inl rfl)
    | @keep c text text' h =>
      rw [escapeFrom_keep h hplain, escapeFrom_keep (partlyEscaped_refl text) hplain]
      exact iff_of_true rfl (.inr ⟨hgate, fun heq =>
        (hplain c List.mem_cons_self).1 (Option.some.inj heq)⟩)
    | @escape c text text' hspecial h =>
      have hc := ne_backslash_of_isSpecial hspecial
      rw [escapeFrom_escape h hplain, escapeFrom_keep (partlyEscaped_refl text) hplain]
      refine iff_of_false (fun heq => hc (List.cons.inj heq).1.symm) ?_
      rintro (heq | ⟨-, hhead⟩)
      · exact hc (List.cons.inj heq).1.symm
      · exact hhead rfl
  · next hgate => simp [hgate]

end Spellings

/-- Exactly when two spellings of a text have one form. -/
theorem canonicalForm_iff {attr attr' : List Char} (hplain : PlainText attr) (hdash : attr ≠ ['-'])
    (h : PartlyEscaped attr attr') : CanonicalForm attr attr' ↔
      attr' = attr ∨ (hasNonAlphanum attr = true ∧ attr'.head? ≠ some '\\') := by
  rw [← replaceAttribute_eq_iff h hplain hdash]
  exact ⟨CanonicalForm.same, fun hsame =>
    ⟨hsame, unescape_replaceAttribute hplain hdash, replaceAttribute_stable hplain hdash⟩⟩

/-- The dot of a version may be escaped or not. -/
theorem canonicalForm_version : CanonicalForm "1.0".toList "1\\.0".toList :=
  (canonicalForm_iff (by decide) (by decide) (.keep '1' (.escape '.' (by decide)
    (.keep '0' .nil)))).mpr (.inr (by decide))

/-- `a:b` and `a\:b` are the same text, and have two forms. -/
theorem two_forms : ¬ ∀ attr attr' : List Char, PlainText attr → attr ≠ ['-'] →
    PartlyEscaped attr attr' → CanonicalForm attr attr' := by
  intro h
  have hsame := (h "a:b".toList "a\\:b".toList (by decide) (by decide) (.keep 'a' (.escape ':'
    (by decide) (.keep 'b' .nil)))).same
  revert hsame
  decide

/-- A special character at the start: the backslash in front of it stays. -/
example : replaceAttribute "!a".toList = "!a" ∧ replaceAttribute "\\!a".toList = "\\!a" := by
  decide

end FactCore
