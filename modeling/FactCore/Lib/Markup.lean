import Mathlib.Data.List.Infix

/-!
# Text with tags

How a text with tags is read, in the way of HTML. A `<` starts markup only before some
characters and is text otherwise; a `&` may start a character reference.

Results:
1. `readMarkup_text`, `readMarkup_tag`, `readMarkup_eq_none`: one token of the text.
2. `readMarkup_render`: tokens that are written out are read back exactly if no `<` of the text
   starts markup.
-/

/-- A character of the text or a tag. -/
inductive MarkupToken (τ : Type)
  | text (c : Char)
  | tag (t : τ)

/-- Tags with what stands after their `<`. A tag is not the beginning of another one. -/
structure TagSet (τ : Type) where
  tags : List τ
  spelling : τ → List Char
  startsTag : ∀ t ∈ tags, (∃ c rest, spelling t = c :: rest ∧ c.isAlpha = true) ∨
    ∃ c rest, spelling t = '/' :: c :: rest
  distinct : ∀ t ∈ tags, ∀ t' ∈ tags, spelling t <+: spelling t' → t = t'

/-- `<` starts a tag, an end tag, a comment or a declaration before this text. -/
def startsMarkup : List Char → Bool
  | [] => false
  -- at the very end `</` is text
  | '/' :: rest => !rest.isEmpty
  | c :: _ => c.isAlpha || c == '!' || c == '?'

/-- `&` may start a character reference before this text. -/
def startsReference : List Char → Bool
  | [] => false
  | '#' :: c :: _ => c.isAlphanum
  | c :: _ => c.isAlphanum

theorem startsReference_cons_of_ne {c : Char} (h : c ≠ '#') (cs : List Char) :
    startsReference (c :: cs) = c.isAlphanum := by
  cases cs with
  | nil => rw [startsReference.eq_3 _ _ (by simp)]
  | cons d cs => rw [startsReference.eq_3 _ _ (by simpa using h)]

/-- The character references: what one stands for and its length, from the text after `&`. -/
structure CharacterReferences where
  read : List Char → Option (List Char × Nat)
  starts : ∀ cs, (read cs).isSome → startsReference cs = true

namespace MarkupToken
variable {τ : Type}

/-- The tokens written out. -/
def render (spelling : τ → List Char) (tokens : List (MarkupToken τ)) : List Char :=
  tokens.flatMap fun
    | text c => [c]
    | tag t => '<' :: spelling t

/-- The text without the tags. -/
def textOf (tokens : List (MarkupToken τ)) : List Char :=
  tokens.flatMap fun
    | text c => [c]
    | tag _ => []

end MarkupToken

open MarkupToken

section Read
variable {τ : Type} {tagSet : TagSet τ} {references : CharacterReferences}

/-- The tag that stands after a `<`. -/
def TagSet.tagAt (tagSet : TagSet τ) (cs : List Char) : Option τ :=
  tagSet.tags.find? fun t => (tagSet.spelling t).isPrefixOf cs

/-- The tokens of a text, none if there is other markup than the tags of the set. The first
characters, which belong to the token before, are skipped. -/
def readMarkup (tagSet : TagSet τ) (references : CharacterReferences) :
    Nat → List Char → Option (List (MarkupToken τ))
  | _, [] => some []
  | skip + 1, _ :: cs => readMarkup tagSet references skip cs
  | 0, c :: cs =>
    if c = '<' ∧ startsMarkup cs then
      match tagSet.tagAt cs with
      | some t =>
        (readMarkup tagSet references (tagSet.spelling t).length cs).map (tag t :: ·)
      | none => none
    else if c = '&' then
      match references.read cs with
      | some (chars, length) =>
        (readMarkup tagSet references length cs).map (chars.map text ++ ·)
      | none => (readMarkup tagSet references 0 cs).map (text c :: ·)
    else (readMarkup tagSet references 0 cs).map (text c :: ·)

/-! ## 1. One token -/

theorem readMarkup_skip (n : Nat) (cs : List Char) :
    readMarkup tagSet references n cs = readMarkup tagSet references 0 (cs.drop n) := by
  induction cs generalizing n with
  | nil => cases n <;> rfl
  | cons c cs ih =>
    cases n with
    | zero => rfl
    | succ n => exact ih n

/-- A character that starts neither markup nor a reference is text. -/
theorem readMarkup_text {c : Char} {cs : List Char} (hmarkup : c = '<' → startsMarkup cs = false)
    (hreference : c = '&' → startsReference cs = false) :
    readMarkup tagSet references 0 (c :: cs) =
      (readMarkup tagSet references 0 cs).map (text c :: ·) := by
  have hnot : ¬(c = '<' ∧ startsMarkup cs = true) := by
    rintro ⟨hc, hstarts⟩
    rw [hmarkup hc] at hstarts
    cases hstarts
  rw [readMarkup, if_neg hnot]
  split
  · next hc =>
    cases hread : references.read cs with
    | none => rfl
    | some result =>
      have hstarts := references.starts cs (by rw [hread]; rfl)
      rw [hreference hc] at hstarts
      cases hstarts
  · rfl

/-- Markup that is none of the tags is not read. -/
theorem readMarkup_eq_none {cs : List Char} (hstarts : startsMarkup cs = true)
    (htags : ∀ t ∈ tagSet.tags, ¬tagSet.spelling t <+: cs) :
    readMarkup tagSet references 0 ('<' :: cs) = none := by
  have hnone : tagSet.tagAt cs = none :=
    List.find?_eq_none.mpr fun t ht hprefix => htags t ht (List.isPrefixOf_iff_prefix.mp hprefix)
  rw [readMarkup, if_pos ⟨rfl, hstarts⟩, hnone]

theorem startsMarkup_spelling {t : τ} (ht : t ∈ tagSet.tags) (cs : List Char) :
    startsMarkup (tagSet.spelling t ++ cs) = true := by
  rcases tagSet.startsTag t ht with ⟨c, rest, hspelling, hc⟩ | ⟨c, rest, hspelling⟩
  · have hslash : c ≠ '/' := by
      rintro rfl
      cases hc
    rw [hspelling, List.cons_append, startsMarkup.eq_3 _ _ (by simpa using hslash), hc]
    rfl
  · rw [hspelling]
    rfl

/-- A tag is read as it is spelled. -/
theorem tagAt_spelling {t : τ} (ht : t ∈ tagSet.tags) (cs : List Char) :
    tagSet.tagAt (tagSet.spelling t ++ cs) = some t := by
  have hsome : (tagSet.tagAt (tagSet.spelling t ++ cs)).isSome := by
    refine List.find?_isSome.mpr ⟨t, ht, ?_⟩
    exact List.isPrefixOf_iff_prefix.mpr (List.prefix_append _ _)
  obtain ⟨t', htag⟩ := Option.isSome_iff_exists.mp hsome
  have ht' := List.mem_of_find?_eq_some htag
  have hprefix' : tagSet.spelling t' <+: tagSet.spelling t ++ cs :=
    List.isPrefixOf_iff_prefix.mp
      (List.find?_some (p := fun t => (tagSet.spelling t).isPrefixOf _) htag)
  -- both are beginnings of one text, so one of them is the beginning of the other
  have heq : t' = t := by
    rcases List.prefix_or_prefix_of_prefix hprefix' (List.prefix_append _ cs) with h | h
    · exact tagSet.distinct t' ht' t ht h
    · exact (tagSet.distinct t ht t' ht' h).symm
  rw [htag, heq]

theorem readMarkup_tag {t : τ} (ht : t ∈ tagSet.tags) (cs : List Char) :
    readMarkup tagSet references 0 ('<' :: (tagSet.spelling t ++ cs)) =
      (readMarkup tagSet references 0 cs).map (tag t :: ·) := by
  rw [readMarkup, if_pos ⟨rfl, startsMarkup_spelling ht cs⟩, tagAt_spelling ht]
  dsimp only
  rw [readMarkup_skip, List.drop_left]

/-! ## 2. Tokens written out and read back -/

/-- No `<` of the text starts markup. -/
def harmless (tagSet : TagSet τ) : List (MarkupToken τ) → List Char → Bool
  | [], _ => true
  | text c :: tokens, rest =>
    !(c == '<' && startsMarkup (render tagSet.spelling tokens ++ rest)) &&
      harmless tagSet tokens rest
  | tag _ :: tokens, rest => harmless tagSet tokens rest

/-- No character of the text starts a reference or one of the tags. -/
inductive Separate (tagSet : TagSet τ) (rest : List Char) : List (MarkupToken τ) → Prop
  | nil : Separate tagSet rest []
  | text {c : Char} {tokens : List (MarkupToken τ)} :
      (c = '&' → startsReference (render tagSet.spelling tokens ++ rest) = false) →
      (c = '<' → ∀ t ∈ tagSet.tags,
        ¬tagSet.spelling t <+: render tagSet.spelling tokens ++ rest) →
      Separate tagSet rest tokens → Separate tagSet rest (MarkupToken.text c :: tokens)
  | tag {t : τ} {tokens : List (MarkupToken τ)} :
      t ∈ tagSet.tags → Separate tagSet rest tokens →
      Separate tagSet rest (MarkupToken.tag t :: tokens)

/-- Tokens are read back exactly if they are harmless. -/
theorem readMarkup_render (references : CharacterReferences)
    {tokens : List (MarkupToken τ)} {rest : List Char}
    (h : Separate tagSet rest tokens) :
    readMarkup tagSet references 0 (render tagSet.spelling tokens ++ rest) =
      if harmless tagSet tokens rest then
        (readMarkup tagSet references 0 rest).map (tokens ++ ·)
      else none := by
  induction h with
  | nil =>
    rw [harmless, if_pos rfl]
    exact Option.map_id'.symm
  | @tag t tokens ht _ ih =>
    have hrender : render tagSet.spelling (tag t :: tokens) ++ rest =
        '<' :: (tagSet.spelling t ++ (render tagSet.spelling tokens ++ rest)) := by
      simp [render]
    rw [hrender, readMarkup_tag ht, ih, harmless]
    split
    · rw [Option.map_map]
      rfl
    · rfl
  | @text c tokens hreference htag _ ih =>
    have hrender : render tagSet.spelling (text c :: tokens) ++ rest =
        c :: (render tagSet.spelling tokens ++ rest) := by
      simp [render]
    rw [hrender, harmless]
    by_cases hmarkup : c = '<' ∧ startsMarkup (render tagSet.spelling tokens ++ rest) = true
    · obtain ⟨rfl, hstarts⟩ := hmarkup
      rw [readMarkup_eq_none hstarts (htag rfl), hstarts]
      rfl
    · have hnot : (c == '<' && startsMarkup (render tagSet.spelling tokens ++ rest)) = false := by
        simpa using hmarkup
      have htext : c = '<' → startsMarkup (render tagSet.spelling tokens ++ rest) = false := by
        intro hc
        simpa using fun hstarts => hmarkup ⟨hc, hstarts⟩
      rw [readMarkup_text htext hreference, ih, hnot, Bool.not_false, Bool.true_and]
      split
      · rw [Option.map_map]
        rfl
      · rfl

theorem render_append (spelling : τ → List Char) (tokens tokens' : List (MarkupToken τ)) :
    render spelling (tokens ++ tokens') = render spelling tokens ++ render spelling tokens' :=
  List.flatMap_append

theorem textOf_append (tokens tokens' : List (MarkupToken τ)) :
    textOf (tokens ++ tokens') = textOf tokens ++ textOf tokens' :=
  List.flatMap_append

theorem render_map_text (spelling : τ → List Char) (cs : List Char) :
    render spelling (cs.map text) = cs := by
  rw [render, List.flatMap_map]
  exact List.flatMap_singleton' cs

theorem textOf_map_text (cs : List Char) :
    textOf (cs.map text : List (MarkupToken τ)) = cs := by
  rw [textOf, List.flatMap_map]
  exact List.flatMap_singleton' cs

theorem harmless_append (tokens tokens' : List (MarkupToken τ)) (rest : List Char) :
    harmless tagSet (tokens ++ tokens') rest =
      (harmless tagSet tokens (render tagSet.spelling tokens' ++ rest) &&
        harmless tagSet tokens' rest) := by
  induction tokens with
  | nil => rfl
  | cons token tokens ih =>
    cases token with
    | tag t => exact ih
    | text c =>
      rw [List.cons_append, harmless, harmless, ih, render_append, List.append_assoc,
        Bool.and_assoc]

theorem Separate.append {tokens tokens' : List (MarkupToken τ)} {rest : List Char}
    (h : Separate tagSet (render tagSet.spelling tokens' ++ rest) tokens)
    (h' : Separate tagSet rest tokens') : Separate tagSet rest (tokens ++ tokens') := by
  induction h with
  | nil => exact h'
  | tag ht _ ih => exact .tag ht ih
  | text hreference htag _ ih =>
    rw [List.cons_append]
    refine .text ?_ ?_ ih
    · rwa [render_append, List.append_assoc]
    · rwa [render_append, List.append_assoc]

/-- Text without `<` and `&` between tags of the set is read as it is written. -/
theorem harmless_of_plain {tokens : List (MarkupToken τ)}
    (h : ∀ c, text c ∈ tokens → c ≠ '<') (rest : List Char) :
    harmless tagSet tokens rest = true := by
  induction tokens with
  | nil => rfl
  | cons token tokens ih =>
    have hrest := ih fun c hc => h c (List.mem_cons_of_mem _ hc)
    cases token with
    | tag t => exact hrest
    | text c =>
      have hc : (c == '<') = false := by simpa using h c List.mem_cons_self
      rw [harmless, hrest, hc]
      rfl

theorem separate_of_plain {tokens : List (MarkupToken τ)}
    (h : ∀ c, text c ∈ tokens → c ≠ '<' ∧ c ≠ '&') (htags : ∀ t, tag t ∈ tokens → t ∈ tagSet.tags)
    (rest : List Char) : Separate tagSet rest tokens := by
  induction tokens with
  | nil => exact .nil
  | cons token tokens ih =>
    have hrest := ih (fun c hc => h c (List.mem_cons_of_mem _ hc))
      fun t ht => htags t (List.mem_cons_of_mem _ ht)
    cases token with
    | tag t => exact .tag (htags t List.mem_cons_self) hrest
    | text c =>
      have hc := h c List.mem_cons_self
      exact .text (fun hamp => absurd hamp hc.2) (fun hless => absurd hless hc.1) hrest

end Read
