import Mathlib.Data.List.Forall2
import Mathlib.Data.List.Induction
import Mathlib.Logic.Function.Basic

/-!
# Regular expressions

Regular expressions with groups, back references and assertions about the context, and the
texts that they match.

Results:
1. `matches_sets_iff`: the texts of a sequence of character sets.
2. `AtMost.seq`, `AtMost.alt`, `AtMost.repeated`: how many characters of some kind a text can have
   that matches.
3. `accepts_unique`: a sequence of sets that has a single text.
-/

/-- What a regular expression is made of: a character out of a set, an assertion about what
stands before and after, the text of a group. -/
inductive RegexAtom
  | set (accepts : Char → Bool)
  | assertion (holds : List Char → List Char → Bool)
  | backreference (group : ℕ)

inductive Regex
  | empty
  | atom (a : RegexAtom)
  | seq (first second : Regex)
  | alt (first second : Regex)
  | group (number : ℕ) (r : Regex)
  /-- So many times, without a limit if there is no greatest number. -/
  | repeated (min : ℕ) (max : Option ℕ) (r : Regex)

/-- The texts of the groups so far. -/
abbrev Captures := ℕ → Option (List Char)

theorem exists_of_forall₂_append {α β : Type} {R : α → β → Prop} {l₁ l₂ : List α} {l' : List β}
    (h : List.Forall₂ R (l₁ ++ l₂) l') :
    ∃ l₁' l₂', List.Forall₂ R l₁ l₁' ∧ List.Forall₂ R l₂ l₂' ∧ l' = l₁' ++ l₂' := by
  induction l₁ generalizing l' with
  | nil => exact ⟨[], l', .nil, h, rfl⟩
  | cons a l₁ ih =>
    cases h with
    | @cons _ b _ bs hab hrest =>
      obtain ⟨l₁', l₂', h₁, h₂, rfl⟩ := ih hrest
      exact ⟨b :: l₁', l₂', .cons hab h₁, h₂, rfl⟩

namespace Regex

/-- `r.Matches before text after captures captures'`: `r` matches a text between two others. The
groups have changed their texts afterwards. -/
inductive Matches : Regex → List Char → List Char → List Char → Captures → Captures → Prop
  | empty {before after : List Char} {captures : Captures} :
      Matches .empty before [] after captures captures
  | set {accepts : Char → Bool} {c : Char} {before after : List Char} {captures : Captures} :
      accepts c = true → Matches (.atom (.set accepts)) before [c] after captures captures
  | assertion {holds : List Char → List Char → Bool} {before after : List Char}
      {captures : Captures} : holds before after = true →
      Matches (.atom (.assertion holds)) before [] after captures captures
  | backreference {n : ℕ} {before text after : List Char} {captures : Captures} :
      captures n = some text →
      Matches (.atom (.backreference n)) before text after captures captures
  | seq {r r' : Regex} {before text text' after : List Char}
      {captures captures' captures'' : Captures} :
      Matches r before text (text' ++ after) captures captures' →
      Matches r' (before ++ text) text' after captures' captures'' →
      Matches (.seq r r') before (text ++ text') after captures captures''
  | first {r r' : Regex} {before text after : List Char} {captures captures' : Captures} :
      Matches r before text after captures captures' →
      Matches (.alt r r') before text after captures captures'
  | second {r r' : Regex} {before text after : List Char} {captures captures' : Captures} :
      Matches r' before text after captures captures' →
      Matches (.alt r r') before text after captures captures'
  | group {n : ℕ} {r : Regex} {before text after : List Char} {captures captures' : Captures} :
      Matches r before text after captures captures' →
      Matches (.group n r) before text after captures (Function.update captures' n (some text))
  | stop {max : Option ℕ} {r : Regex} {before after : List Char} {captures : Captures} :
      Matches (.repeated 0 max r) before [] after captures captures
  | again {min : ℕ} {max : Option ℕ} {r : Regex} {before text text' after : List Char}
      {captures captures' captures'' : Captures} : max ≠ some 0 →
      Matches r before text (text' ++ after) captures captures' →
      Matches (.repeated (min - 1) (max.map (· - 1)) r) (before ++ text) text' after
        captures' captures'' →
      Matches (.repeated min max r) before (text ++ text') after captures captures''

/-- `re.fullmatch` finds a match. -/
def FullMatch (r : Regex) (text : List Char) : Prop :=
  ∃ captures, r.Matches [] text [] (fun _ => none) captures

/-- One regular expression after the other; the list holds the last one first. -/
def seqOf : List Regex → Regex
  | [] => .empty
  | r :: items => .seq (seqOf items) r

/-! ## 1. Sequences of sets -/

section Sets
variable {before text after : List Char} {captures captures' : Captures}

theorem matches_set_iff {accepts : Char → Bool} :
    (Regex.atom (.set accepts)).Matches before text after captures captures' ↔
      (∃ c, accepts c = true ∧ text = [c]) ∧ captures' = captures := by
  constructor
  · intro h
    cases h with
    | set hc => exact ⟨⟨_, hc, rfl⟩, rfl⟩
  · rintro ⟨⟨c, hc, rfl⟩, rfl⟩
    exact .set hc

/-- A sequence of sets matches the texts whose characters are in the sets. -/
theorem matches_sets_iff {sets : List (Char → Bool)} :
    (seqOf (sets.map fun accepts => .atom (.set accepts)).reverse).Matches before text after
        captures captures' ↔
      List.Forall₂ (fun accepts c => accepts c = true) sets text ∧ captures' = captures := by
  induction sets using List.reverseRecOn generalizing text after captures' with
  | nil =>
    constructor
    · intro h
      cases h
      exact ⟨.nil, rfl⟩
    · rintro ⟨h, rfl⟩
      cases h
      exact .empty
  | append_singleton sets accepts ih =>
    rw [List.map_append, List.reverse_append]
    constructor
    · intro h
      cases h with
      | seq hfront hlast =>
        obtain ⟨hsets, rfl⟩ := ih.mp hfront
        obtain ⟨⟨c, hc, rfl⟩, rfl⟩ := matches_set_iff.mp hlast
        exact ⟨List.rel_append hsets (.cons hc .nil), rfl⟩
    · rintro ⟨h, rfl⟩
      obtain ⟨front, last, hfront, hlast, rfl⟩ := exists_of_forall₂_append h
      cases hlast with
      | cons hc hnil =>
        cases hnil
        exact .seq (ih.mpr ⟨hfront, rfl⟩) (.set hc)

theorem fullMatch_sets_iff {sets : List (Char → Bool)} :
    (seqOf (sets.map fun accepts => .atom (.set accepts)).reverse).FullMatch text ↔
      List.Forall₂ (fun accepts c => accepts c = true) sets text := by
  constructor
  · rintro ⟨captures, h⟩
    exact (matches_sets_iff.mp h).1
  · intro h
    exact ⟨_, matches_sets_iff.mpr ⟨h, rfl⟩⟩

/-- If the sets have a single text, every one of them has a single character. -/
theorem accepts_unique {sets : List (Char → Bool)}
    (h : ∀ text', List.Forall₂ (fun accepts c => accepts c = true) sets text' ↔ text' = text)
    {accepts : Char → Bool} (hmem : accepts ∈ sets) {c c' : Char} (hc : accepts c = true)
    (hc' : accepts c' = true) : c = c' := by
  obtain ⟨front, back, rfl⟩ := List.append_of_mem hmem
  obtain ⟨text₁, text₂, hfront, hrest, htext⟩ :=
    exists_of_forall₂_append ((h text).mpr rfl)
  cases hrest with
  | cons _ hback =>
    have htext₁ := (h _).mp (List.rel_append hfront (.cons hc hback))
    have htext₂ := (h _).mp (List.rel_append hfront (.cons hc' hback))
    have heq := htext₁.trans htext₂.symm
    exact (List.cons.inj (List.append_cancel_left heq)).1

end Sets

/-! ## 2. The number of characters -/

/-- A text that matches has at most so many characters of a kind. -/
def AtMost (p : Char → Bool) (k : ℕ) (r : Regex) : Prop :=
  ∀ before text after captures captures', r.Matches before text after captures captures' →
    text.countP p ≤ k

section Bounds
variable {p : Char → Bool} {k k' : ℕ} {r r' : Regex}

theorem AtMost.mono (h : r.AtMost p k) (hk : k ≤ k') : r.AtMost p k' :=
  fun _ _ _ _ _ hmatch => Nat.le_trans (h _ _ _ _ _ hmatch) hk

theorem atMost_empty : Regex.empty.AtMost p 0 := by
  intro before text after captures captures' h
  cases h
  exact Nat.le_refl 0

theorem atMost_set (accepts : Char → Bool) : (Regex.atom (.set accepts)).AtMost p 1 := by
  intro before text after captures captures' h
  cases h
  exact List.countP_le_length

/-- A set without characters of the kind. -/
theorem atMost_set_zero {accepts : Char → Bool} (h : ∀ c, accepts c = true → p c = false) :
    (Regex.atom (.set accepts)).AtMost p 0 := by
  intro before text after captures captures' hmatch
  cases hmatch with
  | set hc => simp [h _ hc]

theorem atMost_assertion (holds : List Char → List Char → Bool) :
    (Regex.atom (.assertion holds)).AtMost p 0 := by
  intro before text after captures captures' h
  cases h
  exact Nat.le_refl 0

theorem AtMost.seq (h : r.AtMost p k) (h' : r'.AtMost p k') :
    (Regex.seq r r').AtMost p (k + k') := by
  intro before text after captures captures' hmatch
  cases hmatch with
  | seq hfirst hsecond =>
    rw [List.countP_append]
    exact Nat.add_le_add (h _ _ _ _ _ hfirst) (h' _ _ _ _ _ hsecond)

theorem AtMost.alt (h : r.AtMost p k) (h' : r'.AtMost p k) : (Regex.alt r r').AtMost p k := by
  intro before text after captures captures' hmatch
  cases hmatch with
  | first hmatch => exact h _ _ _ _ _ hmatch
  | second hmatch => exact h' _ _ _ _ _ hmatch

theorem AtMost.group (h : r.AtMost p k) (n : ℕ) : (Regex.group n r).AtMost p k := by
  intro before text after captures captures' hmatch
  cases hmatch with
  | group hmatch => exact h _ _ _ _ _ hmatch

/-- What has no characters of the kind does not have any if it is repeated. -/
theorem AtMost.repeated (h : r.AtMost p 0) (min : ℕ) (max : Option ℕ) :
    (Regex.repeated min max r).AtMost p 0 := by
  intro before text after captures captures' hmatch
  generalize hr : Regex.repeated min max r = r' at hmatch
  induction hmatch generalizing min max with
  | stop => exact Nat.le_refl 0
  | again hmax hfirst hrest _ ih =>
    cases hr
    rw [List.countP_append]
    exact Nat.add_le_add (h _ _ _ _ _ hfirst) (ih _ _ rfl)
  | _ => cases hr

end Bounds

end Regex
