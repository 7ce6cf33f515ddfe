import FactCore.CveLookup.Products
import FactCore.Lib.Occurrence

/-!
# Products in CVE summaries

A summary is about a product if the name of the vendor stands in it and the words of
the product name follow within a few words. The search for the words gives up after
the first word that is the first one of the name, even if the name starts later.

`str.lower` is a parameter.

Results:
1. `wordSequenceIsInWordList_iff`, `productIsMentionedInSummary_iff`: what is found.
2. `summaryMatching_iff`: when that is every occurrence.
3. `repeated_word`: a repeated word hides the product.
-/

namespace FactCore

/-- `MAX_TERM_SPREAD`. -/
def maxTermSpread : Nat := 3

/-- `remaining_words_present`: `zip` stops at the end of the shorter list. -/
def remainingWordsPresent (wordList words : List String) : Bool :=
  ((wordList.take words.length).zip words).all fun w => termsMatch w.1 w.2

/-- `word_sequence_is_in_word_list`. The indices are in range, and a sequence of words from
`str.split` is not empty. -/
def wordSequenceIsInWordList (wordList wordSequence : List String) : Bool :=
  if wordList.length < wordSequence.length then false
  else
    let indices := List.range (min maxTermSpread (wordList.length + 1 - wordSequence.length))
    match indices.find? fun index =>
        termsMatch (wordList.getD index "") (wordSequence.headD "") with
    | some index => remainingWordsPresent (wordList.drop (index + 1)) wordSequence.tail
    | none => false

/-- `product_is_mentioned_in_summary`. -/
def productIsMentionedInSummary (lower : String → String) (product : Product)
    (summary : String) : Bool :=
  let wordList := splitAtChar ' ' summary
  let vendor := (splitAtChar '_' product.vendorName).headD ""
  let nameComponents := splitAtChar '_' product.productName
  (List.range wordList.length).any fun index =>
    termsMatch vendor (lower (wordList.getD index "")) &&
      wordSequenceIsInWordList (wordList.drop (index + 1)) nameComponents

/-! ## 1. What is found -/

section Words
variable {w words rest : List String} {first : String} {index : Nat}

theorem remainingWordsPresent_iff (h : words.length ≤ w.length) :
    remainingWordsPresent w words = true ↔ words <+: w := by
  unfold remainingWordsPresent
  induction words generalizing w with
  | nil => simp
  | cons word words ih =>
    cases w with
    | nil => cases h
    | cons x w =>
      have htail := ih (Nat.le_of_succ_le_succ h)
      rw [List.length_cons, List.take_succ_cons, List.zip_cons_cons, List.all_cons,
        Bool.and_eq_true, htail, termsMatch, decide_eq_true_iff, List.cons_prefix_cons, eq_comm]

theorem getD_eq_iff (h : index < w.length) : w.getD index "" = first ↔ w[index]? = some first := by
  rw [List.getD_eq_getElem?_getD, List.getElem?_eq_getElem h, Option.getD_some, Option.some.injEq]

/-- The sequence is found where it occurs, if its first word does not stand before. -/
theorem wordSequenceIsInWordList_iff :
    wordSequenceIsInWordList w (first :: rest) = true ↔
      ∃ i < maxTermSpread, OccursFirst (first :: rest) w i := by
  have hfits : ∀ i, OccursFirst (first :: rest) w i → i + (rest.length + 1) ≤ w.length :=
    fun i h => h.1.length_le (List.cons_ne_nil _ _)
  unfold wordSequenceIsInWordList
  split
  · next hlen =>
    refine iff_of_false Bool.false_ne_true ?_
    rintro ⟨i, -, h⟩
    have hle := hfits i h
    rw [List.length_cons] at hlen
    omega
  · next hlen =>
    rw [List.length_cons] at hlen
    dsimp only
    split
    · next index hfind =>
      obtain ⟨hmatch, hrange, hnone⟩ := List.find?_range_eq_some.mp hfind
      rw [List.mem_range, List.length_cons] at hrange
      have hlt : index < w.length := by omega
      have hword : w[index]? = some first := (getD_eq_iff hlt).mp (of_decide_eq_true hmatch)
      have hbefore : ∀ j < index, w[j]? ≠ some first := by
        intro j hj hword'
        have hno := hnone j hj
        rw [Bool.not_eq_true', termsMatch, decide_eq_false_iff_not] at hno
        exact hno ((getD_eq_iff (by omega)).mpr hword')
      rw [exists_occursFirst_iff hword hbefore (by omega), List.tail_cons]
      refine remainingWordsPresent_iff ?_
      rw [List.length_drop]
      omega
    · next hfind =>
      refine iff_of_false Bool.false_ne_true ?_
      rintro ⟨i, hi, h⟩
      have hle := hfits i h
      have hno := List.find?_range_eq_none.mp hfind i (by rw [List.length_cons]; omega)
      rw [Bool.not_eq_true', termsMatch, decide_eq_false_iff_not] at hno
      exact hno ((getD_eq_iff (by omega)).mpr (occursAt_cons.mp h.1).1)

end Words

/-! ## 2. What should be found -/

/-- The first word of the vendor name, and the words of the product name. -/
def Product.vendorWord (product : Product) : String :=
  (splitAtChar '_' product.vendorName).headD ""

def Product.nameWords (product : Product) : List String := splitAtChar '_' product.productName

/-- The sequence starts at one of the positions in reach. -/
def InReach (occurs : List String → List String → Nat → Prop) (wordSequence wordList : List String) :
    Prop :=
  ∃ i < maxTermSpread, occurs wordSequence wordList i

/-- Behind some word for the vendor the words of the product name are in reach. -/
def MentionedIn (occurs : List String → List String → Nat → Prop) (lower : String → String)
    (product : Product) (summary : String) : Prop :=
  ∃ index word, (splitAtChar ' ' summary)[index]? = some word ∧ lower word = product.vendorWord ∧
    InReach occurs product.nameWords ((splitAtChar ' ' summary).drop (index + 1))

theorem InReach.of_occursFirst {wordSequence wordList : List String}
    (h : InReach OccursFirst wordSequence wordList) : InReach OccursAt wordSequence wordList := by
  obtain ⟨i, hi, hoccurs, -⟩ := h
  exact ⟨i, hi, hoccurs⟩

theorem MentionedIn.of_occursFirst {lower : String → String} {product : Product} {summary : String}
    (h : MentionedIn OccursFirst lower product summary) :
    MentionedIn OccursAt lower product summary := by
  obtain ⟨index, word, hword, hvendor, hreach⟩ := h
  exact ⟨index, word, hword, hvendor, hreach.of_occursFirst⟩

theorem productIsMentionedInSummary_iff {lower : String → String} {product : Product}
    {summary : String} : productIsMentionedInSummary lower product summary = true ↔
      MentionedIn OccursFirst lower product summary := by
  have hname : ∃ first rest, product.nameWords = first :: rest :=
    List.exists_cons_of_ne_nil (splitAtChar_ne_nil '_' product.productName)
  obtain ⟨first, rest, hname⟩ := hname
  have hfound : ∀ w, wordSequenceIsInWordList w product.nameWords = true ↔
      InReach OccursFirst product.nameWords w := by
    intro w
    rw [hname]
    exact wordSequenceIsInWordList_iff
  unfold productIsMentionedInSummary
  simp only [List.any_eq_true, List.mem_range, Bool.and_eq_true, termsMatch, decide_eq_true_iff]
  constructor
  · rintro ⟨index, hindex, hvendor, hwords⟩
    exact ⟨index, _, (getD_eq_iff hindex).mp rfl, hvendor.symm, (hfound _).mp hwords⟩
  · rintro ⟨index, word, hword, hvendor, hreach⟩
    obtain ⟨hindex, -⟩ := List.getElem?_eq_some_iff.mp hword
    refine ⟨index, hindex, ?_, (hfound _).mpr hreach⟩
    rw [(getD_eq_iff hindex).mpr hword]
    exact hvendor.symm

/-- Words are found wherever they are in reach if and only if, when they are, they also start at the
first position that holds their first word; a product is found if and only if that is so behind
one of the words for its vendor. -/
theorem summaryMatching_iff (lower : String → String) :
    (∀ wordList first rest,
      ((wordSequenceIsInWordList wordList (first :: rest) = true ↔
          InReach OccursAt (first :: rest) wordList) ↔
        (InReach OccursAt (first :: rest) wordList →
          InReach OccursFirst (first :: rest) wordList))) ∧
    ∀ product summary,
      ((productIsMentionedInSummary lower product summary = true ↔
          MentionedIn OccursAt lower product summary) ↔
        (MentionedIn OccursAt lower product summary →
          MentionedIn OccursFirst lower product summary)) := by
  refine ⟨fun wordList first rest => ?_, fun product summary => ?_⟩
  · rw [wordSequenceIsInWordList_iff]
    exact ⟨fun h => h.mpr, fun h => ⟨InReach.of_occursFirst, h⟩⟩
  · rw [productIsMentionedInSummary_iff]
    exact ⟨fun h => h.mpr, fun h => ⟨MentionedIn.of_occursFirst, h⟩⟩

/-- A word that is repeated hides the product, in a list of words and in a summary. -/
theorem repeated_word :
    ¬ ((∀ wordList wordSequence, wordSequence ≠ [] →
        (wordSequenceIsInWordList wordList wordSequence = true ↔
          InReach OccursAt wordSequence wordList)) ∧
      ∀ lower product summary, productIsMentionedInSummary lower product summary = true ↔
        MentionedIn OccursAt lower product summary) := by
  rintro ⟨hwords, -⟩
  have hreach : InReach OccursAt ["windows", "7"] ["windows", "windows", "7"] :=
    ⟨1, by decide, by decide⟩
  exact absurd ((hwords _ _ (List.cons_ne_nil _ _)).mpr hreach) (by decide)

example : productIsMentionedInSummary id ⟨"microsoft", "windows_7", "ANY"⟩
    "flaw in microsoft windows windows 7" = false := by
  decide

end FactCore
