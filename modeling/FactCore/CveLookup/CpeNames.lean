import FactCore.CveLookup.Repository

/-!
# CPE names and their columns

`setup_cpe_table`, `setup_cve_feeds_table` and `insert_rows`: a CPE in the formatted
string binding is split at its colons, and every attribute is a column.

`CPE_SPLIT_REGEX` looks at the two characters before a colon. A colon after `\` is
part of the attribute, and the colon after `\:` is a separator again. What is missing
is the colon after `\\`: it ends an attribute, and the expression takes it as escaped.

Results:
1. `splitCpe_joined`: the parts are the attributes if none but the last ends in a `\`.
2. `length_splitCpe_joined`: otherwise there is one part less for each of them.
3. `columns_iff`: exactly when the rows of the names have the columns of their tables.
4. `columns_lost`: a name that is ignored as a wrong entry.
-/

namespace FactCore

/-! ## 1. Names -/

/-- A character of an attribute: it stands alone, or after a backslash. -/
inductive CpeToken
  | plain (c : Char) (h : c ≠ ':' ∧ c ≠ '\\')
  | quoted (c : Char)

def CpeToken.chars : CpeToken → List Char
  | .plain c _ => [c]
  | .quoted c => ['\\', c]

/-- An attribute. There is a last character, so it is not empty. -/
structure CpeAttribute where
  front : List CpeToken
  final : CpeToken

def CpeAttribute.chars (a : CpeAttribute) : List Char :=
  a.front.flatMap CpeToken.chars ++ a.final.chars

/-- The last character is a backslash, which stands after another one. -/
def CpeAttribute.endsInBackslash (a : CpeAttribute) : Bool :=
  match a.final with
  | .plain _ _ => false
  | .quoted c => decide (c = '\\')

/-- The attributes with colons between them. -/
def joined (attributes : List CpeAttribute) : List Char :=
  [':'].intercalate (attributes.map CpeAttribute.chars)

/-- The attributes of a name, from `part` to `other`. -/
structure CpeName where
  attributes : List CpeAttribute
  length_eq : attributes.length = 11

/-- The formatted string. -/
def CpeName.formatted (name : CpeName) : String :=
  String.ofList ("cpe:2.3:".toList ++ joined name.attributes)

/-- No attribute with one behind it ends in a backslash. -/
def CpeName.SplitsRight (name : CpeName) : Prop :=
  ∀ a ∈ name.attributes.dropLast, a.endsInBackslash = false

instance (name : CpeName) : Decidable name.SplitsRight :=
  inferInstanceAs (Decidable (∀ a ∈ name.attributes.dropLast, a.endsInBackslash = false))

/-! ## 2. Rows -/

/-- A row of `cpe_table`. The elements of the CPE are columns of their own. -/
structure CpeRow where
  cpeId : String
  cpeElements : List String
  deriving DecidableEq

def CpeRow.width (row : CpeRow) : Nat := 1 + row.cpeElements.length

/-- The number of `CPE_DB_FIELDS`. -/
def CpeRow.columns : Nat := 12

/-- `setup_cpe_table`. -/
def setupCpeTable (cpeList : List String) : List CpeRow :=
  cpeList.map fun cpe => ⟨cpe, cpeElements cpe⟩

/-- Nothing is ignored exactly if every row has the columns of the table. -/
theorem wrongEntries_eq_nil_iff {ρ : Type} [DecidableEq ρ] {width : ρ → Nat} {columns : Nat}
    {inputData : List ρ} :
    wrongEntries width columns inputData = [] ↔ ∀ e ∈ inputData, width e = columns := by
  simp only [wrongEntries, List.filter_eq_nil_iff, List.mem_dedup, decide_eq_true_iff,
    Decidable.not_not]

/-- The names are split into their attributes, and no row of a table with these CPEs is
ignored. -/
structure ColumnsRight [IntegerColumn] (names : List CpeName) : Prop where
  split : ∀ name ∈ names, (splitCpe none none name.formatted.toList).drop 2 =
    name.attributes.map CpeAttribute.chars
  cpeTable : wrongEntries CpeRow.width CpeRow.columns
    (setupCpeTable (names.map CpeName.formatted)) = []
  cveTable : ∀ cveList : List CveEntry,
    (∀ entry ∈ cveList, ∀ cpe ∈ entry.cpeList, cpe.cpeId ∈ names.map CpeName.formatted) →
    ∀ rows, setupCveFeedsTable cveList = .ok rows →
      wrongEntries FeedRow.width (FeedRow.columns CveRow) rows = []

/-! ## 3. Splitting -/

section Splitting
variable {near far : Option Char} {c : Char} {rest : List Char}

theorem splitCpe_ne_nil : splitCpe near far rest ≠ [] := by
  cases rest with
  | nil => exact List.cons_ne_nil _ _
  | cons c rest =>
    unfold splitCpe
    dsimp only
    split
    · exact List.cons_ne_nil _ _
    · split <;> exact List.cons_ne_nil _ _

/-- A character that is no separator belongs to the next part. -/
theorem splitCpe_cons (h : c ≠ ':' ∨ near = some '\\') :
    splitCpe near far (c :: rest) = (splitCpe (some c) near rest).modifyHead (c :: ·) := by
  conv_lhs => unfold splitCpe
  rw [if_neg]
  · cases hparts : splitCpe (some c) near rest with
    | nil => exact absurd hparts splitCpe_ne_nil
    | cons part parts => rfl
  · rintro ⟨hc, hnear⟩
    rcases h with hne | rfl
    · exact hne hc
    · rcases hnear with ⟨hslash, -⟩ | ⟨hcolon, -⟩
      · exact hslash rfl
      · exact absurd hcolon (by decide)

theorem splitCpe_separator
    (h : (near ≠ some '\\' ∧ near ≠ some ':' ∧ rest.head? ≠ some ':') ∨
      (near = some ':' ∧ far = some '\\')) :
    splitCpe near far (':' :: rest) = [] :: splitCpe (some ':') near rest := by
  conv_lhs => unfold splitCpe
  exact if_pos ⟨rfl, h⟩

/-- The characters of an attribute but the last one never hold a separator. -/
theorem splitCpe_tokens (tokens : List CpeToken) (near far : Option Char) :
    ∃ near' far', ∀ rest, splitCpe near far (tokens.flatMap CpeToken.chars ++ rest) =
      (splitCpe near' far' rest).modifyHead (tokens.flatMap CpeToken.chars ++ ·) := by
  induction tokens generalizing near far with
  | nil => exact ⟨near, far, fun rest => (congrFun List.modifyHead_id _).symm⟩
  | cons token tokens ih =>
    cases token with
    | plain c h =>
      obtain ⟨near', far', htokens⟩ := ih (some c) near
      refine ⟨near', far', fun rest => ?_⟩
      show splitCpe near far (c :: (tokens.flatMap CpeToken.chars ++ rest)) = _
      rw [splitCpe_cons (.inl h.1), htokens, List.modifyHead_modifyHead]
      rfl
    | quoted c =>
      obtain ⟨near', far', htokens⟩ := ih (some c) (some '\\')
      refine ⟨near', far', fun rest => ?_⟩
      show splitCpe near far ('\\' :: c :: (tokens.flatMap CpeToken.chars ++ rest)) = _
      rw [splitCpe_cons (.inl (by decide)), splitCpe_cons (.inr rfl), htokens,
        List.modifyHead_modifyHead, List.modifyHead_modifyHead]
      rfl

end Splitting

/-! ## 4. Attributes -/

section Attributes
variable {rest : List Char}

/-- An attribute with a separator behind it. If it ends in a backslash, the separator is taken as
escaped. -/
theorem splitCpe_attribute (near far : Option Char) (a : CpeAttribute)
    (hrest : rest.head? ≠ some ':') :
    ∃ near' far', splitCpe near far (a.chars ++ ':' :: rest) =
      if a.endsInBackslash then (splitCpe near' far' rest).modifyHead (a.chars ++ ':' :: ·)
      else a.chars :: splitCpe near' far' rest := by
  obtain ⟨front, final⟩ := a
  obtain ⟨near', far', hfront⟩ := splitCpe_tokens front near far
  cases final with
  | plain c h =>
    refine ⟨some ':', some c, ?_⟩
    rw [CpeAttribute.chars, List.append_assoc, hfront]
    show (splitCpe near' far' (c :: ':' :: rest)).modifyHead _ = _ :: _
    rw [splitCpe_cons (.inl h.1), splitCpe_separator (.inl
      ⟨fun heq => h.2 (Option.some.inj heq), fun heq => h.1 (Option.some.inj heq), hrest⟩)]
    rfl
  | quoted c =>
    refine ⟨some ':', some c, ?_⟩
    rw [CpeAttribute.chars, List.append_assoc, hfront]
    show (splitCpe near' far' ('\\' :: c :: ':' :: rest)).modifyHead _ =
      if decide (c = '\\') = true then _ else _
    rw [splitCpe_cons (.inl (by decide)), splitCpe_cons (.inr rfl)]
    rcases Decidable.em (c = '\\') with rfl | hslash
    · rw [splitCpe_cons (.inr rfl), List.modifyHead_modifyHead, List.modifyHead_modifyHead,
        List.modifyHead_modifyHead, if_pos (by decide)]
      congr 1
      funext part
      simp [CpeToken.chars]
    · rw [splitCpe_separator, if_neg (by simpa using hslash)]
      · rfl
      · -- the expression splits at `\::`
        rcases Decidable.em (c = ':') with rfl | hcolon
        · exact .inr ⟨rfl, rfl⟩
        · exact .inl ⟨fun heq => hslash (Option.some.inj heq),
            fun heq => hcolon (Option.some.inj heq), hrest⟩

/-- The last attribute is a part as it stands. -/
theorem splitCpe_final (a : CpeAttribute) (near far : Option Char) :
    splitCpe near far a.chars = [a.chars] := by
  obtain ⟨near', far', hfront⟩ := splitCpe_tokens (a.front ++ [a.final]) near far
  have hchars : (a.front ++ [a.final]).flatMap CpeToken.chars = a.chars := by
    simp [CpeAttribute.chars]
  have hsplit := hfront []
  rw [hchars, List.append_nil] at hsplit
  rw [hsplit]
  simp [splitCpe]

theorem head?_chars (a : CpeAttribute) (rest : List Char) :
    (a.chars ++ rest).head? ≠ some ':' := by
  have htoken : ∀ (token : CpeToken) (rest : List Char), (token.chars ++ rest).head? ≠ some ':' := by
    intro token rest
    cases token with
    | plain c h => exact fun heq => h.1 (Option.some.inj heq)
    | quoted c => exact fun heq => absurd (Option.some.inj heq) (by decide)
  obtain ⟨front, final⟩ := a
  cases front with
  | nil => exact htoken final rest
  | cons token front =>
    rw [CpeAttribute.chars, List.flatMap_cons, List.append_assoc, List.append_assoc]
    exact htoken token _

theorem joined_cons_cons (a b : CpeAttribute) (attributes : List CpeAttribute) :
    joined (a :: b :: attributes) = a.chars ++ ':' :: joined (b :: attributes) := by
  simp [joined]

theorem head?_joined (attributes : List CpeAttribute) : (joined attributes).head? ≠ some ':' := by
  match attributes with
  | [] => exact nofun
  | [a] => simpa [joined] using head?_chars a []
  | a :: b :: attributes =>
    rw [joined_cons_cons]
    exact head?_chars a _

/-- One part less for every attribute before the last that ends in a backslash. -/
theorem length_splitCpe_joined {attributes : List CpeAttribute} (h : attributes ≠ [])
    (near far : Option Char) :
    (splitCpe near far (joined attributes)).length +
      attributes.dropLast.countP CpeAttribute.endsInBackslash = attributes.length := by
  match attributes, h with
  | [a], _ => simp [joined, splitCpe_final]
  | a :: b :: attributes, _ =>
    obtain ⟨near', far', hsplit⟩ := splitCpe_attribute near far a
      (head?_joined (b :: attributes))
    have ih := length_splitCpe_joined (List.cons_ne_nil b attributes) near' far'
    rw [joined_cons_cons, hsplit, List.dropLast_cons_cons, List.countP_cons]
    split
    · rw [List.length_modifyHead, List.length_cons, ← ih]
      omega
    · rw [List.length_cons, List.length_cons, ← ih]
      omega

theorem splitCpe_joined {attributes : List CpeAttribute} (h : attributes ≠ [])
    (hends : ∀ a ∈ attributes.dropLast, a.endsInBackslash = false) (near far : Option Char) :
    splitCpe near far (joined attributes) = attributes.map CpeAttribute.chars := by
  match attributes, h with
  | [a], _ => simp [joined, splitCpe_final]
  | a :: b :: attributes, _ =>
    rw [List.dropLast_cons_cons, List.forall_mem_cons] at hends
    obtain ⟨near', far', hsplit⟩ := splitCpe_attribute near far a
      (head?_joined (b :: attributes))
    rw [joined_cons_cons, hsplit, hends.1, if_neg Bool.false_ne_true,
      splitCpe_joined (List.cons_ne_nil b attributes) hends.2]
    rfl

end Attributes

/-! ## 5. Names -/

/-- `cpe` as an attribute of its own. -/
def cpeWord : CpeAttribute :=
  ⟨[.plain 'c' (by decide), .plain 'p' (by decide)], .plain 'e' (by decide)⟩

/-- `2.3` as an attribute of its own. -/
def cpeVersion : CpeAttribute :=
  ⟨[.plain '2' (by decide), .plain '.' (by decide)], .plain '3' (by decide)⟩

/-- What the formatted string starts with. -/
def cpeBinding : List CpeAttribute := [cpeWord, cpeVersion]

section Names
variable {name : CpeName}

theorem CpeName.attributes_ne_nil (name : CpeName) : name.attributes ≠ [] := by
  have hlength := name.length_eq
  intro hnil
  rw [hnil] at hlength
  cases hlength

theorem CpeName.toList_formatted (name : CpeName) :
    name.formatted.toList = joined (cpeBinding ++ name.attributes) := by
  obtain ⟨a, attributes, hattributes⟩ := List.exists_cons_of_ne_nil name.attributes_ne_nil
  have hprefix : "cpe:2.3:".toList = cpeWord.chars ++ ':' :: (cpeVersion.chars ++ [':']) := by decide
  refine String.toList_ofList.trans ?_
  rw [hattributes, hprefix]
  show _ = joined (cpeWord :: cpeVersion :: a :: attributes)
  rw [joined_cons_cons, joined_cons_cons]
  simp only [List.append_assoc, List.cons_append, List.nil_append]

/-- The binding ends in no backslash, so only the attributes count. -/
theorem dropLast_binding : (cpeBinding ++ name.attributes).dropLast =
    cpeBinding ++ name.attributes.dropLast :=
  List.dropLast_append_of_ne_nil name.attributes_ne_nil

theorem length_cpeElements (name : CpeName) : (cpeElements name.formatted).length +
    name.attributes.dropLast.countP CpeAttribute.endsInBackslash = 11 := by
  have hne : cpeBinding ++ name.attributes ≠ [] := List.cons_ne_nil _ _
  have hlength := length_splitCpe_joined hne none none
  rw [dropLast_binding, List.countP_append, ← name.toList_formatted, List.length_append,
    name.length_eq] at hlength
  have hbinding : cpeBinding.countP CpeAttribute.endsInBackslash = 0 := rfl
  have htwo : cpeBinding.length = 2 := rfl
  have hdropped : name.attributes.dropLast.countP CpeAttribute.endsInBackslash ≤ 10 := by
    have hle := List.countP_le_length (p := CpeAttribute.endsInBackslash)
      (l := name.attributes.dropLast)
    rwa [List.length_dropLast, name.length_eq] at hle
  rw [cpeElements, List.length_map, List.length_drop]
  omega

theorem length_cpeElements_eq_iff : (cpeElements name.formatted).length = 11 ↔ name.SplitsRight := by
  have hlength := length_cpeElements name
  have hcount : name.attributes.dropLast.countP CpeAttribute.endsInBackslash = 0 ↔
      name.SplitsRight := by
    simp only [List.countP_eq_zero, Bool.not_eq_true]
    rfl
  rw [← hcount]
  omega

theorem splitCpe_formatted (h : name.SplitsRight) :
    (splitCpe none none name.formatted.toList).drop 2 = name.attributes.map CpeAttribute.chars := by
  have hends : ∀ a ∈ (cpeBinding ++ name.attributes).dropLast, a.endsInBackslash = false := by
    rw [dropLast_binding, List.forall_mem_append]
    refine ⟨fun a ha => ?_, h⟩
    rcases List.mem_cons.mp ha with rfl | ha
    · rfl
    · rw [List.mem_singleton.mp ha]
      rfl
  have hne : cpeBinding ++ name.attributes ≠ [] := List.cons_ne_nil _ _
  rw [name.toList_formatted, splitCpe_joined hne hends]
  rfl

theorem width_cpeRow_iff : CpeRow.width ⟨name.formatted, cpeElements name.formatted⟩ =
    CpeRow.columns ↔ name.SplitsRight := by
  rw [← length_cpeElements_eq_iff, CpeRow.width, CpeRow.columns]
  show 1 + (cpeElements name.formatted).length = 12 ↔ _
  omega

theorem width_cveRow_iff {entry : CveEntry} {year : YearValue} {cpe : CpeEntry}
    (h : cpe.cpeId = name.formatted) :
    FeedRow.width (cveRow entry year cpe) = FeedRow.columns CveRow ↔ name.SplitsRight := by
  rw [← length_cpeElements_eq_iff, ← h]
  show 9 + (cpeElements cpe.cpeId).length = 20 ↔ _
  omega

end Names

/-! ## 6. Columns -/

/-- Exactly when the rows of the names have the columns of their tables. -/
theorem columns_iff [IntegerColumn] (names : List CpeName) :
    ColumnsRight names ↔ ∀ name ∈ names, name.SplitsRight := by
  constructor
  · intro h name hname
    exact width_cpeRow_iff.mp (wrongEntries_eq_nil_iff.mp h.cpeTable _
      (List.mem_map_of_mem (List.mem_map_of_mem hname)))
  · intro h
    refine ⟨fun name hname => splitCpe_formatted (h name hname), ?_, fun cveList hcpes rows hrows => ?_⟩
    · refine wrongEntries_eq_nil_iff.mpr fun row hrow => ?_
      obtain ⟨cpe, hcpe, rfl⟩ := List.mem_map.mp hrow
      obtain ⟨name, hname, rfl⟩ := List.mem_map.mp hcpe
      exact width_cpeRow_iff.mpr (h name hname)
    · refine wrongEntries_eq_nil_iff.mpr fun row hrow => ?_
      obtain ⟨entry, hentry, cpe, hcpe, year, rfl⟩ := mem_setupCveFeedsTable hrows hrow
      obtain ⟨name, hname, hformatted⟩ := List.mem_map.mp (hcpes entry hentry cpe hcpe)
      exact (width_cveRow_iff hformatted.symm).mpr (h name hname)

/-- An attribute of one character. -/
def oneToken (token : CpeToken) : CpeAttribute := ⟨[], token⟩

/-- `cpe:2.3:a:\\:a:a:a:a:a:a:a:a:a`, with the vendor `\`. -/
def backslashVendor : CpeName where
  attributes := oneToken (.plain 'a' (by decide)) :: oneToken (.quoted '\\') ::
    List.replicate 9 (oneToken (.plain 'a' (by decide)))
  length_eq := rfl

/-- A backslash at the end of an attribute costs the name its row. -/
theorem columns_lost : ¬ ∀ (_ : IntegerColumn) (names : List CpeName), ColumnsRight names := by
  intro h
  have hwrong := @ColumnsRight.cpeTable digitsColumn _ (h digitsColumn [backslashVendor])
  revert hwrong
  decide

/-- The vendor and the product are one column. -/
example : (cpeElements backslashVendor.formatted).take 2 = ["a", "\\\\:a"] := by decide

end FactCore
