import Mathlib.Data.List.Basic
import FactCore.Lib.Bytes
import FactCore.Lib.Dict
import FactCore.Lib.Utf8

/-!
# The properties of a device tree

`Property`, `StructureBlock` and `_get_model_or_description` of
`src/src/plugins/analysis/device_tree/internal/device_tree_utils.py`. The structure block of a
flattened device tree is a list of tokens. The code does not read them one after the other: it
searches for the token of a property, reads the property, and searches on behind its value. The
names of the properties stand in the strings block. A property has the offset of its name there, and
the code looks it up in a dict from the first occurrences of the names.

Results:
1. `structureBlockIter_isSome`: the search ends.
2. `structureBlockIter_encodeTokens`: it finds the properties of the block, and these only.
3. `get?_stringsByOffset_iff`: what stands under an offset.
4. `propertiesRead_iff`: when each property gets its name.
-/

namespace FactCore

/-! ## 1. The code -/

/-- `_bytes_to_int`. -/
def bytesToInt (byteStr : List UInt8) : Nat := bigEndian byteStr

/-- `bytes.strip(b'\0')`. -/
def stripNuls (bytes : List UInt8) : List UInt8 :=
  ((bytes.dropWhile (· = 0)).reverse.dropWhile (· = 0)).reverse

/-- A `Property`. -/
structure Property where
  length : Nat
  nameOffset : Nat
  name : Option (List UInt8)
  value : List UInt8
  deriving DecidableEq, Repr

/-- The first positions of names. -/
abbrev NamesByOffset := Dict (Option Nat) (List UInt8)

/-- `Property.__init__`. -/
def newProperty (raw : List UInt8) (stringsByOffset : NamesByOffset) : Property :=
  let length := bytesToInt (slice raw 4 8)
  let nameOffset := bytesToInt (slice raw 8 12)
  { length
    nameOffset
    name := stringsByOffset.get? (some nameOffset)
    value := stripNuls (slice raw 12 (12 + length : Nat)) }

/-- `get_size`. -/
def Property.getSize (prop : Property) : Nat := prop.length + 12

/-- `FDT_PROP`. -/
def fdtProp : List UInt8 := [0, 0, 0, 3]

/-- `StructureBlock.__iter__`, for so many rounds. -/
def structureBlockIter (stringsByOffset : NamesByOffset) :
    Nat → List UInt8 → Option (List Property)
  | 0, _ => none
  | fuel + 1, raw =>
    match findSub fdtProp raw with
    | none => some []
    | some nextPropertyOffset =>
      let prop := newProperty (raw.drop nextPropertyOffset) stringsByOffset
      (structureBlockIter stringsByOffset fuel (raw.drop (nextPropertyOffset + prop.getSize))).map
        (prop :: ·)

/-- The parts of the strings block between the null bytes, without the empty ones. -/
def stringsBlockNames (stringsBlock : List UInt8) : List (List UInt8) :=
  (stringsBlock.splitOn 0).filter fun s => decide (s ≠ [])

/-- `strings_by_offset` of `analyze_device_tree`. -/
def stringsByOffset (stringsBlock : List UInt8) : NamesByOffset :=
  Dict.ofList ((stringsBlockNames stringsBlock).map fun s => (findSub s stringsBlock, s))

/-- A name in ASCII. -/
def asciiBytes (s : String) : List UInt8 := s.toList.map fun c => UInt8.ofNat c.toNat

/-- One round of `_get_model_or_description`, with the model and the description so far. -/
def modelOrDescriptionRound (found : Option String × Option String) (prop : Property) :
    Option String × Option String :=
  let model := if prop.name = some (asciiBytes "model") then some (decodeReplace prop.value)
    else found.1
  let description := if (found.2 = none ∨ found.2 = some "") ∧
      prop.name = some (asciiBytes "description") then some (decodeReplace prop.value) else found.2
  (model, description)

/-- `_get_model_or_description`, of the properties of the block. -/
def getModelOrDescription (props : List Property) : Option String × Option String :=
  let found := props.foldl modelOrDescriptionRound (none, none)
  (found.2, found.1)

/-- The search goes on behind what it found. -/
theorem structureBlockIter_isSome {names : NamesByOffset} {fuel : Nat} {raw : List UInt8}
    (h : raw.length < fuel) : (structureBlockIter names fuel raw).isSome := by
  induction fuel generalizing raw with
  | zero => exact absurd h (Nat.not_lt_zero _)
  | succ fuel ih =>
    rw [structureBlockIter]
    cases hfind : findSub fdtProp raw with
    | none => rfl
    | some offset =>
      have hat := ((findSub_eq_some_iff (by decide)).mp hfind).1
      have hlen := OccursAt.length_le hat (by decide)
      rw [Option.isSome_map]
      refine ih ?_
      rw [List.length_drop, Property.getSize]
      have hfour : fdtProp.length = 4 := rfl
      omega

/-- The properties that are found in a structure block. -/
def structureBlockProperties (raw : List UInt8) (names : NamesByOffset) : List Property :=
  (structureBlockIter names (raw.length + 1) raw).get
    (structureBlockIter_isSome (Nat.lt_succ_self _))

/-! ## 2. Flattened device trees -/

/-- The tokens of a structure block. -/
inductive FdtToken
  | beginNode (name : List UInt8)
  | prop (nameOffset : Nat) (value : List UInt8)
  | nop
  | endNode
  | endBlock
  deriving DecidableEq, Repr

/-- Null bytes up to the next multiple of four. -/
def padded (bytes : List UInt8) : List UInt8 :=
  bytes ++ List.replicate ((4 - bytes.length % 4) % 4) 0

def encodeToken : FdtToken → List UInt8
  | .beginNode name => [0, 0, 0, 1] ++ padded (name ++ [0])
  | .prop nameOffset value =>
    [0, 0, 0, 3] ++ toBigEndian 4 value.length ++ toBigEndian 4 nameOffset ++ padded value
  | .nop => [0, 0, 0, 4]
  | .endNode => [0, 0, 0, 2]
  | .endBlock => [0, 0, 0, 9]

def encodeTokens (tokens : List FdtToken) : List UInt8 := tokens.flatMap encodeToken

/-- Names of nodes have no null byte, lengths and offsets fit into 32 bits. -/
def FdtToken.WellFormed : FdtToken → Prop
  | .beginNode name => 0 ∉ name
  | .prop nameOffset value => nameOffset < 256 ^ 4 ∧ value.length < 256 ^ 4
  | _ => True

instance : (token : FdtToken) → Decidable token.WellFormed
  | .beginNode name => inferInstanceAs (Decidable (0 ∉ name))
  | .prop nameOffset value =>
    inferInstanceAs (Decidable (nameOffset < 256 ^ 4 ∧ value.length < 256 ^ 4))
  | .nop => .isTrue trivial
  | .endNode => .isTrue trivial
  | .endBlock => .isTrue trivial

/-- The properties of a block: offset of the name, and value. -/
def tokenProps : List FdtToken → List (Nat × List UInt8)
  | [] => []
  | .prop nameOffset value :: tokens => (nameOffset, value) :: tokenProps tokens
  | _ :: tokens => tokenProps tokens

/-- The name at an offset: the bytes up to the next null byte. -/
def nameAt (stringsBlock : List UInt8) (nameOffset : Nat) : List UInt8 :=
  (stringsBlock.drop nameOffset).takeWhile (· ≠ 0)

/-- What should be read for a property. -/
def encodedProperty (stringsBlock : List UInt8) (prop : Nat × List UInt8) : Property where
  length := prop.2.length
  nameOffset := prop.1
  name := some (nameAt stringsBlock prop.1)
  value := stripNuls prop.2

/-! ## 3. The search for properties -/

section Search
variable {names : NamesByOffset} {rest xs : List UInt8} {fuel i k : Nat}

theorem occursAt_fdtProp : OccursAt fdtProp xs i ↔
    xs[i]? = some 0 ∧ xs[i + 1]? = some 0 ∧ xs[i + 2]? = some 0 ∧ xs[i + 3]? = some 3 := by
  simp only [fdtProp, occursAt_cons_iff, occursAt_nil, and_true, Nat.add_assoc, Nat.reduceAdd]

/-- Bytes in which no property token starts do not change what is found. -/
theorem structureBlockIter_append {pre : List UInt8}
    (h : ∀ i < pre.length, ¬ OccursAt fdtProp (pre ++ rest) i) :
    structureBlockIter names fuel (pre ++ rest) = structureBlockIter names fuel rest := by
  cases fuel with
  | zero => rfl
  | succ fuel =>
    rw [structureBlockIter, structureBlockIter, findSub_append h]
    cases findSub fdtProp rest with
    | none => rfl
    | some offset =>
      have hdrop : ∀ n, (pre ++ rest).drop (n + pre.length) = rest.drop n := fun n => by
        rw [Nat.add_comm, List.drop_length_add_append]
      simp only [Option.map_some, hdrop, Nat.add_right_comm offset pre.length]

/-- The first bytes of a block are no 3. -/
def NoThree (rest : List UInt8) : Prop := ∀ i < 3, rest[i]? ≠ some 3

theorem noThree_encodeTokens (tokens : List FdtToken) : NoThree (encodeTokens tokens) := by
  intro i hi
  cases tokens with
  | nil => simp [encodeTokens]
  | cons token tokens =>
    have hzero : (encodeTokens (token :: tokens))[i]? = some 0 := by
      cases token <;> match i, hi with
        | 0, _ => rfl
        | 1, _ => rfl
        | 2, _ => rfl
    rw [hzero]
    decide

/-- No token starts in null bytes before a block. -/
theorem not_occursAt_zeros (h : NoThree rest) (hi : i < k) :
    ¬ OccursAt fdtProp (List.replicate k 0 ++ rest) i := by
  rw [occursAt_fdtProp]
  intro htoken
  obtain ⟨-, -, -, hthree⟩ := htoken
  rcases Nat.lt_or_ge (i + 3) k with hlt | hge
  · rw [List.getElem?_append_left (by simpa using hlt), List.getElem?_replicate, if_pos hlt] at hthree
    cases hthree
  · rw [List.getElem?_append_right (by simpa using hge), List.length_replicate] at hthree
    exact h (i + 3 - k) (by omega) hthree

/-- Null bytes before a block are skipped. -/
theorem structureBlockIter_zeros (k : Nat) (h : NoThree rest) :
    structureBlockIter names fuel (List.replicate k 0 ++ rest) =
      structureBlockIter names fuel rest :=
  structureBlockIter_append fun i hi => not_occursAt_zeros h (by simpa using hi)

/-- No token starts in the last bytes of another kind of token. -/
theorem not_occursAt_word {t : UInt8} (ht : t ≠ 0 ∧ t ≠ 3) (hi : i < 4) :
    ¬ OccursAt fdtProp ([0, 0, 0, t] ++ rest) i := by
  rw [occursAt_fdtProp]
  intro htoken
  obtain ⟨h0, h1, h2, h3⟩ := htoken
  match i, hi with
  | 0, _ => exact ht.2 (Option.some.inj h3)
  | 1, _ => exact ht.1 (Option.some.inj h2)
  | 2, _ => exact ht.1 (Option.some.inj h1)
  | 3, _ => exact ht.1 (Option.some.inj h0)

/-- No token starts in a name. -/
theorem not_occursAt_name {name : List UInt8} (hname : 0 ∉ name) (hi : i < name.length) :
    ¬ OccursAt fdtProp (name ++ rest) i := by
  rw [occursAt_fdtProp, List.getElem?_append_left hi, List.getElem?_eq_getElem hi]
  intro htoken
  obtain ⟨h0, -⟩ := htoken
  exact hname (Option.some.inj h0 ▸ List.getElem_mem hi)

/-- Other tokens are skipped. -/
theorem structureBlockIter_other {token : FdtToken} (hwell : token.WellFormed)
    (hother : ∀ nameOffset value, token ≠ .prop nameOffset value) (h : NoThree rest) :
    structureBlockIter names fuel (encodeToken token ++ rest) =
      structureBlockIter names fuel rest := by
  have hword : ∀ t : UInt8, t ≠ 0 ∧ t ≠ 3 → ∀ rest : List UInt8,
      structureBlockIter names fuel ([0, 0, 0, t] ++ rest) = structureBlockIter names fuel rest :=
    fun t ht rest => structureBlockIter_append fun i hi => not_occursAt_word ht hi
  cases token with
  | beginNode name =>
    have hzeros : padded (name ++ [0]) =
        name ++ List.replicate ((4 - (name ++ [0]).length % 4) % 4 + 1) 0 := by
      rw [padded, List.append_assoc, List.singleton_append, List.replicate_succ]
    rw [encodeToken, List.append_assoc, hword 1 (by decide), hzeros, List.append_assoc,
      structureBlockIter_append fun i hi => not_occursAt_name hwell hi,
      structureBlockIter_zeros _ h]
  | prop nameOffset value => exact absurd rfl (hother nameOffset value)
  | nop => exact hword 4 (by decide) rest
  | endNode => exact hword 2 (by decide) rest
  | endBlock => exact hword 9 (by decide) rest

/-- A property that stands at the beginning. -/
def foundProperty (names : NamesByOffset) (prop : Nat × List UInt8) : Property where
  length := prop.2.length
  nameOffset := prop.1
  name := names.get? (some prop.1)
  value := stripNuls prop.2

theorem drop_encodeToken_prop (nameOffset : Nat) (value rest : List UInt8) :
    (encodeToken (.prop nameOffset value) ++ rest).drop 12 = padded value ++ rest := by
  have hlen : ([0, 0, 0, 3] ++ toBigEndian 4 value.length ++ toBigEndian 4 nameOffset).length =
      12 := by simp
  rw [encodeToken, List.append_assoc, List.drop_left' hlen]

theorem newProperty_encodeToken {nameOffset : Nat} {value : List UInt8}
    (hwell : (FdtToken.prop nameOffset value).WellFormed) :
    newProperty (encodeToken (.prop nameOffset value) ++ rest) names =
      foundProperty names (nameOffset, value) := by
  have hlength : slice (encodeToken (.prop nameOffset value) ++ rest) 4 8 =
      toBigEndian 4 value.length := by
    have hpart : toBigEndian 4 value.length <+:
        (encodeToken (.prop nameOffset value) ++ rest).drop 4 := by
      rw [encodeToken]
      exact ⟨toBigEndian 4 nameOffset ++ padded value ++ rest, by simp⟩
    have hslice := slice_eq_part hpart
    rwa [length_toBigEndian] at hslice
  have hoffset : slice (encodeToken (.prop nameOffset value) ++ rest) 8 12 =
      toBigEndian 4 nameOffset := by
    have hpart : toBigEndian 4 nameOffset <+:
        (encodeToken (.prop nameOffset value) ++ rest).drop 8 := by
      rw [encodeToken]
      exact ⟨padded value ++ rest, by simp⟩
    have hslice := slice_eq_part hpart
    rwa [length_toBigEndian] at hslice
  have hvalue : slice (encodeToken (.prop nameOffset value) ++ rest) 12
      (12 + value.length : Nat) = value := by
    refine slice_eq_part ?_
    rw [drop_encodeToken_prop, padded, List.append_assoc]
    exact List.prefix_append value _
  simp only [newProperty, hlength, hoffset, bytesToInt, bigEndian_toBigEndian hwell.1,
    bigEndian_toBigEndian hwell.2, hvalue, foundProperty]

/-- A property at the beginning is found. The search goes on behind its value, where null bytes may
stand. -/
theorem structureBlockIter_prop {nameOffset : Nat} {value : List UInt8}
    (hwell : (FdtToken.prop nameOffset value).WellFormed) :
    structureBlockIter names (fuel + 1) (encodeToken (.prop nameOffset value) ++ rest) =
      (structureBlockIter names fuel
        (List.replicate ((4 - value.length % 4) % 4) 0 ++ rest)).map
          (foundProperty names (nameOffset, value) :: ·) := by
  have hfind : findSub fdtProp (encodeToken (.prop nameOffset value) ++ rest) = some 0 :=
    findSub_eq_zero ⟨_, rfl⟩ (by decide)
  have hbehind : (encodeToken (.prop nameOffset value) ++ rest).drop (value.length + 12) =
      List.replicate ((4 - value.length % 4) % 4) 0 ++ rest := by
    rw [Nat.add_comm, ← List.drop_drop, drop_encodeToken_prop, padded, List.append_assoc,
      List.drop_left]
  have hsize : (foundProperty names (nameOffset, value)).getSize = value.length + 12 := rfl
  rw [structureBlockIter, hfind]
  simp only [List.drop_zero, newProperty_encodeToken hwell, Nat.zero_add, hsize, hbehind]

theorem length_encodeToken_prop (nameOffset : Nat) (value : List UInt8) :
    (encodeToken (.prop nameOffset value)).length =
      12 + value.length + (4 - value.length % 4) % 4 := by
  simp only [encodeToken, padded, List.length_append, length_toBigEndian, List.length_cons,
    List.length_nil, List.length_replicate]
  omega

/-- The search finds the properties of the block, and these only. -/
theorem structureBlockIter_encodeTokens {tokens : List FdtToken}
    (hwell : ∀ token ∈ tokens, token.WellFormed) (hfuel : (encodeTokens tokens).length < fuel) :
    structureBlockIter names fuel (encodeTokens tokens) =
      some ((tokenProps tokens).map (foundProperty names)) := by
  induction tokens generalizing fuel with
  | nil =>
    obtain ⟨fuel, rfl⟩ := Nat.exists_eq_succ_of_ne_zero (Nat.ne_zero_of_lt hfuel)
    rfl
  | cons token tokens ih =>
    obtain ⟨htoken, htokens⟩ := List.forall_mem_cons.mp hwell
    have hblock : encodeTokens (token :: tokens) = encodeToken token ++ encodeTokens tokens := rfl
    rw [hblock, List.length_append] at hfuel
    rw [hblock]
    by_cases hprop : ∃ nameOffset value, token = .prop nameOffset value
    · obtain ⟨nameOffset, value, rfl⟩ := hprop
      obtain ⟨fuel, rfl⟩ := Nat.exists_eq_succ_of_ne_zero (Nat.ne_zero_of_lt hfuel)
      rw [length_encodeToken_prop] at hfuel
      rw [structureBlockIter_prop htoken, structureBlockIter_zeros _ (noThree_encodeTokens tokens),
        ih htokens (by omega)]
      rfl
    · have hprops : tokenProps (token :: tokens) = tokenProps tokens := by
        cases token with
        | prop nameOffset value => exact absurd ⟨_, _, rfl⟩ hprop
        | _ => rfl
      rw [structureBlockIter_other htoken (fun nameOffset value heq => hprop ⟨_, _, heq⟩)
        (noThree_encodeTokens tokens), hprops]
      exact ih htokens (by omega)

end Search

/-! ## 4. The names -/

section Names
variable {stringsBlock : List UInt8} {nameOffset : Nat} {tokens : List FdtToken}

/-- The name stands there, and nowhere before. -/
def FirstAt (stringsBlock name : List UInt8) (offset : Nat) : Prop :=
  OccursAt name stringsBlock offset ∧ ∀ j < offset, ¬ OccursAt name stringsBlock j

/-- The name at the offset is one of the names of the block. It does not stand before the offset,
and no later name of the block stands there for the first time. -/
def NameKept (stringsBlock : List UInt8) (nameOffset : Nat) : Prop :=
  FirstAt stringsBlock (nameAt stringsBlock nameOffset) nameOffset ∧
    ∃ front back,
      stringsBlockNames stringsBlock = front ++ nameAt stringsBlock nameOffset :: back ∧
        ∀ name ∈ back, ¬ FirstAt stringsBlock name nameOffset

theorem findSub_name_eq_some_iff {name : List UInt8} (h : name ∈ stringsBlockNames stringsBlock) :
    findSub name stringsBlock = some nameOffset ↔ FirstAt stringsBlock name nameOffset :=
  findSub_eq_some_iff (of_decide_eq_true (List.mem_filter.mp h).2)

/-- What stands under an offset: the last of the names that occur there for the first time. -/
theorem get?_stringsByOffset_iff {name : List UInt8} :
    (stringsByOffset stringsBlock).get? (some nameOffset) = some name ↔
      FirstAt stringsBlock name nameOffset ∧
        ∃ front back, stringsBlockNames stringsBlock = front ++ name :: back ∧
          ∀ other ∈ back, ¬ FirstAt stringsBlock other nameOffset := by
  rw [stringsByOffset, Dict.get?_ofList_eq_some_iff]
  constructor
  · intro hlast
    obtain ⟨front, back, heq, hback⟩ := hlast
    obtain ⟨front', rest, hnames, rfl, hrest⟩ := List.map_eq_append_iff.mp heq
    obtain ⟨name', back', rfl, hname, rfl⟩ := List.map_eq_cons_iff.mp hrest
    obtain ⟨hfind, rfl⟩ := Prod.mk.inj hname
    have hmem : ∀ other ∈ name' :: back', other ∈ stringsBlockNames stringsBlock := fun other h => by
      rw [hnames]
      exact List.mem_append_right front' h
    refine ⟨(findSub_name_eq_some_iff (hmem name' List.mem_cons_self)).mp hfind, front', back',
      hnames, fun other hother hfirst => hback ?_⟩
    rw [List.map_map]
    exact List.mem_map.mpr ⟨other, hother,
      (findSub_name_eq_some_iff (hmem other (List.mem_cons_of_mem _ hother))).mpr hfirst⟩
  · intro hkept
    obtain ⟨hfirst, front, back, hnames, hback⟩ := hkept
    have hmem : ∀ other ∈ name :: back, other ∈ stringsBlockNames stringsBlock := fun other h => by
      rw [hnames]
      exact List.mem_append_right front h
    refine ⟨front.map fun s => (findSub s stringsBlock, s),
      back.map fun s => (findSub s stringsBlock, s), ?_, ?_⟩
    · rw [hnames, List.map_append, List.map_cons,
        (findSub_name_eq_some_iff (hmem name List.mem_cons_self)).mpr hfirst]
    · rw [List.map_map]
      intro hoffset
      obtain ⟨other, hother, hfind⟩ := List.mem_map.mp hoffset
      exact hback other hother ((findSub_name_eq_some_iff
        (hmem other (List.mem_cons_of_mem _ hother))).mp hfind)

theorem get?_stringsByOffset_nameAt_iff :
    (stringsByOffset stringsBlock).get? (some nameOffset) = some (nameAt stringsBlock nameOffset) ↔
      NameKept stringsBlock nameOffset :=
  get?_stringsByOffset_iff

end Names

/-! ## 5. Model and description -/

def isModel (prop : Property) : Bool := decide (prop.name = some (asciiBytes "model"))

/-- A description that is not empty. -/
def isFilledDescription (prop : Property) : Bool :=
  decide (prop.name = some (asciiBytes "description") ∧ prop.value ≠ [])

/-- The last model and the first description that is not empty. Without such a description there is
none, or an empty one. -/
structure ModelAndDescription (props : List Property) (found : Option String × Option String) :
    Prop where
  model : found.2 = (props.filter isModel).getLast?.map fun prop => decodeReplace prop.value
  description : ∀ prop, props.find? isFilledDescription = some prop →
    found.1 = some (decodeReplace prop.value)
  noDescription : props.find? isFilledDescription = none → ∀ s ∈ found.1, s = ""

section ModelAndDescription
variable {props : List Property} {prop : Property} {found : Option String × Option String}

theorem foldl_append_singleton (props : List Property) (prop : Property) :
    (props ++ [prop]).foldl modelOrDescriptionRound (none, none) =
      modelOrDescriptionRound (props.foldl modelOrDescriptionRound (none, none)) prop := by
  rw [List.foldl_append]
  rfl

theorem model_foldl (props : List Property) :
    (props.foldl modelOrDescriptionRound (none, none)).1 =
      (props.filter isModel).getLast?.map fun prop => decodeReplace prop.value := by
  induction props using List.reverseRecOn with
  | nil => rfl
  | append_singleton props prop ih =>
    rw [foldl_append_singleton, modelOrDescriptionRound, List.filter_append, List.filter_singleton]
    by_cases hname : prop.name = some (asciiBytes "model")
    · simp [isModel, hname]
    · simp [isModel, hname, ih]

/-- A description that is not empty stays. -/
theorem round_of_description {s : String} (h : found.2 = some s) (hs : s ≠ "") :
    (modelOrDescriptionRound found prop).2 = some s := by
  have hfilled : ¬ ((found.2 = none ∨ found.2 = some "") ∧
      prop.name = some (asciiBytes "description")) := by
    rw [h]
    rintro ⟨hnone | hempty, -⟩
    · cases hnone
    · exact hs (Option.some.inj hempty)
  exact (if_neg hfilled).trans h

/-- Without one, the next description is taken. -/
theorem round_of_no_description (h : ∀ s ∈ found.2, s = "") :
    (modelOrDescriptionRound found prop).2 =
      if prop.name = some (asciiBytes "description") then some (decodeReplace prop.value)
      else found.2 := by
  have hfound : found.2 = none ∨ found.2 = some "" := by
    cases hsome : found.2 with
    | none => exact .inl rfl
    | some s => exact .inr (congrArg some (h s hsome))
  simp only [modelOrDescriptionRound, hfound, true_and]

theorem description_foldl (props : List Property) :
    (∀ prop, props.find? isFilledDescription = some prop →
      (props.foldl modelOrDescriptionRound (none, none)).2 = some (decodeReplace prop.value)) ∧
    (props.find? isFilledDescription = none →
      ∀ s ∈ (props.foldl modelOrDescriptionRound (none, none)).2, s = "") := by
  induction props using List.reverseRecOn with
  | nil => exact ⟨fun prop h => (by cases h), fun _ s h => (by cases h)⟩
  | append_singleton props prop ih =>
    obtain ⟨ihsome, ihnone⟩ := ih
    rw [foldl_append_singleton, List.find?_append]
    cases hfind : props.find? isFilledDescription with
    | some found =>
      have hfilled : isFilledDescription found = true := List.find?_some hfind
      have hvalue : decodeReplace found.value ≠ "" := fun hempty =>
        (of_decide_eq_true hfilled).2 (decodeReplace_eq_empty_iff.mp hempty)
      rw [round_of_description (ihsome found hfind) hvalue, Option.some_or]
      exact ⟨fun prop' h => by rw [Option.some.inj h], fun h => (by cases h)⟩
    | none =>
      have hbefore := ihnone hfind
      rw [round_of_no_description hbefore, Option.none_or]
      by_cases hname : prop.name = some (asciiBytes "description")
      · rw [if_pos hname]
        by_cases hvalue : prop.value = []
        · have hempty : isFilledDescription prop = false := by
            simp [isFilledDescription, hvalue]
          rw [List.find?_singleton, hempty]
          refine ⟨fun prop' h => (by cases h), fun _ s hs => ?_⟩
          rw [← Option.some.inj hs, decodeReplace_eq_empty_iff]
          exact hvalue
        · have hfilled : isFilledDescription prop = true := by
            simp [isFilledDescription, hname, hvalue]
          rw [List.find?_singleton, hfilled]
          exact ⟨fun prop' h => by rw [Option.some.inj h], fun h => (by cases h)⟩
      · have hother : isFilledDescription prop = false := by
          simp [isFilledDescription, hname]
        rw [if_neg hname, List.find?_singleton, hother]
        exact ⟨fun prop' h => (by cases h), fun _ => hbefore⟩

theorem modelAndDescription_getModelOrDescription (props : List Property) :
    ModelAndDescription props (getModelOrDescription props) :=
  ⟨model_foldl props, (description_foldl props).1, (description_foldl props).2⟩

end ModelAndDescription

/-! ## 6. The properties as encoded -/

/-- The properties are read as they are encoded, in their order. -/
structure PropertiesRead (stringsBlock : List UInt8) (tokens : List FdtToken) : Prop where
  properties : ∀ fuel, (encodeTokens tokens).length < fuel →
    structureBlockIter (stringsByOffset stringsBlock) fuel (encodeTokens tokens) =
      some ((tokenProps tokens).map (encodedProperty stringsBlock))
  modelAndDescription : ModelAndDescription ((tokenProps tokens).map (encodedProperty stringsBlock))
    (getModelOrDescription
      (structureBlockProperties (encodeTokens tokens) (stringsByOffset stringsBlock)))

section Encoded
variable {stringsBlock : List UInt8} {tokens : List FdtToken}

/-- The properties are read as encoded exactly if the name of each of them is kept. -/
theorem propertiesRead_iff (hwell : ∀ token ∈ tokens, token.WellFormed) :
    PropertiesRead stringsBlock tokens ↔
      ∀ prop ∈ tokenProps tokens, NameKept stringsBlock prop.1 := by
  have hiter : ∀ fuel, (encodeTokens tokens).length < fuel →
      structureBlockIter (stringsByOffset stringsBlock) fuel (encodeTokens tokens) =
        some ((tokenProps tokens).map (foundProperty (stringsByOffset stringsBlock))) :=
    fun fuel hfuel => structureBlockIter_encodeTokens hwell hfuel
  have hprop : ∀ prop : Nat × List UInt8,
      foundProperty (stringsByOffset stringsBlock) prop = encodedProperty stringsBlock prop ↔
        NameKept stringsBlock prop.1 := fun prop => by
    rw [← get?_stringsByOffset_nameAt_iff, foundProperty, encodedProperty, Property.mk.injEq]
    simp only [true_and, and_true]
  constructor
  · intro h prop hmem
    have hmap := h.properties _ (Nat.lt_succ_self _)
    rw [hiter _ (Nat.lt_succ_self _), Option.some.injEq, List.map_inj_left] at hmap
    exact (hprop prop).mp (hmap prop hmem)
  · intro h
    have hmap : (tokenProps tokens).map (foundProperty (stringsByOffset stringsBlock)) =
        (tokenProps tokens).map (encodedProperty stringsBlock) :=
      List.map_congr_left fun prop hmem => (hprop prop).mpr (h prop hmem)
    have hread : ∀ fuel, (encodeTokens tokens).length < fuel →
        structureBlockIter (stringsByOffset stringsBlock) fuel (encodeTokens tokens) =
          some ((tokenProps tokens).map (encodedProperty stringsBlock)) :=
      fun fuel hfuel => hmap ▸ hiter fuel hfuel
    refine ⟨hread, ?_⟩
    have hblock : structureBlockProperties (encodeTokens tokens) (stringsByOffset stringsBlock) =
        (tokenProps tokens).map (encodedProperty stringsBlock) := by
      rw [structureBlockProperties, Option.get_of_eq_some _ (hread _ (Nat.lt_succ_self _))]
    rw [hblock]
    exact modelAndDescription_getModelOrDescription _

/-- A root node with a model and a description. -/
def modelTokens : List FdtToken :=
  [.beginNode [], .prop 0 (asciiBytes "Foo 1" ++ [0]), .nop,
    .prop 6 (asciiBytes "bar" ++ [0]), .endNode, .endBlock]

theorem modelTokens_read :
    PropertiesRead (asciiBytes "model" ++ 0 :: asciiBytes "description" ++ [0]) modelTokens := by
  refine (propertiesRead_iff (by decide)).mpr fun prop hprop => ?_
  have hnames : stringsBlockNames (asciiBytes "model" ++ 0 :: asciiBytes "description" ++ [0]) =
      [asciiBytes "model", asciiBytes "description"] := by decide
  rcases List.mem_pair.mp hprop with rfl | rfl
  · refine ⟨by unfold FirstAt; decide, [], [asciiBytes "description"], hnames, ?_⟩
    exact List.forall_mem_singleton.mpr fun h => absurd h.1 (by decide)
  · exact ⟨by unfold FirstAt; decide, [asciiBytes "model"], [], hnames,
      fun _ h => absurd h List.not_mem_nil⟩

/-- A name that is the tail of a longer name is not found. -/
theorem sharedTail_lost :
    ¬ PropertiesRead (asciiBytes "board-model" ++ [0])
      [.beginNode [], .prop 6 (asciiBytes "Foo 1" ++ [0]), .endNode, .endBlock] := by
  intro h
  exact absurd (h.properties 60 (by decide)) (by decide)

end Encoded

end FactCore
