import FactCore.CveLookup.Feeds
import FactCore.CveLookup.Versions
import FactCore.Lib.StableSort
import Mathlib.Order.WithBot

/-!
# The choice of a CPE product

`src/src/plugins/analysis/cve_lookup/code/cve_lookup.py`: of the products that match a
component, the lookup takes one with the requested version, or else one with the nearest
version. A requested version that is neither a number nor dotted nor `ANY` is not looked
for; the first product is taken.

All listed versions are coerced as keys of a sort, which raises `InvalidVersion` if one of
them cannot be coerced. The caller handles `IndexError` only.

Results:
1. `findMatchingCpeProduct_of_listed`, `findMatchingCpeProduct_of_not_listed`: the branches.
2. `findMatchingCpeProduct_eq_invalidVersion_iff`: when the sort fails.
3. `findMatchingCpeProduct_selects`: what is chosen.
-/

namespace FactCore

/-- The exceptions of the selection. -/
inductive SelectionError where
  | indexError
  | valueError
  | invalidVersion
  deriving DecidableEq, Repr

/-- `DOTTED_VERSION_REGEX`. -/
def dottedVersionRegex : Pattern :=
  let part : Pattern := .plus (.char fun c => isAsciiAlphanum c || decide (c = '-'))
  .all [part, .plus (.all [.lit '\\', .lit '.', part]), .atEnd]

/-- `is_valid_dotted_version`. -/
def isValidDottedVersion (version : String) : Bool :=
  (dottedVersionRegex.matchRest version.toList).isSome

/-- An item, if there is one. -/
def orIndexError {α : Type} : Option α → Except SelectionError α
  | some a => .ok a
  | none => .error .indexError

/-- `l[index]`. -/
def listItem {α : Type} (l : List α) (index : Nat) : Except SelectionError α :=
  orIndexError l[index]?

/-- `find_cpe_product_with_version`. -/
def findCpeProductWithVersion (cpeMatches : List Product) (requestedVersion : String) :
    Except SelectionError Product :=
  listItem (cpeMatches.filter fun product => decide (product.versionNumber = requestedVersion)) 0

/-- `find_next_closest_version`. -/
def findNextClosestVersion (sortedVersionList : List String) (requestedVersion : String) :
    Except SelectionError String :=
  match sortedVersionList.idxOf? requestedVersion with
  | none => .error .valueError
  | some 0 => listItem sortedVersionList 1
  | some (searchWordIndex + 1) => listItem sortedVersionList searchWordIndex

/-- The versions of the products that are compared. -/
def versionNumbers (cpeMatches : List Product) : List String :=
  (cpeMatches.map Product.versionNumber).filter fun v => decide (v ∉ ["N/A", "ANY"])

namespace VersionEnv
variable {V : Type} (env : VersionEnv V)

/-- The key of a version in the sort; `⊥` if it cannot be coerced. -/
def versionKey (version : String) : WithBot V := env.coerceVersion (unescape version)

/-- The requested version is one that is looked for in the list. -/
def isComparable (requestedVersion : String) : Bool :=
  env.tables.allDigits requestedVersion || isValidDottedVersion requestedVersion

variable [LinearOrder V]

/-- `version_numbers.sort(key=...)`. The keys are computed before anything is sorted. -/
def sortVersions (versions : List String) : Except SelectionError (List String) :=
  if ∀ version ∈ versions, env.versionKey version ≠ ⊥ then .ok (sortByKey env.versionKey versions)
  else .error .invalidVersion

/-- `find_matching_cpe_product`. -/
def findMatchingCpeProduct (cpeMatches : List Product) (requestedVersion : String) :
    Except SelectionError Product :=
  if env.isComparable requestedVersion then
    if requestedVersion ∈ versionNumbers cpeMatches then
      findCpeProductWithVersion cpeMatches requestedVersion
    else do
      let sorted ← env.sortVersions (versionNumbers cpeMatches ++ [requestedVersion])
      let nextClosestVersion ← findNextClosestVersion sorted requestedVersion
      findCpeProductWithVersion cpeMatches nextClosestVersion
  else if requestedVersion = "ANY" then findCpeProductWithVersion cpeMatches "ANY"
  else listItem cpeMatches 0

/-! ## 1. The branches -/

variable {env} {cpeMatches : List Product} {requestedVersion version : String} {product : Product}

theorem findCpeProductWithVersion_eq (cpeMatches : List Product) (version : String) :
    findCpeProductWithVersion cpeMatches version =
      orIndexError (cpeMatches.find? fun product => decide (product.versionNumber = version)) := by
  unfold findCpeProductWithVersion listItem
  rw [← List.head?_eq_getElem?, List.head?_filter]

theorem findCpeProductWithVersion_cases (cpeMatches : List Product) (version : String) :
    (∃ product ∈ cpeMatches, product.versionNumber = version ∧
      findCpeProductWithVersion cpeMatches version = .ok product) ∨
    ((∀ product ∈ cpeMatches, product.versionNumber ≠ version) ∧
      findCpeProductWithVersion cpeMatches version = .error .indexError) := by
  rw [findCpeProductWithVersion_eq]
  cases hfind : cpeMatches.find? fun product => decide (product.versionNumber = version) with
  | some product =>
    have hversion : product.versionNumber = version := by simpa using List.find?_some hfind
    exact .inl ⟨product, List.mem_of_find?_eq_some hfind, hversion, rfl⟩
  | none =>
    refine .inr ⟨fun product hmem hversion => ?_, rfl⟩
    exact List.find?_eq_none.mp hfind product hmem (decide_eq_true hversion)

/-- Next to the requested version stands the one before it, or else the one behind it. -/
theorem findNextClosestVersion_split {low high : List String} (h : requestedVersion ∉ low) :
    findNextClosestVersion (low ++ requestedVersion :: high) requestedVersion =
      orIndexError (low.getLast?.or high.head?) := by
  have hindex : (low ++ requestedVersion :: high).idxOf? requestedVersion = some low.length := by
    rw [List.idxOf?, List.findIdx?_append]
    have hlow : low.findIdx? (· == requestedVersion) = none := List.idxOf?_eq_none_iff.mpr h
    rw [hlow, List.findIdx?_cons, beq_self_eq_true]
    simp
  unfold findNextClosestVersion
  rw [hindex]
  cases low using List.reverseRecOn with
  | nil =>
    show listItem (requestedVersion :: high) 1 = _
    rw [listItem, List.getElem?_cons_succ, ← List.head?_eq_getElem?]
    rfl
  | append_singleton front last =>
    rw [List.length_append, List.length_singleton]
    show listItem _ front.length = _
    rw [listItem, List.append_assoc, List.getElem?_append_right le_rfl, Nat.sub_self,
      List.getLast?_concat, Option.some_or]
    rfl

/-- No version that is sorted is beyond coercion. -/
def Sortable (env : VersionEnv V) (cpeMatches : List Product) (requestedVersion : String) : Prop :=
  ∀ version ∈ versionNumbers cpeMatches ++ [requestedVersion], env.versionKey version ≠ ⊥

theorem findMatchingCpeProduct_of_listed (hcomparable : env.isComparable requestedVersion = true)
    (hlisted : requestedVersion ∈ versionNumbers cpeMatches) :
    env.findMatchingCpeProduct cpeMatches requestedVersion =
      findCpeProductWithVersion cpeMatches requestedVersion := by
  rw [findMatchingCpeProduct, if_pos hcomparable, if_pos hlisted]

/-- A requested version that is not listed is replaced by its neighbour. -/
theorem findMatchingCpeProduct_of_not_listed
    (hcomparable : env.isComparable requestedVersion = true)
    (hlisted : requestedVersion ∉ versionNumbers cpeMatches) :
    env.findMatchingCpeProduct cpeMatches requestedVersion =
      if ∀ version ∈ versionNumbers cpeMatches ++ [requestedVersion], env.versionKey version ≠ ⊥ then
        orIndexError (neighbour env.versionKey (versionNumbers cpeMatches) requestedVersion) >>=
          findCpeProductWithVersion cpeMatches
      else .error .invalidVersion := by
  rw [findMatchingCpeProduct, if_pos hcomparable, if_neg hlisted, sortVersions]
  split
  · have hlow : requestedVersion ∉ sortByKey env.versionKey
        ((versionNumbers cpeMatches).filter fun v =>
          env.versionKey v ≤ env.versionKey requestedVersion) := fun hmem =>
      hlisted (List.mem_filter.mp ((mem_sortByKey _).mp hmem)).1
    show findNextClosestVersion _ _ >>= _ = _
    rw [sortByKey_concat, findNextClosestVersion_split hlow]
    rfl
  · rfl

theorem findMatchingCpeProduct_of_neighbour
    (hcomparable : env.isComparable requestedVersion = true)
    (hlisted : requestedVersion ∉ versionNumbers cpeMatches)
    (hsortable : Sortable env cpeMatches requestedVersion)
    (hneighbour : neighbour env.versionKey (versionNumbers cpeMatches) requestedVersion =
      some version) :
    env.findMatchingCpeProduct cpeMatches requestedVersion =
      findCpeProductWithVersion cpeMatches version := by
  rw [findMatchingCpeProduct_of_not_listed hcomparable hlisted, hneighbour]
  exact if_pos hsortable

theorem findMatchingCpeProduct_of_any (hcomparable : env.isComparable "ANY" = false) :
    env.findMatchingCpeProduct cpeMatches "ANY" = findCpeProductWithVersion cpeMatches "ANY" := by
  rw [findMatchingCpeProduct, if_neg (by rw [hcomparable]; exact Bool.false_ne_true), if_pos rfl]

theorem findMatchingCpeProduct_of_other (hcomparable : env.isComparable requestedVersion = false)
    (hany : requestedVersion ≠ "ANY") :
    env.findMatchingCpeProduct cpeMatches requestedVersion = orIndexError cpeMatches.head? := by
  rw [findMatchingCpeProduct, if_neg (by rw [hcomparable]; exact Bool.false_ne_true), if_neg hany,
    listItem, List.head?_eq_getElem?]

/-! ## 2. What can be chosen -/

/-- The products that may be chosen, whatever the order of the list. -/
inductive Eligible (env : VersionEnv V) (cpeMatches : List Product) (requestedVersion : String)
    (product : Product) : Prop
  | exact (hcomparable : env.isComparable requestedVersion = true)
      (hlisted : requestedVersion ∈ versionNumbers cpeMatches) (hmem : product ∈ cpeMatches)
      (hversion : product.versionNumber = requestedVersion)
  | nearest (hcomparable : env.isComparable requestedVersion = true)
      (hlisted : requestedVersion ∉ versionNumbers cpeMatches)
      (hsortable : Sortable env cpeMatches requestedVersion) (hmem : product ∈ cpeMatches)
      (hnearest : NearestByKey env.versionKey (versionNumbers cpeMatches) requestedVersion
        product.versionNumber)
  | any (hcomparable : env.isComparable requestedVersion = false)
      (hany : requestedVersion = "ANY") (hmem : product ∈ cpeMatches)
      (hversion : product.versionNumber = requestedVersion)
  | other (hcomparable : env.isComparable requestedVersion = false)
      (hany : requestedVersion ≠ "ANY") (hmem : product ∈ cpeMatches)

theorem Eligible.mem (h : Eligible env cpeMatches requestedVersion product) :
    product ∈ cpeMatches := by
  cases h <;> assumption

theorem mem_versionNumbers : version ∈ versionNumbers cpeMatches ↔
    (∃ product ∈ cpeMatches, product.versionNumber = version) ∧ version ∉ ["N/A", "ANY"] := by
  rw [versionNumbers, List.mem_filter, List.mem_map, decide_eq_true_iff]

/-- The listed version that a sort finds belongs to a product. -/
theorem findCpeProductWithVersion_of_mem (h : version ∈ versionNumbers cpeMatches) :
    ∃ product ∈ cpeMatches, product.versionNumber = version ∧
      findCpeProductWithVersion cpeMatches version = .ok product := by
  rcases findCpeProductWithVersion_cases cpeMatches version with hfound | ⟨hnone, -⟩
  · exact hfound
  · obtain ⟨⟨product, hmem, hversion⟩, -⟩ := mem_versionNumbers.mp h
    exact absurd hversion (hnone product hmem)

/-- A sort of versions that cannot all be coerced. -/
def SortFails (env : VersionEnv V) (cpeMatches : List Product) (requestedVersion : String) : Prop :=
  env.isComparable requestedVersion = true ∧ requestedVersion ∉ versionNumbers cpeMatches ∧
    ¬ Sortable env cpeMatches requestedVersion

/-- The selection returns an eligible product, or fails with one of two exceptions. -/
theorem findMatchingCpeProduct_cases (env : VersionEnv V) (cpeMatches : List Product)
    (requestedVersion : String) :
    (∃ product, Eligible env cpeMatches requestedVersion product ∧
      env.findMatchingCpeProduct cpeMatches requestedVersion = .ok product) ∨
    (¬ SortFails env cpeMatches requestedVersion ∧
      (∀ product, ¬ Eligible env cpeMatches requestedVersion product) ∧
      env.findMatchingCpeProduct cpeMatches requestedVersion = .error .indexError) ∨
    (SortFails env cpeMatches requestedVersion ∧
      env.findMatchingCpeProduct cpeMatches requestedVersion = .error .invalidVersion) := by
  cases hcomparable : env.isComparable requestedVersion with
  | true =>
    rcases Decidable.em (requestedVersion ∈ versionNumbers cpeMatches) with hlisted | hlisted
    · obtain ⟨product, hmem, hversion, hfind⟩ := findCpeProductWithVersion_of_mem hlisted
      rw [findMatchingCpeProduct_of_listed hcomparable hlisted]
      exact .inl ⟨product, .exact hcomparable hlisted hmem hversion, hfind⟩
    · rw [findMatchingCpeProduct_of_not_listed hcomparable hlisted]
      split
      · next hsortable =>
        cases hneighbour : neighbour env.versionKey (versionNumbers cpeMatches)
            requestedVersion with
        | some version =>
          have hnearest := nearest_of_neighbour hneighbour
          obtain ⟨product, hmem, rfl, hfind⟩ := findCpeProductWithVersion_of_mem hnearest.1
          exact .inl ⟨product, .nearest hcomparable hlisted hsortable hmem hnearest, hfind⟩
        | none =>
          have hnil := neighbour_eq_none_iff.mp hneighbour
          refine .inr (.inl ⟨fun h => h.2.2 hsortable, fun product h => ?_, rfl⟩)
          cases h with
          | exact _ hlisted' _ _ => exact hlisted hlisted'
          | nearest _ _ _ _ hnearest => exact List.not_mem_nil (hnil ▸ hnearest.1)
          | any hno _ _ _ => rw [hcomparable] at hno; cases hno
          | other hno _ _ => rw [hcomparable] at hno; cases hno
      · next hsortable => exact .inr (.inr ⟨⟨hcomparable, hlisted, hsortable⟩, rfl⟩)
  | false =>
    have hnofail : ¬ SortFails env cpeMatches requestedVersion := by
      rintro ⟨htrue, -⟩
      rw [hcomparable] at htrue
      cases htrue
    rcases Decidable.em (requestedVersion = "ANY") with rfl | hany
    · rw [findMatchingCpeProduct_of_any hcomparable]
      rcases findCpeProductWithVersion_cases cpeMatches "ANY" with
        ⟨product, hmem, hversion, hfind⟩ | ⟨hnone, hfind⟩
      · exact .inl ⟨product, .any hcomparable rfl hmem hversion, hfind⟩
      · refine .inr (.inl ⟨hnofail, fun product h => ?_, hfind⟩)
        cases h with
        | exact hno _ _ _ => rw [hcomparable] at hno; cases hno
        | nearest hno _ _ _ _ => rw [hcomparable] at hno; cases hno
        | any _ _ hmem hversion => exact hnone product hmem hversion
        | other _ hne _ => exact hne rfl
    · rw [findMatchingCpeProduct_of_other hcomparable hany]
      cases cpeMatches with
      | nil => exact .inr (.inl ⟨hnofail, fun product h => List.not_mem_nil h.mem, rfl⟩)
      | cons product rest =>
        exact .inl ⟨product, .other hcomparable hany List.mem_cons_self, rfl⟩

theorem not_eligible_of_sortFails (h : SortFails env cpeMatches requestedVersion) :
    ¬ Eligible env cpeMatches requestedVersion product := by
  obtain ⟨hcomparable, hlisted, hsortable⟩ := h
  intro helig
  cases helig with
  | exact _ hlisted' _ _ => exact hlisted hlisted'
  | nearest _ _ hsortable' _ _ => exact hsortable hsortable'
  | any hno _ _ _ => rw [hcomparable] at hno; cases hno
  | other hno _ _ => rw [hcomparable] at hno; cases hno

/-- `InvalidVersion` leaves the selection if and only if the versions cannot be sorted. -/
theorem findMatchingCpeProduct_eq_invalidVersion_iff :
    env.findMatchingCpeProduct cpeMatches requestedVersion = .error .invalidVersion ↔
      SortFails env cpeMatches requestedVersion := by
  rcases findMatchingCpeProduct_cases env cpeMatches requestedVersion with
    ⟨product, helig, hfind⟩ | ⟨hno, -, hfind⟩ | ⟨hfails, hfind⟩
  · rw [hfind]
    exact iff_of_false (by simp) fun hfails => not_eligible_of_sortFails hfails helig
  · rw [hfind]
    exact iff_of_false (by simp) hno
  · exact iff_of_true hfind hfails

/-! ## 3. What is chosen -/

omit [LinearOrder V] in
/-- A version that is looked for is none of the two special ones. -/
theorem not_mem_of_isComparable (h : env.isComparable requestedVersion = true) :
    requestedVersion ∉ ["N/A", "ANY"] := by
  intro hmem
  have hdigit : ∀ c s, c.toNat < 128 → c.isDigit = false →
      env.tables.allDigits (String.ofList (c :: s)) = false := by
    intro c s hascii hc
    simp [CharTables.allDigits, env.tables.isDigit_ascii c hascii, hc]
  have hno : env.isComparable requestedVersion = false := by
    rcases List.mem_cons.mp hmem with rfl | hmem
    · exact Bool.or_eq_false_iff.mpr ⟨hdigit 'N' ['/', 'A'] (by decide) (by decide), by decide⟩
    · rw [List.mem_singleton.mp hmem]
      exact Bool.or_eq_false_iff.mpr ⟨hdigit 'A' ['N', 'Y'] (by decide) (by decide), by decide⟩
  rw [h] at hno
  cases hno

/-- If the versions can be sorted where they are, an element of the list is returned or
`IndexError` is raised; a requested version that is a number, dotted or `ANY` and that some
product has is the one of the product that is returned. -/
theorem findMatchingCpeProduct_selects (env : VersionEnv V) (first : Product) (rest : List Product)
    (requestedVersion : String) :
    (¬ SortFails env (first :: rest) requestedVersion →
      (∃ product ∈ first :: rest,
        env.findMatchingCpeProduct (first :: rest) requestedVersion = .ok product) ∨
      env.findMatchingCpeProduct (first :: rest) requestedVersion = .error .indexError) ∧
    (env.isComparable requestedVersion = true ∨ requestedVersion = "ANY" →
      ∀ listed ∈ first :: rest, listed.versionNumber = requestedVersion →
        ∃ product ∈ first :: rest, product.versionNumber = requestedVersion ∧
          env.findMatchingCpeProduct (first :: rest) requestedVersion = .ok product) := by
  refine ⟨fun hno => ?_, fun htype listed hmem hversion => ?_⟩
  · rcases findMatchingCpeProduct_cases env (first :: rest) requestedVersion with
      ⟨product, helig, hfind⟩ | ⟨-, -, hfind⟩ | ⟨hfails, -⟩
    · exact .inl ⟨product, helig.mem, hfind⟩
    · exact .inr hfind
    · exact absurd hfails hno
  · cases hcomparable : env.isComparable requestedVersion with
    | true =>
      have hlisted : requestedVersion ∈ versionNumbers (first :: rest) :=
        mem_versionNumbers.mpr ⟨⟨listed, hmem, hversion⟩, not_mem_of_isComparable hcomparable⟩
      rw [findMatchingCpeProduct_of_listed hcomparable hlisted]
      exact findCpeProductWithVersion_of_mem hlisted
    | false =>
      obtain rfl : requestedVersion = "ANY" := by
        rcases htype with htrue | hany
        · rw [hcomparable] at htrue
          cases htrue
        · exact hany
      rw [findMatchingCpeProduct_of_any hcomparable]
      rcases findCpeProductWithVersion_cases (first :: rest) "ANY" with hfound | ⟨hnone, -⟩
      · exact hfound
      · exact absurd hversion (hnone listed hmem)

end VersionEnv

/-- A parser that knows four versions. -/
def fourVersions : VersionEnv Nat where
  tables := .ascii
  parseVersion s := ["1.0", "2.0", "2.5", "3.0"].idxOf? s

/-- Three versions of a product, which are not sorted. -/
def threeProducts : List Product :=
  [⟨"vendor", "product", "3\\.0"⟩, ⟨"vendor", "product", "1\\.0"⟩, ⟨"vendor", "product", "2\\.0"⟩]

open VersionEnv in
/-- A listed version is taken, and next to one that is not listed the one before it. -/
theorem selects_of_three : ¬ SortFails fourVersions threeProducts "2\\.5" ∧
    fourVersions.findMatchingCpeProduct threeProducts "2\\.5" = .ok ⟨"vendor", "product", "2\\.0"⟩ ∧
    (∃ product ∈ threeProducts,
      fourVersions.findMatchingCpeProduct threeProducts "2\\.5" = .ok product) ∧
    ∃ product ∈ threeProducts, product.versionNumber = "1\\.0" ∧
      fourVersions.findMatchingCpeProduct threeProducts "1\\.0" = .ok product := by
  have hnearest : fourVersions.findMatchingCpeProduct threeProducts "2\\.5" =
      .ok ⟨"vendor", "product", "2\\.0"⟩ := by decide
  have hsorts : ¬ SortFails fourVersions threeProducts "2\\.5" := by
    rw [← findMatchingCpeProduct_eq_invalidVersion_iff, hnearest]
    exact fun h => (by cases h)
  refine ⟨hsorts, hnearest, ?_, (findMatchingCpeProduct_selects fourVersions _ _ "1\\.0").2
    (.inl (by decide)) ⟨"vendor", "product", "1\\.0"⟩ (by decide) rfl⟩
  refine ((findMatchingCpeProduct_selects fourVersions _ _ "2\\.5").1 hsorts).resolve_right ?_
  exact fun h => (by cases hnearest.symm.trans h)

/-- A parser that knows the version 1.0 only. -/
def versionOne : VersionEnv Nat where
  tables := .ascii
  parseVersion s := if s = "1.0" then some 1 else none

open VersionEnv in
/-- A version that is just a service pack: among the listed ones it ends the selection with
`InvalidVersion`; if it is requested, it is not looked for. -/
theorem service_pack :
    ¬ (∀ (env : VersionEnv Nat) (first : Product) (rest : List Product) (requestedVersion : String),
      (∃ product ∈ first :: rest,
        env.findMatchingCpeProduct (first :: rest) requestedVersion = .ok product) ∨
      env.findMatchingCpeProduct (first :: rest) requestedVersion = .error .indexError) ∧
    ¬ (∀ (env : VersionEnv Nat) (first : Product) (rest : List Product) (requestedVersion : String),
      ∀ listed ∈ first :: rest, listed.versionNumber = requestedVersion →
        ∃ product ∈ first :: rest, product.versionNumber = requestedVersion ∧
          env.findMatchingCpeProduct (first :: rest) requestedVersion = .ok product) := by
  constructor
  · intro h
    have hfails : versionOne.findMatchingCpeProduct [⟨"vendor", "product", "sp1"⟩] "1\\.0" =
        .error .invalidVersion := by decide
    rcases h versionOne ⟨"vendor", "product", "sp1"⟩ [] "1\\.0" with ⟨product, -, hok⟩ | hindex
    · rw [hfails] at hok; cases hok
    · rw [hfails] at hindex; cases hindex
  · intro h
    obtain ⟨product, -, hversion, hok⟩ := h versionOne ⟨"vendor", "product", "1\\.0"⟩
      [⟨"vendor", "product", "sp1"⟩] "sp1" ⟨"vendor", "product", "sp1"⟩ (by decide) rfl
    have hfirst : versionOne.findMatchingCpeProduct [⟨"vendor", "product", "1\\.0"⟩,
        ⟨"vendor", "product", "sp1"⟩] "sp1" = .ok ⟨"vendor", "product", "1\\.0"⟩ := by decide
    rw [hfirst] at hok
    rw [← Except.ok.inj hok] at hversion
    exact absurd hversion (by decide)

end FactCore
