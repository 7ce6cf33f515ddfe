import FactCore.CveLookup.Selection
import FactCore.CveLookup.SummaryMatching
import FactCore.Lib.Dict
import Mathlib.Data.List.Dedup

/-!
# Looking up vulnerabilities

`src/src/plugins/analysis/cve_lookup/code/cve_lookup.py`: the CVEs for the product that is
chosen among the matches of a component. `match_cpe` makes a list of a set, so the matches
may come in any order, and the choice takes the first of several that are equally good.

Results:
1. `mem_cveCandidates`: which CVEs a product has.
2. `exists_order_of_eligible`: each eligible product is chosen in some order.
3. `lookUpVulnerabilities_orderIndependent_iff`: when the order does not matter.
4. `two_vendors`: a tie that the order decides.
-/

namespace FactCore

/-- What the queries `cpe_lookup`, `cve_lookup` and `summary_lookup` fetch. -/
structure LookupRows where
  cpeRows : List Product
  cveRows : List CveDbEntry
  summaryRows : List CveSummaryRow

/-- What is stored for a CVE. One that is found in a summary has no `cpe_version`. -/
structure CveResult where
  score2 : String
  score3 : String
  cpeVersion : Option String

/-- `build_version_string`. -/
def buildVersionString (cveEntry : CveDbEntry) : String :=
  if cveEntry.versionStartIncluding = "" ∧ cveEntry.versionStartExcluding = "" ∧
      cveEntry.versionEndIncluding = "" ∧ cveEntry.versionEndExcluding = "" then
    unescape cveEntry.version
  else
    let result :=
      if cveEntry.versionStartIncluding ≠ "" then
        cveEntry.versionStartIncluding ++ " ≤ " ++ "version"
      else if cveEntry.versionStartExcluding ≠ "" then
        cveEntry.versionStartExcluding ++ " < " ++ "version"
      else "version"
    if cveEntry.versionEndIncluding ≠ "" then result ++ " ≤ " ++ cveEntry.versionEndIncluding
    else if cveEntry.versionEndExcluding ≠ "" then result ++ " < " ++ cveEntry.versionEndExcluding
    else result

/-- `match_cpe`: the list of a set of rows, in an order that is left open. -/
structure MatchCpe (cpeRows : List Product) (productSearchTerms : List String)
    (matchedCpe : List Product) : Prop where
  nodup : matchedCpe.Nodup
  mem_iff : ∀ product, product ∈ matchedCpe ↔ product ∈ cpeRows ∧
    ∃ productTerm ∈ productSearchTerms, termsMatch productTerm product.productName = true

namespace VersionEnv
variable {V : Type} [LinearOrder V] (env : VersionEnv V) (rows : LookupRows)

/-- `_product_matches_cve`. -/
def productMatchesCve (product : Product) (cveEntry : CveDbEntry) : Bool :=
  termsMatch product.vendorName cveEntry.vendor &&
    termsMatch product.productName cveEntry.productName &&
      env.versionsMatch (unescape product.versionNumber) cveEntry

/-- `search_cve`. -/
def searchCve (product : Product) : Dict String CveResult :=
  Dict.ofList ((rows.cveRows.filter (env.productMatchesCve product)).map fun cveEntry =>
    (cveEntry.cveId, ⟨cveEntry.cvssV2Score, cveEntry.cvssV3Score,
      some (buildVersionString cveEntry)⟩))

omit [LinearOrder V] in
/-- `search_cve_summary`. -/
def searchCveSummary (product : Product) : Dict String CveResult :=
  Dict.ofList ((rows.summaryRows.filter fun row =>
    productIsMentionedInSummary env.tables.lower product row.summary).map fun row =>
      (row.cveId, ⟨row.cvssV2Score, row.cvssV3Score, none⟩))

/-- The last part of `look_up_vulnerabilities`. -/
def cveCandidates (product : Product) : Dict String CveResult :=
  (env.searchCve rows product).update (env.searchCveSummary rows product)

/-- `look_up_vulnerabilities`, with the products that `match_cpe` found. -/
def lookUpVulnerabilities (matchedCpe : List Product) (requestedVersion : String) :
    Except SelectionError (Option (Dict String CveResult)) :=
  let version := replaceAttribute requestedVersion.toList
  if matchedCpe = [] then .ok none
  else
    match env.findMatchingCpeProduct matchedCpe version with
    | .ok matchedProduct => .ok (some (env.cveCandidates rows matchedProduct))
    | .error .indexError => .ok none
    | .error e => .error e

/-! ## 1. The CVEs of a product -/

/-- The product has a CVE, by an entry or by a summary. -/
def HasCve (product : Product) (cveId : String) : Prop :=
  (∃ cveEntry ∈ rows.cveRows, cveEntry.cveId = cveId ∧
    env.productMatchesCve product cveEntry = true) ∨
  ∃ row ∈ rows.summaryRows, row.cveId = cveId ∧
    productIsMentionedInSummary env.tables.lower product row.summary = true

variable {env rows} {product : Product} {cveId : String}

theorem mem_searchCve : cveId ∈ env.searchCve rows product ↔
    ∃ cveEntry ∈ rows.cveRows, cveEntry.cveId = cveId ∧
      env.productMatchesCve product cveEntry = true := by
  unfold searchCve Dict.ofList
  rw [Dict.mem_setAll, List.map_map, List.mem_map]
  constructor
  · rintro (hempty | ⟨cveEntry, hmem, hid⟩)
    · cases hempty
    · obtain ⟨hrow, hmatch⟩ := List.mem_filter.mp hmem
      exact ⟨cveEntry, hrow, hid, hmatch⟩
  · rintro ⟨cveEntry, hrow, hid, hmatch⟩
    exact .inr ⟨cveEntry, List.mem_filter.mpr ⟨hrow, hmatch⟩, hid⟩

omit [LinearOrder V] in
theorem mem_searchCveSummary : cveId ∈ env.searchCveSummary rows product ↔
    ∃ row ∈ rows.summaryRows, row.cveId = cveId ∧
      productIsMentionedInSummary env.tables.lower product row.summary = true := by
  unfold searchCveSummary Dict.ofList
  rw [Dict.mem_setAll, List.map_map, List.mem_map]
  constructor
  · rintro (hempty | ⟨row, hmem, hid⟩)
    · cases hempty
    · obtain ⟨hrow, hmatch⟩ := List.mem_filter.mp hmem
      exact ⟨row, hrow, hid, hmatch⟩
  · rintro ⟨row, hrow, hid, hmatch⟩
    exact .inr ⟨row, List.mem_filter.mpr ⟨hrow, hmatch⟩, hid⟩

theorem mem_cveCandidates : cveId ∈ env.cveCandidates rows product ↔
    env.HasCve rows product cveId := by
  rw [cveCandidates, Dict.mem_update, mem_searchCve, mem_searchCveSummary]
  rfl

/-! ## 2. Which product is chosen in which order -/

variable {cpeMatches l l' : List Product} {version requestedVersion : String}

theorem mem_versionNumbers_congr (h : ∀ p, p ∈ l ↔ p ∈ l') :
    version ∈ versionNumbers l ↔ version ∈ versionNumbers l' := by
  simp only [mem_versionNumbers, h]

omit [LinearOrder V] in
theorem sortable_congr (h : ∀ p, p ∈ l ↔ p ∈ l') :
    Sortable env l version ↔ Sortable env l' version := by
  unfold Sortable
  simp only [List.mem_append, mem_versionNumbers_congr h]

omit [LinearOrder V] in
theorem sortFails_congr (h : ∀ p, p ∈ l ↔ p ∈ l') :
    SortFails env l version ↔ SortFails env l' version := by
  unfold SortFails
  rw [mem_versionNumbers_congr h, sortable_congr h]

/-- Who is eligible does not depend on the order. -/
theorem Eligible.congr (h : ∀ p, p ∈ l ↔ p ∈ l') (helig : Eligible env l version product) :
    Eligible env l' version product := by
  cases helig with
  | exact hcomparable hlisted hmem hversion =>
    exact .exact hcomparable ((mem_versionNumbers_congr h).mp hlisted) ((h _).mp hmem) hversion
  | nearest hcomparable hlisted hsortable hmem hnearest =>
    refine .nearest hcomparable ((mem_versionNumbers_congr h).not.mp hlisted)
      ((sortable_congr h).mp hsortable) ((h _).mp hmem) ?_
    unfold NearestByKey at hnearest ⊢
    simpa only [mem_versionNumbers_congr h] using hnearest
  | any hcomparable hany hmem hversion => exact .any hcomparable hany ((h _).mp hmem) hversion
  | other hcomparable hany hmem => exact .other hcomparable hany ((h _).mp hmem)

theorem findCpeProductWithVersion_cons (h : product.versionNumber = version) :
    findCpeProductWithVersion (product :: l) version = .ok product := by
  rw [findCpeProductWithVersion_eq, List.find?_cons_of_pos (by simpa using h)]
  rfl

theorem versionNumbers_cons (h : product.versionNumber ∉ ["N/A", "ANY"]) :
    versionNumbers (product :: l) = product.versionNumber :: versionNumbers l :=
  List.filter_cons_of_pos (by simpa using h)

/-- Versions that are all equal end with that version. -/
theorem versionNumbers_of_forall (hspecial : version ∉ ["N/A", "ANY"])
    (h : ∀ p ∈ l, p.versionNumber = version) :
    versionNumbers l = List.replicate l.length version := by
  have hall : l.map Product.versionNumber = List.replicate l.length version := by
    rw [List.eq_replicate_iff]
    refine ⟨List.length_map _, fun v hv => ?_⟩
    obtain ⟨p, hp, rfl⟩ := List.mem_map.mp hv
    exact h p hp
  rw [versionNumbers, hall, List.filter_replicate_of_pos (by simpa using hspecial)]

section Nearest
variable (hcomparable : env.isComparable version = true) (hlisted : version ∉ versionNumbers l)
  (hsortable : Sortable env l version) (hmem : product ∈ l)
  (hin : product.versionNumber ∈ versionNumbers l)
include hcomparable hlisted hsortable hmem hin

/-- A greatest version below the requested one is chosen if it is the last one of its key and
its product the first one with it. -/
theorem exists_order_of_greatest (hle : env.versionKey product.versionNumber ≤ env.versionKey version)
    (hgreatest : ∀ v ∈ versionNumbers l, env.versionKey v ≤ env.versionKey version →
      env.versionKey v ≤ env.versionKey product.versionNumber) :
    ∃ l', l'.Perm l ∧ env.findMatchingCpeProduct l' version = .ok product := by
  let same := fun p : Product => decide (p.versionNumber = product.versionNumber)
  let others := l.filter fun p => !same p
  let rest := (l.filter same).erase product
  have hsame : product ∈ l.filter same := List.mem_filter.mpr ⟨hmem, decide_eq_true rfl⟩
  have hperm : (others ++ product :: rest).Perm l :=
    ((List.perm_cons_erase hsame).symm.append_left others).trans
      (List.perm_append_comm.trans (List.filter_append_perm same l))
  have hcongr : ∀ p, p ∈ l ↔ p ∈ others ++ product :: rest := fun p => hperm.mem_iff.symm
  have hspecial := (mem_versionNumbers.mp hin).2
  have hrest : ∀ p ∈ rest, p.versionNumber = product.versionNumber := fun p hp =>
    of_decide_eq_true (List.mem_filter.mp (List.mem_of_mem_erase hp)).2
  have hversions : versionNumbers (others ++ product :: rest) =
      (versionNumbers others ++ List.replicate rest.length product.versionNumber) ++
        [product.versionNumber] := by
    rw [List.append_assoc, ← List.replicate_succ', List.replicate_succ,
      ← versionNumbers_of_forall hspecial hrest, ← versionNumbers_cons hspecial]
    simp [versionNumbers]
  have hneighbour : neighbour env.versionKey (versionNumbers (others ++ product :: rest))
      version = some product.versionNumber := by
    rw [hversions]
    refine neighbour_concat hle fun v hv => hgreatest v ?_
    rw [mem_versionNumbers_congr hcongr, hversions]
    exact List.mem_append_left _ hv
  have hothers : others.find? (fun p => decide (p.versionNumber = product.versionNumber)) =
      none := by
    refine List.find?_eq_none.mpr fun p hp => ?_
    have hne := (List.mem_filter.mp hp).2
    simpa [same] using hne
  refine ⟨_, hperm, ?_⟩
  rw [findMatchingCpeProduct_of_neighbour hcomparable
    ((mem_versionNumbers_congr hcongr).not.mp hlisted) ((sortable_congr hcongr).mp hsortable)
    hneighbour, findCpeProductWithVersion_eq, List.find?_append, hothers, Option.none_or,
    ← findCpeProductWithVersion_eq]
  exact findCpeProductWithVersion_cons rfl

/-- A least version above the requested one is chosen if its product is the first one. -/
theorem exists_order_of_least (hlt : env.versionKey version < env.versionKey product.versionNumber)
    (hleast : ∀ v ∈ versionNumbers l, env.versionKey product.versionNumber ≤ env.versionKey v) :
    ∃ l', l'.Perm l ∧ env.findMatchingCpeProduct l' version = .ok product := by
  have hperm : (product :: l.erase product).Perm l := (List.perm_cons_erase hmem).symm
  have hcongr : ∀ p, p ∈ l ↔ p ∈ product :: l.erase product := fun p => hperm.mem_iff.symm
  have hversions : versionNumbers (product :: l.erase product) =
      product.versionNumber :: versionNumbers (l.erase product) :=
    versionNumbers_cons (mem_versionNumbers.mp hin).2
  have hneighbour : neighbour env.versionKey (versionNumbers (product :: l.erase product))
      version = some product.versionNumber := by
    rw [hversions]
    refine neighbour_cons hlt fun v hv => hleast v ?_
    rw [mem_versionNumbers_congr hcongr, hversions]
    exact List.mem_cons_of_mem _ hv
  refine ⟨_, hperm, ?_⟩
  rw [findMatchingCpeProduct_of_neighbour hcomparable
    ((mem_versionNumbers_congr hcongr).not.mp hlisted) ((sortable_congr hcongr).mp hsortable)
    hneighbour]
  exact findCpeProductWithVersion_cons rfl

end Nearest

/-- Each eligible product is the one that is chosen in some order of the list. -/
theorem exists_order_of_eligible (helig : Eligible env l version product) :
    ∃ l', l'.Perm l ∧ env.findMatchingCpeProduct l' version = .ok product := by
  have hfront : (product :: l.erase product).Perm l := (List.perm_cons_erase helig.mem).symm
  cases helig with
  | exact hcomparable hlisted hmem hversion =>
    have hlisted' := (mem_versionNumbers_congr fun p => hfront.mem_iff).mpr hlisted
    exact ⟨_, hfront, (findMatchingCpeProduct_of_listed hcomparable hlisted').trans
      (findCpeProductWithVersion_cons hversion)⟩
  | nearest hcomparable hlisted hsortable hmem hnearest =>
    obtain ⟨hin, ⟨hle, hgreatest⟩ | ⟨hlt, hleast⟩⟩ := hnearest
    · exact exists_order_of_greatest hcomparable hlisted hsortable hmem hin hle hgreatest
    · exact exists_order_of_least hcomparable hlisted hsortable hmem hin hlt hleast
  | any hcomparable hany hmem hversion =>
    subst hany
    exact ⟨_, hfront, (findMatchingCpeProduct_of_any hcomparable).trans
      (findCpeProductWithVersion_cons hversion)⟩
  | other hcomparable hany hmem =>
    exact ⟨_, hfront, findMatchingCpeProduct_of_other hcomparable hany⟩

/-! ## 3. When the order does not matter -/

/-- The CVE ids of a result. -/
def foundCves (result : Except SelectionError (Option (Dict String CveResult))) :
    Except SelectionError (Option (Set String)) :=
  result.map (Option.map fun cves => {cveId | cveId ∈ cves})

/-- The rows that match a search term. -/
def matchedRows (cpeRows : List Product) (productSearchTerms : List String) : List Product :=
  cpeRows.filter fun p => productSearchTerms.any fun term => termsMatch term p.productName

/-- A product that may be chosen for the version. -/
def Candidate (env : VersionEnv V) (rows : LookupRows) (productSearchTerms : List String)
    (requestedVersion : String) : Product → Prop :=
  Eligible env (matchedRows rows.cpeRows productSearchTerms)
    (replaceAttribute requestedVersion.toList)

variable {terms : List String} {cpeRows l₁ l₂ : List Product}

theorem mem_matchedRows_iff (h : MatchCpe cpeRows terms l) (p : Product) :
    p ∈ matchedRows cpeRows terms ↔ p ∈ l := by
  rw [h.mem_iff, matchedRows, List.mem_filter, List.any_eq_true]

/-- The outcomes of a lookup with some matches. -/
theorem lookUpVulnerabilities_cases (env : VersionEnv V) (rows : LookupRows) (hne : l ≠ [])
    (requestedVersion : String) :
    (∃ product, Eligible env l (replaceAttribute requestedVersion.toList) product ∧
      env.lookUpVulnerabilities rows l requestedVersion =
        .ok (some (env.cveCandidates rows product))) ∨
    (¬ SortFails env l (replaceAttribute requestedVersion.toList) ∧
      (∀ product, ¬ Eligible env l (replaceAttribute requestedVersion.toList) product) ∧
      env.lookUpVulnerabilities rows l requestedVersion = .ok none) ∨
    (SortFails env l (replaceAttribute requestedVersion.toList) ∧
      env.lookUpVulnerabilities rows l requestedVersion = .error .invalidVersion) := by
  unfold lookUpVulnerabilities
  rw [if_neg hne]
  rcases findMatchingCpeProduct_cases env l (replaceAttribute requestedVersion.toList) with
    ⟨product, helig, hfind⟩ | ⟨hsorted, hnone, hfind⟩ | ⟨hfails, hfind⟩
  · rw [hfind]
    exact .inl ⟨product, helig, rfl⟩
  · rw [hfind]
    exact .inr (.inl ⟨hsorted, hnone, rfl⟩)
  · rw [hfind]
    exact .inr (.inr ⟨hfails, rfl⟩)

/-- A product that may be chosen has its CVEs found in some order of the matches. -/
theorem exists_lookUp_of_candidate (h : Candidate env rows terms requestedVersion product) :
    ∃ l, MatchCpe rows.cpeRows terms l ∧
      env.lookUpVulnerabilities rows l requestedVersion =
        .ok (some (env.cveCandidates rows product)) := by
  have hdedup : ∀ p, p ∈ matchedRows rows.cpeRows terms ↔
      p ∈ (matchedRows rows.cpeRows terms).dedup := fun _ => List.mem_dedup.symm
  obtain ⟨l, hperm, hfind⟩ := exists_order_of_eligible (Eligible.congr hdedup h)
  have hmatch : MatchCpe rows.cpeRows terms l := by
    refine ⟨hperm.nodup_iff.mpr (List.nodup_dedup _), fun p => ?_⟩
    rw [hperm.mem_iff, List.mem_dedup, matchedRows, List.mem_filter, List.any_eq_true]
  have hne : l ≠ [] := List.ne_nil_of_mem ((mem_matchedRows_iff hmatch product).mp h.mem)
  refine ⟨l, hmatch, ?_⟩
  rw [lookUpVulnerabilities, if_neg hne, hfind]

/-- Two orders with results of the same kind. -/
theorem foundCves_eq_of_candidates (h₁ : MatchCpe rows.cpeRows terms l₁)
    (h₂ : MatchCpe rows.cpeRows terms l₂)
    (hsame : ∀ p q, Candidate env rows terms requestedVersion p →
      Candidate env rows terms requestedVersion q →
        ∀ cveId, HasCve env rows p cveId ↔ HasCve env rows q cveId) :
    foundCves (env.lookUpVulnerabilities rows l₁ requestedVersion) =
      foundCves (env.lookUpVulnerabilities rows l₂ requestedVersion) := by
  have hmem : ∀ p, p ∈ l₁ ↔ p ∈ l₂ := fun p =>
    (mem_matchedRows_iff h₁ p).symm.trans (mem_matchedRows_iff h₂ p)
  rcases Decidable.em (l₁ = []) with rfl | hne₁
  · obtain rfl : l₂ = [] := List.eq_nil_iff_forall_not_mem.mpr fun p hp =>
      List.not_mem_nil ((hmem p).mpr hp)
    rfl
  · obtain ⟨first, hfirst⟩ := List.exists_mem_of_ne_nil l₁ hne₁
    have hne₂ : l₂ ≠ [] := List.ne_nil_of_mem ((hmem first).mp hfirst)
    rcases lookUpVulnerabilities_cases env rows hne₁ requestedVersion with
      ⟨p, hp, heq₁⟩ | ⟨hsorted, hnone, heq₁⟩ | ⟨hfails, heq₁⟩
    · rcases lookUpVulnerabilities_cases env rows hne₂ requestedVersion with
        ⟨q, hq, heq₂⟩ | ⟨-, hnone, -⟩ | ⟨hfails, -⟩
      · have hp' := hp.congr fun p => (mem_matchedRows_iff h₁ p).symm
        have hq' := hq.congr fun p => (mem_matchedRows_iff h₂ p).symm
        have hset : {cveId | cveId ∈ env.cveCandidates rows p} =
            {cveId | cveId ∈ env.cveCandidates rows q} := by
          ext cveId
          show cveId ∈ env.cveCandidates rows p ↔ cveId ∈ env.cveCandidates rows q
          rw [mem_cveCandidates, mem_cveCandidates]
          exact hsame p q hp' hq' cveId
        rw [heq₁, heq₂]
        exact congrArg (fun ids => Except.ok (some ids)) hset
      · exact absurd (hp.congr hmem) (hnone p)
      · exact absurd (hp.congr hmem) (not_eligible_of_sortFails hfails)
    · rcases lookUpVulnerabilities_cases env rows hne₂ requestedVersion with
        ⟨q, hq, -⟩ | ⟨-, -, heq₂⟩ | ⟨hfails, -⟩
      · exact absurd (hq.congr fun p => (hmem p).symm) (hnone q)
      · rw [heq₁, heq₂]
      · exact absurd ((sortFails_congr hmem).mpr hfails) hsorted
    · rcases lookUpVulnerabilities_cases env rows hne₂ requestedVersion with
        ⟨q, hq, -⟩ | ⟨hsorted, -, -⟩ | ⟨-, heq₂⟩
      · exact absurd hq (not_eligible_of_sortFails ((sortFails_congr hmem).mp hfails))
      · exact absurd ((sortFails_congr hmem).mp hfails) hsorted
      · rw [heq₁, heq₂]

/-- The order of the matches does not matter if and only if all products that may be chosen have
the same CVEs. -/
theorem lookUpVulnerabilities_orderIndependent_iff (env : VersionEnv V) (rows : LookupRows)
    (productSearchTerms : List String) (requestedVersion : String) :
    (∀ l₁ l₂, MatchCpe rows.cpeRows productSearchTerms l₁ →
      MatchCpe rows.cpeRows productSearchTerms l₂ →
        foundCves (env.lookUpVulnerabilities rows l₁ requestedVersion) =
          foundCves (env.lookUpVulnerabilities rows l₂ requestedVersion)) ↔
    ∀ p q, Candidate env rows productSearchTerms requestedVersion p →
      Candidate env rows productSearchTerms requestedVersion q →
        ∀ cveId, HasCve env rows p cveId ↔ HasCve env rows q cveId := by
  refine ⟨fun h p q hp hq cveId => ?_, fun h l₁ l₂ h₁ h₂ => foundCves_eq_of_candidates h₁ h₂ h⟩
  obtain ⟨l₁, hmatch₁, heq₁⟩ := exists_lookUp_of_candidate hp
  obtain ⟨l₂, hmatch₂, heq₂⟩ := exists_lookUp_of_candidate hq
  have hfound := h l₁ l₂ hmatch₁ hmatch₂
  rw [heq₁, heq₂] at hfound
  have hset : {cveId | cveId ∈ env.cveCandidates rows p} =
      {cveId | cveId ∈ env.cveCandidates rows q} := Option.some.inj (Except.ok.inj hfound)
  rw [← mem_cveCandidates, ← mem_cveCandidates]
  exact Set.ext_iff.mp hset cveId

end VersionEnv

open VersionEnv in
/-- Two vendors have the product in the requested version; only the first one has a CVE. -/
theorem two_vendors :
    ¬ ∀ (env : VersionEnv Nat) (rows : LookupRows) (productSearchTerms : List String)
      (requestedVersion : String) (l₁ l₂ : List Product),
      MatchCpe rows.cpeRows productSearchTerms l₁ → MatchCpe rows.cpeRows productSearchTerms l₂ →
        foundCves (env.lookUpVulnerabilities rows l₁ requestedVersion) =
          foundCves (env.lookUpVulnerabilities rows l₂ requestedVersion) := by
  intro h
  let gnu : Product := ⟨"gnu", "tar", "1\\.0"⟩
  let node : Product := ⟨"node", "tar", "1\\.0"⟩
  let cve : CveDbEntry := ⟨"CVE-1", "gnu", "tar", "1\\.0", "5.0", "N/A", "", "", "", ""⟩
  let rows : LookupRows := ⟨[gnu, node], [cve], []⟩
  have hmatch : ∀ l, l.Perm [gnu, node] → MatchCpe rows.cpeRows ["tar"] l := by
    intro l hperm
    refine ⟨hperm.nodup_iff.mpr (by decide), fun p => ?_⟩
    rw [hperm.mem_iff]
    refine ⟨fun hp => ⟨hp, "tar", List.mem_cons_self, ?_⟩, fun hp => hp.1⟩
    rcases List.mem_cons.mp hp with rfl | hp
    · rfl
    · rw [List.mem_singleton.mp hp]
      rfl
  have hfound := h versionOne rows ["tar"] "1.0" _ _ (hmatch _ (.refl _)) (hmatch _ (.swap _ _ _))
  have hgnu : versionOne.lookUpVulnerabilities rows [gnu, node] "1.0" =
      .ok (some (versionOne.cveCandidates rows gnu)) := by
    have hfind : versionOne.findMatchingCpeProduct [gnu, node] (replaceAttribute "1.0".toList) =
        .ok gnu := by decide
    rw [lookUpVulnerabilities, if_neg (by decide), hfind]
  have hnode : versionOne.lookUpVulnerabilities rows [node, gnu] "1.0" =
      .ok (some (versionOne.cveCandidates rows node)) := by
    have hfind : versionOne.findMatchingCpeProduct [node, gnu] (replaceAttribute "1.0".toList) =
        .ok node := by decide
    rw [lookUpVulnerabilities, if_neg (by decide), hfind]
  rw [hgnu, hnode] at hfound
  have hset : {cveId | cveId ∈ versionOne.cveCandidates rows gnu} =
      {cveId | cveId ∈ versionOne.cveCandidates rows node} :=
    Option.some.inj (Except.ok.inj hfound)
  have hin : "CVE-1" ∈ versionOne.cveCandidates rows gnu := by decide
  have hout : "CVE-1" ∉ versionOne.cveCandidates rows node := by decide
  exact hout ((Set.ext_iff.mp hset "CVE-1").mp hin)

end FactCore
