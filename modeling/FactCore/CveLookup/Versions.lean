import FactCore.CveLookup.Products
import FactCore.Lib.CharTables
import FactCore.Lib.Pattern
import Mathlib.Order.Lattice

/-!
# Version strings

`src/src/plugins/analysis/cve_lookup/code/cve_lookup.py`: how version strings are compared.
`packaging.version.parse` is a parameter; `none` stands for `InvalidVersion`. A text that it
rejects is rewritten and parsed again.

Results:
1. `coerceVersion_eq_findSome?`: the readings of a version string.
2. `versionsMatch_iff`: the bounds of a CVE entry.
-/

namespace FactCore

/-- What the comparison of versions rests on. -/
structure VersionEnv (V : Type) where
  tables : CharTables
  /-- `packaging.version.parse`. -/
  parseVersion : String → Option V

/-- `VALID_VERSION_REGEX`. -/
def validVersionRegex (tables : CharTables) : Pattern :=
  let digits : Pattern := .plus (.char tables.isDecimal)
  let label : Pattern := .any [
    .seq (.lit 'a') (.opt (.word "lpha")), .seq (.lit 'b') (.opt (.word "eta")), .word "c",
    .word "dev", .word "post", .seq (.word "pre") (.opt (.word "view")), .word "r", .word "rc"]
  .all [
    .opt (.lit 'v'), .opt (.seq digits (.lit '!')), digits, .many (.seq (.lit '.') digits),
    .opt (.all [.opt (.char fun c => decide (c = '.' ∨ c = '-')), .opt label, digits])]

namespace VersionEnv
variable {V : Type} (env : VersionEnv V)

/-- The conversion of other conventions in `coerce_version`. Only the first `:` is an epoch. -/
def fixedVersion (version : String) : String :=
  let lower := (env.tables.lower version).toList
  let noTilde := lower.map fun c => if c = '~' then '-' else c
  String.ofList ((noTilde.replace ':' '!').map fun c => if c = '_' then '-' else c)

/-- What `coerce_version` parses last: the front that looks like a version, with the rest as a
local version, or else the digits and dots at the front. -/
def lastResort (fixedVersion : String) : String :=
  match (validVersionRegex env.tables).matchRest fixedVersion.toList with
  | some behind =>
    let validVersion := fixedVersion.toList.take (fixedVersion.toList.length - behind.length)
    let rest := (behind.filter fun c => env.tables.isWord c || decide (c = '.' ∨ c = '-')).dropWhile
      fun c => decide (c = '.' ∨ c = '_' ∨ c = '-')
    String.ofList (validVersion ++ '+' :: rest)
  | none => String.ofList (fixedVersion.toList.takeWhile fun c =>
      decide (c = 'v' ∨ c = '.') || env.tables.isDecimal c)

/-- `coerce_version`. -/
def coerceVersion (version : String) : Option V :=
  match env.parseVersion version with
  | some v => some v
  | none =>
    let fixedVersion := env.fixedVersion version
    match env.parseVersion fixedVersion with
    | some v => some v
    | none => env.parseVersion (env.lastResort fixedVersion)

variable [LinearOrder V]

/-- `compare_version`. A version that cannot be coerced compares to nothing. -/
def compareVersion (version1 version2 : String) (compOperator : V → V → Bool) : Bool :=
  match env.coerceVersion version1, env.coerceVersion version2 with
  | some v, some w => compOperator v w
  | _, _ => false

/-- The bounds of an entry, each with its operator. -/
def versionBoundaries (cveEntry : CveDbEntry) : List (String × (V → V → Bool)) := [
  (cveEntry.versionStartIncluding, fun v w => decide (v ≤ w)),
  (cveEntry.versionStartExcluding, fun v w => decide (v < w)),
  (cveEntry.versionEndIncluding, fun v w => decide (v ≥ w)),
  (cveEntry.versionEndExcluding, fun v w => decide (v > w))]

/-- `versions_match`. A bound that is empty does not count. -/
def versionsMatch (cpeVersion : String) (cveEntry : CveDbEntry) : Bool :=
  if (versionBoundaries cveEntry).any fun boundary =>
      decide (boundary.1 ≠ "") && !env.compareVersion boundary.1 cpeVersion boundary.2 then false
  else
    let cveVersion := unescape cveEntry.version
    if cveVersion ∉ ["ANY", "N/A"] && !env.compareVersion cveVersion cpeVersion fun v w =>
        decide (v = w) then false
    else true

/-! ## Results -/

/-- The texts that `coerce_version` tries to parse, in this order. -/
def versionReadings (version : String) : List String :=
  [version, env.fixedVersion version, env.lastResort (env.fixedVersion version)]

omit [LinearOrder V] in
theorem coerceVersion_eq_findSome? (version : String) :
    env.coerceVersion version = (env.versionReadings version).findSome? env.parseVersion := by
  unfold coerceVersion versionReadings
  dsimp only
  rw [List.findSome?_cons, List.findSome?_cons, List.findSome?_singleton]
  cases env.parseVersion version with
  | some v => rfl
  | none =>
    dsimp only
    cases env.parseVersion (env.fixedVersion version) with
    | some v => rfl
    | none => rfl

variable {env}

omit [LinearOrder V] in
/-- A version is coerced if and only if one of its readings is a version. -/
theorem coerceVersion_eq_none_iff {version : String} : env.coerceVersion version = none ↔
    ∀ reading ∈ env.versionReadings version, env.parseVersion reading = none := by
  rw [coerceVersion_eq_findSome?, List.findSome?_eq_none_iff]

theorem versionsMatch_iff {cpeVersion : String} {cveEntry : CveDbEntry} :
    env.versionsMatch cpeVersion cveEntry = true ↔
      (∀ boundary ∈ versionBoundaries cveEntry, boundary.1 ≠ "" →
        env.compareVersion boundary.1 cpeVersion boundary.2 = true) ∧
      (unescape cveEntry.version ∉ ["ANY", "N/A"] →
        env.compareVersion (unescape cveEntry.version) cpeVersion (fun v w => decide (v = w)) =
          true) := by
  unfold versionsMatch
  split
  · next hany =>
    obtain ⟨boundary, hmem, hfails⟩ := List.any_eq_true.mp hany
    rw [Bool.and_eq_true, decide_eq_true_iff, Bool.not_eq_true'] at hfails
    refine iff_of_false Bool.false_ne_true fun h => ?_
    rw [h.1 boundary hmem hfails.1] at hfails
    exact absurd hfails.2 (by decide)
  · next hnone =>
    have hall : ∀ boundary ∈ versionBoundaries cveEntry, boundary.1 ≠ "" →
        env.compareVersion boundary.1 cpeVersion boundary.2 = true := by
      intro boundary hmem hne
      by_contra hfails
      exact hnone (List.any_eq_true.mpr ⟨boundary, hmem, by simp [hne, hfails]⟩)
    rw [and_iff_right hall]
    dsimp only
    split
    · next h =>
      rw [Bool.and_eq_true, decide_eq_true_iff, Bool.not_eq_true'] at h
      refine iff_of_false Bool.false_ne_true fun himp => ?_
      rw [himp h.1] at h
      exact absurd h.2 (by decide)
    · next h =>
      refine iff_of_true rfl fun hno => ?_
      by_contra hfails
      exact h (by rw [decide_eq_true hno, Bool.eq_false_iff.mpr hfails]; rfl)

end VersionEnv

end FactCore
