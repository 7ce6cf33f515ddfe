import FactCore.Lib.Separator

/-!
# Products and CVE entries

`src/src/plugins/analysis/cve_lookup/code/cve_lookup.py`: the rows that the lookup reads
from its database, a product of the CPE dictionary and a CVE for a product.
-/

namespace FactCore

/-- `Product`. The version is escaped as in a CPE, or `ANY`, or `N/A`. -/
structure Product where
  vendorName : String
  productName : String
  versionNumber : String
  deriving DecidableEq, Repr

/-- `CveDbEntry`. A bound that is not given is the empty string. -/
structure CveDbEntry where
  cveId : String
  vendor : String
  productName : String
  version : String
  cvssV2Score : String
  cvssV3Score : String
  versionStartIncluding : String
  versionStartExcluding : String
  versionEndIncluding : String
  versionEndExcluding : String

/-- A row of the query `summary_lookup`. -/
structure CveSummaryRow where
  cveId : String
  summary : String
  cvssV2Score : String
  cvssV3Score : String

/-- `unescape`. -/
def unescape (s : String) : String := String.ofList (s.toList.filter fun c => decide (c ≠ '\\'))

/-- `terms_match`. `MAX_LEVENSHTEIN_DISTANCE` is 0, so the terms have to be equal. -/
def termsMatch (requestedTerm sourceTerm : String) : Bool := decide (requestedTerm = sourceTerm)

end FactCore
