import FactCore.CveLookup.Repository

/-!
# Importing years

`import_cve`, `overlap` and `get_years_from_database`: an import of a range of years leaves out
the years that `cve_table` has already. When it has all of them, nothing is left, and
`filtered_years or list(range(…))` takes the whole range again. A year whose feed yields no row
of `cve_table` counts as missing in every import.

Results:
1. `cveRows_importYears`, `summaryRows_importYears`: the rows of the selected years are added.
2. `importAdds_iff`: exactly when an import adds the rows of the missing years and no others.
3. `repeatAddsNothing_iff`: exactly when a second import of the years adds nothing.
4. `importIncremental_iff`: exactly when both is the case.
5. `repeated_import`: an import of one year that doubles its row.
-/

namespace FactCore

/-! ## 1. The import -/

/-- `Years`. -/
structure Years where
  startYear : Nat
  endYear : Nat
  deriving DecidableEq, Repr

/-- `range(start_year, end_year + 1)`. -/
def Years.range (years : Years) : List Nat :=
  List.range' years.startYear (years.endYear + 1 - years.startYear)

/-- `overlap`: the requested years without those of the database. -/
def overlap (requestedYears : Years) (yearsInCveDatabase : List YearValue) : List Nat :=
  requestedYears.range.filter fun year => decide (.integer year ∉ yearsInCveDatabase)

/-- `year_selection` of `import_cve`. An empty list counts as no list at all. -/
def yearSelection (db : CveDatabase) (years : Years) : List Nat :=
  let filteredYears := if db.cveTable.isSome then overlap years (getYearsFromDatabase db) else []
  if filteredYears.isEmpty then years.range else filteredYears

/-- `get_cve_import_content`: one feed after the other. -/
def getCveImportContent (feeds : Nat → List CveItem) (yearSelection : List Nat) :
    List CveEntry × List CveSummaryEntry :=
  (yearSelection.flatMap fun year => (extractDataFromCve (feeds year)).1,
    yearSelection.flatMap fun year => (extractDataFromCve (feeds year)).2)

section Import
variable [IntegerColumn]

/-- `import_cve` of a range of years, with the database that it leaves. -/
def importYears (feeds : Nat → List CveItem) (db : CveDatabase) (years : Years) :
    Except UpdateError Unit × CveDatabase :=
  importCve db ((yearSelection db years).flatMap feeds)

/-! ## 2. What is asked of it -/

/-- The feed of a year holds CVEs of that year only. -/
def FeedsOfYear (feeds : Nat → List CveItem) : Prop :=
  ∀ year, ∀ item ∈ feeds year, yearOf item.cveId = .ok (.integer year)

/-- The rows of `cve_table` of some feeds. -/
def cveFeedRows (feeds : Nat → List CveItem) (years : List Nat) : List CveRow :=
  insertedRows (cveRowsOf (getCveImportContent feeds years).1)

/-- The rows of `summary_table` of some feeds. -/
def summaryFeedRows (feeds : Nat → List CveItem) (years : List Nat) : List SummaryRow :=
  insertedRows (summaryRowsOf (getCveImportContent feeds years).2)

/-- The requested years that `cve_table` does not have. -/
def missingYears (db : CveDatabase) (years : Years) : List Nat :=
  overlap years (getYearsFromDatabase db)

/-- The import adds the rows of the missing years, and none of another year. -/
structure ImportAdds (feeds : Nat → List CveItem) (db : CveDatabase) (years : Years) : Prop where
  succeeds : (importYears feeds db years).1 = .ok ()
  cveTable : (importYears feeds db years).2.cveTable.rows.Perm
    (db.cveTable.rows ++ cveFeedRows feeds (missingYears db years))
  summaryTable : (importYears feeds db years).2.summaryTable.rows.Perm
    (db.summaryTable.rows ++ summaryFeedRows feeds (missingYears db years))
  presentCves : ∀ year ∈ getYearsFromDatabase db,
    (importYears feeds db years).2.cveTable.rows.filter (fun row => decide (row.year = year)) =
      db.cveTable.rows.filter fun row => decide (row.year = year)
  presentSummaries : ∀ year ∈ getYearsFromDatabase db,
    (importYears feeds db years).2.summaryTable.rows.filter
        (fun row => decide (row.year = year)) =
      db.summaryTable.rows.filter fun row => decide (row.year = year)

/-- A second import of the years changes nothing. -/
structure RepeatAddsNothing (feeds : Nat → List CveItem) (db : CveDatabase) (years : Years) :
    Prop where
  succeeds : (importYears feeds (importYears feeds db years).2 years).1 = .ok ()
  cveTable : (importYears feeds (importYears feeds db years).2 years).2.cveTable.rows.Perm
    (importYears feeds db years).2.cveTable.rows
  summaryTable : (importYears feeds (importYears feeds db years).2 years).2.summaryTable.rows.Perm
    (importYears feeds db years).2.summaryTable.rows

/-- The import is incremental. -/
structure ImportIncremental (feeds : Nat → List CveItem) (db : CveDatabase) (years : Years) :
    Prop where
  adds : ImportAdds feeds db years
  again : RepeatAddsNothing feeds db years

/-- A feed yields no row of `cve_table`. -/
def NoCves (feeds : Nat → List CveItem) (year : Nat) : Prop :=
  ∀ item ∈ feeds year, item.cveRows = []

instance (feeds : Nat → List CveItem) (year : Nat) : Decidable (NoCves feeds year) :=
  inferInstanceAs (Decidable (∀ item ∈ feeds year, item.cveRows = []))

/-- A feed yields no row of `summary_table`. -/
def NoSummaries (feeds : Nat → List CveItem) (year : Nat) : Prop :=
  ∀ item ∈ feeds year, item.summaryRows = []

instance (feeds : Nat → List CveItem) (year : Nat) : Decidable (NoSummaries feeds year) :=
  inferInstanceAs (Decidable (∀ item ∈ feeds year, item.summaryRows = []))

end Import

/-! ## 3. The selection -/

section Selection
variable {feeds : Nat → List CveItem} {db : CveDatabase} {years : Years} {selection : List Nat}

/-- An item of some of the feeds. -/
theorem exists_mem_feeds {p : CveItem → Prop} : (∃ item ∈ selection.flatMap feeds, p item) ↔
    ∃ year ∈ selection, ∃ item ∈ feeds year, p item := by
  constructor
  · rintro ⟨item, hitem, hp⟩
    obtain ⟨year, hyear, hitem⟩ := List.mem_flatMap.mp hitem
    exact ⟨year, hyear, item, hitem, hp⟩
  · rintro ⟨year, hyear, item, hitem, hp⟩
    exact ⟨item, List.mem_flatMap.mpr ⟨year, hyear, hitem⟩, hp⟩

/-- What the items of the feeds yield is empty exactly if no feed yields anything. -/
theorem eq_nil_iff_of_mem {ρ : Type} {rowsOf : CveItem → List ρ} {rows : List ρ}
    (h : ∀ row, row ∈ rows ↔ ∃ year ∈ selection, ∃ item ∈ feeds year, row ∈ rowsOf item) :
    rows = [] ↔ ∀ year ∈ selection, ∀ item ∈ feeds year, rowsOf item = [] := by
  simp only [List.eq_nil_iff_forall_not_mem, h]
  constructor
  · exact fun h year hyear item hitem row hrow => h row ⟨year, hyear, item, hitem, hrow⟩
  · rintro h row ⟨year, hyear, item, hitem, hrow⟩
    exact h year hyear item hitem row hrow

theorem mem_missingYears {year : Nat} : year ∈ missingYears db years ↔
    year ∈ years.range ∧ .integer year ∉ getYearsFromDatabase db := by
  rw [missingYears, overlap, List.mem_filter, decide_eq_true_iff]

/-- All years are missing in a database without the table. -/
theorem yearSelection_eq : yearSelection db years =
    if missingYears db years = [] then years.range else missingYears db years := by
  unfold yearSelection missingYears
  dsimp only
  cases htable : db.cveTable with
  | some rows => simp
  | none =>
    have hyears : getYearsFromDatabase db = [] := by
      rw [getYearsFromDatabase, htable]
      rfl
    have hall : overlap years [] = years.range := by simp [overlap]
    rw [hyears, hall]
    simp

/-- No year is missing, so all are taken. -/
theorem selection_cases (db : CveDatabase) (years : Years) :
    (missingYears db years ≠ [] ∧ yearSelection db years = missingYears db years) ∨
      (missingYears db years = [] ∧ yearSelection db years = years.range) := by
  rw [yearSelection_eq]
  split
  · next h => exact .inr ⟨h, rfl⟩
  · next h => exact .inl ⟨h, rfl⟩

/-- Added rows leave a table as it is exactly if there are none. -/
theorem perm_append_self_iff {ρ : Type} {rows added : List ρ} :
    (rows ++ added).Perm rows ↔ added = [] := by
  have hperm : (rows ++ added).Perm (rows ++ []) ↔ added.Perm [] := List.perm_append_left_iff rows
  rwa [List.append_nil, List.perm_nil] at hperm

end Selection

/-! ## 4. The rows that are added -/

theorem extractDataFromCve_append (items items' : List CveItem) :
    extractDataFromCve (items ++ items') =
      ((extractDataFromCve items).1 ++ (extractDataFromCve items').1,
        (extractDataFromCve items).2 ++ (extractDataFromCve items').2) := by
  induction items with
  | nil => rfl
  | cons item items ih =>
    rw [List.cons_append, extractDataFromCve, ih, extractDataFromCve]
    dsimp only
    split
    · rfl
    · split <;> rfl

theorem extractDataFromCve_flatMap (feeds : Nat → List CveItem) (selection : List Nat) :
    extractDataFromCve (selection.flatMap feeds) = getCveImportContent feeds selection := by
  induction selection with
  | nil => rfl
  | cons year selection ih =>
    rw [List.flatMap_cons, extractDataFromCve_append, ih]
    rfl

section Added
variable [IntegerColumn] {feeds : Nat → List CveItem} {db : CveDatabase} {years : Years}
  {selection : List Nat}

/-- The year that is stored for an item of a feed. -/
theorem FeedsOfYear.year (hfeeds : FeedsOfYear feeds) {year : Nat} {item : CveItem}
    (hitem : item ∈ feeds year) :
    '-' ∈ item.cveId.toList ∧ yearColumn item.cveId = .integer year := by
  have hyear := hfeeds year item hitem
  by_cases hdate : '-' ∈ item.cveId.toList
  · rw [(yearOf_eq item.cveId).1 hdate] at hyear
    exact ⟨hdate, Except.ok.inj hyear⟩
  · rw [(yearOf_eq item.cveId).2 hdate] at hyear
    cases hyear

theorem importYears_eq (hfeeds : FeedsOfYear feeds) (db : CveDatabase) (years : Years) :
    importYears feeds db years = (.ok (), imported db ((yearSelection db years).flatMap feeds)) := by
  refine importCve_of_dated (dated_of_hyphens fun item hitem => ?_) db
  obtain ⟨year, -, hitem⟩ := List.mem_flatMap.mp hitem
  exact (hfeeds.year hitem).1

theorem cveRows_importYears (hfeeds : FeedsOfYear feeds) :
    (importYears feeds db years).2.cveTable.rows =
      db.cveTable.rows ++ cveFeedRows feeds (yearSelection db years) := by
  rw [importYears_eq hfeeds]
  show (withCves _ db.cveTable).rows = _
  rw [withCves, rows_insertInto rfl, extractDataFromCve_flatMap]
  rfl

theorem summaryRows_importYears (hfeeds : FeedsOfYear feeds) :
    (importYears feeds db years).2.summaryTable.rows =
      db.summaryTable.rows ++ summaryFeedRows feeds (yearSelection db years) := by
  rw [importYears_eq hfeeds]
  show Table.rows (if (extractDataFromCve _).2.isEmpty then db.summaryTable
    else withSummaries _ db.summaryTable) = _
  rw [withSummaries, extractDataFromCve_flatMap, summaryFeedRows]
  split
  · next hempty =>
    rw [List.isEmpty_iff.mp hempty]
    exact (List.append_nil _).symm
  · rw [rows_insertInto rfl]
    rfl

theorem mem_cveFeedRows {row : CveRow} : row ∈ cveFeedRows feeds selection ↔
    ∃ year ∈ selection, ∃ item ∈ feeds year, row ∈ item.cveRows := by
  rw [cveFeedRows, ← extractDataFromCve_flatMap, mem_insertedCves, cveSource.mem_table]
  exact exists_mem_feeds

theorem mem_summaryFeedRows {row : SummaryRow} : row ∈ summaryFeedRows feeds selection ↔
    ∃ year ∈ selection, ∃ item ∈ feeds year, row ∈ item.summaryRows := by
  rw [summaryFeedRows, ← extractDataFromCve_flatMap, mem_insertedSummaries,
    summarySource.mem_table]
  exact exists_mem_feeds

theorem cveFeedRows_eq_nil_iff :
    cveFeedRows feeds selection = [] ↔ ∀ year ∈ selection, NoCves feeds year :=
  eq_nil_iff_of_mem fun _ => mem_cveFeedRows

theorem summaryFeedRows_eq_nil_iff :
    summaryFeedRows feeds selection = [] ↔ ∀ year ∈ selection, NoSummaries feeds year :=
  eq_nil_iff_of_mem fun _ => mem_summaryFeedRows

/-- The years of the database after an import. -/
theorem mem_years_importYears (hfeeds : FeedsOfYear feeds) {year : Nat} :
    .integer year ∈ getYearsFromDatabase (importYears feeds db years).2 ↔
      .integer year ∈ getYearsFromDatabase db ∨
        (year ∈ yearSelection db years ∧ ¬ NoCves feeds year) := by
  have hrow : ∀ item : CveItem, ∀ row ∈ item.cveRows, row.year = yearColumn item.cveId := by
    intro item row hrow
    obtain ⟨-, ⟨cpe, -, rfl⟩, -⟩ := mem_cveRows.mp hrow
    rfl
  simp only [getYearsFromDatabase, List.mem_dedup, cveRows_importYears hfeeds, List.map_append,
    List.mem_append]
  refine or_congr_right ?_
  simp only [List.mem_map, mem_cveFeedRows, NoCves, not_forall]
  constructor
  · rintro ⟨row, ⟨year', hyear', item, hitem, hmem⟩, hyear⟩
    rw [hrow item row hmem, (hfeeds.year hitem).2] at hyear
    obtain rfl : year' = year := by injection hyear with hyear; exact Int.ofNat.inj hyear
    exact ⟨hyear', item, hitem, List.ne_nil_of_mem hmem⟩
  · rintro ⟨hyear, item, hitem, hne⟩
    obtain ⟨row, hmem⟩ := List.exists_mem_of_ne_nil _ hne
    exact ⟨row, ⟨year, hyear, item, hitem, hmem⟩,
      (hrow item row hmem).trans (hfeeds.year hitem).2⟩

end Added

/-! ## 5. When the import is incremental -/

section Incremental
variable [IntegerColumn] {feeds : Nat → List CveItem} {db : CveDatabase} {years : Years}

/-- The rows of missing years are of none of the present ones. -/
theorem filter_missingYears (hfeeds : FeedsOfYear feeds) {year : YearValue}
    (hyear : year ∈ getYearsFromDatabase db) :
    (cveFeedRows feeds (missingYears db years)).filter (fun row => decide (row.year = year)) = [] ∧
      (summaryFeedRows feeds (missingYears db years)).filter
        (fun row => decide (row.year = year)) = [] := by
  constructor
  · refine List.filter_eq_nil_iff.mpr fun row hrow hsame => ?_
    obtain ⟨year', hyear', item, hitem, hmem⟩ := mem_cveFeedRows.mp hrow
    obtain ⟨-, ⟨cpe, -, rfl⟩, -⟩ := mem_cveRows.mp hmem
    have hof : yearColumn item.cveId = year := of_decide_eq_true hsame
    rw [(hfeeds.year hitem).2] at hof
    exact (mem_missingYears.mp hyear').2 (hof ▸ hyear)
  · refine List.filter_eq_nil_iff.mpr fun row hrow hsame => ?_
    obtain ⟨year', hyear', item, hitem, hmem⟩ := mem_summaryFeedRows.mp hrow
    obtain ⟨-, rfl⟩ := mem_summaryRows.mp hmem
    have hof : yearColumn item.cveId = year := of_decide_eq_true hsame
    rw [(hfeeds.year hitem).2] at hof
    exact (mem_missingYears.mp hyear').2 (hof ▸ hyear)

theorem missingFeedRows_nil (feeds : Nat → List CveItem) (h : missingYears db years = []) :
    cveFeedRows feeds (missingYears db years) = [] ∧
      summaryFeedRows feeds (missingYears db years) = [] := by
  rw [h]
  exact ⟨rfl, rfl⟩

/-- Exactly when an import adds the rows of the missing years and no others. -/
theorem importAdds_iff (hfeeds : FeedsOfYear feeds) : ImportAdds feeds db years ↔
    missingYears db years ≠ [] ∨
      ∀ year ∈ years.range, NoCves feeds year ∧ NoSummaries feeds year := by
  have hsucceeds : (importYears feeds db years).1 = .ok () := by rw [importYears_eq hfeeds]
  rcases selection_cases db years with ⟨hne, hselection⟩ | ⟨hnil, hselection⟩
  · refine iff_of_true ⟨hsucceeds, ?_, ?_, fun year hyear => ?_, fun year hyear => ?_⟩ (.inl hne)
    · rw [cveRows_importYears hfeeds, hselection]
    · rw [summaryRows_importYears hfeeds, hselection]
    · rw [cveRows_importYears hfeeds, hselection, List.filter_append,
        (filter_missingYears hfeeds hyear).1, List.append_nil]
    · rw [summaryRows_importYears hfeeds, hselection, List.filter_append,
        (filter_missingYears hfeeds hyear).2, List.append_nil]
  · obtain ⟨hcves, hsummaries⟩ := missingFeedRows_nil feeds hnil
    have hcve : (importYears feeds db years).2.cveTable.rows = _ := cveRows_importYears hfeeds
    have hsummary : (importYears feeds db years).2.summaryTable.rows = _ :=
      summaryRows_importYears hfeeds
    rw [hselection] at hcve hsummary
    rw [or_iff_right (not_not_intro hnil)]
    constructor
    · intro h
      have hnocve := h.cveTable
      have hnosummary := h.summaryTable
      rw [hcve, hcves, List.append_nil, perm_append_self_iff, cveFeedRows_eq_nil_iff] at hnocve
      rw [hsummary, hsummaries, List.append_nil, perm_append_self_iff,
        summaryFeedRows_eq_nil_iff] at hnosummary
      exact fun year hyear => ⟨hnocve year hyear, hnosummary year hyear⟩
    · intro h
      rw [cveFeedRows_eq_nil_iff.mpr fun year hyear => (h year hyear).1, List.append_nil] at hcve
      rw [summaryFeedRows_eq_nil_iff.mpr fun year hyear => (h year hyear).2,
        List.append_nil] at hsummary
      refine ⟨hsucceeds, ?_, ?_, fun year hyear => ?_, fun year hyear => ?_⟩
      · rw [hcve, hcves, List.append_nil]
      · rw [hsummary, hsummaries, List.append_nil]
      · rw [hcve]
      · rw [hsummary]

/-- A second import adds nothing exactly if the feeds it selects yield no row. -/
theorem repeatAddsNothing_iff_selection (hfeeds : FeedsOfYear feeds) :
    RepeatAddsNothing feeds db years ↔
      ∀ year ∈ yearSelection (importYears feeds db years).2 years,
        NoCves feeds year ∧ NoSummaries feeds year := by
  have hsucceeds : (importYears feeds (importYears feeds db years).2 years).1 = .ok () := by
    rw [importYears_eq hfeeds]
  have hcve : (importYears feeds (importYears feeds db years).2 years).2.cveTable.rows.Perm
      (importYears feeds db years).2.cveTable.rows ↔ ∀ year ∈ yearSelection
        (importYears feeds db years).2 years, NoCves feeds year := by
    rw [cveRows_importYears hfeeds, perm_append_self_iff, cveFeedRows_eq_nil_iff]
  have hsummary : (importYears feeds (importYears feeds db years).2 years).2.summaryTable.rows.Perm
      (importYears feeds db years).2.summaryTable.rows ↔ ∀ year ∈ yearSelection
        (importYears feeds db years).2 years, NoSummaries feeds year := by
    rw [summaryRows_importYears hfeeds, perm_append_self_iff, summaryFeedRows_eq_nil_iff]
  exact ⟨fun h year hyear => ⟨hcve.mp h.cveTable year hyear, hsummary.mp h.summaryTable year hyear⟩,
    fun h => ⟨hsucceeds, hcve.mpr fun year hyear => (h year hyear).1,
      hsummary.mpr fun year hyear => (h year hyear).2⟩⟩

/-- After an import the years are missing that have yielded no row of `cve_table`. -/
theorem mem_missingYears_importYears (hfeeds : FeedsOfYear feeds) {year : Nat} :
    year ∈ missingYears (importYears feeds db years).2 years ↔
      year ∈ missingYears db years ∧ NoCves feeds year := by
  rw [mem_missingYears, mem_missingYears, mem_years_importYears hfeeds, not_or, not_and_not_right,
    and_assoc]
  refine and_congr_right fun hrange => and_congr_right fun habsent => ?_
  have hmissing : year ∈ missingYears db years := mem_missingYears.mpr ⟨hrange, habsent⟩
  have hselected : year ∈ yearSelection db years := by
    rw [yearSelection_eq, if_neg (List.ne_nil_of_mem hmissing)]
    exact hmissing
  exact ⟨fun h => h hselected, fun h _ => h⟩

/-- Exactly when a second import of the years adds nothing. -/
theorem repeatAddsNothing_iff (hfeeds : FeedsOfYear feeds) : RepeatAddsNothing feeds db years ↔
    ((∃ year ∈ missingYears db years, NoCves feeds year) ∧
      ∀ year ∈ missingYears db years, NoCves feeds year → NoSummaries feeds year) ∨
    ((∀ year ∈ missingYears db years, ¬ NoCves feeds year) ∧
      ∀ year ∈ years.range, NoCves feeds year ∧ NoSummaries feeds year) := by
  rw [repeatAddsNothing_iff_selection hfeeds]
  rcases selection_cases (importYears feeds db years).2 years with
    ⟨hne, hselection⟩ | ⟨hnil, hselection⟩
  · obtain ⟨year, hyear⟩ := List.exists_mem_of_ne_nil _ hne
    obtain ⟨hmissing, hnone⟩ := (mem_missingYears_importYears hfeeds).mp hyear
    rw [hselection, or_iff_left fun h => h.1 year hmissing hnone,
      and_iff_right ⟨year, hmissing, hnone⟩]
    constructor
    · exact fun h year hmissing hnone =>
        (h year ((mem_missingYears_importYears hfeeds).mpr ⟨hmissing, hnone⟩)).2
    · intro h year hyear
      obtain ⟨hmissing, hnone⟩ := (mem_missingYears_importYears hfeeds).mp hyear
      exact ⟨hnone, h year hmissing hnone⟩
  · have hyield : ∀ year ∈ missingYears db years, ¬ NoCves feeds year := fun year hmissing hnone =>
      List.ne_nil_of_mem ((mem_missingYears_importYears hfeeds).mpr ⟨hmissing, hnone⟩) hnil
    rw [hselection, and_iff_right hyield]
    exact (or_iff_right fun ⟨⟨year, hmissing, hnone⟩, _⟩ => hyield year hmissing hnone).symm

/-- Exactly when an import is incremental: the requested feeds yield no row, or some missing year
yields none of `cve_table`, and no such year yields a summary. -/
theorem importIncremental_iff (hfeeds : FeedsOfYear feeds) : ImportIncremental feeds db years ↔
    (∀ year ∈ years.range, NoCves feeds year ∧ NoSummaries feeds year) ∨
    ((∃ year ∈ missingYears db years, NoCves feeds year) ∧
      ∀ year ∈ missingYears db years, NoCves feeds year → NoSummaries feeds year) := by
  constructor
  · rintro ⟨-, hagain⟩
    rcases (repeatAddsNothing_iff hfeeds).mp hagain with hsilent | ⟨-, hnone⟩
    · exact .inr hsilent
    · exact .inl hnone
  · rintro (hnone | hsilent)
    · refine ⟨(importAdds_iff hfeeds).mpr (.inr hnone), (repeatAddsNothing_iff hfeeds).mpr ?_⟩
      rcases Classical.em (∃ year ∈ missingYears db years, NoCves feeds year) with hex | hex
      · exact .inl ⟨hex, fun year hmissing _ => (hnone year (mem_missingYears.mp hmissing).1).2⟩
      · exact .inr ⟨fun year hmissing h => hex ⟨year, hmissing, h⟩, hnone⟩
    · obtain ⟨year, hmissing, -⟩ := hsilent.1
      exact ⟨(importAdds_iff hfeeds).mpr (.inl (List.ne_nil_of_mem hmissing)),
        (repeatAddsNothing_iff hfeeds).mpr (.inl hsilent)⟩

end Incremental

/-! ## 6. A doubled row -/

section Digits
attribute [local instance] digitsColumn

/-- The feed of 2020 has one CVE, and the others are empty. -/
def oneCveFeeds (year : Nat) : List CveItem :=
  if year = 2020 then [itemWithCpe "0001"] else []

theorem feedsOfYear_oneCveFeeds : FeedsOfYear oneCveFeeds := by
  intro year item hitem
  unfold oneCveFeeds at hitem
  split at hitem
  · next hyear =>
    rw [List.mem_singleton.mp hitem, hyear]
    decide
  · cases hitem

/-- The import of a year with a CVE and of one with an empty feed is incremental. -/
theorem importIncremental_twoYears : ImportIncremental oneCveFeeds .empty ⟨2020, 2021⟩ :=
  (importIncremental_iff feedsOfYear_oneCveFeeds).mpr (.inr (by decide))

/-- The year 2020 is imported twice: its row is there twice. -/
theorem repeated_import :
    ¬ ∀ (_ : IntegerColumn) (feeds : Nat → List CveItem) (db : CveDatabase) (years : Years),
      FeedsOfYear feeds → ImportIncremental feeds db years := by
  intro h
  have hagain := (h digitsColumn oneCveFeeds .empty ⟨2020, 2020⟩ feedsOfYear_oneCveFeeds).again
  have hlength := hagain.cveTable.length_eq
  revert hlength
  decide +kernel

end Digits

end FactCore
