import Mathlib.Data.List.Dedup
import FactCore.CveLookup.Feeds
import FactCore.Lib.Decimal
import FactCore.Lib.KeyedTable
import FactCore.Lib.MapM
import FactCore.Lib.Separator

/-!
# The CVE database

`src/src/plugins/analysis/cve_lookup/internal/setup_repository.py` with the queries of
`database_interface.py`: the import of the feeds of some years, and the update with
the feed of the modified items.

The update works on two temporary tables. CVEs with CPEs are refreshed in
`cve_table`; the summaries are refreshed only if the modified feed has any, and that
pass also removes what the first one has made out of date. An item of the modified
feed that yields no row at all leaves no trace in the temporary tables. The year of a CVE
is cut out of its id when the rows are made, after the table for them was created.

Results:
1. `importCve_eq`, `updateCveRepository_eq`: what an import and an update write, and where they end
   when an id has no year.
2. `mem_imported_cveRows`, `mem_imported_summaryRows`: the tables of an import.
3. `updated_spec`: the tables after an update.
4. `updateEqualsMerge_iff`: exactly when an update is the import of the merged feeds.
5. `stale_summary`: a feed without summaries leaves a summary that is out of date.
-/

namespace FactCore

/-! ## 1. Tables -/

/-- A value in a column of the type `INTEGER`. -/
inductive YearValue
  | integer (n : Int)
  | other (text : String)
  deriving DecidableEq, Repr

/-- How sqlite stores a text in a column of the type `INTEGER`. -/
class IntegerColumn where
  store : String → YearValue

/-- A row of `cve_table`. The elements of the CPE are columns of their own. -/
structure CveRow where
  cveId : String
  year : YearValue
  cpeId : String
  cvssV2Score : String
  cvssV3Score : String
  cpeElements : List String
  versionStartIncluding : String
  versionStartExcluding : String
  versionEndIncluding : String
  versionEndExcluding : String
  deriving DecidableEq

/-- A row of `summary_table`. -/
structure SummaryRow where
  cveId : String
  year : YearValue
  summary : String
  cvssV2Score : String
  cvssV3Score : String
  deriving DecidableEq

/-- The columns of `cve_id`, `year` and the number of all columns, for either kind of row. -/
class FeedRow (ρ : Type) where
  cveId : ρ → String
  year : ρ → YearValue
  width : ρ → Nat
  columns : Nat

instance : FeedRow CveRow where
  cveId := CveRow.cveId
  year := CveRow.year
  width r := 9 + r.cpeElements.length
  columns := 20

instance : FeedRow SummaryRow where
  cveId := SummaryRow.cveId
  year := SummaryRow.year
  width _ := 5
  columns := 5

/-- A table of the database; `none` is a table that does not exist. -/
abbrev Table (ρ : Type) := Option (List ρ)

/-- The rows of a table. -/
def Table.rows {ρ : Type} (table : Table ρ) : List ρ := Option.getD table []

section Queries
variable {ρ ρ' : Type}

/-- `create`: a table that exists is left alone. -/
def createTable (table : Table ρ) : Table ρ := some table.rows

/-- `wrong_entries` of `insert_rows`: the rows with a wrong number of columns. -/
def wrongEntries [DecidableEq ρ] (width : ρ → Nat) (columns : Nat) (inputData : List ρ) : List ρ :=
  inputData.dedup.filter fun e => decide (width e ≠ columns)

/-- `insert_rows`: the rows are a set, and the wrong ones are ignored. A table that does not exist is
an error that is logged. -/
def insertRows [DecidableEq ρ] (width : ρ → Nat) (columns : Nat) (inputData : List ρ)
    (table : Table ρ) : Table ρ :=
  Option.map (fun rows => rows ++ inputData.dedup.filter fun e =>
    decide (e ∉ wrongEntries width columns inputData)) table

variable [FeedRow ρ] [FeedRow ρ']

/-- `insert_into` for the rows of a feed. -/
def insertInto [DecidableEq ρ] (table : Table ρ) (inputData : List ρ) : Table ρ :=
  insertRows FeedRow.width (FeedRow.columns ρ) inputData table

/-- `extract_relevant_feeds`. -/
def extractRelevantFeeds (fromTable : Table ρ) (whereTable : Table ρ') : List ρ :=
  fromTable.rows.filter fun r => decide (FeedRow.year r ∈ whereTable.rows.map FeedRow.year)

/-- `delete_outdated_feeds`. -/
def deleteOutdatedFeeds (deleteOutdatedFrom : Table ρ) (useForSelection : Table ρ') : Table ρ :=
  Option.map (fun rows => rows.filter fun r =>
    decide (FeedRow.cveId r ∉ useForSelection.rows.map FeedRow.cveId)) deleteOutdatedFrom

end Queries

/-- The sqlite database. -/
structure CveDatabase where
  cveTable : Table CveRow
  summaryTable : Table SummaryRow
  tempFeeds : Table CveRow
  tempSum : Table SummaryRow

/-- The database before the first import. -/
def CveDatabase.empty : CveDatabase := ⟨none, none, none, none⟩

/-! ## 2. Rows -/

/-- `CveLookupException`. -/
structure CveLookupException where
  message : String
  deriving DecidableEq, Repr

/-- What ends an import or an update. `main` catches the first kind only. -/
inductive UpdateError
  | cveLookupException (error : CveLookupException)
  | other
  deriving DecidableEq, Repr

section Rows
variable [IntegerColumn]

/-- `cve_id.split('-')[1]`, as it is stored. Without a hyphen it is an `IndexError`. -/
def yearOf (cveId : String) : Except UpdateError YearValue :=
  match (splitAtChar '-' cveId)[1]? with
  | some year => .ok (IntegerColumn.store year)
  | none => .error .other

/-- A row of `setup_cve_feeds_table`. -/
def cveRow (entry : CveEntry) (year : YearValue) (cpe : CpeEntry) : CveRow where
  cveId := entry.cveId
  year := year
  cpeId := cpe.cpeId
  cvssV2Score := entry.impact.getD "cvssV2" "N/A"
  cvssV3Score := entry.impact.getD "cvssV3" "N/A"
  cpeElements := cpeElements cpe.cpeId
  versionStartIncluding := cpe.versionStartIncluding
  versionStartExcluding := cpe.versionStartExcluding
  versionEndIncluding := cpe.versionEndIncluding
  versionEndExcluding := cpe.versionEndExcluding

/-- `setup_cve_feeds_table`. -/
def setupCveFeedsTable (cveList : List CveEntry) : Except UpdateError (List CveRow) :=
  List.flatten <$> cveList.mapM fun entry =>
    entry.cpeList.mapM fun cpe => do
      let year ← yearOf entry.cveId
      return cveRow entry year cpe

/-- A row of `setup_cve_summary_table`. -/
def summaryRow (entry : CveSummaryEntry) (year : YearValue) : SummaryRow where
  cveId := entry.cveId
  year := year
  summary := entry.summary
  cvssV2Score := entry.impact.getD "cvssV2" "N/A"
  cvssV3Score := entry.impact.getD "cvssV3" "N/A"

/-- `setup_cve_summary_table`. -/
def setupCveSummaryTable (summaryList : List CveSummaryEntry) :
    Except UpdateError (List SummaryRow) :=
  summaryList.mapM fun entry => do
    let year ← yearOf entry.cveId
    return summaryRow entry year

/-! ## 3. Import and update -/

/-- `init_cve_feeds_table`, with the table that it leaves. The rows are made when the table was
created. -/
def initCveFeedsTable (cveList : List CveEntry) (table : Table CveRow) :
    Except UpdateError Unit × Table CveRow :=
  let created := createTable table
  match setupCveFeedsTable cveList with
  | .error e => (.error e, created)
  | .ok inputData => (.ok (), insertInto created inputData)

/-- `init_cve_summaries_table`. -/
def initCveSummariesTable (summaryList : List CveSummaryEntry) (table : Table SummaryRow) :
    Except UpdateError Unit × Table SummaryRow :=
  let created := createTable table
  match setupCveSummaryTable summaryList with
  | .error e => (.error e, created)
  | .ok inputData => (.ok (), insertInto created inputData)

/-- `import_cve` of the items of the selected feeds, with the database that it leaves. -/
def importCve (db : CveDatabase) (items : List CveItem) : Except UpdateError Unit × CveDatabase :=
  let lists := extractDataFromCve items
  match initCveFeedsTable lists.1 db.cveTable with
  | (.error e, cveTable) => (.error e, { db with cveTable := cveTable })
  | (.ok (), cveTable) =>
    if lists.2.isEmpty then (.ok (), { db with cveTable := cveTable })
    else
      let summaries := initCveSummariesTable lists.2 db.summaryTable
      (summaries.1, { db with cveTable := cveTable, summaryTable := summaries.2 })

/-- `get_years_from_database`. -/
def getYearsFromDatabase (db : CveDatabase) : List YearValue :=
  (db.cveTable.rows.map CveRow.year).dedup

/-- `update_cve_feeds`. -/
def updateCveFeeds (db : CveDatabase) : CveDatabase :=
  let feedsToBeUpdated := extractRelevantFeeds db.tempFeeds db.cveTable
  { db with cveTable := insertInto (deleteOutdatedFeeds db.cveTable db.tempFeeds) feedsToBeUpdated }

/-- `update_cve_summaries`. -/
def updateCveSummaries (db : CveDatabase) : CveDatabase :=
  let summariesToBeUpdated := extractRelevantFeeds db.tempSum db.cveTable
  let summaryTable :=
    if db.summaryTable.isSome then
      deleteOutdatedFeeds (deleteOutdatedFeeds db.summaryTable db.tempSum) db.tempFeeds
    else createTable db.summaryTable
  { db with
    cveTable := deleteOutdatedFeeds db.cveTable db.tempSum
    summaryTable := insertInto summaryTable summariesToBeUpdated }

/-- `update_cve_repository` with the items of the modified feed, and the database that it leaves. -/
def updateCveRepository (db : CveDatabase) (items : List CveItem) :
    Except UpdateError Unit × CveDatabase :=
  if db.cveTable.isNone then
    (.error (.cveLookupException ⟨"CVE tables do not exist! Did you mean import CVE?"⟩), db)
  else
    let lists := extractDataFromCve items
    match initCveFeedsTable lists.1 db.tempFeeds with
    | (.error e, tempFeeds) => (.error e, { db with tempFeeds := tempFeeds })
    | (.ok (), tempFeeds) =>
      let db' := updateCveFeeds { db with tempFeeds := tempFeeds }
      if lists.2.isEmpty then (.ok (), { db' with tempFeeds := none })
      else
        match initCveSummariesTable lists.2 db'.tempSum with
        | (.error e, tempSum) => (.error e, { db' with tempSum := tempSum })
        | (.ok (), tempSum) =>
          let db'' := updateCveSummaries { db' with tempSum := tempSum }
          (.ok (), { db'' with tempSum := none, tempFeeds := none })

/-! ## 4. What is shown -/

/-- The year of an id with a hyphen. -/
def yearColumn (cveId : String) : YearValue :=
  IntegerColumn.store ((splitAtChar '-' cveId).getD 1 "")

/-- The rows of an item in `cve_table`. -/
def CveItem.cveRows (item : CveItem) : List CveRow :=
  if item.nodes.isEmpty then []
  else (item.cveEntry.cpeList.map (cveRow item.cveEntry (yearColumn item.cveId))).filter fun r =>
    decide (FeedRow.width r = FeedRow.columns CveRow)

/-- The row of an item in `summary_table`. -/
def CveItem.summaryRows (item : CveItem) : List SummaryRow :=
  if item.nodes.isEmpty ∧ ¬ item.Rejected then
    [summaryRow item.summaryEntry (yearColumn item.cveId)]
  else []

/-- A vulnerable CPE of an item has no year. -/
def UndatedCves (items : List CveItem) : Prop :=
  ∃ item ∈ items, item.nodes ≠ [] ∧ item.cveEntry.cpeList ≠ [] ∧ '-' ∉ item.cveId.toList

/-- A summary has no year. -/
def UndatedSummaries (items : List CveItem) : Prop :=
  ∃ item ∈ items, (item.nodes = [] ∧ ¬ item.Rejected) ∧ '-' ∉ item.cveId.toList

/-- All ids from which a year is cut out have a hyphen. -/
def DatedItems (items : List CveItem) : Prop := ¬ UndatedCves items ∧ ¬ UndatedSummaries items

/-- The older feeds, with every item overridden by the modified one of the same id. -/
def mergeFeeds (modified old : List CveItem) : List CveItem :=
  modified ++ old.filter fun item => decide (item.cveId ∉ modified.map CveItem.cveId)

/-- In the years of the database, the tables after the update are those of an import of the merged
feeds, and no CVE has rows in both. -/
structure UpdateEqualsMerge (db db' merged : CveDatabase) : Prop where
  cveTable : ∀ row, row.year ∈ getYearsFromDatabase db →
    (row ∈ db'.cveTable.rows ↔ row ∈ merged.cveTable.rows)
  summaryTable : ∀ row, row.year ∈ getYearsFromDatabase db →
    (row ∈ db'.summaryTable.rows ↔ row ∈ merged.summaryTable.rows)
  oneTable : ∀ row ∈ db'.cveTable.rows, ∀ row' ∈ db'.summaryTable.rows, row.cveId ≠ row'.cveId

/-- The condition on a modified item. If it yields no row, its CVE has no row; if no item of the
feed yields a summary, its CVE has no summary. -/
structure ItemMeets (db : CveDatabase) (modified : List CveItem) (item : CveItem) : Prop where
  noTrace : item.cveRows = [] → item.summaryRows = [] →
    (∀ row ∈ db.cveTable.rows, row.cveId ≠ item.cveId) ∧
      ∀ row ∈ db.summaryTable.rows, row.cveId ≠ item.cveId
  noSummaries : (∀ item' ∈ modified, item'.summaryRows = []) →
    ∀ row ∈ db.summaryTable.rows, row.cveId ≠ item.cveId

end Rows

/-! ## 5. Tables as sets -/

section Tables
variable {ρ ρ' : Type} [FeedRow ρ] [FeedRow ρ'] {r : ρ}

/-- The rows that `insert_into` writes. -/
def insertedRows [DecidableEq ρ] (inputData : List ρ) : List ρ :=
  inputData.dedup.filter fun r => decide (FeedRow.width r = FeedRow.columns ρ)

theorem mem_insertedRows [DecidableEq ρ] {inputData : List ρ} : r ∈ insertedRows inputData ↔
    r ∈ inputData ∧ FeedRow.width r = FeedRow.columns ρ := by
  rw [insertedRows, List.mem_filter, List.mem_dedup, decide_eq_true_iff]

theorem rows_insertInto [DecidableEq ρ] {table : Table ρ} (h : table.isSome) (inputData : List ρ) :
    (insertInto table inputData).rows = table.rows ++ insertedRows inputData := by
  obtain ⟨rows, rfl⟩ := Option.isSome_iff_exists.mp h
  show rows ++ _ = rows ++ _
  refine congrArg (rows ++ ·) (List.filter_congr fun e he => ?_)
  simp only [wrongEntries, List.mem_filter, he, true_and, decide_eq_true_iff, Decidable.not_not]

theorem mem_insertInto [DecidableEq ρ] {table : Table ρ} (h : table.isSome) {inputData : List ρ} :
    r ∈ (insertInto table inputData).rows ↔
      r ∈ table.rows ∨ (r ∈ inputData ∧ FeedRow.width r = FeedRow.columns ρ) := by
  rw [rows_insertInto h, List.mem_append, mem_insertedRows]

theorem mem_extractRelevantFeeds {fromTable : Table ρ} {whereTable : Table ρ'} :
    r ∈ extractRelevantFeeds fromTable whereTable ↔
      r ∈ fromTable.rows ∧ FeedRow.year r ∈ whereTable.rows.map FeedRow.year := by
  rw [extractRelevantFeeds, List.mem_filter, decide_eq_true_iff]

theorem mem_deleteOutdatedFeeds {table : Table ρ} {selection : Table ρ'} :
    r ∈ (deleteOutdatedFeeds table selection).rows ↔
      r ∈ table.rows ∧ FeedRow.cveId r ∉ selection.rows.map FeedRow.cveId := by
  cases table with
  | none => simp [deleteOutdatedFeeds, Table.rows]
  | some rows =>
    show r ∈ rows.filter _ ↔ r ∈ rows ∧ _
    rw [List.mem_filter, decide_eq_true_iff]

theorem isSome_deleteOutdatedFeeds {table : Table ρ} {selection : Table ρ'} :
    (deleteOutdatedFeeds table selection).isSome = table.isSome :=
  Option.isSome_map

end Tables

/-! ## 6. Items and rows -/

section Items
variable [IntegerColumn] {items old modified : List CveItem} {item : CveItem}

/-- The items as the source of `cve_table`. -/
def cveSource : RowSource CveItem CveRow String where
  key := CveItem.cveId
  rowKey := CveRow.cveId
  rows := CveItem.cveRows
  rowKey_eq item r hr := by
    unfold CveItem.cveRows at hr
    split at hr
    · cases hr
    · obtain ⟨cpe, -, rfl⟩ := List.mem_map.mp (List.mem_filter.mp hr).1
      rfl

/-- The items as the source of `summary_table`. -/
def summarySource : RowSource CveItem SummaryRow String where
  key := CveItem.cveId
  rowKey := SummaryRow.cveId
  rows := CveItem.summaryRows
  rowKey_eq item r hr := by
    unfold CveItem.summaryRows at hr
    split at hr
    · obtain rfl := List.mem_singleton.mp hr
      rfl
    · cases hr

theorem mem_cveRows {row : CveRow} : row ∈ item.cveRows ↔ item.nodes ≠ [] ∧
    (∃ cpe ∈ item.cveEntry.cpeList, cveRow item.cveEntry (yearColumn item.cveId) cpe = row) ∧
      FeedRow.width row = FeedRow.columns CveRow := by
  unfold CveItem.cveRows
  cases item.nodes with
  | nil => simp
  | cons node nodes => simp [List.mem_filter]

theorem mem_summaryRows {row : SummaryRow} : row ∈ item.summaryRows ↔
    (item.nodes = [] ∧ ¬ item.Rejected) ∧
      row = summaryRow item.summaryEntry (yearColumn item.cveId) := by
  unfold CveItem.summaryRows
  simp only [List.isEmpty_iff]
  split
  · next h => simp [h]
  · next h => simp [h]

/-- The year of a row is the year of its CVE. -/
theorem year_of_mem_cveTable {row : CveRow} (h : row ∈ cveSource.table items) :
    row.year = yearColumn row.cveId := by
  obtain ⟨item, -, hrow⟩ := cveSource.mem_table.mp h
  obtain ⟨-, ⟨cpe, -, rfl⟩, -⟩ := mem_cveRows.mp hrow
  rfl

theorem year_of_mem_summaryTable {row : SummaryRow} (h : row ∈ summarySource.table items) :
    row.year = yearColumn row.cveId := by
  obtain ⟨item, -, hrow⟩ := summarySource.mem_table.mp h
  obtain ⟨-, rfl⟩ := mem_summaryRows.mp hrow
  rfl

/-- The list of summaries is empty exactly if no item yields one. -/
theorem summaryList_eq_nil_iff :
    (extractDataFromCve items).2 = [] ↔ summarySource.table items = [] := by
  simp only [List.eq_nil_iff_forall_not_mem]
  constructor
  · intro h row hrow
    obtain ⟨item, hitem, hrow⟩ := summarySource.mem_table.mp hrow
    exact h _ (mem_extractDataFromCve_snd.mpr ⟨item, hitem, (mem_summaryRows.mp hrow).1, rfl⟩)
  · intro h entry hentry
    obtain ⟨item, hitem, hsum, -⟩ := mem_extractDataFromCve_snd.mp hentry
    exact h _ (summarySource.mem_table.mpr ⟨item, hitem, mem_summaryRows.mpr ⟨hsum, rfl⟩⟩)

/-! ## 7. The tables after an import -/

/-- Only the first two parts of an id are looked at. -/
theorem yearOf_eq (cveId : String) :
    ('-' ∈ cveId.toList → yearOf cveId = .ok (yearColumn cveId)) ∧
      ('-' ∉ cveId.toList → yearOf cveId = .error .other) := by
  constructor
  · intro h
    obtain ⟨front, back, heq, hfront⟩ := List.eq_append_cons_of_mem h
    obtain ⟨year, rest, hback⟩ := List.exists_cons_of_ne_nil (List.splitOn_ne_nil '-' back)
    have hparts : splitAtChar '-' cveId =
        String.ofList front :: String.ofList year :: rest.map String.ofList := by
      rw [splitAtChar, heq, List.splitOn_append_cons_self, List.splitOn_eq_singleton hfront, hback]
      rfl
    rw [yearOf, yearColumn, hparts]
    rfl
  · intro h
    rw [yearOf, splitAtChar, List.splitOn_eq_singleton h]
    rfl

/-- The rows of entries of which every one with a CPE has a year. -/
def cveRowsOf (cveList : List CveEntry) : List CveRow :=
  cveList.flatMap fun entry => entry.cpeList.map (cveRow entry (yearColumn entry.cveId))

def summaryRowsOf (summaryList : List CveSummaryEntry) : List SummaryRow :=
  summaryList.map fun entry => summaryRow entry (yearColumn entry.cveId)

/-- The rows of an entry, which are made one by one. -/
theorem mapM_cveRow (entry : CveEntry) :
    ((entry.cpeList ≠ [] → '-' ∈ entry.cveId.toList) →
      (entry.cpeList.mapM fun cpe => do
        let year ← yearOf entry.cveId
        return cveRow entry year cpe) =
          .ok (entry.cpeList.map (cveRow entry (yearColumn entry.cveId)))) ∧
    (entry.cpeList ≠ [] → '-' ∉ entry.cveId.toList →
      (entry.cpeList.mapM fun cpe => do
        let year ← yearOf entry.cveId
        return cveRow entry year cpe) = .error .other) := by
  constructor
  · intro h
    refine mapM_eq_map fun cpe hcpe => ?_
    rw [(yearOf_eq entry.cveId).1 (h (List.ne_nil_of_mem hcpe))]
    rfl
  · intro hne hdate
    obtain ⟨cpe, cpes, hlist⟩ := List.exists_cons_of_ne_nil hne
    rw [hlist, List.mapM_cons, (yearOf_eq entry.cveId).2 hdate]
    rfl

theorem setupCveFeedsTable_eq_ok {cveList : List CveEntry}
    (h : ∀ entry ∈ cveList, entry.cpeList ≠ [] → '-' ∈ entry.cveId.toList) :
    setupCveFeedsTable cveList = .ok (cveRowsOf cveList) := by
  rw [setupCveFeedsTable, mapM_eq_map fun entry hentry => (mapM_cveRow entry).1 (h entry hentry)]
  rfl

theorem setupCveFeedsTable_eq_error {cveList : List CveEntry}
    (h : ∃ entry ∈ cveList, entry.cpeList ≠ [] ∧ '-' ∉ entry.cveId.toList) :
    setupCveFeedsTable cveList = .error .other := by
  obtain ⟨entry, hentry, hne, hdate⟩ := h
  rw [setupCveFeedsTable, mapM_eq_error ?_ ⟨entry, hentry, (mapM_cveRow entry).2 hne hdate⟩]
  · rfl
  · intro entry' _ e he
    by_cases hdate' : entry'.cpeList ≠ [] → '-' ∈ entry'.cveId.toList
    · rw [(mapM_cveRow entry').1 hdate'] at he
      cases he
    · obtain ⟨hne', hdate'⟩ := Classical.not_imp.mp hdate'
      rw [(mapM_cveRow entry').2 hne' hdate'] at he
      cases he
      rfl

/-- A row is made of an entry and one of its CPEs. -/
theorem mem_setupCveFeedsTable {cveList : List CveEntry} {rows : List CveRow} {row : CveRow}
    (h : setupCveFeedsTable cveList = .ok rows) (hrow : row ∈ rows) :
    ∃ entry ∈ cveList, ∃ cpe ∈ entry.cpeList, ∃ year, row = cveRow entry year cpe := by
  by_cases hdated : ∀ entry ∈ cveList, entry.cpeList ≠ [] → '-' ∈ entry.cveId.toList
  · rw [setupCveFeedsTable_eq_ok hdated] at h
    cases h
    obtain ⟨entry, hentry, hrow⟩ := List.mem_flatMap.mp hrow
    obtain ⟨cpe, hcpe, rfl⟩ := List.mem_map.mp hrow
    exact ⟨entry, hentry, cpe, hcpe, _, rfl⟩
  · push Not at hdated
    rw [setupCveFeedsTable_eq_error hdated] at h
    cases h

theorem setupCveSummaryTable_eq_ok {summaryList : List CveSummaryEntry}
    (h : ∀ entry ∈ summaryList, '-' ∈ entry.cveId.toList) :
    setupCveSummaryTable summaryList = .ok (summaryRowsOf summaryList) := by
  refine mapM_eq_map fun entry hentry => ?_
  rw [(yearOf_eq entry.cveId).1 (h entry hentry)]
  rfl

theorem setupCveSummaryTable_eq_error {summaryList : List CveSummaryEntry}
    (h : ∃ entry ∈ summaryList, '-' ∉ entry.cveId.toList) :
    setupCveSummaryTable summaryList = .error .other := by
  obtain ⟨entry, hentry, hdate⟩ := h
  refine mapM_eq_error (fun entry' _ e he => ?_) ⟨entry, hentry, ?_⟩
  · by_cases hdate' : '-' ∈ entry'.cveId.toList
    · rw [(yearOf_eq entry'.cveId).1 hdate'] at he
      cases he
    · rw [(yearOf_eq entry'.cveId).2 hdate'] at he
      cases he
      rfl
  · rw [(yearOf_eq entry.cveId).2 hdate]
    rfl

/-- The table with the rows of the items. -/
def withCves (items : List CveItem) (table : Table CveRow) : Table CveRow :=
  insertInto (createTable table) (cveRowsOf (extractDataFromCve items).1)

def withSummaries (items : List CveItem) (table : Table SummaryRow) : Table SummaryRow :=
  insertInto (createTable table) (summaryRowsOf (extractDataFromCve items).2)

theorem initCveFeedsTable_of_dated (h : ¬ UndatedCves items) (table : Table CveRow) :
    initCveFeedsTable (extractDataFromCve items).1 table = (.ok (), withCves items table) := by
  have hrows : setupCveFeedsTable (extractDataFromCve items).1 =
      .ok (cveRowsOf (extractDataFromCve items).1) := by
    refine setupCveFeedsTable_eq_ok fun entry hentry hne => ?_
    obtain ⟨item, hitem, hnodes, rfl⟩ := mem_extractDataFromCve_fst.mp hentry
    by_contra hdate
    exact h ⟨item, hitem, hnodes, hne, hdate⟩
  rw [initCveFeedsTable, hrows]
  rfl

theorem initCveFeedsTable_of_undated (h : UndatedCves items) (table : Table CveRow) :
    initCveFeedsTable (extractDataFromCve items).1 table =
      (.error .other, createTable table) := by
  obtain ⟨item, hitem, hnodes, hne, hdate⟩ := h
  rw [initCveFeedsTable, setupCveFeedsTable_eq_error
    ⟨_, mem_extractDataFromCve_fst.mpr ⟨item, hitem, hnodes, rfl⟩, hne, hdate⟩]

theorem initCveSummariesTable_of_dated (h : ¬ UndatedSummaries items) (table : Table SummaryRow) :
    initCveSummariesTable (extractDataFromCve items).2 table =
      (.ok (), withSummaries items table) := by
  have hrows : setupCveSummaryTable (extractDataFromCve items).2 =
      .ok (summaryRowsOf (extractDataFromCve items).2) := by
    refine setupCveSummaryTable_eq_ok fun entry hentry => ?_
    obtain ⟨item, hitem, hsum, rfl⟩ := mem_extractDataFromCve_snd.mp hentry
    by_contra hdate
    exact h ⟨item, hitem, hsum, hdate⟩
  rw [initCveSummariesTable, hrows]
  rfl

theorem initCveSummariesTable_of_undated (h : UndatedSummaries items) (table : Table SummaryRow) :
    initCveSummariesTable (extractDataFromCve items).2 table =
      (.error .other, createTable table) := by
  obtain ⟨item, hitem, hsum, hdate⟩ := h
  rw [initCveSummariesTable, setupCveSummaryTable_eq_error
    ⟨_, mem_extractDataFromCve_snd.mpr ⟨item, hitem, hsum, rfl⟩, hdate⟩]

omit [IntegerColumn] in
/-- A summary without a year is a summary. -/
theorem isEmpty_summaryList (h : UndatedSummaries items) :
    (extractDataFromCve items).2.isEmpty = false := by
  obtain ⟨item, hitem, hsum, -⟩ := h
  exact List.isEmpty_eq_false_iff.mpr
    (List.ne_nil_of_mem (mem_extractDataFromCve_snd.mpr ⟨item, hitem, hsum, rfl⟩))

/-- What an import writes. -/
def imported (db : CveDatabase) (items : List CveItem) : CveDatabase :=
  { db with
    cveTable := withCves items db.cveTable
    summaryTable := if (extractDataFromCve items).2.isEmpty then db.summaryTable
      else withSummaries items db.summaryTable }

theorem importCve_of_dated (h : DatedItems items) (db : CveDatabase) :
    importCve db items = (.ok (), imported db items) := by
  unfold importCve imported
  simp only [initCveFeedsTable_of_dated h.1, initCveSummariesTable_of_dated h.2]
  split <;> rfl

/-- An import succeeds if every id has a year that is needed. -/
theorem importCve_eq {db db' : CveDatabase} :
    importCve db items = (.ok (), db') ↔ DatedItems items ∧ db' = imported db items := by
  constructor
  · intro h
    have hcves : ¬ UndatedCves items := by
      intro hcves
      simp only [importCve, initCveFeedsTable_of_undated hcves] at h
      cases (Prod.mk.inj h).1
    have hsummaries : ¬ UndatedSummaries items := by
      intro hsummaries
      simp only [importCve, initCveFeedsTable_of_dated hcves, isEmpty_summaryList hsummaries,
        initCveSummariesTable_of_undated hsummaries] at h
      cases (Prod.mk.inj h).1
    rw [importCve_of_dated ⟨hcves, hsummaries⟩] at h
    exact ⟨⟨hcves, hsummaries⟩, (Prod.mk.inj h).2.symm⟩
  · intro h
    rw [h.2]
    exact importCve_of_dated h.1 db

/-- What is written to `cve_table` for the items of a feed. -/
theorem mem_insertedCves {row : CveRow} :
    row ∈ insertedRows (cveRowsOf (extractDataFromCve items).1) ↔ row ∈ cveSource.table items := by
  rw [mem_insertedRows, cveSource.mem_table]
  constructor
  · rintro ⟨hrow, hwidth⟩
    obtain ⟨entry, hentry, hrow⟩ := List.mem_flatMap.mp hrow
    obtain ⟨item, hitem, hnodes, rfl⟩ := mem_extractDataFromCve_fst.mp hentry
    exact ⟨item, hitem, mem_cveRows.mpr ⟨hnodes, List.mem_map.mp hrow, hwidth⟩⟩
  · rintro ⟨item, hitem, hrow⟩
    obtain ⟨hnodes, hcpe, hwidth⟩ := mem_cveRows.mp hrow
    exact ⟨List.mem_flatMap.mpr ⟨_, mem_extractDataFromCve_fst.mpr ⟨item, hitem, hnodes, rfl⟩,
      List.mem_map.mpr hcpe⟩, hwidth⟩

/-- What is written to `summary_table` for the items of a feed. -/
theorem mem_insertedSummaries {row : SummaryRow} :
    row ∈ insertedRows (summaryRowsOf (extractDataFromCve items).2) ↔
      row ∈ summarySource.table items := by
  rw [mem_insertedRows, summarySource.mem_table]
  constructor
  · rintro ⟨hrow, -⟩
    obtain ⟨entry, hentry, rfl⟩ := List.mem_map.mp hrow
    obtain ⟨item, hitem, hsum, rfl⟩ := mem_extractDataFromCve_snd.mp hentry
    exact ⟨item, hitem, mem_summaryRows.mpr ⟨hsum, rfl⟩⟩
  · rintro ⟨item, hitem, hrow⟩
    obtain ⟨hsum, rfl⟩ := mem_summaryRows.mp hrow
    exact ⟨List.mem_map.mpr ⟨_, mem_extractDataFromCve_snd.mpr ⟨item, hitem, hsum, rfl⟩, rfl⟩, rfl⟩

theorem mem_withCves {table : Table CveRow} {row : CveRow} :
    row ∈ (withCves items table).rows ↔ row ∈ table.rows ∨ row ∈ cveSource.table items := by
  rw [withCves, rows_insertInto rfl, List.mem_append, mem_insertedCves]
  rfl

theorem mem_withSummaries {table : Table SummaryRow} {row : SummaryRow} :
    row ∈ (withSummaries items table).rows ↔
      row ∈ table.rows ∨ row ∈ summarySource.table items := by
  rw [withSummaries, rows_insertInto rfl, List.mem_append, mem_insertedSummaries]
  rfl

theorem mem_imported_cveRows {db : CveDatabase} {row : CveRow} :
    row ∈ (imported db items).cveTable.rows ↔
      row ∈ db.cveTable.rows ∨ row ∈ cveSource.table items :=
  mem_withCves

theorem mem_imported_summaryRows {db : CveDatabase} {row : SummaryRow} :
    row ∈ (imported db items).summaryTable.rows ↔
      row ∈ db.summaryTable.rows ∨ row ∈ summarySource.table items := by
  unfold imported
  cases hlist : (extractDataFromCve items).2 with
  | nil =>
    rw [summaryList_eq_nil_iff.mp hlist]
    simp
  | cons entry entries => exact mem_withSummaries

/-- The tables of an import from scratch. -/
theorem mem_import_cveTable {row : CveRow} :
    row ∈ (imported .empty items).cveTable.rows ↔ row ∈ cveSource.table items :=
  mem_imported_cveRows.trans (or_iff_right List.not_mem_nil)

theorem mem_import_summaryTable {row : SummaryRow} :
    row ∈ (imported .empty items).summaryTable.rows ↔ row ∈ summarySource.table items :=
  mem_imported_summaryRows.trans (or_iff_right List.not_mem_nil)

/-! ## 8. The tables after an update -/

theorem width_of_mem_cveTable {row : CveRow} (h : row ∈ cveSource.table items) :
    FeedRow.width row = FeedRow.columns CveRow := by
  obtain ⟨item, -, hrow⟩ := cveSource.mem_table.mp h
  exact (mem_cveRows.mp hrow).2.2

/-- A database with the tables of an import, and the items of the modified feed in the temporary
tables. -/
structure Prepared (old modified : List CveItem) (db : CveDatabase) : Prop where
  isSome : db.cveTable.isSome
  cveTable : ∀ row, row ∈ db.cveTable.rows ↔ row ∈ cveSource.table old
  summaryTable : ∀ row, row ∈ db.summaryTable.rows ↔ row ∈ summarySource.table old
  tempFeeds : ∀ row, row ∈ db.tempFeeds.rows ↔ row ∈ cveSource.table modified

theorem prepared_imported (old modified : List CveItem) :
    Prepared old modified { imported .empty old with tempFeeds := withCves modified none } where
  isSome := rfl
  cveTable _ := mem_import_cveTable
  summaryTable _ := mem_import_summaryTable
  tempFeeds _ := mem_withCves.trans (or_iff_right List.not_mem_nil)

/-- The ids of the CVEs that yield rows of `cve_table`. -/
def cveKeys (items : List CveItem) : List String := (cveSource.table items).map CveRow.cveId

/-- The ids of the CVEs that yield a summary. -/
def summaryKeys (items : List CveItem) : List String :=
  (summarySource.table items).map SummaryRow.cveId

/-- The years of the rows of `cve_table`. -/
def cveYears (items : List CveItem) : List YearValue := (cveSource.table items).map CveRow.year

omit [IntegerColumn] in
theorem mem_map_congr {α β : Type} {f : α → β} {l l' : List α} (h : ∀ x, x ∈ l ↔ x ∈ l') {y : β} :
    y ∈ l.map f ↔ y ∈ l'.map f := by
  simp only [List.mem_map, h]

theorem mem_updateCveFeeds {db : CveDatabase} (h : Prepared old modified db) {row : CveRow} :
    row ∈ (updateCveFeeds db).cveTable.rows ↔
      (row ∈ cveSource.table old ∧ row.cveId ∉ cveKeys modified) ∨
        (row ∈ cveSource.table modified ∧ row.year ∈ cveYears old) := by
  have hsome : (deleteOutdatedFeeds db.cveTable db.tempFeeds).isSome := by
    rw [isSome_deleteOutdatedFeeds]
    exact h.isSome
  show row ∈ (insertInto _ _).rows ↔ _
  rw [mem_insertInto hsome, mem_deleteOutdatedFeeds, mem_extractRelevantFeeds, h.cveTable,
    h.tempFeeds, mem_map_congr h.tempFeeds, mem_map_congr h.cveTable]
  refine or_congr_right ⟨And.left, fun hrow => ⟨hrow, width_of_mem_cveTable hrow.1⟩⟩

/-- Refreshing the rows of the modified CVEs adds no year and removes none. -/
theorem mem_years_updateCveFeeds {db : CveDatabase} (h : Prepared old modified db) {year : YearValue} :
    year ∈ (updateCveFeeds db).cveTable.rows.map CveRow.year ↔ year ∈ cveYears old := by
  simp only [List.mem_map, mem_updateCveFeeds h]
  constructor
  · rintro ⟨row, ⟨hrow, -⟩ | ⟨-, hyear⟩, rfl⟩
    · exact List.mem_map_of_mem hrow
    · exact hyear
  · intro hyear
    obtain ⟨row, hrow, rfl⟩ := List.mem_map.mp hyear
    rcases Decidable.em (row.cveId ∈ cveKeys modified) with hkey | hkey
    · -- the row is deleted, and one of the same CVE comes back
      obtain ⟨row', hrow', heq⟩ := List.mem_map.mp hkey
      have hsame : row'.year = row.year := by
        rw [year_of_mem_cveTable hrow', year_of_mem_cveTable hrow, heq]
      exact ⟨row', .inr ⟨hrow', hsame ▸ hyear⟩, hsame⟩
    · exact ⟨row, .inl ⟨hrow, hkey⟩, rfl⟩

theorem mem_updateCveSummaries {db : CveDatabase} {summaries : Table SummaryRow}
    (h : Prepared old modified db) (hsum : ∀ row, row ∈ summaries.rows ↔
      row ∈ summarySource.table modified) :
    (∀ row, row ∈ (updateCveSummaries { updateCveFeeds db with tempSum := summaries }).cveTable.rows ↔
      row ∈ (updateCveFeeds db).cveTable.rows ∧ row.cveId ∉ summaryKeys modified) ∧
    (∀ row, row ∈
        (updateCveSummaries { updateCveFeeds db with tempSum := summaries }).summaryTable.rows ↔
      (row ∈ summarySource.table old ∧ row.cveId ∉ summaryKeys modified ∧
        row.cveId ∉ cveKeys modified) ∨
      (row ∈ summarySource.table modified ∧ row.year ∈ cveYears old)) := by
  constructor
  · intro row
    show row ∈ (deleteOutdatedFeeds _ summaries).rows ↔ _
    rw [mem_deleteOutdatedFeeds, mem_map_congr hsum]
    rfl
  · intro row
    have hextract : row ∈ extractRelevantFeeds summaries (updateCveFeeds db).cveTable ↔
        row ∈ summarySource.table modified ∧ row.year ∈ cveYears old := by
      rw [mem_extractRelevantFeeds, hsum]
      exact and_congr_right fun _ => mem_years_updateCveFeeds h
    have hsummary := h.summaryTable
    show row ∈ (insertInto (if db.summaryTable.isSome then
      deleteOutdatedFeeds (deleteOutdatedFeeds db.summaryTable summaries) db.tempFeeds
      else createTable db.summaryTable)
      (extractRelevantFeeds summaries (updateCveFeeds db).cveTable)).rows ↔ _
    cases htable : db.summaryTable with
    | none =>
      -- the import found no summary, and the table is created now
      rw [htable] at hsummary
      have hnone : row ∉ summarySource.table old := fun hrow => by
        exact List.not_mem_nil ((hsummary row).mpr hrow)
      rw [if_neg (by simp), mem_insertInto rfl, hextract]
      simp [hnone, FeedRow.width, FeedRow.columns, Table.rows, createTable]
    | some rows =>
      rw [htable] at hsummary
      simp only [Option.isSome_some, if_true]
      rw [mem_insertInto rfl, hextract, mem_deleteOutdatedFeeds, mem_deleteOutdatedFeeds, hsummary,
        mem_map_congr hsum, mem_map_congr h.tempFeeds, and_assoc]
      exact or_congr_right ⟨And.left, fun hrow => ⟨hrow, rfl⟩⟩

/-- What an update writes. -/
def updated (db : CveDatabase) (items : List CveItem) : CveDatabase :=
  let db' := updateCveFeeds { db with tempFeeds := withCves items db.tempFeeds }
  let db'' := if (extractDataFromCve items).2.isEmpty then db'
    else { updateCveSummaries { db' with tempSum := withSummaries items db'.tempSum } with
      tempSum := none }
  { db'' with tempFeeds := none }

/-- What a failed update leaves: the CPEs or the summaries of the feed have an id without a year. -/
theorem updateCveRepository_of_undated {db : CveDatabase} (hsome : db.cveTable.isNone = false) :
    (UndatedCves items → updateCveRepository db items =
      (.error .other, { db with tempFeeds := createTable db.tempFeeds })) ∧
    (¬ UndatedCves items → UndatedSummaries items → updateCveRepository db items =
      (.error .other, { updateCveFeeds { db with tempFeeds := withCves items db.tempFeeds } with
        tempSum := createTable db.tempSum })) := by
  constructor
  · intro hcves
    rw [updateCveRepository, hsome, if_neg Bool.false_ne_true]
    simp only [initCveFeedsTable_of_undated hcves]
  · intro hcves hsummaries
    rw [updateCveRepository, hsome, if_neg Bool.false_ne_true]
    simp only [initCveFeedsTable_of_dated hcves, isEmpty_summaryList hsummaries,
      initCveSummariesTable_of_undated hsummaries]
    rfl

theorem updateCveRepository_of_dated {db : CveDatabase} (hsome : db.cveTable.isNone = false)
    (h : DatedItems items) : updateCveRepository db items = (.ok (), updated db items) := by
  rw [updateCveRepository, hsome, if_neg Bool.false_ne_true]
  simp only [initCveFeedsTable_of_dated h.1, initCveSummariesTable_of_dated h.2, updated]
  split <;> rfl

/-- An update of an existing table succeeds if every id has a year that is needed. -/
theorem updateCveRepository_eq {db db' : CveDatabase} (hsome : db.cveTable.isNone = false) :
    updateCveRepository db items = (.ok (), db') ↔ DatedItems items ∧ db' = updated db items := by
  constructor
  · intro h
    have hcves : ¬ UndatedCves items := by
      intro hcves
      rw [(updateCveRepository_of_undated hsome).1 hcves] at h
      cases (Prod.mk.inj h).1
    have hsummaries : ¬ UndatedSummaries items := by
      intro hsummaries
      rw [(updateCveRepository_of_undated hsome).2 hcves hsummaries] at h
      cases (Prod.mk.inj h).1
    rw [updateCveRepository_of_dated hsome ⟨hcves, hsummaries⟩] at h
    exact ⟨⟨hcves, hsummaries⟩, (Prod.mk.inj h).2.symm⟩
  · intro h
    rw [h.2]
    exact updateCveRepository_of_dated hsome h.1

/-- The tables after the update of an import. -/
theorem updated_spec (old modified : List CveItem) :
    (∀ row, row ∈ (updated (imported .empty old) modified).cveTable.rows ↔
        ((row ∈ cveSource.table old ∧ row.cveId ∉ cveKeys modified) ∨
          (row ∈ cveSource.table modified ∧ row.year ∈ cveYears old)) ∧
        row.cveId ∉ summaryKeys modified) ∧
      (∀ row, row ∈ (updated (imported .empty old) modified).summaryTable.rows ↔
        (row ∈ summarySource.table old ∧ ¬ (summarySource.table modified ≠ [] ∧
          (row.cveId ∈ cveKeys modified ∨ row.cveId ∈ summaryKeys modified))) ∨
        (row ∈ summarySource.table modified ∧ row.year ∈ cveYears old)) := by
  have hprep := prepared_imported old modified
  unfold updated
  dsimp only
  cases hempty : (extractDataFromCve modified).2.isEmpty with
  | true =>
    -- without a summary in the feed, the summaries are not touched at all
    have hnil := summaryList_eq_nil_iff.mp (List.isEmpty_iff.mp hempty)
    have hkeys : summaryKeys modified = [] := by rw [summaryKeys, hnil, List.map_nil]
    constructor
    · intro row
      rw [hkeys]
      exact (mem_updateCveFeeds hprep).trans (and_iff_left List.not_mem_nil).symm
    · intro row
      rw [hnil]
      simp only [ne_eq, not_true_eq_false, false_and, not_false_eq_true, and_true, List.not_mem_nil,
        or_false]
      exact hprep.summaryTable row
  | false =>
    have hne : summarySource.table modified ≠ [] := fun hnil =>
      List.isEmpty_eq_false_iff.mp hempty (summaryList_eq_nil_iff.mpr hnil)
    have htempSum : ∀ row, row ∈ (withSummaries modified none).rows ↔
        row ∈ summarySource.table modified := by
      intro row
      exact mem_withSummaries.trans (or_iff_right List.not_mem_nil)
    obtain ⟨hcve, hsummary⟩ := mem_updateCveSummaries hprep htempSum
    refine ⟨fun row => ?_, fun row => ?_⟩
    · refine (hcve row).trans ?_
      rw [mem_updateCveFeeds hprep]
    · refine (hsummary row).trans (or_congr_left (and_congr_right fun _ => ?_))
      rw [and_iff_right hne, not_or, and_comm]

end Items

/-! ## 9. When an update is an import of the merged feeds -/

section Merge
variable [IntegerColumn] {old modified : List CveItem}

theorem mem_getYearsFromDatabase {year : YearValue} :
    year ∈ getYearsFromDatabase (imported .empty old) ↔ year ∈ cveYears old := by
  rw [getYearsFromDatabase, List.mem_dedup, mem_map_congr fun _ => mem_import_cveTable]
  rfl

/-- An item with rows in one table has none in the other. -/
theorem summaryRows_eq_nil {item : CveItem} {row : CveRow} (h : row ∈ item.cveRows) :
    item.summaryRows = [] := by
  refine List.eq_nil_iff_forall_not_mem.mpr fun row' hrow' => ?_
  exact (mem_cveRows.mp h).1 (mem_summaryRows.mp hrow').1.1

/-- In a feed with distinct ids no CVE has rows in both tables. -/
theorem oneTable_of_nodup {items : List CveItem} (hn : (items.map CveItem.cveId).Nodup)
    {row : CveRow} {row' : SummaryRow} (h : row ∈ cveSource.table items)
    (h' : row' ∈ summarySource.table items) : row.cveId ≠ row'.cveId := by
  intro heq
  obtain ⟨item, hitem, hrow⟩ := cveSource.mem_table.mp h
  obtain ⟨item', hitem', hrow'⟩ := summarySource.mem_table.mp h'
  have hsame : item = item' := by
    refine List.inj_on_of_nodup_map hn hitem hitem' ?_
    exact (cveSource.rowKey_eq item row hrow).symm.trans
      (heq.trans (summarySource.rowKey_eq item' row' hrow'))
  subst hsame
  have hempty := summaryRows_eq_nil hrow
  exact List.not_mem_nil (hempty ▸ hrow' : row' ∈ [])

/-- The CVE is deleted from `cve_table` by the update. -/
def DeletedCve (modified : List CveItem) (cveId : String) : Prop :=
  cveId ∈ cveKeys modified ∨ cveId ∈ summaryKeys modified

/-- The CVE is deleted from `summary_table` by the update. -/
def DeletedSummary (modified : List CveItem) (cveId : String) : Prop :=
  summarySource.table modified ≠ [] ∧ DeletedCve modified cveId

theorem mem_ids_of_deletedCve {cveId : String} (h : DeletedCve modified cveId) :
    cveId ∈ modified.map CveItem.cveId := by
  rcases h with h | h
  · obtain ⟨row, hrow, rfl⟩ := List.mem_map.mp h
    exact cveSource.rowKey_mem hrow
  · obtain ⟨row, hrow, rfl⟩ := List.mem_map.mp h
    exact summarySource.rowKey_mem hrow

theorem not_deletedCve_iff (hn : (modified.map CveItem.cveId).Nodup) {item : CveItem}
    (hitem : item ∈ modified) :
    ¬ DeletedCve modified item.cveId ↔ item.cveRows = [] ∧ item.summaryRows = [] := by
  rw [DeletedCve, not_or]
  exact and_congr ((cveSource.key_mem_iff hn hitem).not.trans not_not)
    ((summarySource.key_mem_iff hn hitem).not.trans not_not)

theorem summaryTable_eq_nil_iff :
    summarySource.table modified = [] ↔ ∀ item ∈ modified, item.summaryRows = [] :=
  List.flatMap_eq_nil_iff

/-- In the years of the database, the update refreshes the rows of the deleted CVEs. -/
theorem refreshed_of_update (hmod : (modified.map CveItem.cveId).Nodup) :
    (∀ row, row.year ∈ cveYears old →
      (row ∈ (updated (imported .empty old) modified).cveTable.rows ↔
        (row ∈ cveSource.table old ∧ ¬ DeletedCve modified row.cveId) ∨
          row ∈ cveSource.table modified)) ∧
    (∀ row, row.year ∈ cveYears old →
      (row ∈ (updated (imported .empty old) modified).summaryTable.rows ↔
        (row ∈ summarySource.table old ∧ ¬ DeletedSummary modified row.cveId) ∨
          row ∈ summarySource.table modified)) := by
  obtain ⟨hcve, hsummary⟩ := updated_spec old modified
  constructor
  · intro row hyear
    have hfree : row ∈ cveSource.table modified → row.cveId ∉ summaryKeys modified := by
      rintro hrow hkey
      obtain ⟨row', hrow', heq⟩ := List.mem_map.mp hkey
      exact oneTable_of_nodup hmod hrow hrow' heq.symm
    rw [hcve, and_iff_left hyear, DeletedCve, not_or, or_and_right, and_assoc]
    exact or_congr_right (and_iff_left_of_imp hfree)
  · intro row hyear
    rw [hsummary, and_iff_left hyear]
    rfl

/-- Whatever the update leaves behind is in the years of the database. -/
theorem years_of_update (old modified : List CveItem) :
    (∀ row ∈ (updated (imported .empty old) modified).cveTable.rows,
      row.year ∈ cveYears old ∧ row.year = yearColumn row.cveId) ∧
    ∀ row ∈ (updated (imported .empty old) modified).summaryTable.rows,
      row.year = yearColumn row.cveId := by
  obtain ⟨hcve, hsummary⟩ := updated_spec old modified
  constructor
  · intro row hrow
    rcases ((hcve row).mp hrow).1 with ⟨hrow, -⟩ | ⟨hrow, hyear⟩
    · exact ⟨List.mem_map_of_mem hrow, year_of_mem_cveTable hrow⟩
    · exact ⟨hyear, year_of_mem_cveTable hrow⟩
  · intro row hrow
    rcases (hsummary row).mp hrow with ⟨hrow, -⟩ | ⟨hrow, -⟩ <;> exact year_of_mem_summaryTable hrow

/-- The merged feeds have distinct ids, so tables that agree with theirs share no CVE. -/
theorem oneTable_of_update (hold : (old.map CveItem.cveId).Nodup)
    (hmod : (modified.map CveItem.cveId).Nodup)
    (hcve : ∀ row, row.year ∈ cveYears old →
      (row ∈ (updated (imported .empty old) modified).cveTable.rows ↔
        row ∈ cveSource.table (mergeFeeds modified old)))
    (hsummary : ∀ row, row.year ∈ cveYears old →
      (row ∈ (updated (imported .empty old) modified).summaryTable.rows ↔
        row ∈ summarySource.table (mergeFeeds modified old))) :
    ∀ row ∈ (updated (imported .empty old) modified).cveTable.rows,
      ∀ row' ∈ (updated (imported .empty old) modified).summaryTable.rows,
        row.cveId ≠ row'.cveId := by
  intro row hrow row' hrow' heq
  obtain ⟨hyears, hyears'⟩ := years_of_update old modified
  obtain ⟨hyear, hyearId⟩ := hyears row hrow
  -- the rows have the same CVE, hence the same year
  have hyear' : row'.year ∈ cveYears old := by rwa [hyears' row' hrow', ← heq, ← hyearId]
  exact oneTable_of_nodup (cveSource.override_nodup hmod hold) ((hcve row hyear).mp hrow)
    ((hsummary row' hyear').mp hrow') heq

/-- The rows of the modified CVEs that the update leaves alone are what separates it from an import
of the merged feeds. -/
theorem updateEqualsMerge_iff_rows (hold : (old.map CveItem.cveId).Nodup)
    (hmod : (modified.map CveItem.cveId).Nodup) :
    UpdateEqualsMerge (imported .empty old) (updated (imported .empty old) modified)
      (imported .empty (mergeFeeds modified old)) ↔
    (∀ row ∈ cveSource.table old, row.year ∈ cveYears old → row.cveId ∈ modified.map CveItem.cveId →
      ¬ DeletedCve modified row.cveId → row ∈ cveSource.table modified) ∧
    (∀ row ∈ summarySource.table old, row.year ∈ cveYears old →
      row.cveId ∈ modified.map CveItem.cveId → ¬ DeletedSummary modified row.cveId →
      row ∈ summarySource.table modified) := by
  obtain ⟨hcve, hsummary⟩ := @refreshed_of_update _ old _ hmod
  -- both tables are refreshed in the same way, each by what is deleted from it
  have hrefreshCve := @RowSource.refresh_iff _ _ _ cveSource modified old _ (DeletedCve modified)
    (fun row => row.year ∈ cveYears old) fun _ => mem_ids_of_deletedCve
  have hrefreshSummary := @RowSource.refresh_iff _ _ _ summarySource modified old _
    (DeletedSummary modified) (fun row => row.year ∈ cveYears old)
    fun _ h => mem_ids_of_deletedCve h.2
  refine Iff.trans ?_ (and_congr hrefreshCve hrefreshSummary)
  constructor
  · intro heq
    refine ⟨fun row hyear => ?_, fun row hyear => ?_⟩
    · exact (hcve row hyear).symm.trans
        ((heq.cveTable row (mem_getYearsFromDatabase.mpr hyear)).trans mem_import_cveTable)
    · exact (hsummary row hyear).symm.trans
        ((heq.summaryTable row (mem_getYearsFromDatabase.mpr hyear)).trans mem_import_summaryTable)
  · rintro ⟨hcveEq, hsummaryEq⟩
    have hcveMerged : ∀ row, row.year ∈ cveYears old →
        (row ∈ (updated (imported .empty old) modified).cveTable.rows ↔
          row ∈ cveSource.table (mergeFeeds modified old)) :=
      fun row hyear => (hcve row hyear).trans (hcveEq row hyear)
    have hsummaryMerged : ∀ row, row.year ∈ cveYears old →
        (row ∈ (updated (imported .empty old) modified).summaryTable.rows ↔
          row ∈ summarySource.table (mergeFeeds modified old)) :=
      fun row hyear => (hsummary row hyear).trans (hsummaryEq row hyear)
    refine ⟨fun row hyear => ?_, fun row hyear => ?_,
      oneTable_of_update hold hmod hcveMerged hsummaryMerged⟩
    · exact (hcveMerged row (mem_getYearsFromDatabase.mp hyear)).trans mem_import_cveTable.symm
    · exact (hsummaryMerged row (mem_getYearsFromDatabase.mp hyear)).trans
        mem_import_summaryTable.symm

/-- An item meets the condition exactly if the update leaves no old row of its CVE in place. -/
theorem itemMeets_iff_left (hmod : (modified.map CveItem.cveId).Nodup) {item : CveItem}
    (hitem : item ∈ modified) : ItemMeets (imported .empty old) modified item ↔
      (¬ DeletedCve modified item.cveId → ∀ row ∈ cveSource.table old, row.cveId ≠ item.cveId) ∧
        (¬ DeletedSummary modified item.cveId →
          ∀ row ∈ summarySource.table old, row.cveId ≠ item.cveId) := by
  have hnot := not_deletedCve_iff hmod hitem
  constructor
  · intro hmeets
    refine ⟨fun hdel row hrow => ?_, fun hdel row hrow => ?_⟩
    · obtain ⟨h1, h2⟩ := hnot.mp hdel
      exact (hmeets.noTrace h1 h2).1 row (mem_import_cveTable.mpr hrow)
    · -- the summaries are left alone as a whole, or those of this item are
      have hstored := mem_import_summaryTable.mpr hrow
      rcases Decidable.em (summarySource.table modified = []) with hnil | hne
      · exact hmeets.noSummaries (summaryTable_eq_nil_iff.mp hnil) row hstored
      · obtain ⟨h1, h2⟩ := hnot.mp fun h => hdel ⟨hne, h⟩
        exact (hmeets.noTrace h1 h2).2 row hstored
  · rintro ⟨hcve, hsummary⟩
    refine ⟨fun h1 h2 => ⟨fun row hrow => ?_, fun row hrow => ?_⟩, fun h row hrow => ?_⟩
    · exact hcve (hnot.mpr ⟨h1, h2⟩) row (mem_import_cveTable.mp hrow)
    · exact hsummary (fun hdel => hnot.mpr ⟨h1, h2⟩ hdel.2) row (mem_import_summaryTable.mp hrow)
    · exact hsummary (fun hdel => hdel.1 (summaryTable_eq_nil_iff.mpr h)) row
        (mem_import_summaryTable.mp hrow)

/-- A modified CVE is left alone in the years of the database exactly if its item breaks the
condition. -/
theorem itemMeets_iff (hmod : (modified.map CveItem.cveId).Nodup) :
    ((∀ row ∈ cveSource.table old, row.year ∈ cveYears old →
        row.cveId ∈ modified.map CveItem.cveId → ¬ DeletedCve modified row.cveId →
        row ∈ cveSource.table modified) ∧
      (∀ row ∈ summarySource.table old, row.year ∈ cveYears old →
        row.cveId ∈ modified.map CveItem.cveId → ¬ DeletedSummary modified row.cveId →
        row ∈ summarySource.table modified)) ↔
    ∀ item ∈ modified, yearColumn item.cveId ∈ cveYears old →
      ItemMeets (imported .empty old) modified item := by
  have hcve := @RowSource.left_iff _ _ _ cveSource modified old (DeletedCve modified)
    (fun id => yearColumn id ∈ cveYears old) (fun row => row.year ∈ cveYears old)
    (fun row hrow => by rw [year_of_mem_cveTable hrow]; rfl)
    fun row hrow => .inl (List.mem_map_of_mem hrow)
  have hsummary := @RowSource.left_iff _ _ _ summarySource modified old (DeletedSummary modified)
    (fun id => yearColumn id ∈ cveYears old) (fun row => row.year ∈ cveYears old)
    (fun row hrow => by rw [year_of_mem_summaryTable hrow]; rfl)
    fun row hrow => ⟨List.ne_nil_of_mem hrow, .inr (List.mem_map_of_mem hrow)⟩
  refine (and_congr hcve hsummary).trans ⟨fun h item hitem hyear => ?_, fun h => ?_⟩
  · exact (itemMeets_iff_left hmod hitem).mpr ⟨h.1 item hitem hyear, h.2 item hitem hyear⟩
  · exact ⟨fun item hitem hyear => ((itemMeets_iff_left hmod hitem).mp (h item hitem hyear)).1,
      fun item hitem hyear => ((itemMeets_iff_left hmod hitem).mp (h item hitem hyear)).2⟩

omit [IntegerColumn] in
theorem dated_mergeFeeds (hmod : DatedItems modified) (hold : DatedItems old) :
    DatedItems (mergeFeeds modified old) := by
  constructor
  · intro h
    obtain ⟨item, hitem, hundated⟩ := h
    rcases List.mem_append.mp hitem with hitem | hitem
    · exact hmod.1 ⟨item, hitem, hundated⟩
    · exact hold.1 ⟨item, (List.mem_filter.mp hitem).1, hundated⟩
  · intro h
    obtain ⟨item, hitem, hundated⟩ := h
    rcases List.mem_append.mp hitem with hitem | hitem
    · exact hmod.2 ⟨item, hitem, hundated⟩
    · exact hold.2 ⟨item, (List.mem_filter.mp hitem).1, hundated⟩

/-- Exactly when an update of an import leads to the tables of an import of the merged feeds. -/
theorem updateEqualsMerge_iff {db : CveDatabase} (himport : importCve .empty old = (.ok (), db))
    (hold : (old.map CveItem.cveId).Nodup) (hmod : (modified.map CveItem.cveId).Nodup) :
    (∃ db' merged, updateCveRepository db modified = (.ok (), db') ∧
      importCve .empty (mergeFeeds modified old) = (.ok (), merged) ∧
        UpdateEqualsMerge db db' merged) ↔
    DatedItems modified ∧ ∀ item ∈ modified, yearColumn item.cveId ∈ getYearsFromDatabase db →
      ItemMeets db modified item := by
  obtain ⟨hdated, rfl⟩ := importCve_eq.mp himport
  have hsome : (imported .empty old).cveTable.isNone = false := rfl
  have hmeets := (updateEqualsMerge_iff_rows hold hmod).trans (itemMeets_iff hmod)
  simp only [← mem_getYearsFromDatabase] at hmeets
  constructor
  · intro h
    obtain ⟨db', merged, hupdate, hmerged, hequals⟩ := h
    obtain ⟨hdatedMod, rfl⟩ := (updateCveRepository_eq hsome).mp hupdate
    obtain ⟨-, rfl⟩ := importCve_eq.mp hmerged
    exact ⟨hdatedMod, hmeets.mp hequals⟩
  · intro h
    exact ⟨_, _, updateCveRepository_of_dated hsome h.1,
      importCve_of_dated (dated_mergeFeeds h.1 hdated) .empty, hmeets.mpr h.2⟩

end Merge

/-! ## 10. A summary that is out of date -/

/-- A text of digits is stored as a number. -/
@[reducible] def digitsColumn : IntegerColumn where
  store text := match decimal? text with
    | some n => .integer n
    | none => .other text

/-- An item with one CPE. -/
def itemWithCpe (number : String) : CveItem where
  cveId := "CVE-2020-" ++ number
  summary := "a flaw"
  impact := none
  nodes := [.cpeMatch [⟨some "cpe:2.3:a:vendor:product:1.0:*:*:*:*:*:*:*", true, none, none, none,
    none⟩]]

/-- An item that has not been assigned CPEs yet. -/
def itemWithoutCpe (number : String) : CveItem where
  cveId := "CVE-2020-" ++ number
  summary := "a flaw"
  impact := none
  nodes := []

theorem dated_of_hyphens {items : List CveItem} (h : ∀ item ∈ items, '-' ∈ item.cveId.toList) :
    DatedItems items :=
  ⟨fun ⟨item, hitem, _, _, hdate⟩ => hdate (h item hitem),
    fun ⟨item, hitem, _, hdate⟩ => hdate (h item hitem)⟩

section Digits
attribute [local instance] digitsColumn

/-- A feed with another summary refreshes the CVE that got its CPEs. -/
theorem refreshed_summary :
    ∃ db db' merged,
      importCve .empty [itemWithCpe "0001", itemWithoutCpe "0002"] = (.ok (), db) ∧
      updateCveRepository db [itemWithCpe "0002", itemWithoutCpe "0003"] = (.ok (), db') ∧
      importCve .empty (mergeFeeds [itemWithCpe "0002", itemWithoutCpe "0003"]
        [itemWithCpe "0001", itemWithoutCpe "0002"]) = (.ok (), merged) ∧
      UpdateEqualsMerge db db' merged := by
  have hold : DatedItems [itemWithCpe "0001", itemWithoutCpe "0002"] := dated_of_hyphens (by decide)
  have hmod : DatedItems [itemWithCpe "0002", itemWithoutCpe "0003"] := dated_of_hyphens (by decide)
  have himport := importCve_of_dated hold .empty
  have hrows : ∀ item ∈ [itemWithCpe "0002", itemWithoutCpe "0003"],
      item.cveRows = [] → item.summaryRows ≠ [] := by decide
  have hsummary : (itemWithoutCpe "0003").summaryRows ≠ [] := by decide
  have hmeets := (updateEqualsMerge_iff himport (by decide) (by decide)).mpr
    ⟨hmod, fun item hitem _ => ⟨fun h1 h2 => absurd h2 (hrows item hitem h1),
      fun h => absurd (h _ (List.mem_cons_of_mem _ List.mem_cons_self)) hsummary⟩⟩
  obtain ⟨db', merged, hupdate, hmerged, hequals⟩ := hmeets
  exact ⟨_, db', merged, himport, hupdate, hmerged, hequals⟩

/-- A CVE gets its CPEs in a feed in which all items have CPEs: its summary stays. -/
theorem stale_summary :
    ¬ ∀ (old modified : List CveItem) (db : CveDatabase), importCve .empty old = (.ok (), db) →
      (old.map CveItem.cveId).Nodup → (modified.map CveItem.cveId).Nodup →
      ∃ db' merged, updateCveRepository db modified = (.ok (), db') ∧
        importCve .empty (mergeFeeds modified old) = (.ok (), merged) ∧
          UpdateEqualsMerge db db' merged := by
  intro h
  have himport := importCve_of_dated
    (dated_of_hyphens (by decide) : DatedItems [itemWithCpe "0001", itemWithoutCpe "0002"]) .empty
  obtain ⟨db', merged, hupdate, -, heq⟩ := h _ [itemWithCpe "0002"] _ himport (by decide) (by decide)
  obtain ⟨-, rfl⟩ := (updateCveRepository_eq rfl).mp hupdate
  have hboth : ((updated (imported .empty [itemWithCpe "0001", itemWithoutCpe "0002"])
      [itemWithCpe "0002"]).cveTable.rows.any fun row =>
        (updated (imported .empty [itemWithCpe "0001", itemWithoutCpe "0002"])
          [itemWithCpe "0002"]).summaryTable.rows.any fun row' =>
            decide (row.cveId = row'.cveId)) = true := by
    decide +kernel
  obtain ⟨row, hrow, hboth⟩ := List.any_eq_true.mp hboth
  obtain ⟨row', hrow', hsame⟩ := List.any_eq_true.mp hboth
  exact heq.oneTable row hrow row' hrow' (of_decide_eq_true hsame)

end Digits

end FactCore
