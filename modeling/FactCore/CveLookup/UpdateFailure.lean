import FactCore.CveLookup.CpeNames

/-!
# Updates that fail

`update_cpe` and `update_cve_repository` with what they download and parse. A failure is an
exception, and what was written before it stays: the tables are created and dropped outside of
any transaction.

The two procedures differ in their order. The update of the CVEs has downloaded and parsed
everything before it touches a table, but it cuts the years out of the ids later. The update of the
CPEs drops `cpe_table` and creates it again, and only then evaluates the argument that downloads the
new content.

Results:
1. `updateCveFrom_cases`: a failed download or a broken file leaves the CVEs alone.
2. `unharmed_undatedCves_iff`, `unharmed_undatedSummaries_iff`: what an id without a year does.
3. `updateCpe_error`: a failed update of the CPEs leaves an empty table.
4. `failedUpdates_iff`: exactly when failed updates leave the tables as they were.
5. `emptied_table`: a download that fails.
-/

namespace FactCore

/-! ## 1. Failures -/

/-- What `process_url` meets: no response, no archive, an archive that cannot be written, or
files. -/
inductive Download
  | requestException
  | badZipFile
  | notExtracted
  | extracted

/-- `process_url`. -/
def processUrl (downloadUrl : String) : Download → Except UpdateError Unit
  | .requestException => .error (.cveLookupException
      ⟨"URL " ++ downloadUrl ++ " not found. URL might have changed."⟩)
  | .badZipFile => .error (.cveLookupException
      ⟨"Could not retrieve file from URL " ++ downloadUrl ++ " (bad zip file)"⟩)
  | .notExtracted => .error .other
  | .extracted => .ok ()

/-- `CPE_URL`. -/
def cpeUrl : String :=
  "https://nvd.nist.gov/feeds/xml/cpe/dictionary/official-cpe-dictionary_v2.3.xml.zip"

/-- `CVE_URL.format('modified')`. -/
def cveUrlModified : String := "https://nvd.nist.gov/feeds/json/cve/1.1/nvdcve-1.1-modified.json.zip"

/-- An XML file: no XML, an entry without its name, or the names. -/
inductive CpeFile
  | parseError
  | nameMissing
  | names (cpeList : List String)

/-- `extract_cpe`. -/
def extractCpe (file : String) : CpeFile → Except UpdateError (List String)
  | .parseError => .error (.cveLookupException ⟨"could not extract CPE file: " ++ file⟩)
  | .nameMissing => .error .other
  | .names cpeList => .ok cpeList

/-- What `update_cpe` meets: the download, and the files that are found then. -/
structure CpeSource where
  download : Download
  xmlFiles : List String
  content : String → CpeFile

/-- What `update_cve_repository` meets. It downloads the feed twice. A file without a content
cannot be parsed. -/
structure CveSource where
  download : Download
  downloadAgain : Download
  jsonFiles : List String
  content : String → Option (List CveItem)

/-- Glob has found nothing. -/
def noFiles : UpdateError :=
  .cveLookupException ⟨"Glob has found none of the specified files!"⟩

/-- `get_cpe_content`. -/
def getCpeContent (source : CpeSource) : Except UpdateError (List String) :=
  match processUrl cpeUrl source.download with
  | .error e => .error e
  | .ok () =>
    match source.xmlFiles with
    | [] => .error noFiles
    | file :: _ => extractCpe file (source.content file)

/-- `get_cve_update_content`. -/
def getCveUpdateContent (source : CveSource) : Except UpdateError (List CveItem) :=
  match processUrl cveUrlModified source.downloadAgain with
  | .error e => .error e
  | .ok () =>
    match source.jsonFiles with
    | [] => .error noFiles
    | file :: _ =>
      match source.content file with
      | none => .error .other
      | some items => .ok items

/-! ## 2. Updates -/

/-- The sqlite database with its table of CPEs. -/
structure RepositoryDatabase where
  cpeTable : Table CpeRow
  cve : CveDatabase

/-- `insert_into` for the CPEs. The warning about wrong entries reads the third column of each. -/
def insertCpes (inputData : List CpeRow) (table : Table CpeRow) :
    Except UpdateError (Table CpeRow) :=
  if ∃ e ∈ wrongEntries CpeRow.width CpeRow.columns inputData, e.width ≤ 2 then .error .other
  else .ok (insertRows CpeRow.width CpeRow.columns inputData table)

/-- `update_cpe`, with the database that it leaves. -/
def updateCpe (db : RepositoryDatabase) (source : CpeSource) :
    Except UpdateError Unit × RepositoryDatabase :=
  if db.cpeTable.isNone then
    (.error (.cveLookupException ⟨"CPE table does not exist! Did you mean import CPE?"⟩), db)
  else
    -- the table is dropped and created before the new content is there
    let db' := { db with cpeTable := createTable none }
    match getCpeContent source with
    | .error e => (.error e, db')
    | .ok cpeList =>
      match insertCpes (setupCpeTable cpeList) db'.cpeTable with
      | .error e => (.error e, db')
      | .ok cpeTable => (.ok (), { db' with cpeTable := cpeTable })

section Cves
variable [IntegerColumn]

/-- `update_cve_repository`, with the database that it leaves. -/
def updateCveFrom (db : RepositoryDatabase) (source : CveSource) :
    Except UpdateError Unit × RepositoryDatabase :=
  if db.cve.cveTable.isNone then
    (.error (.cveLookupException ⟨"CVE tables do not exist! Did you mean import CVE?"⟩), db)
  else
    match processUrl cveUrlModified source.download with
    | .error e => (.error e, db)
    | .ok () =>
      match getCveUpdateContent source with
      | .error e => (.error e, db)
      | .ok items =>
        let written := updateCveRepository db.cve items
        (written.1, { db with cve := written.2 })

/-- Nothing can be made of the content: it is not there, or an entry of it has too few columns. -/
def CpeSource.Fails (source : CpeSource) : Prop :=
  match getCpeContent source with
  | .error _ => True
  | .ok cpeList =>
    ∃ e ∈ wrongEntries CpeRow.width CpeRow.columns (setupCpeTable cpeList), e.width ≤ 2

/-- The tables have the rows that they had, and there are no more temporary tables. -/
structure Unharmed (db db' : RepositoryDatabase) : Prop where
  cpeTable : db'.cpeTable.rows.Perm db.cpeTable.rows
  cveTable : db'.cve.cveTable.rows.Perm db.cve.cveTable.rows
  summaryTable : db'.cve.summaryTable.rows.Perm db.cve.summaryTable.rows
  tempFeeds : db'.cve.tempFeeds = db.cve.tempFeeds
  tempSum : db'.cve.tempSum = db.cve.tempSum

/-- A failure of either update does no harm. -/
structure FailuresHarmless (db : RepositoryDatabase) (cpe : CpeSource) (cve : CveSource) :
    Prop where
  updateCpe : ∀ e db', updateCpe db cpe = (.error e, db') → Unharmed db db'
  updateCve : ∀ e db', updateCveFrom db cve = (.error e, db') → Unharmed db db'

/-- The feed of the modified items is there, and can be parsed. -/
def CveSource.Delivers (source : CveSource) (items : List CveItem) : Prop :=
  source.download = .extracted ∧ source.downloadAgain = .extracted ∧
    ∃ file, source.jsonFiles.head? = some file ∧ source.content file = some items

/-- `cve_table` has the rows that `temp_feeds` has for its CVEs, in the years that it holds. -/
structure Refreshed (db : CveDatabase) : Prop where
  once : (db.cveTable.rows.filter fun row =>
    decide (row.cveId ∈ db.tempFeeds.rows.map CveRow.cveId)).Nodup
  rows : ∀ row, row.cveId ∈ db.tempFeeds.rows.map CveRow.cveId →
    (row ∈ db.cveTable.rows ↔ (row ∈ db.tempFeeds.rows ∧
      row.year ∈ db.cveTable.rows.map CveRow.year) ∧ FeedRow.width row = FeedRow.columns CveRow)

/-- The items do no harm: they have years, or an earlier update has failed at the same place and
there is nothing new for `cve_table`. -/
structure IdsHarmless (db : CveDatabase) (items : List CveItem) : Prop where
  cves : UndatedCves items → db.tempFeeds.isSome
  summaries : ¬ UndatedCves items → UndatedSummaries items →
    db.tempFeeds.isSome ∧ db.tempSum.isSome ∧ (∀ item ∈ items, item.cveRows = []) ∧ Refreshed db

end Cves

/-! ## 3. What a failure leaves -/

theorem unharmed_refl (db : RepositoryDatabase) : Unharmed db db := ⟨.rfl, .rfl, .rfl, rfl, rfl⟩

section FailedCves
variable [IntegerColumn] {db : RepositoryDatabase} {items : List CveItem}

/-- Before the items are there, no table is touched. -/
theorem updateCveFrom_cases (db : RepositoryDatabase) (source : CveSource) :
    (updateCveFrom db source).2 = db ∨
      ∃ items, db.cve.cveTable.isSome ∧ source.Delivers items ∧
        updateCveFrom db source = ((updateCveRepository db.cve items).1,
          { db with cve := (updateCveRepository db.cve items).2 }) := by
  unfold updateCveFrom
  split
  · exact .inl rfl
  · next hsome =>
    split
    · exact .inl rfl
    · next hdownload =>
      split
      · exact .inl rfl
      · next items hitems =>
        refine .inr ⟨items, ?_, ?_, rfl⟩
        · cases htable : db.cve.cveTable with
          | none => exact absurd (by rw [htable]; rfl) hsome
          | some rows => rfl
        · unfold getCveUpdateContent at hitems
          cases hfirst : source.download <;> rw [hfirst] at hdownload <;> cases hdownload
          cases hsecond : source.downloadAgain <;> rw [hsecond] at hitems <;> try cases hitems
          cases hfiles : source.jsonFiles with
          | nil =>
            rw [hfiles] at hitems
            cases hitems
          | cons file files =>
            rw [hfiles] at hitems
            cases hcontent : source.content file with
            | none =>
              simp only [processUrl, hcontent] at hitems
              cases hitems
            | some items' =>
              simp only [processUrl, hcontent, Except.ok.injEq] at hitems
              exact ⟨hfirst, hsecond, file, by rw [hfiles]; rfl, by rw [hcontent, hitems]⟩

/-- When the items are there, they are written. -/
theorem updateCveFrom_of_delivers {source : CveSource} (hsome : db.cve.cveTable.isSome)
    (h : source.Delivers items) :
    updateCveFrom db source = ((updateCveRepository db.cve items).1,
      { db with cve := (updateCveRepository db.cve items).2 }) := by
  obtain ⟨hfirst, hsecond, file, hfile, hcontent⟩ := h
  obtain ⟨rows, hrows⟩ := Option.isSome_iff_exists.mp hsome
  obtain ⟨files, hfiles⟩ := List.head?_eq_some_iff.mp hfile
  simp only [updateCveFrom, getCveUpdateContent, hrows, hfirst, hsecond, hfiles, hcontent,
    processUrl, Option.isNone_some, Bool.false_eq_true, if_false]

omit [IntegerColumn] in
theorem createTable_eq_self_iff {ρ : Type} {table : Table ρ} :
    createTable table = table ↔ table.isSome := by
  cases table with
  | none => exact iff_of_false (fun h => by cases h) Bool.false_ne_true
  | some rows => exact iff_of_true rfl rfl

omit [IntegerColumn] in
/-- An item with a CPE has no year. -/
theorem unharmed_undatedCves_iff :
    Unharmed db { db with
      cve := { db.cve with
        tempFeeds := createTable db.cve.tempFeeds } } ↔ db.cve.tempFeeds.isSome := by
  rw [← createTable_eq_self_iff]
  exact ⟨fun h => h.tempFeeds, fun h => ⟨.rfl, .rfl, .rfl, h, rfl⟩⟩

theorem withCves_eq_self_iff {table : Table CveRow} :
    withCves items table = table ↔ table.isSome ∧ ∀ item ∈ items, item.cveRows = [] := by
  have hrows : insertedRows (cveRowsOf (extractDataFromCve items).1) = [] ↔
      ∀ item ∈ items, item.cveRows = [] := by
    have hnil : insertedRows (cveRowsOf (extractDataFromCve items).1) = [] ↔
        cveSource.table items = [] := by
      simp only [List.eq_nil_iff_forall_not_mem, mem_insertedCves]
    exact hnil.trans List.flatMap_eq_nil_iff
  rw [← hrows]
  cases table with
  | none => exact iff_of_false (fun h => by cases h) fun h => Bool.false_ne_true h.1
  | some rows =>
    have htable : (createTable (some rows)).isSome := rfl
    have hinsert := rows_insertInto htable
      (cveRowsOf (extractDataFromCve items).1)
    constructor
    · intro h
      have hsame := congrArg Table.rows h
      rw [withCves, hinsert] at hsame
      exact ⟨rfl, List.append_right_eq_self.mp hsame⟩
    · intro h
      rw [h.2] at hinsert
      exact congrArg some (hinsert.trans (List.append_nil _))

omit [IntegerColumn] in
/-- Refreshing `cve_table` with the rows of `temp_feeds` leaves it as it is. -/
theorem perm_updateCveFeeds_iff {cve : CveDatabase} (hsome : cve.cveTable.isSome) :
    (updateCveFeeds cve).cveTable.rows.Perm cve.cveTable.rows ↔ Refreshed cve := by
  obtain ⟨rows, hrows⟩ := Option.isSome_iff_exists.mp hsome
  have htable : cve.cveTable.rows = rows := congrArg Table.rows hrows
  have hdelete : (deleteOutdatedFeeds cve.cveTable cve.tempFeeds).rows =
      rows.filter fun row => decide (row.cveId ∉ cve.tempFeeds.rows.map CveRow.cveId) := by
    rw [hrows]
    rfl
  have hupdate : (updateCveFeeds cve).cveTable.rows =
      (rows.filter fun row => decide (row.cveId ∉ cve.tempFeeds.rows.map CveRow.cveId)) ++
        insertedRows (extractRelevantFeeds cve.tempFeeds cve.cveTable) := by
    rw [← hdelete]
    exact rows_insertInto (by rw [isSome_deleteOutdatedFeeds]; exact hsome) _
  -- the rows are those that are deleted and those that are not
  have hsplit : ((rows.filter fun row =>
        decide (row.cveId ∉ cve.tempFeeds.rows.map CveRow.cveId)) ++
      rows.filter fun row => decide (row.cveId ∈ cve.tempFeeds.rows.map CveRow.cveId)).Perm rows := by
    simp only [decide_not]
    exact List.perm_append_comm.trans (List.filter_append_perm _ rows)
  have hnodup : (insertedRows (extractRelevantFeeds cve.tempFeeds cve.cveTable)).Nodup :=
    (List.nodup_dedup _).filter _
  have hmem : ∀ row, row ∈ insertedRows (extractRelevantFeeds cve.tempFeeds cve.cveTable) ↔
      (row ∈ cve.tempFeeds.rows ∧ row.year ∈ cve.cveTable.rows.map CveRow.year) ∧
        FeedRow.width row = FeedRow.columns CveRow := by
    intro row
    rw [mem_insertedRows, mem_extractRelevantFeeds]
    rfl
  have hkeep : (updateCveFeeds cve).cveTable.rows.Perm cve.cveTable.rows ↔
      (insertedRows (extractRelevantFeeds cve.tempFeeds cve.cveTable)).Perm (rows.filter fun row =>
        decide (row.cveId ∈ cve.tempFeeds.rows.map CveRow.cveId)) := by
    rw [hupdate, htable]
    exact ⟨fun h => (List.perm_append_left_iff _).mp (h.trans hsplit.symm),
      fun h => ((List.perm_append_left_iff _).mpr h).trans hsplit⟩
  rw [hkeep]
  constructor
  · intro h
    refine ⟨htable ▸ h.nodup_iff.mp hnodup, fun row hid => ?_⟩
    rw [← hmem, h.mem_iff, List.mem_filter, htable]
    exact (and_iff_left (decide_eq_true hid)).symm
  · intro h
    have honce := h.once
    rw [htable] at honce
    refine (List.perm_ext_iff_of_nodup hnodup honce).mpr fun row => ?_
    rw [hmem, List.mem_filter, decide_eq_true_iff]
    constructor
    · intro hrow
      have hid : row.cveId ∈ cve.tempFeeds.rows.map CveRow.cveId := List.mem_map_of_mem hrow.1.1
      exact ⟨htable ▸ (h.rows row hid).mpr hrow, hid⟩
    · intro hrow
      exact (h.rows row hrow.2).mp (htable.symm ▸ hrow.1)

/-- A summary has no year: `cve_table` is refreshed before. -/
theorem unharmed_undatedSummaries_iff (hsome : db.cve.cveTable.isSome) :
    Unharmed db { db with
      cve := { updateCveFeeds { db.cve with
          tempFeeds := withCves items db.cve.tempFeeds } with
        tempSum := createTable db.cve.tempSum } } ↔
      db.cve.tempFeeds.isSome ∧ db.cve.tempSum.isSome ∧ (∀ item ∈ items, item.cveRows = []) ∧
        Refreshed db.cve := by
  constructor
  · intro h
    have hfeeds : withCves items db.cve.tempFeeds = db.cve.tempFeeds := h.tempFeeds
    have htable := h.cveTable
    rw [hfeeds] at htable
    obtain ⟨htemp, hrows⟩ := withCves_eq_self_iff.mp hfeeds
    exact ⟨htemp, createTable_eq_self_iff.mp h.tempSum, hrows,
      (perm_updateCveFeeds_iff hsome).mp htable⟩
  · intro h
    obtain ⟨htemp, hsum, hrows, hrefreshed⟩ := h
    have hfeeds := withCves_eq_self_iff.mpr ⟨htemp, hrows⟩
    rw [hfeeds]
    exact ⟨.rfl, (perm_updateCveFeeds_iff hsome).mpr hrefreshed, .rfl, rfl,
      createTable_eq_self_iff.mpr hsum⟩

/-- Exactly when a failure of the update with these items does no harm. -/
theorem idsHarmless_iff (hsome : db.cve.cveTable.isSome) :
    (∀ e, (updateCveRepository db.cve items).1 = .error e →
      Unharmed db { db with cve := (updateCveRepository db.cve items).2 }) ↔
      IdsHarmless db.cve items := by
  have hnone : db.cve.cveTable.isNone = false := by
    obtain ⟨rows, hrows⟩ := Option.isSome_iff_exists.mp hsome
    rw [hrows]
    rfl
  obtain ⟨hfirst, hsecond⟩ := @updateCveRepository_of_undated _ items _ hnone
  by_cases hcves : UndatedCves items
  · rw [hfirst hcves]
    constructor
    · exact fun h => ⟨fun _ => unharmed_undatedCves_iff.mp (h _ rfl),
        fun hnot => absurd hcves hnot⟩
    · exact fun h _ _ => unharmed_undatedCves_iff.mpr (h.cves hcves)
  · by_cases hsummaries : UndatedSummaries items
    · rw [hsecond hcves hsummaries]
      constructor
      · exact fun h => ⟨fun hundated => absurd hundated hcves,
          fun _ _ => (unharmed_undatedSummaries_iff hsome).mp (h _ rfl)⟩
      · exact fun h _ _ =>
          (unharmed_undatedSummaries_iff hsome).mpr (h.summaries hcves hsummaries)
    · rw [updateCveRepository_of_dated hnone ⟨hcves, hsummaries⟩]
      exact iff_of_true (fun e he => by cases he)
        ⟨fun h => absurd h hcves, fun _ h => absurd h hsummaries⟩

end FailedCves

section Failures
variable {db db' : RepositoryDatabase} {e : UpdateError}

/-- The table that an update puts into the place of an emptied one. -/
def newCpeTable (source : CpeSource) : Except UpdateError (Table CpeRow) :=
  getCpeContent source >>= fun cpeList => insertCpes (setupCpeTable cpeList) (some [])

theorem insertCpes_error_iff {inputData : List CpeRow} {table : Table CpeRow} :
    (∃ e, insertCpes inputData table = .error e) ↔
      ∃ e ∈ wrongEntries CpeRow.width CpeRow.columns inputData, e.width ≤ 2 := by
  unfold insertCpes
  split
  · next hshort => exact iff_of_true ⟨.other, rfl⟩ hshort
  · next hshort =>
    refine iff_of_false ?_ hshort
    rintro ⟨e, he⟩
    cases he

theorem fails_iff {source : CpeSource} :
    source.Fails ↔ ∃ e, newCpeTable source = .error e := by
  unfold CpeSource.Fails newCpeTable
  cases getCpeContent source with
  | error e => exact iff_of_true trivial ⟨e, rfl⟩
  | ok cpeList => exact insertCpes_error_iff.symm

/-- An existing table is emptied, and stays so if there is no content for it. -/
theorem updateCpe_of_error {source : CpeSource} (h : db.cpeTable.isNone = false)
    (hnew : newCpeTable source = .error e) :
    updateCpe db source = (.error e, { db with cpeTable := some [] }) := by
  unfold newCpeTable at hnew
  unfold updateCpe
  rw [h, if_neg Bool.false_ne_true]
  cases hcontent : getCpeContent source with
  | error e' =>
    rw [hcontent] at hnew
    cases hnew
    rfl
  | ok cpeList =>
    rw [hcontent] at hnew
    have hinsert : insertCpes (setupCpeTable cpeList) (createTable none) = .error e := hnew
    dsimp only
    rw [hinsert]
    rfl

theorem updateCpe_of_ok {source : CpeSource} {cpeTable : Table CpeRow}
    (h : db.cpeTable.isNone = false) (hnew : newCpeTable source = .ok cpeTable) :
    updateCpe db source = (.ok (), { db with cpeTable := cpeTable }) := by
  unfold newCpeTable at hnew
  unfold updateCpe
  rw [h, if_neg Bool.false_ne_true]
  cases hcontent : getCpeContent source with
  | error e' =>
    rw [hcontent] at hnew
    cases hnew
  | ok cpeList =>
    rw [hcontent] at hnew
    have hinsert : insertCpes (setupCpeTable cpeList) (createTable none) = .ok cpeTable := hnew
    dsimp only
    rw [hinsert]

/-- A failed update of the CPEs: there is no table, or it is empty now. -/
theorem updateCpe_error {source : CpeSource} (h : updateCpe db source = (.error e, db')) :
    (db.cpeTable.rows = [] ∧ db' = db) ∨
      (source.Fails ∧ db' = { db with cpeTable := some [] }) := by
  cases hnone : db.cpeTable.isNone with
  | true =>
    unfold updateCpe at h
    rw [if_pos hnone] at h
    rw [Option.isNone_iff_eq_none.mp hnone]
    exact .inl ⟨rfl, (Prod.mk.inj h).2.symm⟩
  | false =>
    cases hnew : newCpeTable source with
    | error e' =>
      rw [updateCpe_of_error hnone hnew] at h
      exact .inr ⟨fails_iff.mpr ⟨e', hnew⟩, (Prod.mk.inj h).2.symm⟩
    | ok cpeTable =>
      rw [updateCpe_of_ok hnone hnew] at h
      cases (Prod.mk.inj h).1

/-- With rows in the table, the update fails whenever its source does. -/
theorem updateCpe_of_fails {source : CpeSource} (hrows : db.cpeTable.rows ≠ [])
    (h : source.Fails) :
    ∃ e, updateCpe db source = (.error e, { db with cpeTable := some [] }) := by
  obtain ⟨e, he⟩ := fails_iff.mp h
  have hsome : db.cpeTable.isNone = false := by
    cases htable : db.cpeTable with
    | none => exact absurd (congrArg Table.rows htable) hrows
    | some rows => rfl
  exact ⟨e, updateCpe_of_error hsome he⟩

end Failures

/-! ## 4. When failures are harmless -/

/-- Exactly when failed updates leave the tables as they were. -/
theorem failedUpdates_iff [IntegerColumn] (db : RepositoryDatabase) (cpe : CpeSource)
    (cve : CveSource) :
    FailuresHarmless db cpe cve ↔ (db.cpeTable.rows = [] ∨ ¬ cpe.Fails) ∧
      (db.cve.cveTable.isSome → ∀ items, cve.Delivers items → IdsHarmless db.cve items) := by
  constructor
  · intro h
    constructor
    · by_contra hnot
      obtain ⟨hrows, hfails⟩ := not_or.mp hnot
      obtain ⟨e, he⟩ := updateCpe_of_fails hrows (not_not.mp hfails)
      exact hrows (h.updateCpe e _ he).cpeTable.symm.eq_nil
    · intro hsome items hdelivers
      refine (idsHarmless_iff hsome).mp fun e he => h.updateCve e _ ?_
      rw [updateCveFrom_of_delivers hsome hdelivers, he]
  · intro h
    refine ⟨fun e db' he => ?_, fun e db' he => ?_⟩
    · rcases updateCpe_error he with ⟨-, rfl⟩ | ⟨hfails, rfl⟩
      · exact unharmed_refl db'
      · have hrows := h.1.resolve_right (not_not_intro hfails)
        exact ⟨by rw [hrows]; exact .rfl, .rfl, .rfl, rfl, rfl⟩
    · rcases updateCveFrom_cases db cve with heq | ⟨items, hsome, hdelivers, heq⟩
      · rw [he] at heq
        obtain rfl : db' = db := heq
        exact unharmed_refl db'
      · rw [he] at heq
        obtain ⟨herror, rfl⟩ := Prod.mk.inj heq
        exact (idsHarmless_iff hsome).mpr (h.2 hsome items hdelivers) e herror.symm

/-- A database with one CPE. -/
def oneCpe : RepositoryDatabase where
  cpeTable := some [⟨"cpe:2.3:a:a:a:1:*:*:*:*:*:*:*", cpeElements "cpe:2.3:a:a:a:1:*:*:*:*:*:*:*"⟩]
  cve := .empty

/-- The network is down. -/
theorem emptied_table :
    ¬ ∀ (_ : IntegerColumn) (db : RepositoryDatabase) (cpe : CpeSource) (cve : CveSource),
      FailuresHarmless db cpe cve := by
  intro h
  have hharmless := h digitsColumn oneCpe ⟨.requestException, [], fun _ => .nameMissing⟩
    ⟨.requestException, .requestException, [], fun _ => none⟩
  have hrows := (@FailuresHarmless.updateCpe digitsColumn _ _ _ hharmless _ _ rfl).cpeTable
  exact List.cons_ne_nil _ _ hrows.symm.eq_nil

end FactCore
