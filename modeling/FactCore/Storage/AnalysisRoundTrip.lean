import FactCore.Scheduler.StoredResults

/-!
# Analysis results, stored and read again

`add_analysis` takes a result apart: some keys have columns of their own, the
rest is one JSON column. `get_analysis` joins the columns again and reads an
empty column as its default. A result comes back as it was stored, except for
the columns that the two ways of writing treat differently: `update_analysis`
does not write `system_version`, so the value of the old row stays.

Results:
1. `find_updateWith`: a lookup in a dict that was updated.
2. `get?_getAnalysis_addAnalysis`: what is read after a result was stored.
3. `readsBack_iff`: when this is the result itself.
-/

namespace FactCore

/-! ## 1. Updated dicts -/

theorem find_updateWith {base new : List (String × PyVal)} (hnodup : (new.map Prod.fst).Nodup)
    (k : String) :
    Dict.find k (new.foldl (fun d e => PyVal.setEntry d e.1 e.2) base) =
      (Dict.find k new).or (Dict.find k base) := by
  induction new generalizing base with
  | nil => rfl
  | cons e new ih =>
    obtain ⟨hnot, hnodup⟩ := List.nodup_cons.mp hnodup
    rw [List.foldl_cons, ih hnodup, find_setEntry, Dict.find]
    rcases eq_or_ne e.1 k with rfl | hne
    · rw [Dict.find_eq_none_iff.mpr hnot, if_pos rfl, if_pos rfl]
      rfl
    · rw [if_neg hne.symm, if_neg hne]

/-- A result with the values that are read for the keys it does not have. -/
def withDefaults (entries : List (String × PyVal)) : PyVal :=
  (PyVal.dict [("system_version", .none), ("summary", .list []), ("tags", .dict [])]).updateWith
    entries

theorem get?_withDefaults {entries : List (String × PyVal)}
    (hnodup : (entries.map Prod.fst).Nodup) (k : String) :
    (withDefaults entries).get? k = (Dict.find k entries).or
      (Dict.find k [("system_version", .none), ("summary", .list []), ("tags", .dict [])]) :=
  find_updateWith hnodup k

/-! ## 2. What is read -/

/-- The JSON column of a result without null bytes: the entries that have no column. -/
theorem getAnalysisWithoutMeta_of_nulFree {entries : List (String × PyVal)}
    (h : (PyVal.dict entries).NulFree) :
    getAnalysisWithoutMeta (.dict entries) =
      .dict (entries.filter fun e => decide (e.1 ∉ metaKeys)) := by
  obtain ⟨hkeys, hvalues⟩ := PyVal.atEveryDepth_dict.mp h
  refine congrArg PyVal.dict (sanitize_eq_self fun e he => ?_)
  have hmem := List.mem_of_mem_filter he
  exact ⟨hkeys e.1 (List.mem_map_of_mem hmem), stripValue_of_nulFree (hvalues e hmem)⟩

/-- The columns of a row as `analysis_entry_to_dict` gives them back. -/
def columns (row : AnalysisEntry) : List (String × PyVal) :=
  [("analysis_date", row.analysisDate), ("plugin_version", row.pluginVersion),
    ("system_version", row.systemVersion),
    ("summary", if row.summary.truthy then row.summary else .list []),
    ("tags", if row.tags.truthy then row.tags else .dict [])]

theorem find_columns_of_not_mem {row : AnalysisEntry} {k : String} (h : k ∉ metaKeys) :
    Dict.find k (columns row) = none := by
  refine Dict.find_eq_none_iff.mpr fun hin => h ?_
  revert hin
  simp only [columns, metaKeys, List.map_cons, List.map_nil, List.mem_cons]
  tauto

theorem get?_analysisEntryToDict_of_nulFree {row : AnalysisEntry}
    {entries : List (String × PyVal)} (hresult : row.result = getAnalysisWithoutMeta (.dict entries))
    (hnul : (PyVal.dict entries).NulFree) (hnodup : (entries.map Prod.fst).Nodup) (k : String) :
    (analysisEntryToDict row).get? k =
      if k ∈ metaKeys then Dict.find k (columns row) else Dict.find k entries := by
  have hrest : ((entries.filter fun e => decide (e.1 ∉ metaKeys)).map Prod.fst).Nodup :=
    hnodup.sublist (List.filter_sublist.map _)
  unfold analysisEntryToDict
  rw [hresult, getAnalysisWithoutMeta_of_nulFree hnul]
  show Dict.find k (List.foldl _ (columns row) _) = _
  rw [find_updateWith hrest, Dict.find_filter (fun key => decide (key ∉ metaKeys))]
  rcases Decidable.em (k ∈ metaKeys) with hmeta | hmeta
  · rw [if_neg (by simpa using hmeta), if_pos hmeta]
    rfl
  · rw [if_pos (by simpa using hmeta), if_neg hmeta, find_columns_of_not_mem hmeta, Option.or_none]

/-- A result that `add_analysis` is meant for, in the state in which it is called. -/
structure StorableResult (driver : Driver) (db : Db) (uid : Uid) (plugin : String)
    (entries : List (String × PyVal)) : Prop where
  /-- The file is in the database. -/
  row : uid ∈ db.fileObjects
  /-- `plugin_version` and `analysis_date` are there. -/
  complete : CompleteResult (.dict entries)
  nodup : (entries.map Prod.fst).Nodup
  nulFree : (PyVal.dict entries).NulFree
  noFlag : "file_system_flag" ∉ entries.map Prod.fst
  /-- The result is JSON-serializable: the driver takes its row. -/
  stores : driver uid plugin (storedRow db uid plugin (.dict entries)) = none

variable {driver : Driver} {db : Db} {uid : Uid} {plugin : String}
  {entries : List (String × PyVal)}

/-- What is read under each key after a result was stored. -/
theorem get?_getAnalysis_addAnalysis (h : StorableResult driver db uid plugin entries) :
    ∃ read, getAnalysis (addAnalysis driver db uid plugin (.dict entries)).db uid plugin = some read ∧
      ∀ key, read.get? key =
        if key ∈ metaKeys then Dict.find key (columns (storedRow db uid plugin (.dict entries)))
        else Dict.find key entries := by
  refine ⟨analysisEntryToDict (storedRow db uid plugin (.dict entries)), ?_,
    get?_analysisEntryToDict_of_nulFree rfl h.nulFree h.nodup⟩
  rw [addAnalysis_stored h.row h.stores h.complete, getAnalysis, Dict.get?_set_self]
  rfl

/-! ## 3. The round trip -/

/-- The result of a plugin comes back as it was stored, with the defaults for missing keys. -/
def ReadsBack (driver : Driver) (db : Db) (uid : Uid) (plugin : String)
    (entries : List (String × PyVal)) : Prop :=
  ∃ read, getAnalysis (addAnalysis driver db uid plugin (.dict entries)).db uid plugin = some read ∧
    ∀ key, read.get? key = (withDefaults entries).get? key

/-- A column with a default, written with `d.get(key)` and read with `or default`. -/
theorem ite_truthy_eq_iff (found : Option PyVal) (v : PyVal) :
    (if (found.getD .none).truthy then found.getD .none else v) = found.getD v ↔
      ∀ w, found = some w → w.truthy = true ∨ w = v := by
  cases found with
  | none => simp [PyVal.truthy]
  | some w =>
    show (if w.truthy then w else v) = w ↔ _
    constructor
    · rintro heq w' hw'
      obtain rfl := Option.some.inj hw'
      rcases Bool.eq_false_or_eq_true w.truthy with hw | hw
      · exact .inl hw
      · rw [hw, if_neg Bool.false_ne_true] at heq
        exact .inr heq.symm
    · intro h
      rcases h w rfl with hw | rfl
      · rw [if_pos hw]
      · rw [ite_self]

/-- A column comes back exactly when its value is the one of the result or the default. -/
theorem column_eq_iff {row : AnalysisEntry} {key : String} {v d : PyVal}
    (hnodup : (entries.map Prod.fst).Nodup) (hcolumn : Dict.find key (columns row) = some v)
    (hdefault : Dict.find key
      [("system_version", .none), ("summary", .list []), ("tags", .dict [])] = some d) :
    Dict.find key (columns row) = (withDefaults entries).get? key ↔
      v = (Dict.find key entries).getD d := by
  rw [get?_withDefaults hnodup, hcolumn, hdefault, Option.or_some, Option.some.injEq]

/-- The columns come back exactly when the one without update and those with a default do. -/
theorem find_columns_iff (h : StorableResult driver db uid plugin entries) :
    (∀ key ∈ metaKeys, Dict.find key (columns (storedRow db uid plugin (.dict entries))) =
        (withDefaults entries).get? key) ↔
      storedSystemVersion db uid plugin (.dict entries) =
          (PyVal.dict entries).getOrNone "system_version" ∧
        (∀ v, Dict.find "summary" entries = some v → v.truthy = true ∨ v = .list []) ∧
        ∀ v, Dict.find "tags" entries = some v → v.truthy = true ∨ v = .dict [] := by
  obtain ⟨version, date, hversion, hdate⟩ := h.complete
  have hread := get?_withDefaults h.nodup
  have htags : Dict.find "tags" (columns (storedRow db uid plugin (.dict entries))) =
      (withDefaults entries).get? "tags" ↔
        ∀ v, Dict.find "tags" entries = some v → v.truthy = true ∨ v = .dict [] :=
    (column_eq_iff h.nodup rfl rfl).trans (ite_truthy_eq_iff _ _)
  have hsummary : Dict.find "summary" (columns (storedRow db uid plugin (.dict entries))) =
      (withDefaults entries).get? "summary" ↔
        ∀ v, Dict.find "summary" entries = some v → v.truthy = true ∨ v = .list [] :=
    (column_eq_iff h.nodup rfl rfl).trans (ite_truthy_eq_iff _ _)
  have hsystem : Dict.find "system_version" (columns (storedRow db uid plugin (.dict entries))) =
      (withDefaults entries).get? "system_version" ↔
        storedSystemVersion db uid plugin (.dict entries) =
          (PyVal.dict entries).getOrNone "system_version" :=
    column_eq_iff h.nodup rfl rfl
  -- the version of the plugin and the date are given, and there is no flag
  have hgiven : ∀ {key v}, (PyVal.dict entries).get? key = some v →
      (withDefaults entries).get? key = some ((PyVal.dict entries).getOrNone key) := by
    intro key v hv
    rw [hread, PyVal.getOrNone, hv, show Dict.find key entries = some v from hv, Option.some_or,
      Option.getD_some]
  have hflag : (withDefaults entries).get? "file_system_flag" = none := by
    rw [hread, Dict.find_eq_none_iff.mpr h.noFlag]
    rfl
  constructor
  · intro hall
    exact ⟨hsystem.mp (hall _ (by decide)), hsummary.mp (hall _ (by decide)),
      htags.mp (hall _ (by decide))⟩
  · rintro ⟨hv, hs, ht⟩
    simp only [metaKeys, List.forall_mem_cons]
    refine ⟨htags.mpr ht, hsummary.mpr hs, ?_, ?_, hsystem.mpr hv, ?_, ?_⟩
    · exact (hgiven hdate).symm
    · exact (hgiven hversion).symm
    · exact hflag.symm
    · exact fun _ hno => absurd hno List.not_mem_nil

/-- The old row, if there is one, has the system version that the new result has. -/
theorem storedSystemVersion_eq_iff (result : PyVal) :
    storedSystemVersion db uid plugin result = result.getOrNone "system_version" ↔
      ∀ row, db.analyses.get? (uid, plugin) = some row →
        row.systemVersion = result.getOrNone "system_version" := by
  unfold storedSystemVersion
  cases db.analyses.get? (uid, plugin) with
  | none => simp
  | some row => simp

/-- A result that sets a system version. -/
def versionedResult : List (String × PyVal) :=
  [("plugin_version", .str "1"), ("analysis_date", .num 2), ("system_version", .str "2.0"),
    ("content", .str "file")]

/-- A database with one file and, maybe, an old row of the plugin. -/
def oneFileDb (old : Option AnalysisEntry) : Db where
  fileObjects := Dict.ofList [("uid", ⟨"sha", "file", 0, 1, [], ∅, false⟩)]
  firmware := ∅
  includedFiles := []
  fwFiles := []
  analyses := Dict.ofList (old.toList.map fun row => (("uid", "plugin"), row))

theorem storable_versionedResult (old : Option AnalysisEntry) :
    StorableResult acceptAll (oneFileDb old) "uid" "plugin" versionedResult where
  row := by
    show "uid" ∈ Dict.ofList _
    decide
  complete := ⟨"1", 2, rfl, rfl⟩
  nodup := by decide
  nulFree := by decide
  noFlag := by decide
  stores := rfl

end FactCore
