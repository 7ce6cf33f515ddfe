import FactCore.Lib.Joins
import FactCore.Storage.Overviews

/-!
# Missing and failed results

`find_missing_analyses` and `find_failed_analyses` of
`src/src/storage/db_interface_frontend.py`, which an administrator looks at to see which
results of the stored firmware are not there or are error messages.

The plugins of a file are grouped from a join with its results. A file without any
result has no row in it, so it is not missing one.

A failed result is one that has the key `failed` in its JSON column. Results are stored
without null bytes, which can turn another key into this one.

Results:
1. `findMissingAnalyses_exact`: the files that are shown for a firmware.
2. `mem_keys_sanitize_iff`: the keys of a stored result.
3. `findFailedAnalyses_exact`: a result is shown as failed exactly if the result that was
   stored last has the key.
-/

namespace FactCore

open Relation

/-! ## 1. Missing results -/

/-- `_query_all_plugins_of_object`: the files that meet the filter, with the plugins of their
results. -/
def queryAllPluginsOfObject (db : Db) (queryFilter : Uid × FileObjectEntry → Bool) :
    Dict Uid (List String) :=
  Joins.arrayAgg (fun row => row.1.1.1) (fun row => row.1.1.2)
    ((Joins.inner (fun analysis file => decide (analysis.1.1 = file.1)) db.analyses.entries
      db.fileObjects.entries).filter fun row => queryFilter row.2)

/-- `find_missing_analyses`. A firmware is a root of the files that `fw_files` has for it. -/
def findMissingAnalyses (db : Db) : Dict Uid (List Uid) :=
  Joins.collect <|
    (queryAllPluginsOfObject db fun file => file.2.isFirmware).entries.flatMap fun fw =>
      ((queryAllPluginsOfObject db fun file =>
        decide (file.1 ∈ getAllFilesInFw db fw.1)).entries.filter
          fun fo => fw.2.any fun plugin => decide (plugin ∉ fo.2)).map fun fo => (fw.1, fo.1)

section Missing
variable {db : Db} {queryFilter : Uid × FileObjectEntry → Bool} {uid : Uid} {plugin : String}
  {plugins : List String}

theorem mem_joined {row : ((Uid × String) × AnalysisEntry) × (Uid × FileObjectEntry)} :
    row ∈ (Joins.inner (fun analysis file => decide (analysis.1.1 = file.1)) db.analyses.entries
        db.fileObjects.entries).filter (fun row => queryFilter row.2) ↔
      db.analyses.get? row.1.1 = some row.1.2 ∧ db.fileObjects.get? row.2.1 = some row.2.2 ∧
        row.1.1.1 = row.2.1 ∧ queryFilter row.2 = true := by
  obtain ⟨⟨k, entry⟩, ⟨u, file⟩⟩ := row
  rw [List.mem_filter, Joins.mem_inner, Dict.mem_entries_iff, Dict.mem_entries_iff,
    decide_eq_true_eq, and_assoc, and_assoc]

/-- A file is in the result of the query if it meets the filter and has a result. -/
theorem exists_plugins_iff (queryFilter : Uid × FileObjectEntry → Bool) :
    (∃ plugins, (queryAllPluginsOfObject db queryFilter).get? uid = some plugins) ↔
      (∃ file, db.fileObjects.get? uid = some file ∧ queryFilter (uid, file) = true) ∧
        ∃ plugin, (uid, plugin) ∈ db.analyses := by
  constructor
  · rintro ⟨plugins, h⟩
    obtain ⟨⟨row, hrow, rfl⟩, -⟩ := Joins.get?_arrayAgg_eq_some.mp h
    obtain ⟨hentry, hfile, hsame, hfilter⟩ := mem_joined.mp hrow
    rw [hsame]
    exact ⟨⟨row.2.2, hfile, hfilter⟩, row.1.1.2, hsame ▸ Dict.mem_of_get? hentry⟩
  · rintro ⟨⟨file, hfile, hfilter⟩, plugin, hmem⟩
    obtain ⟨entry, hentry⟩ := Dict.mem_iff.mp hmem
    exact ⟨_, Joins.get?_arrayAgg_eq_some.mpr
      ⟨⟨(((uid, plugin), entry), (uid, file)), mem_joined.mpr ⟨hentry, hfile, rfl, hfilter⟩, rfl⟩, rfl⟩⟩

/-- Its plugins are those that have a result for it. -/
theorem mem_plugins_iff (h : (queryAllPluginsOfObject db queryFilter).get? uid = some plugins) :
    plugin ∈ plugins ↔ (uid, plugin) ∈ db.analyses := by
  rw [Joins.mem_arrayAgg h]
  constructor
  · rintro ⟨⟨⟨⟨u, name⟩, entry⟩, file⟩, hrow, rfl, rfl⟩
    exact Dict.mem_of_get? (mem_joined.mp hrow).1
  · intro hmem
    obtain ⟨⟨row, hrow, rfl⟩, -⟩ := Joins.get?_arrayAgg_eq_some.mp h
    obtain ⟨-, hfile, hsame, hfilter⟩ := mem_joined.mp hrow
    obtain ⟨entry, hentry⟩ := Dict.mem_iff.mp hmem
    exact ⟨(((row.1.1.1, plugin), entry), row.2), mem_joined.mpr ⟨hentry, hfile, hsame, hfilter⟩,
      rfl, rfl⟩

/-- A result of a plugin that the firmware has a result of is missing for a file that has others. -/
structure MissesResult (db : Db) (fw fo : Uid) : Prop where
  analysed : ∃ plugin, (fo, plugin) ∈ db.analyses
  missing : ∃ plugin, (fw, plugin) ∈ db.analyses ∧ (fo, plugin) ∉ db.analyses

theorem mem_findMissingAnalyses (hk : db.ForeignKeys) {fw fo : Uid} :
    fo ∈ (findMissingAnalyses db).getD fw [] ↔
      db.Flagged fw ∧ fo ∈ getAllFilesInFw db fw ∧ MissesResult db fw fo := by
  rw [findMissingAnalyses, Joins.mem_collect]
  simp only [List.mem_flatMap, List.mem_map, List.mem_filter, List.any_eq_true, decide_eq_true_eq,
    Prod.mk.injEq]
  constructor
  · rintro ⟨⟨fw', fwPlugins⟩, hfw, ⟨fo', foPlugins⟩, ⟨hfo, plugin, hplugin, hno⟩, rfl, rfl⟩
    have hfw := Dict.mem_entries_iff.mp hfw
    have hfo := Dict.mem_entries_iff.mp hfo
    obtain ⟨hflag, -⟩ := (exists_plugins_iff _).mp ⟨_, hfw⟩
    obtain ⟨⟨file, -, hlink⟩, hany⟩ := (exists_plugins_iff _).mp ⟨_, hfo⟩
    exact ⟨hflag, of_decide_eq_true hlink, hany, plugin, (mem_plugins_iff hfw).mp hplugin,
      fun hmem => hno ((mem_plugins_iff hfo).mpr hmem)⟩
  · rintro ⟨hflag, hlink, hany, plugin, hplugin, hno⟩
    obtain ⟨file, hfile⟩ := Dict.mem_iff.mp (hk.fwFiles fw fo (mem_getAllFilesInFw.mp hlink)).2
    obtain ⟨fwPlugins, hfw⟩ := (exists_plugins_iff fun file => file.2.isFirmware).mpr
      ⟨hflag, plugin, hplugin⟩
    obtain ⟨foPlugins, hfo⟩ := (exists_plugins_iff fun file =>
      decide (file.1 ∈ getAllFilesInFw db fw)).mpr ⟨⟨file, hfile, decide_eq_true hlink⟩, hany⟩
    exact ⟨(fw, fwPlugins), Dict.mem_entries_iff.mpr hfw, (fo, foPlugins),
      ⟨Dict.mem_entries_iff.mpr hfo, plugin, (mem_plugins_iff hfw).mpr hplugin,
        fun hmem => hno ((mem_plugins_iff hfo).mp hmem)⟩, rfl, rfl⟩

/-- After every run, the files that are shown for an uploaded firmware are those below it that have
some result but not all that the firmware has; and only firmware is shown that has such files. -/
theorem findMissingAnalyses_exact {driver : Driver} {limits : Limits} {contents : Contents}
    {maxDepth : Nat} {ops : List ContentOp}
    (h : ContentRun driver limits contents maxDepth Db.empty ops db) :
    (∀ fw fo, fo ∈ (findMissingAnalyses db).getD fw [] ↔
      db.Flagged fw ∧ TransGen db.Includes fw fo ∧ MissesResult db fw fo) ∧
      ∀ fw ∈ findMissingAnalyses db, (findMissingAnalyses db).getD fw [] ≠ [] := by
  have hinv := contentInv_of_run h
  constructor
  · intro fw fo
    rw [mem_findMissingAnalyses hinv.files.foreignKeys]
    refine and_congr_right fun hflag => and_congr_left fun _ => ?_
    rw [(hinv.files.filesExact (hinv.flagged fw hflag)).reachable]
  · intro fw hfw
    obtain ⟨fo, hfo⟩ := Joins.mem_keys_collect.mp hfw
    exact List.ne_nil_of_mem (Joins.mem_collect.mpr hfo)

end Missing

/-- The result of a plugin that did not end in time. -/
def failedEntries : List (String × PyVal) :=
  [("plugin_version", .str "1.0"), ("analysis_date", .num 1), ("failed", .str "timeout")]

/-- One plugin has a result for the image only, and a failed one. -/
def failedDb : Db :=
  (addAnalysis acceptAll typedFilesDb "outer" "printable_strings" (.dict failedEntries)).db

theorem missing_result_shown : "inner" ∈ (findMissingAnalyses failedDb).getD "outer" [] := by
  have hrun : ContentRun acceptAll pythonLimits imageContents 10 Db.empty
      ([.files (.upload "outer" [outerImage, innerFile]), .result "outer" "file_type" textResult,
        .result "inner" "file_type" textResult] ++
          [.result "outer" "printable_strings" (.dict failedEntries)]) failedDb :=
    typedFilesDb_run.append (.cons ⟨trivial, rfl⟩ (.nil _))
  have hincluded : "inner" ∈ failedDb.getIncludedUids "outer" := by decide
  have hbelow : TransGen failedDb.Includes "outer" "inner" :=
    .single (Db.mem_getIncludedUids.mp hincluded)
  have hmisses : MissesResult failedDb "outer" "inner" :=
    ⟨⟨"file_type", by decide⟩, "printable_strings", by decide, by decide⟩
  exact ((findMissingAnalyses_exact hrun).1 "outer" "inner").mpr ⟨⟨_, rfl, rfl⟩, hbelow, hmisses⟩

/-! ## 2. The keys of a stored result -/

section Keys
variable {entries d : List (String × PyVal)} {item : String × PyVal} {key : String}

theorem mem_keys_sanitizeValue (v : PyVal) {k : String} (h : key ∈ d.map Prod.fst) :
    key ∈ (sanitizeValue d k v).map Prod.fst := by
  unfold sanitizeValue
  split
  · exact mem_keys_setEntry.mpr (.inr h)
  · exact h

/-- A round of the loop takes no key away but its own, and only if it has a null byte. -/
theorem mem_keys_sanitizeItem_of_kept (hkept : key = item.1 → nul ∉ key.toList)
    (h : key ∈ d.map Prod.fst) : key ∈ (sanitizeItem d item).map Prod.fst := by
  have hvalue : key ∈ (sanitizeValue d item.1 item.2).map Prod.fst := mem_keys_sanitizeValue _ h
  rw [sanitizeItem_eq]
  split
  · next hnul =>
    unfold moveKey
    split
    · exact hvalue
    · obtain ⟨e, he, rfl⟩ := List.mem_map.mp hvalue
      have hne : e.1 ≠ item.1 := fun heq => hkept heq (heq ▸ hnul)
      exact mem_keys_setEntry.mpr (.inr
        (List.mem_map_of_mem (List.mem_filter.mpr ⟨he, decide_eq_true hne⟩)))
  · exact hvalue

theorem stripNul_mem_keys_of_mem {k : String} (h : stripNul k ∈ d.map Prod.fst) :
    stripNul k ∈ (sanitizeItem d item).map Prod.fst :=
  mem_keys_sanitizeItem_of_kept (fun _ => not_mem_stripNul k) h

/-- After the round of a key its stripped key is there. -/
theorem stripNul_mem_keys_sanitizeItem
    (h : item.1 ∈ d.map Prod.fst ∨ stripNul item.1 ∈ d.map Prod.fst) :
    stripNul item.1 ∈ (sanitizeItem d item).map Prod.fst := by
  rcases h with h | h
  · have hvalue : item.1 ∈ (sanitizeValue d item.1 item.2).map Prod.fst :=
      mem_keys_sanitizeValue _ h
    rw [sanitizeItem_eq]
    split
    · unfold moveKey
      cases hfind : Dict.find item.1 (sanitizeValue d item.1 item.2) with
      | none => exact absurd hvalue (Dict.find_eq_none_iff.mp hfind)
      | some v => exact mem_keys_setEntry.mpr (.inl rfl)
    · next hplain => rwa [stripNul_eq_self.mpr hplain]
  · exact stripNul_mem_keys_of_mem h

/-- A key stays until its own round, and is stripped from then on. -/
theorem stripNul_mem_keys_foldl {items : List (String × PyVal)}
    (hall : ∀ e ∈ items, e.1 ∈ d.map Prod.fst ∨ stripNul e.1 ∈ d.map Prod.fst)
    (h : key ∈ items.map Prod.fst ∨ stripNul key ∈ d.map Prod.fst) :
    stripNul key ∈ (items.foldl sanitizeItem d).map Prod.fst := by
  induction items generalizing d with
  | nil => exact h.resolve_left List.not_mem_nil
  | cons item items ih =>
    have hitem := stripNul_mem_keys_sanitizeItem (hall item List.mem_cons_self)
    refine ih (fun e he => ?_) ?_
    · rcases Decidable.em (e.1 = item.1) with heq | hne
      · exact .inr (heq ▸ hitem)
      · exact (hall e (List.mem_cons_of_mem _ he)).imp
          (mem_keys_sanitizeItem_of_kept fun heq => absurd heq hne) stripNul_mem_keys_of_mem
    · rcases h with h | h
      · rcases List.mem_cons.mp h with rfl | h
        · exact .inr hitem
        · exact .inl h
      · exact .inr (stripNul_mem_keys_of_mem h)

/-- The keys of a sanitized dict that have no null byte: those of the dict, stripped. -/
theorem mem_keys_sanitize_iff (hplain : nul ∉ key.toList) :
    key ∈ (sanitize entries).map Prod.fst ↔ ∃ k ∈ entries.map Prod.fst, stripNul k = key := by
  constructor
  · intro h
    obtain ⟨k, hk, rfl | rfl⟩ := mem_keys_sanitize h
    · exact ⟨key, hk, stripNul_eq_self.mpr hplain⟩
    · exact ⟨k, hk, rfl⟩
  · rintro ⟨k, hk, rfl⟩
    refine stripNul_mem_keys_foldl (fun e he => .inl ?_) (.inl hk)
    rw [sanitizeValues_keys]
    exact List.mem_map_of_mem he

end Keys

/-! ## 3. Failed results -/

/-- `find_failed_analyses`: the JSON column has the key `failed`. -/
def findFailedAnalyses (db : Db) : Dict String (List Uid) :=
  Joins.collect <|
    (db.analyses.entries.filter fun row => row.2.result.hasKey "failed").map fun row =>
      (row.1.2, row.1.1)

section Failed
variable {db : Db} {uid : Uid} {plugin : String} {entries : List (String × PyVal)}

theorem mem_findFailedAnalyses : uid ∈ (findFailedAnalyses db).getD plugin [] ↔
    ∃ row, db.analyses.get? (uid, plugin) = some row ∧ row.result.hasKey "failed" = true := by
  rw [findFailedAnalyses, Joins.mem_collect]
  simp only [List.mem_map, List.mem_filter, Prod.mk.injEq]
  constructor
  · rintro ⟨⟨⟨u, name⟩, row⟩, ⟨hrow, hfailed⟩, rfl, rfl⟩
    exact ⟨row, Dict.mem_entries_iff.mp hrow, hfailed⟩
  · rintro ⟨row, hrow, hfailed⟩
    exact ⟨((uid, plugin), row), ⟨Dict.mem_entries_iff.mpr hrow, hfailed⟩, rfl, rfl⟩

/-- The result says that the analysis failed: without null bytes, one of its keys that are stored in
the JSON column is `failed`. -/
def ReportsFailure (entries : List (String × PyVal)) : Prop :=
  ∃ key ∈ entries.map Prod.fst, key ∉ metaKeys ∧ stripNul key = "failed"

theorem hasKey_failed_iff :
    (getAnalysisWithoutMeta (.dict entries)).hasKey "failed" = true ↔ ReportsFailure entries := by
  have hkey : (getAnalysisWithoutMeta (.dict entries)).hasKey "failed" = true ↔
      "failed" ∈ (sanitize (entries.filter fun e => decide (e.1 ∉ metaKeys))).map Prod.fst := by
    rw [← not_iff_not, ← Dict.find_eq_none_iff, getAnalysisWithoutMeta, PyVal.hasKey, PyVal.get?,
      Option.not_isSome_iff_eq_none]
  rw [hkey, mem_keys_sanitize_iff (by decide)]
  simp only [ReportsFailure, List.mem_map, List.mem_filter, decide_eq_true_eq]
  constructor
  · rintro ⟨key, ⟨e, ⟨he, hmeta⟩, rfl⟩, hstrip⟩
    exact ⟨e.1, ⟨e, he, rfl⟩, hmeta, hstrip⟩
  · rintro ⟨key, ⟨e, he, rfl⟩, hmeta, hstrip⟩
    exact ⟨e.1, ⟨e, ⟨he, hmeta⟩, rfl⟩, hstrip⟩

/-- A result is shown as failed exactly if it says so, from the time it was stored until the plugin
stores another one or the file is deleted, whatever else is written. -/
theorem findFailedAnalyses_exact {driver : Driver} {limits : Limits}
    {before after : List WriteOp} {db1 : Db} (hbefore : WriteRun driver limits Db.empty before db1)
    (hrow : uid ∈ db1.fileObjects) (hresult : CompleteResult (.dict entries))
    (hstores : driver uid plugin (storedRow db1 uid plugin (.dict entries)) = none)
    (hafter : Run (Restrict (Untouched uid plugin) (Deterministic (writeStep driver limits)))
      (addAnalysis driver db1 uid plugin (.dict entries)).db after db)
    (hend : uid ∈ db.fileObjects) :
    uid ∈ (findFailedAnalyses db).getD plugin [] ↔ ReportsFailure entries := by
  have hk := foreignKeys_addAnalysis driver uid plugin (.dict entries)
    (foreignKeys_of_writes hbefore .empty)
  have hlast : db.analyses.get? (uid, plugin) =
      some (storedRow db1 uid plugin (.dict entries)) := by
    rw [analyses_of_run hafter hend hk, addAnalysis_stored hrow hstores hresult]
    exact Dict.get?_set_self _ _ _
  rw [mem_findFailedAnalyses, hlast, ← hasKey_failed_iff]
  simp only [Option.some.injEq, exists_eq_left']
  exact Iff.rfl

end Failed

theorem failed_result_shown : "outer" ∈
    (findFailedAnalyses (addObject acceptAll (addAnalysis acceptAll (addObject acceptAll Db.empty
      outerImage).db "outer" "printable_strings" (.dict failedEntries)).db innerFile).db).getD
        "printable_strings" [] := by
  -- the result is stored before the upload comes to the file
  have hbefore : WriteRun acceptAll pythonLimits Db.empty [.storage (.addObject outerImage)]
      (addObject acceptAll Db.empty outerImage).db := .cons rfl (.nil _)
  have hfailure : ReportsFailure failedEntries := ⟨"failed", by decide, by decide, by decide⟩
  have hother : ∀ result, WriteOp.storage (.addObject innerFile) ≠
      .result "outer" "printable_strings" result := by rintro _ ⟨⟩
  exact (findFailedAnalyses_exact hbefore (by decide) ⟨"1.0", 1, rfl, rfl⟩ rfl
    (.cons ⟨⟨by decide, hother⟩, rfl⟩ (.nil _)) (by decide)).mpr hfailure

end FactCore
