import FactCore.Storage.ContentRuns

/-!
# Summaries

`get_complete_object_including_all_summaries` and `get_summary` of
`src/src/storage/db_interface_common.py` show for a file what the plugins report about it
and all files below it. A summary lists, for each text that a plugin reports, the files
it reports the text for.

The files below an image are read from `fw_files`, those below another file are collected
level by level, with a depth that the recursion may reach. An image is loaded with the tags of
the files below it, and a stored tag that does not say whether it is propagated ends that with
an exception.

Results:
1. `loadObject_of_readable`, `loadObject_of_not_readable`: when an object is loaded.
2. `summaryOf_collect`: what a summary of some files lists.
3. `foldlM_addSummary`: the loop over the results of an object.
4. `completeObject_exact`: after every run, all summaries of an object are exact.
-/

namespace FactCore

open Relation

/-! ## 1. Loading an object -/

/-- `PLUGINS_WITH_TAG_PROPAGATION`. -/
def pluginsWithTagPropagation : List String :=
  ["crypto_material", "cve_lookup", "known_vulnerabilities", "qemu_exec", "software_components",
    "users_and_passwords"]

/-- The column `tags` of a row that `_collect_analysis_tags_from_children` goes over. -/
def propagatedTags (row : (Uid × String) × AnalysisEntry) : Option PyVal :=
  match row.2.tags with
  | .none => none
  | tags => if row.1.2 ∈ pluginsWithTagPropagation then some tags else none

/-- The tags of the files below an image. -/
def Db.childTags (db : Db) (uid : Uid) : List PyVal :=
  (db.analyses.entries.filter fun row => decide (row.1.1 ∈ getAllFilesInFw db uid)).filterMap
    propagatedTags

/-- What the inner loop of `_collect_analysis_tags_from_children` reads of the tags of a row. -/
def readTags : PyVal → Except PyException Unit
  | .dict entries => entries.forM fun entry =>
    if entry.1 = "root_uid" then .ok () else (entry.2.subscript "propagate").map fun _ => ()
  | _ => .error (.attributeError "object has no attribute 'items'")

/-- `DbInterfaceCommon.get_object`, with the tags that are collected for an image. -/
def loadObject (db : Db) (uid : Uid) : Except PyException (Option FileObject) :=
  if uid ∈ db.firmware then ((db.childTags uid).forM readTags).map fun _ => getObject db uid
  else .ok (getObject db uid)

/-- The tags are a dict, and each of them says whether it is propagated. -/
def ReadableTags (tags : PyVal) : Prop :=
  ∃ entries, tags = .dict entries ∧
    ∀ entry ∈ entries, entry.1 ≠ "root_uid" → entry.2.hasKey "propagate" = true

/-- The tags below the object can be read, if it is an image. -/
def Db.TagsReadable (db : Db) (uid : Uid) : Prop :=
  uid ∈ db.firmware → ∀ tags ∈ db.childTags uid, ReadableTags tags

section Load
variable {db : Db} {uid : Uid} {tags : PyVal}

theorem subscript_map_eq_ok_iff {v : PyVal} {key : String} :
    (v.subscript key).map (fun _ => ()) = .ok () ↔ v.hasKey key = true := by
  cases v with
  | dict entries =>
    simp only [PyVal.subscript, PyVal.hasKey, PyVal.get?]
    cases Dict.find key entries <;> simp [Except.map]
  | _ => simp [PyVal.subscript, PyVal.hasKey, PyVal.get?, Except.map]

theorem readTags_eq_ok_iff : readTags tags = .ok () ↔ ReadableTags tags := by
  cases tags with
  | dict entries =>
    have hentry : ∀ entry : String × PyVal, (if entry.1 = "root_uid" then Except.ok ()
          else (entry.2.subscript "propagate").map fun _ => ()) = .ok () ↔
        (entry.1 ≠ "root_uid" → entry.2.hasKey "propagate" = true) := by
      intro entry
      split
      · next heq => exact iff_of_true rfl fun hne => absurd heq hne
      · next hne => exact subscript_map_eq_ok_iff.trans (imp_iff_right hne).symm
    rw [readTags, forM_eq_ok_iff]
    simp only [hentry, ReadableTags, PyVal.dict.injEq, exists_eq_left']
  | _ => simp [readTags, ReadableTags]

theorem loadObject_of_readable (h : db.TagsReadable uid) :
    loadObject db uid = .ok (getObject db uid) := by
  unfold loadObject
  split
  · next hmem =>
    have hread : (db.childTags uid).forM readTags = .ok () :=
      forM_eq_ok_iff.mpr fun tags htags => readTags_eq_ok_iff.mpr (h hmem tags htags)
    rw [hread]
    rfl
  · rfl

theorem loadObject_of_not_readable (h : ¬ db.TagsReadable uid) : ∃ e, loadObject db uid = .error e := by
  unfold Db.TagsReadable at h
  obtain ⟨hmem, hno⟩ := Classical.not_imp.mp h
  rw [loadObject, if_pos hmem]
  cases hread : (db.childTags uid).forM readTags with
  | error e => exact ⟨e, rfl⟩
  | ok =>
    exact absurd (fun tags htags => readTags_eq_ok_iff.mp (forM_eq_ok_iff.mp hread tags htags)) hno

end Load

/-! ## 2. Summaries -/

/-- The texts of the column `summary`, an array of texts or `NULL`. -/
def summaryTexts : PyVal → List String
  | .list xs => xs.filterMap fun x =>
    match x with
    | .str s => some s
    | _ => none
  | _ => []

/-- The type `Summary`: texts with the files they are reported for. -/
abbrev Summary := Dict String (List Uid)

/-- `_collect_summary_for_uid_list`. -/
def collectSummaryForUidList (db : Db) (uidList : List Uid) (plugin : String) : Summary :=
  (db.analyses.entries.filter fun row => decide (row.1.2 = plugin ∧ row.1.1 ∈ uidList)).foldl
    (fun summary row => (summaryTexts row.2.summary).dedup.foldl
      (fun summary item => summary.push item row.1.1) summary) ∅

/-- What leaves `get_complete_object_including_all_summaries`. -/
inductive SummaryError
  /-- A plain `Exception`. -/
  | exception (message : String)
  | raised (e : PyException)
  | recursionError

/-- `get_list_of_all_included_files`. -/
def getListOfAllIncludedFiles (db : Db) (depth : Nat) (fo : FileObject) :
    Except SummaryError (List Uid) :=
  if fo.isFirmware then .ok (getAllFilesInFw db fo.uid)
  else
    match getAllFilesInFo db depth fo with
    | some files => .ok files
    | none => .error .recursionError

/-- `get_summary`. `listOfAll` is the attribute `list_of_all_included_files`, empty if not set. -/
def getSummary (db : Db) (depth : Nat) (listOfAll : List Uid) (fo : FileObject)
    (selectedAnalysis : String) : Except SummaryError (Option Summary) :=
  match fo.processedAnalysis.get? selectedAnalysis with
  | none => .ok none
  | some result =>
    if !result.hasKey "summary" then .ok none
    else if fo.isFirmware then
      .ok (some (collectSummaryForUidList db (getAllFilesInFw db fo.uid ∪ [fo.uid]) selectedAnalysis))
    else
      (if listOfAll = [] then getListOfAllIncludedFiles db depth fo else .ok listOfAll).map
        fun includedFiles => some (collectSummaryForUidList db includedFiles selectedAnalysis)

/-- A summary as a value. -/
def summaryValue : Option Summary → PyVal
  | none => .none
  | some summary => .dict (summary.entries.map fun e => (e.1, .list (e.2.map .str)))

/-- One round of the loop: the result of `plugin` gets the summary in place of its own texts. -/
def addSummary (db : Db) (depth : Nat) (listOfAll : List Uid) (fo : FileObject) (plugin : String) :
    Except SummaryError FileObject :=
  (getSummary db depth listOfAll fo plugin).map fun summary =>
    { fo with
      processedAnalysis := fo.processedAnalysis.set plugin <|
        (fo.processedAnalysis.getD plugin .none).updateWith [("summary", summaryValue summary)] }

/-- `get_complete_object_including_all_summaries`: the object and its attribute
`list_of_all_included_files`. -/
def getCompleteObjectIncludingAllSummaries (db : Db) (depth : Nat) (uid : Uid) :
    Except SummaryError (FileObject × List Uid) :=
  match loadObject db uid with
  | .error e => .error (.raised e)
  | .ok none => .error (.exception ("UID not found: " ++ uid))
  | .ok (some fo) => do
    let listOfAll ← getListOfAllIncludedFiles db depth fo
    let fo' ← fo.processedAnalysis.keys.foldlM (addSummary db depth listOfAll) fo
    return (fo', listOfAll)

/-- The result of the plugin for the file reports the text. -/
def Db.Reports (db : Db) (plugin : String) (uid : Uid) (item : String) : Prop :=
  ∃ row, db.analyses.get? (uid, plugin) = some row ∧ item ∈ summaryTexts row.summary

/-- The summary lists the files among `uids` that a text is reported for, each of them once. -/
structure SummaryOf (db : Db) (plugin : String) (uids : Uid → Prop) (summary : Summary) : Prop where
  mem : ∀ item u, u ∈ summary.getD item [] ↔ uids u ∧ db.Reports plugin u item
  once : ∀ item, (summary.getD item []).Nodup
  nonempty : ∀ item ∈ summary, summary.getD item [] ≠ []

section Summaries
variable {db : Db} {depth : Nat} {uid : Uid} {uidList listOfAll : List Uid} {fo : FileObject}
  {plugin : String}

/-- The pairs that the two loops go over. -/
def summaryPairs (db : Db) (uidList : List Uid) (plugin : String) : List (String × Uid) :=
  (db.analyses.entries.filter fun row => decide (row.1.2 = plugin ∧ row.1.1 ∈ uidList)).flatMap
    fun row => (summaryTexts row.2.summary).dedup.map fun item => (item, row.1.1)

theorem collectSummaryForUidList_eq : collectSummaryForUidList db uidList plugin =
    (summaryPairs db uidList plugin).foldl (fun d e => d.push e.1 e.2) ∅ := by
  simp only [collectSummaryForUidList, summaryPairs, List.foldl_flatMap, List.foldl_map]

theorem mem_summaryPairs {item : String} {u : Uid} :
    (item, u) ∈ summaryPairs db uidList plugin ↔ u ∈ uidList ∧ db.Reports plugin u item := by
  simp only [summaryPairs, List.mem_flatMap, List.mem_filter, List.mem_map, List.mem_dedup,
    decide_eq_true_eq, Prod.mk.injEq]
  constructor
  · rintro ⟨⟨⟨u', plugin'⟩, row⟩, ⟨hrow, rfl, hu⟩, item', hitem, rfl, rfl⟩
    exact ⟨hu, row, Dict.mem_entries_iff.mp hrow, hitem⟩
  · rintro ⟨hu, row, hrow, hitem⟩
    exact ⟨((u, plugin), row), ⟨Dict.mem_entries_iff.mpr hrow, rfl, hu⟩, item, hitem, rfl, rfl⟩

theorem summaryPairs_nodup : (summaryPairs db uidList plugin).Nodup := by
  refine List.nodup_flatMap.mpr ⟨fun row _ => ?_, ?_⟩
  · exact (List.nodup_dedup _).map fun item item' heq => congrArg Prod.fst heq
  · -- two rows of the plugin are rows of different files
    have hkeys : (db.analyses.entries.filter fun row =>
        decide (row.1.2 = plugin ∧ row.1.1 ∈ uidList)).Pairwise fun row row' => row.1 ≠ row'.1 := by
      have := db.analyses.nodup
      rw [List.Nodup, List.pairwise_map] at this
      exact this.sublist List.filter_sublist
    refine hkeys.imp_of_mem fun {row row'} hrow hrow' hne => ?_
    have hplugin := (of_decide_eq_true (List.mem_filter.mp hrow).2).1
    have hplugin' := (of_decide_eq_true (List.mem_filter.mp hrow').2).1
    intro pair hpair hpair'
    obtain ⟨item, -, rfl⟩ := List.mem_map.mp hpair
    obtain ⟨item', -, heq⟩ := List.mem_map.mp hpair'
    exact hne (Prod.ext (congrArg Prod.snd heq).symm (hplugin.trans hplugin'.symm))

theorem summaryOf_collect :
    SummaryOf db plugin (· ∈ uidList) (collectSummaryForUidList db uidList plugin) := by
  have hget : ∀ item, (collectSummaryForUidList db uidList plugin).getD item [] =
      ((summaryPairs db uidList plugin).filter fun e => decide (e.1 = item)).map Prod.snd := by
    intro item
    rw [collectSummaryForUidList_eq, Dict.getD, Dict.get?_foldl_push]
    split
    · simp [Dict.getD]
    · next hno =>
      have hnil : (summaryPairs db uidList plugin).filter (fun e => decide (e.1 = item)) = [] := by
        refine List.filter_eq_nil_iff.mpr fun e he heq => hno ?_
        exact List.mem_map.mpr ⟨e, he, of_decide_eq_true heq⟩
      rw [hnil]
      rfl
  have hmem : ∀ item u, u ∈ (collectSummaryForUidList db uidList plugin).getD item [] ↔
      u ∈ uidList ∧ db.Reports plugin u item := by
    intro item u
    rw [hget, ← mem_summaryPairs]
    simp
  refine ⟨hmem, fun item => ?_, fun item hitem => ?_⟩
  · rw [hget]
    refine (summaryPairs_nodup.filter _).map_on fun e he e' he' heq => Prod.ext ?_ heq
    exact (of_decide_eq_true (List.mem_filter.mp he).2).trans
      (of_decide_eq_true (List.mem_filter.mp he').2).symm
  · obtain ⟨us, hus⟩ := Dict.mem_iff.mp hitem
    rw [collectSummaryForUidList_eq, Dict.get?_foldl_push] at hus
    split at hus
    · next hkey =>
      obtain ⟨⟨item', u⟩, he, rfl⟩ := List.mem_map.mp hkey
      have hu := (hmem item' u).mpr (mem_summaryPairs.mp he)
      exact List.ne_nil_of_mem hu
    · cases hus

theorem SummaryOf.congr {uids uids' : Uid → Prop} {summary : Summary}
    (h : SummaryOf db plugin uids summary) (heq : ∀ u, uids u ↔ uids' u) :
    SummaryOf db plugin uids' summary :=
  ⟨fun item u => (h.mem item u).trans (and_congr_left' (heq u)), h.once, h.nonempty⟩

/-- Every result that was loaded has a summary. -/
theorem hasKey_summary (row : AnalysisEntry) : (analysisEntryToDict row).hasKey "summary" = true := by
  have hloop : ∀ (new base : List (String × PyVal)), (Dict.find "summary" base).isSome = true →
      (Dict.find "summary" (new.foldl (fun d e => PyVal.setEntry d e.1 e.2) base)).isSome = true := by
    intro new
    induction new with
    | nil => exact fun base h => h
    | cons e new ih =>
      intro base h
      refine ih _ ?_
      rw [find_setEntry]
      split
      · rfl
      · exact h
  unfold analysisEntryToDict
  cases row.result with
  | dict entries => exact hloop entries _ (by simp [Dict.find])
  | _ => simp [PyVal.hasKey, PyVal.get?, Dict.find]

/-- The results of a loaded object are those that `get_analysis` gives. -/
theorem get?_processedAnalysisFromDb :
    (processedAnalysisFromDb db uid).get? plugin = getAnalysis db uid plugin := by
  let rows := (db.analyses.entries.filter fun e => decide (e.1.1 = uid)).map fun e =>
    (e.1.2, analysisEntryToDict e.2)
  have hrows : ∀ {result}, (plugin, result) ∈ rows ↔ getAnalysis db uid plugin = some result := by
    intro result
    simp only [rows, getAnalysis, List.mem_map, List.mem_filter, decide_eq_true_eq, Prod.mk.injEq,
      Option.map_eq_some_iff]
    constructor
    · rintro ⟨⟨⟨u, name⟩, row⟩, ⟨hrow, rfl⟩, rfl, rfl⟩
      exact ⟨row, Dict.mem_entries_iff.mp hrow, rfl⟩
    · rintro ⟨row, hrow, rfl⟩
      exact ⟨((uid, plugin), row), ⟨Dict.mem_entries_iff.mpr hrow, rfl⟩, rfl, rfl⟩
  cases hstored : getAnalysis db uid plugin with
  | none =>
    refine Dict.get?_eq_none_iff.mpr fun hmem => ?_
    obtain ⟨result, hresult⟩ := Dict.mem_iff.mp hmem
    have hget := hrows.mp (Dict.mem_of_get?_ofList hresult)
    rw [hstored] at hget
    cases hget
  | some result =>
    have hkey : plugin ∈ rows.map Prod.fst := List.mem_map_of_mem (hrows.mpr hstored)
    obtain ⟨result', hget, hmem⟩ := Dict.exists_get?_ofList hkey
    have hsame := hrows.mp hmem
    rw [hstored] at hsame
    rw [Option.some.inj hsame]
    exact hget

/-! ## 3. The complete object -/

/-- The files that a summary of the object goes over. -/
def summaryUids (db : Db) (listOfAll : List Uid) (fo : FileObject) : List Uid :=
  if fo.isFirmware then getAllFilesInFw db fo.uid ∪ [fo.uid] else listOfAll

/-- The result is `stored` with the summary in place of its own texts. -/
structure Summarized (summary : Summary) (stored result : PyVal) : Prop where
  summary : result.get? "summary" = some (summaryValue (some summary))
  others : ∀ k, k ≠ "summary" → result.get? k = stored.get? k

theorem addSummary_eq (db : Db) (depth : Nat) {stored : PyVal}
    (hlist : fo.isFirmware = false → listOfAll ≠ [])
    (hstored : fo.processedAnalysis.get? plugin = some stored)
    (hkey : stored.hasKey "summary" = true) :
    ∃ result, Summarized (collectSummaryForUidList db (summaryUids db listOfAll fo) plugin) stored
        result ∧
      addSummary db depth listOfAll fo plugin =
        .ok { fo with processedAnalysis := fo.processedAnalysis.set plugin result } := by
  have hsummary : getSummary db depth listOfAll fo plugin =
      .ok (some (collectSummaryForUidList db (summaryUids db listOfAll fo) plugin)) := by
    unfold getSummary summaryUids
    rw [hstored]
    simp only [hkey, Bool.not_true, Bool.false_eq_true, if_false]
    cases hfw : fo.isFirmware with
    | true => rfl
    | false =>
      rw [if_neg Bool.false_ne_true, if_neg (hlist hfw)]
      rfl
  cases stored with
  | dict entries =>
    refine ⟨(PyVal.dict entries).updateWith [("summary",
      summaryValue (some (collectSummaryForUidList db (summaryUids db listOfAll fo) plugin)))],
      ⟨?_, ?_⟩, ?_⟩
    · exact (find_setEntry _ _ _ _).trans (if_pos rfl)
    · exact fun k hne => (find_setEntry _ _ _ _).trans (if_neg hne)
    · unfold addSummary
      rw [hsummary, Dict.getD, hstored]
      rfl
  | _ => cases hkey

/-- The loop puts the summary of each plugin into its result. -/
theorem foldlM_addSummary (db : Db) (depth : Nat) {plugins : List String} (hnodup : plugins.Nodup)
    (hlist : fo.isFirmware = false → listOfAll ≠ [])
    (hkeys : ∀ name ∈ plugins, ∃ stored, fo.processedAnalysis.get? name = some stored ∧
      stored.hasKey "summary" = true) :
    ∃ fo', plugins.foldlM (addSummary db depth listOfAll) fo = .ok fo' ∧
      fo'.uid = fo.uid ∧ fo'.filesIncluded = fo.filesIncluded ∧
      (∀ name ∉ plugins, fo'.processedAnalysis.get? name = fo.processedAnalysis.get? name) ∧
      ∀ name ∈ plugins, ∀ stored, fo.processedAnalysis.get? name = some stored →
        ∃ result, fo'.processedAnalysis.get? name = some result ∧
          Summarized (collectSummaryForUidList db (summaryUids db listOfAll fo) name) stored result := by
  induction plugins generalizing fo with
  | nil => exact ⟨fo, rfl, rfl, rfl, fun _ _ => rfl, by simp⟩
  | cons first plugins ih =>
    obtain ⟨hfirst, hnodup⟩ := List.nodup_cons.mp hnodup
    obtain ⟨stored, hstored, hkey⟩ := hkeys first List.mem_cons_self
    obtain ⟨result, hresult, hadd⟩ := addSummary_eq db depth hlist hstored hkey
    have hother : ∀ name, name ≠ first → ({ fo with
        processedAnalysis := fo.processedAnalysis.set first result } : FileObject).processedAnalysis.get?
          name = fo.processedAnalysis.get? name :=
      fun name hne => Dict.get?_set_of_ne result hne
    have hrest : ∀ name ∈ plugins, name ≠ first := fun name hname heq => hfirst (heq ▸ hname)
    obtain ⟨fo', hloop, huid, hincluded, hsame, hnew⟩ :=
      @ih { fo with processedAnalysis := fo.processedAnalysis.set first result } hnodup hlist
        fun name hname => by
          rw [hother name (hrest name hname)]
          exact hkeys name (List.mem_cons_of_mem _ hname)
    refine ⟨fo', ?_, huid, hincluded, fun name hname => ?_, fun name hname old hold => ?_⟩
    · rw [List.foldlM_cons, hadd]
      exact hloop
    · rw [List.mem_cons, not_or] at hname
      rw [hsame name hname.2, hother name hname.1]
    · rcases List.mem_cons.mp hname with rfl | hname
      · rw [hstored] at hold
        obtain rfl := Option.some.inj hold
        refine ⟨result, ?_, hresult⟩
        rw [hsame name hfirst]
        exact Dict.get?_set_self _ _ _
      · exact hnew name hname old ((hother name (hrest name hname)).trans hold)

/-- The complete object of `uid`: the files below it, and in each of its results the summary of what
the plugin reports for the file and all files below it. -/
structure CompleteObjectExact (db : Db) (uid : Uid) (fo : FileObject) (files : List Uid) : Prop where
  sameUid : fo.uid = uid
  included : ∀ u, u ∈ fo.filesIncluded ↔ db.Includes uid u
  below : ∀ u, u ∈ files ↔ (u = uid ∧ uid ∉ db.firmware) ∨ TransGen db.Includes uid u
  plugins : ∀ plugin, plugin ∈ fo.processedAnalysis ↔ (uid, plugin) ∈ db.analyses
  results : ∀ plugin stored, getAnalysis db uid plugin = some stored →
    ∃ result summary, fo.processedAnalysis.get? plugin = some result ∧
      Summarized summary stored result ∧
        SummaryOf db plugin (ReflTransGen db.Includes uid) summary

end Summaries

/-! ## 4. After every run -/

section Exact
variable {driver : Driver} {limits : Limits} {contents : Contents} {maxDepth depth : Nat}
  {ops : List ContentOp} {db : Db} {uid : Uid}

/-- The files that are listed for a loaded object. -/
theorem getListOfAllIncludedFiles_exact (h : ContentInv contents maxDepth db)
    (hdepth : maxDepth < depth) {fo : FileObject} (hload : getObject db uid = some fo) :
    ∃ files, getListOfAllIncludedFiles db depth fo = .ok files ∧
      ∀ u, u ∈ files ↔ (u = uid ∧ uid ∉ db.firmware) ∨ TransGen db.Includes uid u := by
  obtain rfl := getObject_uid hload
  have hfw := getObject_isFirmware hload
  have hrow : fo.uid ∈ db.fileObjects := by
    obtain ⟨entry, hentry, -⟩ := Option.map_eq_some_iff.mp hload
    exact Dict.mem_of_get? hentry
  unfold getListOfAllIncludedFiles
  cases hcase : fo.isFirmware with
  | true =>
    have hmem := hfw.mp hcase
    refine ⟨_, rfl, fun u => ?_⟩
    rw [(h.files.filesExact hmem).reachable u]
    exact (or_iff_right fun hself => hself.2 hmem).symm
  | false =>
    have hno : fo.uid ∉ db.firmware := by
      rw [← hfw, hcase]
      exact Bool.false_ne_true
    have hlisted : Listed db fo := by
      intro c
      obtain ⟨entry, -, heq⟩ := Option.map_eq_some_iff.mp hload
      rw [← heq]
      exact Db.mem_getIncludedUids
    -- no chain of files is as long as the recursion may get
    have hends : (getAllFilesInFo db depth fo).isSome = true :=
      (getAllFilesInFo_isSome_iff h.files.foreignKeys hlisted).mpr
        ⟨by omega, fun n v hsteps => Nat.le_of_lt (lt_of_le_of_lt (h.steps_le hrow hsteps) hdepth)⟩
    obtain ⟨files, hfiles⟩ := Option.isSome_iff_exists.mp hends
    refine ⟨files, by rw [hfiles]; rfl, fun u => ?_⟩
    rw [mem_getAllFilesInFo h.files.foreignKeys hlisted hfiles]
    exact or_congr_left (iff_self_and.mpr fun _ => hno)

theorem completeObject_of_inv (hinv : ContentInv contents maxDepth db) (hrow : uid ∈ db.fileObjects)
    (hdepth : maxDepth < depth) (htags : db.TagsReadable uid) :
    ∃ fo files, getCompleteObjectIncludingAllSummaries db depth uid = .ok (fo, files) ∧
      CompleteObjectExact db uid fo files := by
  obtain ⟨entry, hentry⟩ := Dict.mem_iff.mp hrow
  obtain ⟨loaded, hload⟩ : ∃ fo, getObject db uid = some fo :=
    ⟨_, Option.map_eq_some_iff.mpr ⟨entry, hentry, rfl⟩⟩
  obtain ⟨files, hfiles, hmem⟩ := getListOfAllIncludedFiles_exact hinv hdepth hload
  have hfw := getObject_isFirmware hload
  have huid := getObject_uid hload
  have hresults : ∀ plugin, loaded.processedAnalysis.get? plugin = getAnalysis db uid plugin := by
    obtain ⟨entry', -, rfl⟩ := Option.map_eq_some_iff.mp hload
    exact fun plugin => get?_processedAnalysisFromDb
  have hlist : loaded.isFirmware = false → files ≠ [] := by
    intro hcase
    refine List.ne_nil_of_mem ((hmem uid).mpr (.inl ⟨rfl, ?_⟩))
    rw [← hfw, hcase]
    exact Bool.false_ne_true
  -- a summary goes over the file itself and the files below it, whatever the object is
  have hbelow : ∀ u, u ∈ summaryUids db files loaded ↔ ReflTransGen db.Includes uid u := by
    intro u
    rw [reflTransGen_iff_eq_or_transGen, summaryUids]
    cases hcase : loaded.isFirmware with
    | true =>
      rw [if_pos rfl, List.mem_union_iff, huid, (hinv.files.filesExact (hfw.mp hcase)).reachable,
        List.mem_singleton, or_comm]
    | false =>
      have hno : uid ∉ db.firmware := by
        rw [← hfw, hcase]
        exact Bool.false_ne_true
      rw [if_neg Bool.false_ne_true, hmem]
      exact or_congr_left (and_iff_left hno)
  obtain ⟨fo, hloop, hfo, hincluded, hsame, hnew⟩ := foldlM_addSummary db depth
    loaded.processedAnalysis.keys_nodup hlist fun plugin hplugin => by
      obtain ⟨stored, hstored⟩ := Dict.mem_iff.mp hplugin
      have hget := hstored
      rw [hresults] at hget
      obtain ⟨row, -, rfl⟩ := Option.map_eq_some_iff.mp hget
      exact ⟨_, hstored, hasKey_summary row⟩
  refine ⟨fo, files, ?_, hfo.trans huid, fun u => ?_, hmem, fun plugin => ?_,
    fun plugin stored hstored => ?_⟩
  · unfold getCompleteObjectIncludingAllSummaries
    simp only [loadObject_of_readable htags, hload, hfiles, bind, Except.bind]
    rw [hloop]
    rfl
  · rw [hincluded]
    obtain ⟨entry', -, rfl⟩ := Option.map_eq_some_iff.mp hload
    exact Db.mem_getIncludedUids
  · have hkeys : plugin ∈ fo.processedAnalysis ↔ plugin ∈ loaded.processedAnalysis := by
      constructor
      · intro hplugin
        by_contra hno
        obtain ⟨result, hresult⟩ := Dict.mem_iff.mp hplugin
        rw [hsame plugin hno, Dict.get?_eq_none_iff.mpr hno] at hresult
        cases hresult
      · intro hplugin
        obtain ⟨stored, hstored⟩ := Dict.mem_iff.mp hplugin
        obtain ⟨result, hresult, -⟩ := hnew plugin hplugin stored hstored
        exact Dict.mem_of_get? hresult
    rw [hkeys, ← Dict.isSome_get?, hresults, getAnalysis, Option.isSome_map, Dict.isSome_get?]
  · rw [← hresults] at hstored
    obtain ⟨result, hresult, hsummarized⟩ := hnew plugin (Dict.mem_of_get? hstored) stored hstored
    exact ⟨result, _, hresult, hsummarized, summaryOf_collect.congr hbelow⟩

/-- After every run, the complete object of a stored file shows exactly what the plugins report about
it and all files below it, unless it is an image with tags below it that cannot be read. -/
theorem completeObject_exact
    (h : ContentRun driver limits contents maxDepth Db.empty ops db) (hrow : uid ∈ db.fileObjects)
    (hdepth : maxDepth < depth) :
    (db.TagsReadable uid →
      ∃ fo files, getCompleteObjectIncludingAllSummaries db depth uid = .ok (fo, files) ∧
        CompleteObjectExact db uid fo files) ∧
    (¬ db.TagsReadable uid →
      ∃ e, getCompleteObjectIncludingAllSummaries db depth uid = .error (.raised e)) := by
  refine ⟨completeObject_of_inv (contentInv_of_run h) hrow hdepth, fun hno => ?_⟩
  obtain ⟨e, he⟩ := loadObject_of_not_readable hno
  exact ⟨e, by simp only [getCompleteObjectIncludingAllSummaries, he]⟩

end Exact

/-- A result of the plugin `file_type`. -/
def textResult : PyVal := .dict
  [("plugin_version", .str "1.0"), ("analysis_date", .num 1), ("mime", .str "text/plain"),
    ("summary", .list [.str "text/plain"])]

/-- An image is uploaded with a file, and the file type of both is stored. -/
def typedFilesDb : Db :=
  (addAnalysis acceptAll (addAnalysis acceptAll uploadedDb "outer" "file_type" textResult).db
    "inner" "file_type" textResult).db

theorem typedFilesDb_run : ContentRun acceptAll pythonLimits imageContents 10 Db.empty
    [.files (.upload "outer" [outerImage, innerFile]), .result "outer" "file_type" textResult,
      .result "inner" "file_type" textResult] typedFilesDb :=
  .cons ⟨trivial, completeUpload_outer⟩ (.cons ⟨trivial, rfl⟩ (.cons ⟨trivial, rfl⟩ (.nil _)))

/-- A result of the plugin `software_components`, with a tag that is propagated. -/
def softwareResult : PyVal := .dict
  [("plugin_version", .str "1.0"), ("analysis_date", .num 1), ("summary", .list [.str "OpenSSL"]),
    ("tags", .dict [("OS Version", .dict [("value", .str "Linux"), ("propagate", .bool true)])])]

/-- The software of an image and of its file is stored as well. -/
def softwareDb : Db :=
  (addAnalysis acceptAll (addAnalysis acceptAll typedFilesDb "outer" "software_components"
    softwareResult).db "inner" "software_components" softwareResult).db

theorem softwareDb_run : ContentRun acceptAll pythonLimits imageContents 10 Db.empty
    ([.files (.upload "outer" [outerImage, innerFile]), .result "outer" "file_type" textResult,
      .result "inner" "file_type" textResult] ++
        [.result "outer" "software_components" softwareResult,
          .result "inner" "software_components" softwareResult]) softwareDb :=
  typedFilesDb_run.append (.cons ⟨trivial, rfl⟩ (.cons ⟨trivial, rfl⟩ (.nil _)))

theorem tagsReadable_softwareDb : softwareDb.TagsReadable "outer" := by
  intro _ tags htags
  have hinner : softwareDb.childTags "outer" =
      [.dict [("OS Version", .dict [("value", .str "Linux"), ("propagate", .bool true)])]] := rfl
  rw [hinner, List.mem_singleton] at htags
  refine ⟨_, htags, fun entry hentry _ => ?_⟩
  obtain rfl := List.mem_singleton.mp hentry
  rfl

theorem completeObject_of_image :
    ∃ fo files, getCompleteObjectIncludingAllSummaries softwareDb 11 "outer" = .ok (fo, files) ∧
      CompleteObjectExact softwareDb "outer" fo files :=
  (completeObject_exact softwareDb_run (by decide) (by decide)).1 tagsReadable_softwareDb

end FactCore
