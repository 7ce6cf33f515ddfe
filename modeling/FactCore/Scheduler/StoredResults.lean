import FactCore.Scheduler.AnalysisStep
import FactCore.Storage.Sanitizing

/-!
# What is read back of a stored result

`add_analysis` inserts a row or updates the one that is there, and `get_analysis`
makes a dict of the row again. The date and the version of the plugin come back as
they were stored. The version of its system does not: `update_analysis` leaves the
column as it is.

Results:
1. `get?_analysisEntryToDict`: what stands under the keys that have a column.
2. `addAnalysis_stored`: the row after `add_analysis`.
-/

namespace FactCore

/-! ## 1. Keys -/

/-- No key of a result becomes `failed` or the name of a column when its null bytes are removed. -/
def PlainKeys (result : List (String × PyVal)) : Prop :=
  ∀ key ∈ result.map Prod.fst, key ∈ metaKeys ∨ stripNul key ∉ "failed" :: metaKeys

instance (result : List (String × PyVal)) : Decidable (PlainKeys result) :=
  inferInstanceAs (Decidable (∀ _ ∈ _, _))

theorem mem_keys_updateWith {entries new : List (String × PyVal)} {k : String}
    (h : k ∈ (new.foldl (fun d e => PyVal.setEntry d e.1 e.2) entries).map Prod.fst) :
    k ∈ entries.map Prod.fst ∨ k ∈ new.map Prod.fst := by
  induction new generalizing entries with
  | nil => exact .inl h
  | cons e new ih =>
    rw [List.map_cons, List.mem_cons]
    rcases ih h with hk | hk
    · exact (mem_keys_setEntry.mp hk).elim (fun heq => .inr (.inl heq)) .inl
    · exact .inr (.inr hk)

theorem mem_keys_moveKey {d : List (String × PyVal)} {key key' k : String}
    (h : k ∈ (moveKey d key key').map Prod.fst) : k ∈ d.map Prod.fst ∨ k = key' := by
  unfold moveKey at h
  split at h
  · exact .inl h
  · rcases mem_keys_setEntry.mp h with hk | hk
    · exact .inr hk
    · obtain ⟨e, he, rfl⟩ := List.mem_map.mp hk
      exact .inl (List.mem_map_of_mem (List.mem_of_mem_filter he))

/-- A round of `sanitize` adds no key but that of its item, without the null bytes. -/
theorem mem_keys_sanitizeItem {d : List (String × PyVal)} {item : String × PyVal} {k : String}
    (h : k ∈ (sanitizeItem d item).map Prod.fst) :
    k ∈ d.map Prod.fst ∨ k = item.1 ∨ k = stripNul item.1 := by
  have hset : ∀ v, k ∈ (PyVal.setEntry d item.1 v).map Prod.fst →
      k ∈ d.map Prod.fst ∨ k = item.1 ∨ k = stripNul item.1 := fun v hk =>
    (mem_keys_setEntry.mp hk).symm.imp_right .inl
  unfold sanitizeItem at h
  dsimp only at h
  split at h
  · -- the value is stored first, then the key is moved
    rcases mem_keys_moveKey h with hk | hk
    · split at hk
      · split at hk
        · exact hset _ hk
        · exact .inl hk
      · exact .inl hk
    · exact .inr (.inr hk)
  · split at h
    · split at h
      · exact hset _ h
      · exact .inl h
    · exact .inl h

theorem mem_keys_sanitize {entries : List (String × PyVal)} {k : String}
    (h : k ∈ (sanitize entries).map Prod.fst) :
    ∃ key ∈ entries.map Prod.fst, k = key ∨ k = stripNul key := by
  have hloop : ∀ (items d : List (String × PyVal)),
      k ∈ (items.foldl sanitizeItem d).map Prod.fst →
        k ∈ d.map Prod.fst ∨ ∃ key ∈ items.map Prod.fst, k = key ∨ k = stripNul key := by
    intro items
    induction items with
    | nil => exact fun d hk => .inl hk
    | cons item items ih =>
      intro d hk
      rcases ih _ hk with hk | ⟨key, hkey, heq⟩
      · exact (mem_keys_sanitizeItem hk).imp_right fun heq => ⟨item.1, List.mem_cons_self, heq⟩
      · exact .inr ⟨key, List.mem_cons_of_mem _ hkey, heq⟩
  rcases hloop entries _ h with hk | hk
  · exact ⟨k, sanitizeValues_keys entries ▸ hk, .inl rfl⟩
  · exact hk

/-- A key of a result that has plain keys is not lost to the columns. -/
theorem PlainKeys.not_mem {entries : List (String × PyVal)} (h : PlainKeys entries) {k : String}
    (hk : k ∈ "failed" :: metaKeys) :
    k ∉ (sanitize (entries.filter fun e => decide (e.1 ∉ metaKeys))).map Prod.fst := by
  intro hmem
  obtain ⟨key, hkey, heq⟩ := mem_keys_sanitize hmem
  obtain ⟨e, he, rfl⟩ := List.mem_map.mp hkey
  obtain ⟨he, hmeta⟩ := List.mem_filter.mp he
  have hno : e.1 ∉ metaKeys := of_decide_eq_true hmeta
  have hplain := (h e.1 (List.mem_map_of_mem he)).resolve_left hno
  rcases heq with rfl | rfl
  · -- the key is `failed` itself, which has no null bytes
    obtain heq := (List.mem_cons.mp hk).resolve_right hno
    rw [heq] at hplain
    exact hplain (by decide)
  · exact hplain hk

/-! ## 2. Rows -/

/-- What stands under `failed` and under the keys that have a column. -/
theorem get?_analysisEntryToDict {row : AnalysisEntry} {entries : List (String × PyVal)}
    (hresult : row.result = getAnalysisWithoutMeta (.dict entries)) (hplain : PlainKeys entries)
    {k : String} (hk : k ∈ "failed" :: metaKeys) :
    (analysisEntryToDict row).get? k = Dict.find k
      [("analysis_date", row.analysisDate), ("plugin_version", row.pluginVersion),
        ("system_version", row.systemVersion),
        ("summary", if row.summary.truthy then row.summary else .list []),
        ("tags", if row.tags.truthy then row.tags else .dict [])] := by
  have hloop : ∀ (new base : List (String × PyVal)), k ∉ new.map Prod.fst →
      Dict.find k (new.foldl (fun d e => PyVal.setEntry d e.1 e.2) base) = Dict.find k base := by
    intro new
    induction new with
    | nil => exact fun base _ => rfl
    | cons e new ih =>
      intro base hno
      rw [List.map_cons, List.mem_cons, not_or] at hno
      rw [List.foldl_cons, ih _ hno.2, find_setEntry, if_neg hno.1]
  unfold analysisEntryToDict
  rw [hresult]
  exact hloop _ _ (hplain.not_mem hk)

/-- The column `system_version` after a result was stored. -/
def storedSystemVersion (db : Db) (uid : Uid) (plugin : String) (result : PyVal) : PyVal :=
  match db.analyses.get? (uid, plugin) with
  | some row => row.systemVersion
  | none => result.getOrNone "system_version"

/-- The row after a result was stored. -/
def storedRow (db : Db) (uid : Uid) (plugin : String) (result : PyVal) : AnalysisEntry :=
  { analysisRow result with systemVersion := storedSystemVersion db uid plugin result }

/-- What `add_analysis` does with a complete result that the driver stores. -/
theorem addAnalysis_stored {driver : Driver} {db : Db} {uid : Uid} {plugin : String}
    {result : PyVal} (hrow : uid ∈ db.fileObjects)
    (hstores : driver uid plugin (storedRow db uid plugin result) = none)
    (hresult : CompleteResult result) :
    addAnalysis driver db uid plugin result =
      ⟨{ db with analyses := db.analyses.set (uid, plugin) (storedRow db uid plugin result) },
        none⟩ := by
  cases hold : db.analyses.get? (uid, plugin) with
  | none =>
    have hsame : storedRow db uid plugin result = analysisRow result := by
      unfold storedRow storedSystemVersion
      rw [hold]
      rfl
    rw [hsame] at hstores
    rw [addAnalysis_first hrow (Dict.get?_eq_none_iff.mp hold) hresult, hstores, hsame]
  | some row =>
    obtain ⟨version, date, hversion, hdate⟩ := hresult
    have hexists : analysisExists db uid plugin = true := decide_eq_true (Dict.mem_of_get? hold)
    have hsame : storedRow db uid plugin result =
        { row with
          pluginVersion := .str version
          analysisDate := .num date
          summary := result.getOrNone "summary"
          tags := result.getOrNone "tags"
          result := getAnalysisWithoutMeta result } := by
      unfold storedRow storedSystemVersion analysisRow PyVal.getOrNone
      rw [hold, hversion, hdate]
      rfl
    rw [hsame] at hstores
    unfold addAnalysis updateAnalysis
    rw [hexists, hold, hversion, hdate, hsame]
    simp [storeAnalysis, hstores]

end FactCore
