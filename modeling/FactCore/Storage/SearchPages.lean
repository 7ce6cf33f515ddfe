import FactCore.Lib.Paging
import FactCore.Storage.QueryReuse
import Mathlib.Data.List.Lex
import Mathlib.Data.List.Dedup
import Mathlib.Data.String.Basic

/-!
# The pages of a search and the number of matches

`src/src/storage/db_interface_frontend.py`: `generic_search` gives a page of the objects that
meet a query, `get_number_of_total_matches` says how many there are. A search is for all
firmware, for the objects that meet a query, or for the firmware that has such an object
in it, or has none.

Each page is a query of its own, and rows with equal sort keys may come in another order
each time. The collation of the database is a parameter.

Definitions:
1. `buildGenericSearchQuery`, `GenericSearch`, `numberOfTotalMatches`: the two queries.
2. `GenericQuery.Matches`: what an object has to meet.
3. `SearchAgrees`: the dict can be used again, and count, result and pages agree.
-/

namespace FactCore

/-! ## 1. The queries -/

/-- The tables of a search, with the table `fw_files`: the root objects of an object. -/
structure BrowseDb (C : Type) extends SearchDb C where
  rootFirmware : String → List String

/-- The SELECT of a search: `select(FirmwareEntry)`, with a filter on its UIDs or without, or the
SELECT for the query itself. -/
inductive GenericQuery
  | firmware
  | parentFirmware (query : SqlSelect) (inverted : Bool)
  | fileObjects (query : SqlSelect)

/-- `search_dict == {}`. -/
def QueryDict.isEmpty : QueryDict → Bool
  | .plain fields => fields.entries.isEmpty
  | .withOr _ _ => false

/-- `build_generic_search_query`. -/
def buildGenericSearchQuery (env : QueryEnv) (searchDict : QueryDict)
    (onlyFoParentFirmware inverted : Bool) : Except QueryError GenericQuery :=
  if searchDict.isEmpty then .ok .firmware
  else if onlyFoParentFirmware then
    (buildQueryFromDict env false false searchDict).map (.parentFirmware · inverted)
  else (buildQueryFromDict env false false searchDict).map .fileObjects

/-- `FIRMWARE_ORDER`. -/
def firmwareOrder : List String := ["vendor", "device_name"]

/-- The columns after ORDER BY. -/
def GenericQuery.orderBy : GenericQuery → List String
  | .firmware | .parentFirmware _ _ => firmwareOrder
  | .fileObjects _ => ["file_name"]

section Searching
variable {C : Type} (engine : SqlEngine C) (db : BrowseDb C)

/-- The sub SELECT of `query_parent_firmware`: the UIDs of the selected objects and of their root
objects. -/
def parentUids (query : SqlSelect) : List String :=
  db.fileObjects.keys.filter fun root =>
    (query.run engine db.toSearchDb).any fun uid =>
      decide (root ∈ db.rootFirmware uid ∨ uid = root)

/-- The filter on `firmware.uid`: `in_` or `notin_`. -/
def firmwareFilter (query : SqlSelect) (inverted : Bool) (uid : String) : Bool :=
  decide (uid ∈ parentUids engine db query) != inverted

namespace GenericQuery

/-- The UIDs that are selected, before they are put in order. -/
def results : GenericQuery → List String
  | .firmware => db.firmware.keys
  | .parentFirmware query inverted =>
    db.firmware.keys.filter (firmwareFilter engine db query inverted)
  | .fileObjects query => query.run engine db.toSearchDb

variable {K : Type} (collate : C → K)

/-- The columns of an object in the table that is selected. -/
def cells (db : BrowseDb C) (uid : String) : GenericQuery → Option (String → C)
  | .firmware | .parentFirmware _ _ => db.firmware.get? uid
  | .fileObjects _ => db.fileObjects.get? uid

/-- What the rows are ordered by. -/
def sortKey (q : GenericQuery) (uid : String) : List K :=
  (q.cells db uid).elim [] fun cells => q.orderBy.map fun column => collate (cells column)

end GenericQuery

/-- `_apply_offset_and_limit`. -/
def applyOffsetAndLimit (rows : List String) (skip limit : ℕ) : List String :=
  let rows := if skip = 0 then rows else rows.drop skip
  if limit = 0 then rows else rows.take limit

/-- `generic_search` may return these UIDs: those of an order that ORDER BY permits. -/
def GenericSearch {K : Type} [LinearOrder K] (env : QueryEnv) (collate : C → K)
    (searchDict : QueryDict) (skip limit : ℕ) (onlyFoParentFirmware inverted : Bool)
    (uids : List String) : Prop :=
  ∃ q rows, buildGenericSearchQuery env searchDict onlyFoParentFirmware inverted = .ok q ∧
    Permitted (q.sortKey db collate) (q.results engine db) rows ∧
    uids = applyOffsetAndLimit rows skip limit

/-- `get_firmware_number` without a query. -/
def getFirmwareNumber : ℕ := db.firmware.keys.length

/-- `count(distinct(file_object.uid))`, on the joined rows that meet the filters. -/
def countDistinct (query : SqlSelect) : ℕ :=
  ((SqlSelect.searched query.fwOnly db.toSearchDb).flatMap fun uid =>
    ((query.rows db.toSearchDb uid).filter fun row =>
      decide (query.holds engine row = some true)).map fun _ => uid).dedup.length

/-- `get_file_object_number`. -/
def getFileObjectNumber (env : QueryEnv) (query : QueryDict) (zeroOnEmptyQuery : Bool) :
    Except QueryError ℕ :=
  if zeroOnEmptyQuery && query.isEmpty then .ok 0
  else (buildQueryFromDict env false false query).map (countDistinct engine db)

/-- `get_number_of_total_matches`. -/
def numberOfTotalMatches (env : QueryEnv) (searchDict : QueryDict)
    (onlyParentFirmwares inverted : Bool) : Except QueryError ℕ :=
  if searchDict.isEmpty then .ok (getFirmwareNumber db)
  else if !onlyParentFirmwares then getFileObjectNumber engine db env searchDict true
  else (buildQueryFromDict env false false searchDict).map fun query =>
    db.firmware.keys.countP (firmwareFilter engine db query inverted)

/-! ## 2. What should agree -/

/-- The object meets the filters on one of its joined rows. -/
def SqlSelect.Matches (query : SqlSelect) (uid : String) : Prop :=
  uid ∈ SqlSelect.searched query.fwOnly db.toSearchDb ∧
    ∃ row ∈ query.rows db.toSearchDb uid, query.holds engine row = some true

/-- What is searched for: firmware, firmware that has an object in it that meets the query (or,
inverted, has none), or objects that meet the query. -/
def GenericQuery.Matches (uid : String) : GenericQuery → Prop
  | .firmware => uid ∈ db.firmware
  | .parentFirmware query inverted => uid ∈ db.firmware ∧
      ((∃ file, query.Matches engine db file ∧ (uid ∈ db.rootFirmware file ∨ file = uid)) ↔
        inverted = false)
  | .fileObjects query => query.Matches engine db uid

/-- The SELECT that the query was converted to. -/
def GenericQuery.select : GenericQuery → Option SqlSelect
  | .firmware => none
  | .parentFirmware query _ | .fileObjects query => some query

/-- The second search gives the same objects in every database, and so does each condition. -/
structure UsedAgain (q q' : GenericQuery) : Prop where
  results : ∀ (C : Type) (engine : SqlEngine C) (db : BrowseDb C),
    q'.results engine db = q.results engine db
  conditions : Option.Rel SameMeaning q.select q'.select

/-- For a query and a database: the dict can be used again, the number of matches is the number
of results, and pages of any size hold each result once. -/
structure SearchAgrees {K : Type} [LinearOrder K] (env : QueryEnv) (collate : C → K)
    (searchDict : QueryDict) (onlyFirmware inverted : Bool) : Prop where
  reuse : ∀ q, buildGenericSearchQuery env searchDict onlyFirmware inverted = .ok q →
    ∃ q', buildGenericSearchQuery env (searchDict.used env) onlyFirmware inverted = .ok q' ∧
      UsedAgain q q'
  count : ∀ uids, GenericSearch engine db env collate searchDict 0 0 onlyFirmware inverted uids →
    numberOfTotalMatches engine db env searchDict onlyFirmware inverted = .ok uids.dedup.length
  pages : ∀ uids, GenericSearch engine db env collate searchDict 0 0 onlyFirmware inverted uids →
    ∀ n, 0 < n → ∀ pages : ℕ → List String,
      (∀ k, GenericSearch engine db env collate searchDict (n * k) n onlyFirmware inverted
        (pages k)) →
      ∀ m, uids.length ≤ n * m → ((List.range m).flatMap pages).Perm uids

/-- No two objects that are searched for have the same sort key. -/
def DistinctKeys {K : Type} (collate : C → K) (q : GenericQuery) : Prop :=
  ∀ uid uid', q.Matches engine db uid → q.Matches engine db uid' →
    q.sortKey db collate uid = q.sortKey db collate uid' → uid = uid'

end Searching

/-! ## 3. Results and count -/

section Results
variable {C K : Type} {engine : SqlEngine C} {db : BrowseDb C} {env : QueryEnv} {collate : C → K}
  {q : GenericQuery} {query : SqlSelect} {searchDict : QueryDict} {onlyFirmware inverted : Bool}
  {uid : String}

theorem mem_run_iff : uid ∈ query.run engine db.toSearchDb ↔ query.Matches engine db uid :=
  mem_run

theorem run_nodup : (query.run engine db.toSearchDb).Nodup := by
  refine List.Nodup.filter _ ?_
  unfold SqlSelect.searched
  split
  · exact db.firmware.keys_nodup
  · exact db.fileObjects.keys_nodup

theorem mem_parentUids : uid ∈ parentUids engine db query ↔ uid ∈ db.fileObjects ∧
    ∃ file, query.Matches engine db file ∧ (uid ∈ db.rootFirmware file ∨ file = uid) := by
  simp only [parentUids, List.mem_filter, List.any_eq_true, decide_eq_true_iff, mem_run_iff]
  rfl

theorem mem_results : uid ∈ q.results engine db ↔ q.Matches engine db uid := by
  cases q with
  | firmware => rfl
  | parentFirmware query inverted =>
    rw [GenericQuery.results, List.mem_filter]
    refine and_congr_right fun huid => ?_
    have hfile : uid ∈ db.fileObjects := db.firmware_fileObjects uid huid
    have hin : uid ∈ parentUids engine db query ↔
        ∃ file, query.Matches engine db file ∧ (uid ∈ db.rootFirmware file ∨ file = uid) :=
      mem_parentUids.trans (and_iff_right hfile)
    rw [← hin, firmwareFilter]
    cases inverted <;> simp
  | fileObjects query => exact mem_run_iff

theorem results_nodup (q : GenericQuery) : (q.results engine db).Nodup := by
  cases q with
  | firmware => exact db.firmware.keys_nodup
  | parentFirmware query inverted => exact db.firmware.keys_nodup.filter _
  | fileObjects query => exact run_nodup

/-- However many joined rows an object has, it is counted once. -/
theorem countDistinct_eq :
    countDistinct engine db query = (query.run engine db.toSearchDb).length := by
  refine List.Perm.length_eq ((List.perm_ext_iff_of_nodup (List.nodup_dedup _) run_nodup).mpr
    fun uid => ?_)
  simp only [List.mem_dedup, List.mem_flatMap, List.mem_map, List.mem_filter, decide_eq_true_iff]
  rw [mem_run]
  constructor
  · rintro ⟨uid, huid, row, ⟨hrow, hholds⟩, rfl⟩
    exact ⟨huid, row, hrow, hholds⟩
  · rintro ⟨huid, row, hrow, hholds⟩
    exact ⟨uid, huid, row, ⟨hrow, hholds⟩, rfl⟩

/-- The cases of `build_generic_search_query`. -/
theorem buildGenericSearchQuery_eq
    (h : buildGenericSearchQuery env searchDict onlyFirmware inverted = .ok q) :
    searchDict.isEmpty = true ∧ q = .firmware ∨
      searchDict.isEmpty = false ∧ ∃ query,
        buildQueryFromDict env false false searchDict = .ok query ∧
        (onlyFirmware = true ∧ q = .parentFirmware query inverted ∨
          onlyFirmware = false ∧ q = .fileObjects query) := by
  unfold buildGenericSearchQuery at h
  split at h
  · next hempty =>
    cases h
    exact .inl ⟨hempty, rfl⟩
  · next hne =>
    refine .inr ⟨Bool.eq_false_iff.mpr hne, ?_⟩
    split at h
    · next hfirmware =>
      obtain ⟨query, hquery, rfl⟩ := except_map_eq_ok h
      exact ⟨query, hquery, .inl ⟨hfirmware, rfl⟩⟩
    · next hfirmware =>
      obtain ⟨query, hquery, rfl⟩ := except_map_eq_ok h
      exact ⟨query, hquery, .inr ⟨Bool.eq_false_iff.mpr hfirmware, rfl⟩⟩

/-- The number of matches is the number of results. -/
theorem numberOfTotalMatches_eq
    (h : buildGenericSearchQuery env searchDict onlyFirmware inverted = .ok q) :
    numberOfTotalMatches engine db env searchDict onlyFirmware inverted =
      .ok (q.results engine db).length := by
  unfold numberOfTotalMatches
  rcases buildGenericSearchQuery_eq h with ⟨hempty, rfl⟩ |
    ⟨hne, query, hquery, ⟨rfl, rfl⟩ | ⟨rfl, rfl⟩⟩
  · rw [if_pos hempty]
    rfl
  · rw [hne, hquery]
    show Except.ok (db.firmware.keys.countP (firmwareFilter engine db query inverted)) = _
    rw [List.countP_eq_length_filter]
    rfl
  · rw [hne, getFileObjectNumber, hne, hquery]
    show Except.ok (countDistinct engine db query) = _
    rw [countDistinct_eq]
    rfl

theorem noTies_iff :
    NoTies (q.sortKey db collate) (q.results engine db) ↔ DistinctKeys engine db collate q := by
  constructor
  · exact fun h uid uid' hm hm' => h uid (mem_results.mpr hm) uid' (mem_results.mpr hm')
  · exact fun h uid hm uid' hm' => h uid uid' (mem_results.mp hm) (mem_results.mp hm')

end Results

/-! ## 4. Pages -/

section Pages
variable {C K : Type} [LinearOrder K] {engine : SqlEngine C} {db : BrowseDb C} {env : QueryEnv}
  {collate : C → K} {q : GenericQuery} {searchDict : QueryDict} {onlyFirmware inverted : Bool}
  {uids : List String} {n k : ℕ}

theorem applyOffsetAndLimit_page (rows : List String) (hn : 0 < n) (k : ℕ) :
    applyOffsetAndLimit rows (n * k) n = page n k rows := by
  have hdrop : (if n * k = 0 then rows else rows.drop (n * k)) = rows.drop (n * k) := by
    split
    · next hzero => rw [hzero, List.drop_zero]
    · rfl
  show (if n = 0 then _ else _) = _
  rw [if_neg hn.ne', hdrop]
  rfl

theorem genericSearch_all
    (h : buildGenericSearchQuery env searchDict onlyFirmware inverted = .ok q) :
    GenericSearch engine db env collate searchDict 0 0 onlyFirmware inverted uids ↔
      Permitted (q.sortKey db collate) (q.results engine db) uids := by
  constructor
  · rintro ⟨q', rows, hq', hrows, rfl⟩
    cases h.symm.trans hq'
    exact hrows
  · exact fun hrows => ⟨q, uids, h, hrows, rfl⟩

theorem genericSearch_page
    (h : buildGenericSearchQuery env searchDict onlyFirmware inverted = .ok q) (hn : 0 < n) :
    GenericSearch engine db env collate searchDict (n * k) n onlyFirmware inverted uids ↔
      ∃ rows, Permitted (q.sortKey db collate) (q.results engine db) rows ∧
        uids = page n k rows := by
  constructor
  · rintro ⟨q', rows, hq', hrows, rfl⟩
    cases h.symm.trans hq'
    exact ⟨rows, hrows, applyOffsetAndLimit_page rows hn k⟩
  · rintro ⟨rows, hrows, rfl⟩
    exact ⟨q, rows, h, hrows, (applyOffsetAndLimit_page rows hn k).symm⟩

/-- The pages hold each result once exactly if no two results have the same sort key. -/
theorem pages_iff (h : buildGenericSearchQuery env searchDict onlyFirmware inverted = .ok q) :
    (∀ uids, GenericSearch engine db env collate searchDict 0 0 onlyFirmware inverted uids →
      ∀ n, 0 < n → ∀ pages : ℕ → List String,
        (∀ k, GenericSearch engine db env collate searchDict (n * k) n onlyFirmware inverted
          (pages k)) →
        ∀ m, uids.length ≤ n * m → ((List.range m).flatMap pages).Perm uids) ↔
      DistinctKeys engine db collate q := by
  rw [← noTies_iff, ← pagesPartition_iff (results_nodup q)]
  constructor
  · intro hpages n hn orders horders m hm
    have hsorted := permitted_sortByKey (q.sortKey db collate) (q.results engine db)
    have hperm := hpages _ ((genericSearch_all h).mpr hsorted) n hn (fun k => page n k (orders k))
      (fun k => (genericSearch_page h hn).mpr ⟨orders k, horders k, rfl⟩) m
      (hsorted.perm.length_eq ▸ hm)
    exact hperm.trans hsorted.perm
  · intro hpartition uids huids n hn pages hpages m hm
    have hall := (genericSearch_all h).mp huids
    choose orders horders hpage using fun k => (genericSearch_page h hn).mp (hpages k)
    have hperm := hpartition n hn orders horders m (hall.perm.length_eq ▸ hm)
    simp only [← hpage] at hperm
    exact hperm.trans hall.perm.symm

end Pages

/-! ## 5. The dict, used again -/

section Reuse
variable {C K : Type} [LinearOrder K] {engine : SqlEngine C} {db : BrowseDb C} {env : QueryEnv}
  {collate : C → K} {q : GenericQuery} {searchDict : QueryDict} {onlyFirmware inverted : Bool}
  {query query' : SqlSelect}

theorem isEmpty_eq_false {fields : Dict String PyVal} {key : String} (h : key ∈ fields) :
    fields.entries.isEmpty = false := by
  obtain ⟨value, hvalue⟩ := Dict.mem_iff.mp h
  exact List.isEmpty_eq_false_iff.mpr (List.ne_nil_of_mem (Dict.mem_entries_iff.mpr hvalue))

theorem isEmpty_used (env : QueryEnv) (searchDict : QueryDict) :
    (searchDict.used env).isEmpty = searchDict.isEmpty := by
  cases searchDict with
  | withOr fields below => rfl
  | plain fields =>
    show ((renameId fields).entries.map (usedEntry env)).isEmpty = fields.entries.isEmpty
    rw [List.isEmpty_map]
    unfold renameId
    split
    · next value hvalue =>
      have huid : "uid" ∈ (fields.erase "_id").set "uid" value :=
        Dict.mem_of_get? (Dict.get?_set_self _ _ _)
      rw [isEmpty_eq_false huid, isEmpty_eq_false (Dict.mem_of_get? hvalue)]
    · rfl

theorem usedAgain_parentFirmware :
    UsedAgain (.parentFirmware query inverted) (.parentFirmware query' inverted) ↔
      SameMeaning query query' := by
  constructor
  · rintro ⟨-, hrel⟩
    cases hrel with
    | some hsame => exact hsame
  · intro hsame
    refine ⟨fun C engine db => ?_, .some hsame⟩
    have hparent : parentUids engine db query' = parentUids engine db query := by
      rw [parentUids, parentUids, hsame.query C engine db.toSearchDb]
    have hfilter : firmwareFilter engine db query' inverted =
        firmwareFilter engine db query inverted := by
      funext uid
      rw [firmwareFilter, firmwareFilter, hparent]
    rw [GenericQuery.results, GenericQuery.results, hfilter]

theorem usedAgain_fileObjects :
    UsedAgain (.fileObjects query) (.fileObjects query') ↔ SameMeaning query query' := by
  constructor
  · rintro ⟨-, hrel⟩
    cases hrel with
    | some hsame => exact hsame
  · exact fun hsame => ⟨fun C engine db => hsame.query C engine db.toSearchDb, .some hsame⟩

/-- The second search means the same exactly if no dumped operand is looked for. -/
theorem reuse_iff (hdumps : ∀ s, env.dumps (.str s) ≠ s)
    (h : buildGenericSearchQuery env searchDict onlyFirmware inverted = .ok q) :
    (∃ q', buildGenericSearchQuery env (searchDict.used env) onlyFirmware inverted = .ok q' ∧
      UsedAgain q q') ↔ searchDict.KeepsOperands env := by
  rcases buildGenericSearchQuery_eq h with ⟨hempty, rfl⟩ | ⟨hne, query, hquery, hkind⟩
  · refine iff_of_true ⟨.firmware, ?_, fun _ _ _ => rfl, .none⟩ ?_
    · rw [buildGenericSearchQuery, isEmpty_used, if_pos hempty]
    · cases searchDict with
      | withOr => cases hempty
      | plain fields =>
        have hnil : fields.entries = [] := List.isEmpty_iff.mp hempty
        intro e he
        rw [hnil] at he
        cases he
  · obtain ⟨query', hquery', hiff⟩ := buildQuery_used hdumps hquery
    rw [← hiff, buildGenericSearchQuery, isEmpty_used, hne, hquery']
    rcases hkind with ⟨rfl, rfl⟩ | ⟨rfl, rfl⟩
    · rw [← usedAgain_parentFirmware]
      constructor
      · rintro ⟨q', hq', hused⟩
        cases hq'
        exact hused
      · exact fun hused => ⟨_, rfl, hused⟩
    · rw [← usedAgain_fileObjects]
      constructor
      · rintro ⟨q', hq', hused⟩
        cases hq'
        exact hused
      · exact fun hused => ⟨_, rfl, hused⟩

/-- Count, result and pages of a query agree, and its dict can be used again, exactly if the query
keeps its operands and no two objects that are searched for have the same sort key. -/
theorem searchAgrees_iff (hdumps : ∀ s, env.dumps (.str s) ≠ s) :
    SearchAgrees engine db env collate searchDict onlyFirmware inverted ↔
      ∀ q, buildGenericSearchQuery env searchDict onlyFirmware inverted = .ok q →
        searchDict.KeepsOperands env ∧ DistinctKeys engine db collate q := by
  constructor
  · intro h q hq
    exact ⟨(reuse_iff hdumps hq).mp (h.reuse q hq), (pages_iff hq).mp h.pages⟩
  · intro h
    refine ⟨fun q hq => (reuse_iff hdumps hq).mpr (h q hq).1, fun uids huids => ?_,
      fun uids huids => ?_⟩
    · have ⟨q, _, hq, _⟩ := huids
      have hperm := ((genericSearch_all hq).mp huids).perm
      rw [numberOfTotalMatches_eq hq,
        List.dedup_eq_self.mpr (hperm.nodup_iff.mpr (results_nodup q)), hperm.length_eq]
    · have ⟨q, _, hq, _⟩ := huids
      exact (pages_iff hq).mpr (h q hq).2 uids huids

/-- Texts, JSON numbers and JSON objects with numbers. -/
inductive SampleCell
  | null
  | text (s : String)
  | number (n : ℕ)
  | object (fields : List (String × ℕ))

/-- The comparison `>` of a JSON number with `3`, and with a JSON string, which is less than a
number. -/
def sampleEngine : SqlEngine SampleCell where
  null := .null
  isNull
    | .null => true
    | _ => false
  dateString := id
  arrayString := id
  index
    | .object fields, key => (Dict.find key fields).elim .null .number
    | _, _ => .null
  text := id
  compare
    | _, .null => none
    | .gt (.str operand), .number n => some (if operand = "3" then decide (3 < n) else true)
    | _, _ => some false
  isNull_null := rfl
  dateString_null := rfl
  arrayString_null := rfl
  compare_null comparison := by cases comparison <;> rfl

/-- `json.dumps` of a whole number and of a text without characters that are escaped. -/
def sampleDumps : PyVal → String
  | .num x => toString x.num
  | .str s => "\"" ++ s ++ "\""
  | _ => "null"

theorem sampleDumps_ne (s : String) : sampleDumps (.str s) ≠ s := by
  intro heq
  have hlength := congrArg String.length heq
  rw [sampleDumps, String.length_append, String.length_append] at hlength
  have hquote : ("\"" : String).length = 1 := rfl
  omega

def sampleEnv : QueryEnv := ⟨sampleDumps, fun _ => none, fun _ _ => rfl⟩

def sampleCollate : SampleCell → String
  | .text s => s
  | _ => ""

/-- A file for which the plugin `x` found the number 2. -/
def fileWithNumber : BrowseDb SampleCell where
  fileObjects := Dict.ofList [("f", fun _ => .text "f")]
  firmware := ∅
  analyses := Dict.ofList [(("f", "x"), fun column =>
    if column = "result" then .object [("y", 2)] else .null)]
  firmware_fileObjects _ h := by cases h
  rootFirmware _ := []

/-- Two versions of the firmware of a device. -/
def twoVersions : BrowseDb SampleCell where
  fileObjects := Dict.ofList [("a", fun _ => .text "a"), ("b", fun _ => .text "b")]
  firmware := Dict.ofList [("a", fun column => .text (if column = "version" then "1" else column)),
    ("b", fun column => .text (if column = "version" then "2" else column))]
  analyses := ∅
  firmware_fileObjects _ h := h
  rootFirmware _ := []

/-- A number greater than 3. -/
def greaterThanThree : QueryDict :=
  .plain (Dict.ofList [("processed_analysis.x.y", .dict [("$gt", .num 3)])])

/-- The plugin found a text with `a`. -/
def likeA : QueryDict :=
  .plain (Dict.ofList [("processed_analysis.x.y", .dict [("$like", .str "a")])])

theorem keepsOperands_likeA : likeA.KeepsOperands sampleEnv := by
  intro e he _
  obtain rfl : e = ("processed_analysis.x.y", .dict [("$like", .str "a")]) :=
    List.mem_singleton.mp he
  intro entries hentries operator hoperator
  cases hentries
  cases hoperator
  exact .inr (by decide)

/-- Only one file is searched. -/
theorem searchAgrees_likeA :
    SearchAgrees sampleEngine fileWithNumber sampleEnv sampleCollate likeA false false := by
  refine (searchAgrees_iff sampleDumps_ne).mpr fun q hq => ⟨keepsOperands_likeA, ?_⟩
  rcases buildGenericSearchQuery_eq hq with ⟨hempty, -⟩ | ⟨-, query, hquery, ⟨hno, -⟩ | ⟨-, rfl⟩⟩
  · cases hempty
  · cases hno
  · have hfw : query.fwOnly = false := by
      cases hquery
      rfl
    have hone : ∀ uid, (GenericQuery.fileObjects query).Matches sampleEngine fileWithNumber uid →
        uid = "f" := by
      rintro uid ⟨hsearched, -⟩
      rw [SqlSelect.searched, if_neg (by rw [hfw]; decide)] at hsearched
      exact List.mem_singleton.mp hsearched
    exact fun uid uid' h h' _ => (hone uid h).trans (hone uid' h').symm

/-- The file is found when the query for a greater number is used again, and two versions of a
firmware may change places between two pages. -/
theorem search_disagrees :
    ¬ SearchAgrees sampleEngine fileWithNumber sampleEnv sampleCollate greaterThanThree false
        false ∧
      ¬ SearchAgrees sampleEngine twoVersions sampleEnv sampleCollate (.plain ∅) false false := by
  constructor
  · intro h
    have hfirst : (buildGenericSearchQuery sampleEnv greaterThanThree false false).map
        (·.results sampleEngine fileWithNumber) = .ok [] := rfl
    have hsecond : (buildGenericSearchQuery sampleEnv (greaterThanThree.used sampleEnv) false
        false).map (·.results sampleEngine fileWithNumber) = .ok ["f"] := rfl
    obtain ⟨q, hq, hresults⟩ := except_map_eq_ok hfirst
    obtain ⟨q', hq', hused⟩ := h.reuse q hq
    rw [hq', Except.map, hused.results, hresults] at hsecond
    cases hsecond
  · intro h
    have hdistinct := (pages_iff rfl).mp h.pages
    have hkeys : ∀ uid ∈ ["a", "b"], GenericQuery.Matches sampleEngine twoVersions uid .firmware :=
      fun _ huid => huid
    have hsame := hdistinct "a" "b" (hkeys "a" (by decide)) (hkeys "b" (by decide)) rfl
    exact absurd hsame (by decide)

end Reuse

end FactCore
