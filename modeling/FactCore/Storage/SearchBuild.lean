import FactCore.Lib.MapM
import FactCore.Storage.SearchMeaning

/-!
# The SELECT for a query over fields

Each entry of the query is converted to a filter on one of three tables. The conversion
looks for them table by table; what it builds joins a table that has filters.

Results:
1. `rowFilterOf_cases`: the three kinds of entries.
2. `rowFilterOf_local`: a filter reads columns of its table only.
3. `buildQuery_plain`: the SELECT that is built.
-/

namespace FactCore

/-! ## 1. Filters on one row -/

/-- The filter for an entry of a query: a comparison on a row of one of the tables. -/
inductive RowFilter
  | analysis (plugin : String) (atom : SqlAtom)
  | firmware (atom : SqlAtom)
  | fileObject (atom : SqlAtom)

/-- The conversion of one entry. -/
def rowFilterOf (env : QueryEnv) (e : String × PyVal) : Except QueryError RowFilter :=
  if isAnalysisKey e.1 then (analysisCondition env e).map fun c => .analysis c.1 c.2
  else if e.1 ≠ "uid" ∧ e.1 ∈ firmwareColumns then (firmwareCondition e).map .firmware
  else if e.1 ∈ fileObjectColumns then (fileObjectCondition e).map .fileObject
  else .error (.unknownField e.1)

/-- The filter is true on the row of the object, for an analysis on the row of the plugin. -/
def RowFilter.Holds {C : Type} (engine : SqlEngine C) (db : SearchDb C) (uid : String) :
    RowFilter → Prop
  | .analysis plugin atom => ∃ cells, db.analyses.get? (uid, plugin) = some cells ∧
      atom.eval engine ⟨none, none, some (plugin, cells)⟩ = some true
  | .firmware atom => ∃ cells, db.firmware.get? uid = some cells ∧
      atom.eval engine ⟨none, some cells, none⟩ = some true
  | .fileObject atom => ∃ cells, db.fileObjects.get? uid = some cells ∧
      atom.eval engine ⟨some cells, none, none⟩ = some true

/-- The entries are converted to the filters. -/
def Converted (env : QueryEnv) (es : List (String × PyVal)) (fs : List RowFilter) : Prop :=
  List.Forall₂ (fun e f => rowFilterOf env e = .ok f) es fs

/-- The table of the column. -/
def SqlColumn.table : SqlColumn → SqlTable
  | .column table _ => table
  | .dateString c | .arrayString c | .index c _ | .text c => c.table

/-- The atom reads columns of one table only. -/
def SqlAtom.Over (table : SqlTable) : SqlAtom → Prop
  | .compare c _ => c.table = table
  | .plugin _ => False
  | .decided _ => True

/-- What stands in the WHERE clause. -/
def RowFilter.atoms : RowFilter → List SqlAtom
  | .analysis plugin atom => [atom, .plugin plugin]
  | .firmware atom => [atom]
  | .fileObject atom => [atom]

/-- The column is NULL where its table has no row. -/
def SqlColumn.Plain : SqlColumn → Prop
  | .column _ _ => True
  | .dateString c | .arrayString c => c.Plain
  | .index _ _ | .text _ => False

/-- The filter reads the row of its table only, and one on `firmware` is a comparison. -/
def RowFilter.Local : RowFilter → Prop
  | .analysis _ atom => atom.Over .analysis
  | .firmware atom => ∃ c comparison, atom = .compare c comparison ∧ c.table = .firmware ∧ c.Plain
  | .fileObject atom => atom.Over .fileObject

section Building
variable {env : QueryEnv} {c : SqlColumn} {key subkey : String} {value : PyVal}
  {atom : SqlAtom} {entries : List (String × PyVal)} {e : String × PyVal}

theorem columnEq_eq (c : SqlColumn) (value : PyVal) :
    ∃ comparison, columnEq c value = .compare c comparison := by
  cases value <;> exact ⟨_, rfl⟩

theorem operatorFilter_eq (h : operatorFilter c key entries = .ok atom) :
    ∃ comparison, atom = .compare c comparison := by
  unfold operatorFilter at h
  split at h
  · dsimp only [acceptedFilter] at h
    split at h
    · cases h
      exact ⟨_, rfl⟩
    · cases h
  · cases h

theorem dictKeyToFilter_eq (h : dictKeyToFilter c key value = .ok atom) :
    ∃ comparison, atom = .compare c comparison := by
  unfold dictKeyToFilter at h
  split at h
  · exact operatorFilter_eq h
  · cases h
    exact columnEq_eq c _

theorem getArrayFilter_eq (h : getArrayFilter c key value = .ok atom) :
    ∃ c' comparison, atom = .compare c' comparison ∧ (c' = c ∨ c' = .arrayString c) := by
  unfold getArrayFilter at h
  split at h
  · cases h
    exact ⟨c, _, rfl, .inl rfl⟩
  · dsimp only at h
    split at h
    · obtain ⟨comparison, rfl⟩ := dictKeyToFilter_eq h
      exact ⟨_, _, rfl, .inr rfl⟩
    split at h
    · cases h
      exact ⟨c, _, rfl, .inl rfl⟩
    split at h
    · cases h
      exact ⟨c, _, rfl, .inl rfl⟩
    · cases h
  · cases h
    exact ⟨c, _, rfl, .inl rfl⟩

theorem table_foldl_index (steps : List String) (c : SqlColumn) :
    (steps.foldl SqlColumn.index c).table = c.table := by
  induction steps generalizing c with
  | nil => rfl
  | cons step steps ih => exact ih (.index c step)

theorem addJsonFilter_over (h : addJsonFilter env key value subkey = .ok atom) :
    atom.Over .analysis := by
  unfold addJsonFilter at h
  dsimp only at h
  split at h
  · obtain ⟨comparison, rfl⟩ := operatorFilter_eq h
    split
    · exact table_foldl_index _ _
    · exact table_foldl_index _ _
  · cases h
    exact table_foldl_index _ _

theorem addAnalysisFilter_over (h : addAnalysisFilter env key value subkey = .ok atom) :
    atom.Over .analysis := by
  unfold addAnalysisFilter at h
  split at h
  · obtain ⟨c', comparison, rfl, rfl | rfl⟩ := getArrayFilter_eq h <;> rfl
  split at h
  · cases h
    obtain ⟨comparison, heq⟩ := columnEq_eq (.column .analysis subkey) value
    rw [heq]
    rfl
  split at h
  · unfold relationEq at h
    split at h <;> cases h
    rfl
  split at h
  · cases h
    trivial
  · exact addJsonFilter_over h

theorem getColumn_eq (key : String) (table : SqlTable) :
    (getColumn key table).table = table ∧ (getColumn key table).Plain := by
  unfold getColumn
  split <;> exact ⟨rfl, trivial⟩

theorem firmwareCondition_eq (h : firmwareCondition e = .ok atom) :
    ∃ c comparison, atom = .compare c comparison ∧ c.table = .firmware ∧ c.Plain := by
  unfold firmwareCondition at h
  split at h
  · obtain ⟨c', comparison, rfl, rfl | rfl⟩ := getArrayFilter_eq h
    · exact ⟨_, _, rfl, rfl, trivial⟩
    · exact ⟨_, _, rfl, rfl, trivial⟩
  · obtain ⟨comparison, rfl⟩ := dictKeyToFilter_eq h
    exact ⟨_, _, rfl, getColumn_eq e.1 .firmware⟩

theorem fileObjectCondition_over (h : fileObjectCondition e = .ok atom) :
    atom.Over .fileObject := by
  obtain ⟨comparison, rfl⟩ := dictKeyToFilter_eq h
  exact (getColumn_eq e.1 .fileObject).1

theorem analysisCondition_over {r : String × SqlAtom} (h : analysisCondition env e = .ok r) :
    r.2.Over .analysis := by
  unfold analysisCondition at h
  obtain ⟨⟨plugin, subkey⟩, -, h⟩ := except_bind_eq_ok h
  obtain ⟨atom, hatom, h⟩ := except_bind_eq_ok h
  cases h
  exact addAnalysisFilter_over hatom

/-! ## 2. The conversion -/

theorem not_isAnalysisKey : ∀ key ∈ fileObjectColumns ++ firmwareColumns,
    isAnalysisKey key = false := by
  decide

theorem firmware_not_fileObject :
    ∀ key ∈ firmwareColumns, key ∈ fileObjectColumns → key = "uid" := by
  decide

/-- What is known about the filter of an entry. -/
theorem rowFilterOf_cases {cond : RowFilter} (h : rowFilterOf env e = .ok cond) :
    (∃ r, isAnalysisKey e.1 = true ∧ e.1 ∉ firmwareColumns ∧ e.1 ∉ fileObjectColumns ∧
        analysisCondition env e = .ok r ∧ cond = .analysis r.1 r.2) ∨
      (∃ atom, isAnalysisKey e.1 = false ∧ e.1 ≠ "uid" ∧ e.1 ∈ firmwareColumns ∧
        e.1 ∉ fileObjectColumns ∧ firmwareCondition e = .ok atom ∧ cond = .firmware atom) ∨
      ∃ atom, isAnalysisKey e.1 = false ∧ ¬ (e.1 ≠ "uid" ∧ e.1 ∈ firmwareColumns) ∧
        e.1 ∈ fileObjectColumns ∧ fileObjectCondition e = .ok atom ∧ cond = .fileObject atom := by
  unfold rowFilterOf at h
  split at h
  · next hkey =>
    obtain ⟨r, hr, rfl⟩ := except_map_eq_ok h
    have hnot : e.1 ∉ fileObjectColumns ++ firmwareColumns := by
      intro hin
      rw [not_isAnalysisKey e.1 hin] at hkey
      cases hkey
    rw [List.mem_append, not_or] at hnot
    exact .inl ⟨r, hkey, hnot.2, hnot.1, hr, rfl⟩
  split at h
  · next hkey hfirmware =>
    obtain ⟨atom, hatom, rfl⟩ := except_map_eq_ok h
    refine .inr (.inl ⟨atom, Bool.eq_false_iff.mpr hkey, hfirmware.1, hfirmware.2, ?_, hatom, rfl⟩)
    exact fun hin => hfirmware.1 (firmware_not_fileObject e.1 hfirmware.2 hin)
  split at h
  · next hkey hfirmware hfile =>
    obtain ⟨atom, hatom, rfl⟩ := except_map_eq_ok h
    exact .inr (.inr ⟨atom, Bool.eq_false_iff.mpr hkey, hfirmware, hfile, hatom, rfl⟩)
  · cases h

theorem rowFilterOf_local {cond : RowFilter} (h : rowFilterOf env e = .ok cond) :
    cond.Local := by
  rcases rowFilterOf_cases h with ⟨r, -, -, -, hr, rfl⟩ | ⟨atom, -, -, -, -, hatom, rfl⟩ |
    ⟨atom, -, -, -, hatom, rfl⟩
  · exact analysisCondition_over hr
  · exact firmwareCondition_eq hatom
  · exact fileObjectCondition_over hatom

/-- The entries of one kind are converted, each to its part of the filters. -/
theorem mapM_kind {β : Type} {es : List (String × PyVal)} {cs : List RowFilter}
    (hall : Converted env es cs)
    (kind : String × PyVal → Bool) (convert : String × PyVal → Except QueryError β)
    (cond : β → RowFilter) (hinj : Function.Injective cond)
    (hkind : ∀ e c, rowFilterOf env e = .ok c →
      kind e = true ∧ (∃ b, convert e = .ok b ∧ c = cond b) ∨ kind e = false ∧ ∀ b, c ≠ cond b) :
    ∃ bs, (es.filter kind).mapM convert = .ok bs ∧ ((es.filter kind).isEmpty = bs.isEmpty) ∧
      ∀ b, b ∈ bs ↔ cond b ∈ cs := by
  induction hall with
  | nil => exact ⟨[], rfl, rfl, fun b => iff_of_false List.not_mem_nil List.not_mem_nil⟩
  | @cons e c es cs he _ ih =>
    obtain ⟨bs, hbs, hempty, hmem⟩ := ih
    rcases hkind e c he with ⟨hk, b, hb, rfl⟩ | ⟨hk, hne⟩
    · refine ⟨b :: bs, ?_, ?_, fun b' => ?_⟩
      · rw [List.filter_cons_of_pos hk, List.mapM_cons, hb, hbs]
        rfl
      · rw [List.filter_cons_of_pos hk]
        rfl
      · rw [List.mem_cons, List.mem_cons, hmem, hinj.eq_iff]
    · refine ⟨bs, ?_, ?_, fun b => ?_⟩
      · rw [List.filter_cons_of_neg (by rw [hk]; decide)]
        exact hbs
      · rw [List.filter_cons_of_neg (by rw [hk]; decide)]
        exact hempty
      · rw [List.mem_cons, hmem]
        exact (or_iff_right fun heq => hne b heq.symm).symm

/-- What the SELECT for the filters is. -/
structure Built (select : SqlSelect) (fwOnly orQuery : Bool) (cs : List RowFilter) : Prop where
  base : select.fwOnly = fwOnly
  anyFilter : select.anyFilter = orQuery
  filters : ∀ atoms, atoms ∈ select.filters ↔ ∃ c ∈ cs, c.atoms = atoms
  analysis : select.analysis = true ↔ ∃ plugin atom, .analysis plugin atom ∈ cs
  firmware : select.firmware = none ∧ (fwOnly = true ∨ ∀ atom, .firmware atom ∉ cs) ∨
    select.firmware = some (if orQuery then .outer else .inner) ∧ fwOnly = false ∧
      ∃ atom, .firmware atom ∈ cs
  fileObject : select.fileObject = true ↔ fwOnly = true ∧ ∃ atom, .fileObject atom ∈ cs
  reads : ∀ c ∈ cs, c.Local

theorem renameId_eq {fields : Dict String PyVal} (h : "_id" ∉ fields) : renameId fields = fields := by
  rw [renameId, Dict.get?_eq_none_iff.mpr h]

/-- `_id` is no field. -/
theorem Converted.not_mem_id {fields : Dict String PyVal} {cs : List RowFilter}
    (h : Converted env fields.entries cs) : "_id" ∉ fields := by
  intro hin
  obtain ⟨value, hvalue⟩ := Dict.mem_iff.mp hin
  obtain ⟨c, -, hc⟩ := forall₂_mem_left h (Dict.mem_entries_iff.mpr hvalue)
  have hid : isAnalysisKey "_id" = false ∧ "_id" ∉ firmwareColumns ∧ "_id" ∉ fileObjectColumns := by
    decide
  rcases rowFilterOf_cases hc with ⟨r, hkey, -⟩ | ⟨atom, -, -, hkey, -⟩ | ⟨atom, -, -, hkey, -⟩
  · exact absurd (hid.1.symm.trans hkey) (by decide)
  · exact absurd hkey hid.2.1
  · exact absurd hkey hid.2.2

/-- An analysis condition that cannot be converted raises its exception. -/
theorem buildQuery_error {fields : Dict String PyVal} {fwOnly orQuery : Bool} {select : SqlSelect}
    (hid : "_id" ∉ fields) (he : e ∈ fields.entries) (hkey : isAnalysisKey e.1 = true)
    (herror : ∀ r, analysisCondition env e ≠ .ok r) :
    buildQueryFromDict env fwOnly orQuery (.plain fields) ≠ .ok select := by
  intro h
  unfold buildQueryFromDict at h
  rw [renameId_eq hid] at h
  obtain ⟨rs, hrs, -⟩ := except_bind_eq_ok h
  have hall := exists_mapM_ok_iff.mp ⟨rs, hrs, fun _ _ => trivial⟩
  obtain ⟨r, hr, -⟩ := hall e (List.mem_filter.mpr ⟨he, hkey⟩)
  exact herror r hr

theorem not_isEmpty_iff {β : Type} {l : List β} : (!l.isEmpty) = true ↔ ∃ b, b ∈ l := by
  cases l with
  | nil => simp
  | cons b l => exact iff_of_true rfl ⟨b, List.mem_cons_self⟩

/-! Which entries the three loops convert, and to which filters. -/

theorem analysis_kind {cond : RowFilter} (h : rowFilterOf env e = .ok cond) :
    isAnalysisKey e.1 = true ∧
        (∃ r, analysisCondition env e = .ok r ∧ cond = .analysis r.1 r.2) ∨
      isAnalysisKey e.1 = false ∧ ∀ r : String × SqlAtom, cond ≠ .analysis r.1 r.2 := by
  rcases rowFilterOf_cases h with ⟨r, hkey, -, -, hr, rfl⟩ | ⟨atom, hkey, -, -, -, -, rfl⟩ |
    ⟨atom, hkey, -, -, -, rfl⟩
  · exact .inl ⟨hkey, r, hr, rfl⟩
  · exact .inr ⟨hkey, fun b => nofun⟩
  · exact .inr ⟨hkey, fun b => nofun⟩

theorem firmware_kind {cond : RowFilter} (h : rowFilterOf env e = .ok cond) :
    decide (e.1 ∉ ["uid"] ∧ e.1 ∈ firmwareColumns) = true ∧
        (∃ atom, firmwareCondition e = .ok atom ∧ cond = .firmware atom) ∨
      decide (e.1 ∉ ["uid"] ∧ e.1 ∈ firmwareColumns) = false ∧ ∀ atom, cond ≠ .firmware atom := by
  rw [decide_eq_true_eq, decide_eq_false_iff_not, List.mem_singleton]
  rcases rowFilterOf_cases h with ⟨r, -, hkey, -, -, rfl⟩ | ⟨atom, -, huid, hkey, -, hatom, rfl⟩ |
    ⟨atom, -, hkey, -, -, rfl⟩
  · exact .inr ⟨fun hin => hkey hin.2, fun b => nofun⟩
  · exact .inl ⟨⟨huid, hkey⟩, atom, hatom, rfl⟩
  · exact .inr ⟨hkey, fun b => nofun⟩

theorem fileObject_kind {cond : RowFilter} (h : rowFilterOf env e = .ok cond) :
    decide (e.1 ∉ [] ∧ e.1 ∈ fileObjectColumns) = true ∧
        (∃ atom, fileObjectCondition e = .ok atom ∧ cond = .fileObject atom) ∨
      decide (e.1 ∉ [] ∧ e.1 ∈ fileObjectColumns) = false ∧ ∀ atom, cond ≠ .fileObject atom := by
  rw [decide_eq_true_eq, decide_eq_false_iff_not]
  rcases rowFilterOf_cases h with ⟨r, -, -, hkey, -, rfl⟩ | ⟨atom, -, -, -, hkey, -, rfl⟩ |
    ⟨atom, -, -, hkey, hatom, rfl⟩
  · exact .inr ⟨fun hin => hkey hin.2, fun b => nofun⟩
  · exact .inr ⟨fun hin => hkey hin.2, fun b => nofun⟩
  · exact .inl ⟨⟨List.not_mem_nil, hkey⟩, atom, hatom, rfl⟩

/-- The SELECT with the filters of the three loops. -/
theorem built_of_parts {cs : List RowFilter} {rs : List (String × SqlAtom)} {fs os : List SqlAtom}
    (hrs : ∀ r, r ∈ rs ↔ .analysis r.1 r.2 ∈ cs) (hfs : ∀ atom, atom ∈ fs ↔ .firmware atom ∈ cs)
    (hos : ∀ atom, atom ∈ os ↔ .fileObject atom ∈ cs) (hlocal : ∀ c ∈ cs, c.Local)
    (fwOnly orQuery : Bool) :
    Built {
      fwOnly
      analysis := !rs.isEmpty
      firmware := if fs.isEmpty || fwOnly then none else some (if orQuery then .outer else .inner)
      fileObject := fwOnly && !os.isEmpty
      filters := (rs.map fun f => [f.2, .plugin f.1]) ++ fs.map ([·]) ++ os.map ([·])
      anyFilter := orQuery } fwOnly orQuery cs := by
  refine ⟨rfl, rfl, fun atoms => ?_, ?_, ?_, ?_, hlocal⟩
  · simp only [List.mem_append, List.mem_map]
    constructor
    · rintro ((⟨r, hr, rfl⟩ | ⟨atom, hatom, rfl⟩) | ⟨atom, hatom, rfl⟩)
      · exact ⟨.analysis r.1 r.2, (hrs r).mp hr, rfl⟩
      · exact ⟨.firmware atom, (hfs atom).mp hatom, rfl⟩
      · exact ⟨.fileObject atom, (hos atom).mp hatom, rfl⟩
    · rintro ⟨plugin | atom | atom, hc, rfl⟩
      · exact .inl (.inl ⟨_, (hrs (plugin, _)).mpr hc, rfl⟩)
      · exact .inl (.inr ⟨atom, (hfs atom).mpr hc, rfl⟩)
      · exact .inr ⟨atom, (hos atom).mpr hc, rfl⟩
  · rw [not_isEmpty_iff]
    exact ⟨fun ⟨r, hr⟩ => ⟨r.1, r.2, (hrs r).mp hr⟩,
      fun ⟨plugin, atom, hc⟩ => ⟨(plugin, atom), (hrs (plugin, atom)).mpr hc⟩⟩
  · cases fs with
    | nil =>
      exact .inl ⟨rfl, .inr fun atom hc => List.not_mem_nil ((hfs atom).mpr hc)⟩
    | cons atom fs =>
      cases fwOnly with
      | true => exact .inl ⟨rfl, .inl rfl⟩
      | false => exact .inr ⟨rfl, rfl, atom, (hfs atom).mp List.mem_cons_self⟩
  · rw [Bool.and_eq_true, not_isEmpty_iff]
    exact and_congr_right fun _ => exists_congr hos

/-- A dict over fields is converted. -/
theorem buildQuery_plain {fields : Dict String PyVal} {cs : List RowFilter}
    (h : Converted env fields.entries cs) (fwOnly orQuery : Bool) :
    ∃ select, buildQueryFromDict env fwOnly orQuery (.plain fields) = .ok select ∧
      Built select fwOnly orQuery cs := by
  obtain ⟨rs, hrs, hrsEmpty, hrsMem⟩ := mapM_kind h _ _ (fun r => .analysis r.1 r.2)
    (fun r r' heq => Prod.ext (RowFilter.analysis.inj heq).1 (RowFilter.analysis.inj heq).2)
    fun e c hc => analysis_kind hc
  obtain ⟨fs, hfs, hfsEmpty, hfsMem⟩ := mapM_kind h _ _ .firmware
    (fun _ _ => RowFilter.firmware.inj) fun e c hc => firmware_kind hc
  obtain ⟨os, hos, hosEmpty, hosMem⟩ := mapM_kind h _ _ .fileObject
    (fun _ _ => RowFilter.fileObject.inj) fun e c hc => fileObject_kind hc
  have hlocal : ∀ c ∈ cs, c.Local := by
    intro c hc
    obtain ⟨e, -, he⟩ := forall₂_mem_left h.flip hc
    exact rowFilterOf_local he
  refine ⟨_, ?_, built_of_parts hrsMem hfsMem hosMem hlocal fwOnly orQuery⟩
  simp only [buildQueryFromDict, renameId_eq h.not_mem_id, getSearchKeysFromDict, hrs, hfs, hos,
    hrsEmpty, hfsEmpty, hosEmpty]
  rfl

end Building

end FactCore
