import FactCore.Storage.SearchBuild

/-!
# What the SELECT for a query selects

The tables are joined on the UID, one row of each, and the filters are evaluated on the
joined rows. One row of `analysis` cannot meet filters on two plugins, an inner join
needs a row of its table, and an outer join makes NULL of a missing one.

Results:
1. `meets_fileObject`, `meets_firmware`, `meets_analysis`: a filter on a joined row.
2. `mem_run_plain`, `mem_run_or`: the UIDs that are selected.
-/

namespace FactCore

/-! ## 1. Filters and rows -/

/-- The filter is true on the joined row. -/
def RowFilter.Meets {C : Type} (engine : SqlEngine C) (row : JoinedRow C) (c : RowFilter) : Prop :=
  ∀ atom ∈ c.atoms, atom.eval engine row = some true

/-- All filters on analyses name the same plugin. -/
def SamePlugin (cs : List RowFilter) : Prop :=
  ∀ plugin atom plugin' atom', .analysis plugin atom ∈ cs → .analysis plugin' atom' ∈ cs →
    plugin = plugin'

/-- The object has an analysis entry, if one of the filters is about analyses. -/
def HasAnalysisRow {C : Type} (ds : List RowFilter) (db : SearchDb C) (uid : String) : Prop :=
  (∃ plugin atom, .analysis plugin atom ∈ ds) → ∃ plugin, (uid, plugin) ∈ db.analyses

/-- The object has no row in `firmware`, and one of the filters looks for NULL there. -/
def HasNullFirmware {C : Type} (fwOnly : Bool) (ds : List RowFilter) (db : SearchDb C)
    (uid : String) : Prop :=
  fwOnly = false ∧ uid ∉ db.firmware ∧ ∃ c, .firmware (.compare c .isNull) ∈ ds

section Selecting
variable {C : Type} {engine : SqlEngine C} {db : SearchDb C} {select : SqlSelect}
  {fwOnly orQuery : Bool} {cs : List RowFilter} {uid : String} {row row' : JoinedRow C}
  {table : SqlTable} {c : SqlColumn} {atom : SqlAtom} {cond : RowFilter}

theorem SqlColumn.eval_congr (h : row.cells c.table = row'.cells c.table) :
    c.eval engine row = c.eval engine row' := by
  induction c with
  | column table name => exact congrArg (fun cells => cells.elim engine.null fun r => r name) h
  | dateString c ih => exact congrArg engine.dateString (ih h)
  | arrayString c ih => exact congrArg engine.arrayString (ih h)
  | index c key ih => exact congrArg (fun value => engine.index value key) (ih h)
  | text c ih => exact congrArg engine.text (ih h)

theorem SqlAtom.eval_congr (hover : atom.Over table) (h : row.cells table = row'.cells table) :
    atom.eval engine row = atom.eval engine row' := by
  cases atom with
  | compare c comparison =>
    obtain rfl : c.table = table := hover
    have heval : c.eval engine row = c.eval engine row' := SqlColumn.eval_congr h
    cases comparison <;> simp only [SqlAtom.eval, heval]
  | plugin name => exact hover.elim
  | decided => rfl

/-- Where the table has no row, only the search for NULL is true. -/
theorem SqlAtom.eval_null {comparison : SqlComparison} (hplain : c.Plain)
    (hrow : row.cells c.table = none) :
    (SqlAtom.compare c comparison).eval engine row = some true ↔ comparison = .isNull := by
  have hnull : c.eval engine row = engine.null := by
    induction c with
    | column table name => exact congrArg (fun cells => cells.elim engine.null fun r => r name) hrow
    | dateString c ih =>
      exact (congrArg engine.dateString (ih hplain hrow)).trans engine.dateString_null
    | arrayString c ih =>
      exact (congrArg engine.arrayString (ih hplain hrow)).trans engine.arrayString_null
    | index => exact hplain.elim
    | text => exact hplain.elim
  cases comparison <;> simp [SqlAtom.eval, hnull, engine.compare_null, engine.isNull_null]

theorem mem_rows : row ∈ select.rows db uid ↔ row.fileObject ∈ select.fileObjectRows db uid ∧
    row.firmware ∈ select.firmwareRows db uid ∧ row.analysis ∈ select.analysisRows db uid := by
  simp only [SqlSelect.rows, List.mem_flatMap, List.mem_map]
  constructor
  · rintro ⟨fileObject, hfile, firmware, hfirmware, analysis, hanalysis, rfl⟩
    exact ⟨hfile, hfirmware, hanalysis⟩
  · exact fun ⟨hfile, hfirmware, hanalysis⟩ => ⟨_, hfile, _, hfirmware, _, hanalysis, rfl⟩

theorem mem_toList_map_some {o x : Option (String → C)} :
    x ∈ o.toList.map some ↔ x = o ∧ ∃ cells, o = some cells := by
  cases o with
  | none => simp
  | some cells => simp

theorem mem_analysisRows (hjoin : select.analysis = true) {x : Option (String × (String → C))} :
    x ∈ select.analysisRows db uid ↔
      ∃ plugin cells, db.analyses.get? (uid, plugin) = some cells ∧ x = some (plugin, cells) := by
  rw [SqlSelect.analysisRows, if_pos hjoin, List.mem_map]
  constructor
  · rintro ⟨⟨⟨u, plugin⟩, cells⟩, he, rfl⟩
    obtain ⟨hentry, hu⟩ := List.mem_filter.mp he
    obtain rfl : u = uid := of_decide_eq_true hu
    exact ⟨plugin, cells, Dict.mem_entries_iff.mp hentry, rfl⟩
  · rintro ⟨plugin, cells, hget, rfl⟩
    exact ⟨((uid, plugin), cells),
      List.mem_filter.mpr ⟨Dict.mem_entries_iff.mpr hget, decide_eq_true rfl⟩, rfl⟩

/-- A table that no filter is about is not joined. -/
theorem none_mem_analysisRows (hb : Built select fwOnly orQuery cs)
    (hno : ¬ ∃ plugin atom, .analysis plugin atom ∈ cs) : none ∈ select.analysisRows db uid := by
  rw [SqlSelect.analysisRows, if_neg fun hjoin => hno (hb.analysis.mp hjoin)]
  exact List.mem_singleton_self _

/-- A joined row has an analysis, if a filter is about one. -/
theorem row_analysis {plugin : String} (hb : Built select fwOnly orQuery cs)
    (hc : .analysis plugin atom ∈ cs) (hrow : row ∈ select.rows db uid) :
    ∃ plugin' cells, db.analyses.get? (uid, plugin') = some cells ∧
      row.analysis = some (plugin', cells) := by
  obtain ⟨-, -, hanalysis⟩ := mem_rows.mp hrow
  exact (mem_analysisRows (hb.analysis.mpr ⟨plugin, atom, hc⟩)).mp hanalysis

/-- It has the row of the UID in `firmware`, if a filter is about that, or no row after an
outer join. -/
theorem row_firmware (hb : Built select fwOnly orQuery cs) (hc : .firmware atom ∈ cs)
    (hrow : row ∈ select.rows db uid) :
    row.firmware = db.firmware.get? uid ∧
      ((∃ cells, db.firmware.get? uid = some cells) ∨ orQuery = true ∧ fwOnly = false) := by
  obtain ⟨-, hfirmware, -⟩ := mem_rows.mp hrow
  cases hfw : fwOnly with
  | true =>
    rw [SqlSelect.firmwareRows, if_pos (hb.base.trans hfw)] at hfirmware
    obtain ⟨heq, hcells⟩ := mem_toList_map_some.mp hfirmware
    exact ⟨heq, .inl hcells⟩
  | false =>
    rcases hb.firmware with ⟨-, hfw' | hno⟩ | ⟨hjoin, -, -⟩
    · rw [hfw] at hfw'
      cases hfw'
    · exact absurd hc (hno _)
    · rw [SqlSelect.firmwareRows, if_neg (by rw [hb.base, hfw]; decide), hjoin] at hfirmware
      cases orQuery with
      | true => exact ⟨List.mem_singleton.mp hfirmware, .inr ⟨rfl, rfl⟩⟩
      | false =>
        obtain ⟨heq, hcells⟩ := mem_toList_map_some.mp hfirmware
        exact ⟨heq, .inl hcells⟩

/-! One filter on a joined row. -/

theorem meets_fileObject (hb : Built select fwOnly orQuery cs) (hc : .fileObject atom ∈ cs)
    (hrow : row ∈ select.rows db uid) :
    (RowFilter.fileObject atom).Meets engine row ↔
      (RowFilter.fileObject atom).Holds engine db uid := by
  obtain ⟨hfile, -, -⟩ := mem_rows.mp hrow
  have hjoined : (select.fwOnly && !select.fileObject) = false := by
    cases hfw : fwOnly with
    | false => rw [hb.base, hfw]; rfl
    | true => rw [hb.fileObject.mpr ⟨hfw, atom, hc⟩, Bool.not_true, Bool.and_false]
  rw [SqlSelect.fileObjectRows, if_neg (by rw [hjoined]; decide)] at hfile
  obtain ⟨heq, cells, hcells⟩ := mem_toList_map_some.mp hfile
  have heval : atom.eval engine row = atom.eval engine ⟨some cells, none, none⟩ :=
    SqlAtom.eval_congr (hb.reads _ hc) (heq.trans hcells)
  rw [RowFilter.Meets, RowFilter.atoms, List.forall_mem_singleton, heval]
  constructor
  · exact fun h => ⟨cells, hcells, h⟩
  · rintro ⟨cells', hcells', h⟩
    obtain rfl := Option.some.inj (hcells.symm.trans hcells')
    exact h

theorem meets_firmware (hb : Built select fwOnly orQuery cs) (hc : .firmware atom ∈ cs)
    (hrow : row ∈ select.rows db uid) :
    (RowFilter.firmware atom).Meets engine row ↔
      (RowFilter.firmware atom).Holds engine db uid ∨
        orQuery = true ∧ fwOnly = false ∧ uid ∉ db.firmware ∧ ∃ c, atom = .compare c .isNull := by
  obtain ⟨c, comparison, rfl, htable, hplain⟩ := hb.reads _ hc
  obtain ⟨heq, hjoined⟩ := row_firmware hb hc hrow
  rw [RowFilter.Meets, RowFilter.atoms, List.forall_mem_singleton]
  cases hget : db.firmware.get? uid with
  | none =>
    have hnone : row.cells c.table = none := by
      rw [htable]
      exact heq.trans hget
    have hnot : uid ∉ db.firmware := Dict.get?_eq_none_iff.mp hget
    rw [SqlAtom.eval_null hplain hnone]
    constructor
    · rintro rfl
      rcases hjoined with ⟨cells, hcells⟩ | hor
      · rw [hget] at hcells
        cases hcells
      · exact .inr ⟨hor.1, hor.2, hnot, c, rfl⟩
    · rintro (⟨cells, hcells, -⟩ | ⟨-, -, -, c', hc'⟩)
      · rw [hget] at hcells
        cases hcells
      · exact (SqlAtom.compare.inj hc').2
  | some cells =>
    have heval : (SqlAtom.compare c comparison).eval engine row =
        (SqlAtom.compare c comparison).eval engine ⟨none, some cells, none⟩ :=
      SqlAtom.eval_congr htable (heq.trans hget)
    rw [heval]
    constructor
    · exact fun h => .inl ⟨cells, hget, h⟩
    · rintro (⟨cells', hcells', h⟩ | ⟨-, -, hnot, -⟩)
      · obtain rfl := Option.some.inj (hget.symm.trans hcells')
        exact h
      · exact absurd (Dict.mem_of_get? hget) hnot

theorem meets_analysis {plugin plugin' : String} {cells : String → C}
    (hb : Built select fwOnly orQuery cs) (hc : .analysis plugin atom ∈ cs)
    (hget : db.analyses.get? (uid, plugin') = some cells)
    (hrow : row.analysis = some (plugin', cells)) :
    (RowFilter.analysis plugin atom).Meets engine row ↔
      plugin' = plugin ∧ (RowFilter.analysis plugin atom).Holds engine db uid := by
  have hname : (SqlAtom.plugin plugin).eval engine row = some (decide (plugin' = plugin)) := by
    rw [SqlAtom.eval, hrow]
    rfl
  have heval : atom.eval engine row = atom.eval engine ⟨none, none, some (plugin', cells)⟩ :=
    SqlAtom.eval_congr (hb.reads _ hc) (congrArg (Option.map Prod.snd) hrow)
  rw [RowFilter.Meets, RowFilter.atoms, List.forall_mem_cons, List.forall_mem_singleton, hname,
    Option.some.injEq, decide_eq_true_eq, heval, and_comm]
  refine and_congr_right fun hplugin => ?_
  subst hplugin
  constructor
  · exact fun h => ⟨cells, hget, h⟩
  · rintro ⟨cells', hcells', h⟩
    obtain rfl := Option.some.inj (hget.symm.trans hcells')
    exact h

/-- The rows of an object: those of an analysis, once the other tables have a row. -/
theorem exists_row (hb : Built select fwOnly orQuery cs) (huid : uid ∈ SqlSelect.searched fwOnly db)
    (hfirmware : orQuery = false → ∀ atom, .firmware atom ∈ cs → uid ∈ db.firmware)
    {x : Option (String × (String → C))} (hx : x ∈ select.analysisRows db uid) :
    ∃ row ∈ select.rows db uid, row.analysis = x := by
  have hfile : ∃ fileObject, fileObject ∈ select.fileObjectRows db uid := by
    have hmem : uid ∈ db.fileObjects := by
      unfold SqlSelect.searched at huid
      split at huid
      · exact db.firmware_fileObjects uid huid
      · exact huid
    obtain ⟨cells, hcells⟩ := Dict.mem_iff.mp hmem
    unfold SqlSelect.fileObjectRows
    split
    · exact ⟨none, List.mem_singleton_self _⟩
    · exact ⟨_, mem_toList_map_some.mpr ⟨rfl, cells, hcells⟩⟩
  have hfirm : ∃ firmware, firmware ∈ select.firmwareRows db uid := by
    have hsome : uid ∈ db.firmware →
        ∃ firmware, firmware ∈ (db.firmware.get? uid).toList.map some := by
      intro hmem
      obtain ⟨cells, hcells⟩ := Dict.mem_iff.mp hmem
      exact ⟨_, mem_toList_map_some.mpr ⟨rfl, cells, hcells⟩⟩
    cases hfw : fwOnly with
    | true =>
      rw [SqlSelect.firmwareRows, if_pos (hb.base.trans hfw)]
      rw [hfw] at huid
      exact hsome huid
    | false =>
      rw [SqlSelect.firmwareRows, if_neg (by rw [hb.base, hfw]; decide)]
      rcases hb.firmware with ⟨hjoin, -⟩ | ⟨hjoin, -, atom, hc⟩
      · rw [hjoin]
        exact ⟨none, List.mem_singleton_self _⟩
      · rw [hjoin]
        cases orQuery with
        | true => exact ⟨_, List.mem_singleton_self _⟩
        | false => exact hsome (hfirmware rfl atom hc)
  obtain ⟨fileObject, hfile⟩ := hfile
  obtain ⟨firmware, hfirm⟩ := hfirm
  exact ⟨⟨fileObject, firmware, x⟩, mem_rows.mpr ⟨hfile, hfirm, hx⟩, rfl⟩

theorem mem_run : uid ∈ select.run engine db ↔ uid ∈ SqlSelect.searched select.fwOnly db ∧
    ∃ row ∈ select.rows db uid, select.holds engine row = some true := by
  rw [SqlSelect.run, List.mem_filter, List.any_eq_true]
  exact and_congr_right fun _ => exists_congr fun row => and_congr_right fun _ => decide_eq_true_iff

theorem conj_atoms_iff :
    ThreeValued.conj (cond.atoms.map (·.eval engine row)) = some true ↔ cond.Meets engine row := by
  rw [ThreeValued.conj_eq_true, List.forall_mem_map]
  rfl

/-- With AND, or without filters, all of them are met on the row. -/
theorem holds_and (hb : Built select fwOnly orQuery cs) (hand : orQuery = false ∨ cs = []) :
    select.holds engine row = some true ↔ ∀ c ∈ cs, c.Meets engine row := by
  have hall : (∀ x ∈ select.filters.map fun atoms =>
      ThreeValued.conj (atoms.map (·.eval engine row)), x = some true) ↔
        ∀ c ∈ cs, c.Meets engine row := by
    rw [List.forall_mem_map]
    constructor
    · exact fun h c hc => conj_atoms_iff.mp (h _ ((hb.filters _).mpr ⟨c, hc, rfl⟩))
    · intro h atoms hatoms
      obtain ⟨c, hc, rfl⟩ := (hb.filters _).mp hatoms
      exact conj_atoms_iff.mpr (h c hc)
  have hno : (select.anyFilter && !(select.filters.map fun atoms =>
      ThreeValued.conj (atoms.map (·.eval engine row))).isEmpty) = false := by
    rcases hand with hor | rfl
    · rw [hb.anyFilter, hor, Bool.false_and]
    · have hnil : select.filters = [] := by
        refine List.eq_nil_iff_forall_not_mem.mpr fun atoms hatoms => ?_
        obtain ⟨c, hc, -⟩ := (hb.filters _).mp hatoms
        cases hc
      rw [hnil]
      exact Bool.and_false _
  rw [SqlSelect.holds]
  simp only [hno, Bool.false_eq_true, if_false]
  exact ThreeValued.conj_eq_true.trans hall

/-- With OR, one of the filters is met on the row. -/
theorem holds_or (hb : Built select fwOnly true cs) (hne : cs ≠ []) :
    select.holds engine row = some true ↔ ∃ c ∈ cs, c.Meets engine row := by
  have hyes : (select.anyFilter && !(select.filters.map fun atoms =>
      ThreeValued.conj (atoms.map (·.eval engine row))).isEmpty) = true := by
    obtain ⟨c, hc⟩ := List.exists_mem_of_ne_nil cs hne
    rw [hb.anyFilter, Bool.true_and, not_isEmpty_iff]
    exact ⟨_, List.mem_map_of_mem ((hb.filters _).mpr ⟨c, hc, rfl⟩)⟩
  rw [SqlSelect.holds]
  simp only [hyes, if_true]
  rw [ThreeValued.disj_eq_true, List.mem_map]
  constructor
  · rintro ⟨atoms, hatoms, h⟩
    obtain ⟨c, hc, rfl⟩ := (hb.filters _).mp hatoms
    exact ⟨c, hc, conj_atoms_iff.mp h⟩
  · rintro ⟨c, hc, h⟩
    exact ⟨c.atoms, (hb.filters _).mpr ⟨c, hc, rfl⟩, conj_atoms_iff.mpr h⟩

/-- Without `$or`: all filters hold, and one row of `analysis` is enough for them. -/
theorem mem_run_plain (hb : Built select fwOnly false cs) :
    uid ∈ select.run engine db ↔ uid ∈ SqlSelect.searched fwOnly db ∧
      (∀ c ∈ cs, c.Holds engine db uid) ∧ SamePlugin cs := by
  rw [mem_run, hb.base]
  refine and_congr_right fun huid => ?_
  constructor
  · rintro ⟨row, hrow, hholds⟩
    have hmeets := (holds_and hb (.inl rfl)).mp hholds
    refine ⟨fun c hc => ?_, fun plugin atom plugin' atom' hc hc' => ?_⟩
    · rcases c with ⟨plugin, atom⟩ | atom | atom
      · obtain ⟨plugin', cells, hget, heq⟩ := row_analysis hb hc hrow
        exact ((meets_analysis hb hc hget heq).mp (hmeets _ hc)).2
      · exact ((meets_firmware hb hc hrow).mp (hmeets _ hc)).resolve_right fun h => by cases h.1
      · exact (meets_fileObject hb hc hrow).mp (hmeets _ hc)
    · obtain ⟨plugin'', cells, hget, heq⟩ := row_analysis hb hc hrow
      exact ((meets_analysis hb hc hget heq).mp (hmeets _ hc)).1.symm.trans
        ((meets_analysis hb hc' hget heq).mp (hmeets _ hc')).1
  · rintro ⟨hall, hone⟩
    have hfirmware : ∀ atom, .firmware atom ∈ cs → uid ∈ db.firmware := by
      intro atom hc
      obtain ⟨cells, hget, -⟩ := hall _ hc
      exact Dict.mem_of_get? hget
    -- the row of the plugin that is named, if there is one
    have hx : ∃ x ∈ select.analysisRows db uid, ∀ plugin atom, .analysis plugin atom ∈ cs →
        ∃ cells, db.analyses.get? (uid, plugin) = some cells ∧ x = some (plugin, cells) := by
      by_cases hany : ∃ plugin atom, .analysis plugin atom ∈ cs
      · obtain ⟨plugin, atom, hc⟩ := hany
        obtain ⟨cells, hget, -⟩ := hall _ hc
        refine ⟨_, (mem_analysisRows (hb.analysis.mpr ⟨plugin, atom, hc⟩)).mpr
          ⟨plugin, cells, hget, rfl⟩, fun plugin' atom' hc' => ?_⟩
        obtain rfl := hone _ _ _ _ hc hc'
        exact ⟨cells, hget, rfl⟩
      · exact ⟨none, none_mem_analysisRows hb hany, fun plugin atom hc =>
          absurd ⟨plugin, atom, hc⟩ hany⟩
    obtain ⟨x, hx, hnamed⟩ := hx
    obtain ⟨row, hrow, rfl⟩ := exists_row hb huid (fun _ => hfirmware) hx
    refine ⟨row, hrow, (holds_and hb (.inl rfl)).mpr fun c hc => ?_⟩
    rcases c with ⟨plugin, atom⟩ | atom | atom
    · obtain ⟨cells, hget, heq⟩ := hnamed plugin atom hc
      exact (meets_analysis hb hc hget heq).mpr ⟨rfl, hall _ hc⟩
    · exact (meets_firmware hb hc hrow).mpr (.inl (hall _ hc))
    · exact (meets_fileObject hb hc hrow).mpr (hall _ hc)

/-- Below `$or`: one filter holds, if the joins leave a row. A dict without entries selects
everything. -/
theorem mem_run_or {ds : List RowFilter} (hb : Built select fwOnly true ds) :
    uid ∈ select.run engine db ↔ uid ∈ SqlSelect.searched fwOnly db ∧
      (ds ≠ [] → HasAnalysisRow ds db uid ∧
        ((∃ d ∈ ds, d.Holds engine db uid) ∨ HasNullFirmware fwOnly ds db uid)) := by
  rw [mem_run, hb.base]
  refine and_congr_right fun huid => ?_
  have hrows := fun x hx => exists_row (x := x) hb huid (fun h => by cases h) hx
  rcases eq_or_ne ds [] with rfl | hne
  · refine iff_of_true ?_ fun h => absurd rfl h
    have hno : ¬ ∃ plugin atom, RowFilter.analysis plugin atom ∈ ([] : List RowFilter) := by
      rintro ⟨plugin, atom, hc⟩
      cases hc
    obtain ⟨row, hrow, -⟩ := hrows none (none_mem_analysisRows hb hno)
    exact ⟨row, hrow, (holds_and hb (.inr rfl)).mpr fun c hc => absurd hc List.not_mem_nil⟩
  · rw [forall_prop_of_true hne]
    constructor
    · rintro ⟨row, hrow, hholds⟩
      obtain ⟨d, hd, hmeets⟩ := (holds_or hb hne).mp hholds
      refine ⟨fun ⟨plugin, atom, hc⟩ => ?_, ?_⟩
      · obtain ⟨plugin', cells, hget, -⟩ := row_analysis hb hc hrow
        exact ⟨plugin', Dict.mem_of_get? hget⟩
      · rcases d with ⟨plugin, atom⟩ | atom | atom
        · obtain ⟨plugin', cells, hget, heq⟩ := row_analysis hb hd hrow
          exact .inl ⟨_, hd, ((meets_analysis hb hd hget heq).mp hmeets).2⟩
        · rcases (meets_firmware hb hd hrow).mp hmeets with hhold | ⟨-, hfw, hnot, c, rfl⟩
          · exact .inl ⟨_, hd, hhold⟩
          · exact .inr ⟨hfw, hnot, c, hd⟩
        · exact .inl ⟨_, hd, (meets_fileObject hb hd hrow).mp hmeets⟩
    · rintro ⟨hanalysed, hfound⟩
      -- some row, with one of `analysis` if that table is joined
      obtain ⟨x, hx⟩ : ∃ x, x ∈ select.analysisRows db uid := by
        by_cases hany : ∃ plugin atom, .analysis plugin atom ∈ ds
        · obtain ⟨plugin, hmem⟩ := hanalysed hany
          obtain ⟨cells, hget⟩ := Dict.mem_iff.mp hmem
          exact ⟨_, (mem_analysisRows (hb.analysis.mpr hany)).mpr ⟨plugin, cells, hget, rfl⟩⟩
        · exact ⟨none, none_mem_analysisRows hb hany⟩
      obtain ⟨row, hrow, -⟩ := hrows x hx
      rcases hfound with ⟨d, hd, hhold⟩ | ⟨hfw, hnot, c, hd⟩
      · rcases d with ⟨plugin, atom⟩ | atom | atom
        · obtain ⟨cells, hget, -⟩ := id hhold
          obtain ⟨row, hrow, heq⟩ := hrows _ ((mem_analysisRows (hb.analysis.mpr
            ⟨plugin, atom, hd⟩)).mpr ⟨plugin, cells, hget, rfl⟩)
          exact ⟨row, hrow, (holds_or hb hne).mpr
            ⟨_, hd, (meets_analysis hb hd hget heq).mpr ⟨rfl, hhold⟩⟩⟩
        · exact ⟨row, hrow, (holds_or hb hne).mpr
            ⟨_, hd, (meets_firmware hb hd hrow).mpr (.inl hhold)⟩⟩
        · exact ⟨row, hrow, (holds_or hb hne).mpr ⟨_, hd, (meets_fileObject hb hd hrow).mpr hhold⟩⟩
      · exact ⟨row, hrow, (holds_or hb hne).mpr
          ⟨_, hd, (meets_firmware hb hd hrow).mpr (.inr ⟨rfl, hfw, hnot, c, rfl⟩)⟩⟩

end Selecting

end FactCore
