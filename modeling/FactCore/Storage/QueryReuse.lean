import FactCore.Storage.SearchOperators
import FactCore.Storage.SearchSelect

/-!
# A search query that is used twice

The conversion of a query writes to the dict that it gets: `_id` is renamed, and where a
condition on an analysis result has operators, what they are compared with is replaced by
its dump. When the same dict is converted again, it is dumped once more.

Definitions:
1. `QueryDict.used`: the dict after a conversion.
2. `QueryDict.KeepsOperands`: nothing that was dumped is looked for.
3. `SameMeaning`: two SELECTs for which the query and each of its conditions select the same.

Results:
1. `addJsonFilter_used`, `analysisCondition_used`: a condition, converted again.
2. `buildQuery_used`: a query, converted again.
-/

namespace FactCore

/-! ## 1. The dict afterwards -/

/-- The subkey is no attribute of `AnalysisEntry`, and is looked for in the result. -/
def isResultSubkey (env : QueryEnv) (subkey : String) : Bool :=
  decide (subkey ∉ analysisColumns ∧ subkey ≠ "file_object") && (env.attributes subkey).isNone

/-- The key of a condition on an analysis result. -/
def isResultKey (env : QueryEnv) (key : String) : Bool :=
  isAnalysisKey key && (splitAnalysisKey key).toOption.any fun parts => isResultSubkey env parts.2

/-- What the loop of `_add_json_filter` leaves in the dict of operators. -/
def dumpedValue (dumps : PyVal → String) : PyVal → PyVal
  | .dict entries => .dict (dumpOperands dumps entries).1
  | value => value

/-- An entry of the query after its conversion. -/
def usedEntry (env : QueryEnv) (e : String × PyVal) : String × PyVal :=
  (e.1, if isResultKey env e.1 then dumpedValue env.dumps e.2 else e.2)

/-- The fields after a conversion. -/
def usedFields (env : QueryEnv) (fields : Dict String PyVal) : Dict String PyVal :=
  (renameId fields).mapValues fun key value => (usedEntry env (key, value)).2

/-- The query after a conversion; next to `$or`, nothing is read. -/
def QueryDict.used (env : QueryEnv) : QueryDict → QueryDict
  | .plain fields => .plain (usedFields env fields)
  | .withOr fields below => .withOr fields (below.used env)

/-- The operators whose operands are dumped: those before the first one for text. -/
def dumpedOperators (entries : List (String × PyVal)) : List String :=
  (entries.map Prod.fst).takeWhile fun operator => decide (operator ∉ ["$in", "$like"])

/-- The operator that `_dict_key_to_filter` takes. -/
def takenOperator (key : String) (entries : List (String × PyVal)) :
    Option (String × (PyVal → SqlComparison)) :=
  (operators key).find? fun operator => (PyVal.dict entries).hasKey operator.1

/-- The operator that is taken was not dumped, or has no operand. -/
def KeepsOperand (e : String × PyVal) : Prop :=
  ∀ entries, e.2 = .dict entries → ∀ operator, takenOperator e.1 entries = some operator →
    operator.1 = "$exists" ∨ operator.1 ∉ dumpedOperators entries

/-- The conditions on analysis results keep what they are compared with. -/
def QueryDict.KeepsOperands (env : QueryEnv) : QueryDict → Prop
  | .plain fields => ∀ e ∈ fields.entries, isResultKey env e.1 = true → KeepsOperand e
  | .withOr _ below => below.KeepsOperands env

/-! ## 2. One condition -/

section Operands
variable {dumps : PyVal → String} {es : List (String × PyVal)} {n : String}
  {operator : String × (PyVal → SqlComparison)} {key : String} {c : SqlColumn} {atom : SqlAtom}

theorem dumpOperands_text (dumps : PyVal → String) (es : List (String × PyVal)) :
    (dumpOperands dumps es).2 = (es.map Prod.fst).any fun n => decide (n ∈ ["$in", "$like"]) := by
  induction es with
  | nil => rfl
  | cons e es ih =>
    unfold dumpOperands
    rw [List.map_cons, List.any_cons]
    split
    · next hin => rw [decide_eq_true hin, Bool.true_or]
    · next hnot =>
      rw [decide_eq_false hnot, Bool.false_or]
      exact ih

theorem dumpedOperators_nil_of_text {e : String × PyVal} (h : e.1 ∈ ["$in", "$like"]) :
    dumpedOperators (e :: es) = [] :=
  List.takeWhile_cons_of_neg (by rw [decide_eq_true_iff]; exact not_not_intro h)

theorem dumpedOperators_cons {e : String × PyVal} (h : e.1 ∉ ["$in", "$like"]) :
    dumpedOperators (e :: es) = e.1 :: dumpedOperators es :=
  List.takeWhile_cons_of_pos (decide_eq_true h)

/-- An operand that was dumped, and one that was not. -/
theorem find_dumpOperands (dumps : PyVal → String) (es : List (String × PyVal)) (n : String) :
    Dict.find n (dumpOperands dumps es).1 =
      if n ∈ dumpedOperators es then (Dict.find n es).map fun value => .str (dumps value)
      else Dict.find n es := by
  induction es with
  | nil => rfl
  | cons e es ih =>
    by_cases htext : e.1 ∈ ["$in", "$like"]
    · rw [dumpedOperators_nil_of_text htext, if_neg List.not_mem_nil, dumpOperands, if_pos htext]
    · rw [dumpedOperators_cons htext, dumpOperands, if_neg htext]
      show (if e.1 = n then _ else Dict.find n (dumpOperands dumps es).1) = _
      rcases eq_or_ne e.1 n with heq | hne
      · rw [if_pos heq, heq, if_pos List.mem_cons_self, Dict.find, if_pos heq]
        rfl
      · rw [if_neg hne, ih, Dict.find, if_neg hne]
        simp only [List.mem_cons, hne.symm, false_or]

theorem dumpedOperators_dumpOperands (dumps : PyVal → String) (es : List (String × PyVal)) :
    dumpedOperators (dumpOperands dumps es).1 = dumpedOperators es := by
  rw [dumpedOperators, keys_dumpOperands, dumpedOperators]

/-- The operand after the loop: a text if it was dumped. -/
theorem getOrNone_dumpOperands_of_mem {value : PyVal} (dumps : PyVal → String)
    (hin : n ∈ dumpedOperators es) (hvalue : Dict.find n es = some value) :
    (PyVal.dict (dumpOperands dumps es).1).getOrNone n = .str (dumps value) := by
  show (Dict.find n (dumpOperands dumps es).1).getD .none = _
  rw [find_dumpOperands, if_pos hin, hvalue]
  rfl

theorem getOrNone_dumpOperands_of_not_mem (dumps : PyVal → String) (hin : n ∉ dumpedOperators es) :
    (PyVal.dict (dumpOperands dumps es).1).getOrNone n = (PyVal.dict es).getOrNone n := by
  show (Dict.find n (dumpOperands dumps es).1).getD .none = (Dict.find n es).getD .none
  rw [find_dumpOperands, if_neg hin]

theorem hasKey_dumpOperands (dumps : PyVal → String) (es : List (String × PyVal)) (n : String) :
    (PyVal.dict (dumpOperands dumps es).1).hasKey n = (PyVal.dict es).hasKey n := by
  rw [Bool.eq_iff_iff, hasKey_iff, hasKey_iff, keys_dumpOperands]

/-- The comparisons with two texts are both possible or both not, and are different. -/
theorem comparison_str (h : operator ∈ operators key) (c : SqlColumn) (s t : String) :
    (operator.2 (.str s)).accepted c = (operator.2 (.str t)).accepted c ∧
      (operator.2 (.str s) = operator.2 (.str t) → operator.1 = "$exists" ∨ s = t) := by
  simp only [operators, List.mem_cons, List.not_mem_nil, or_false] at h
  rcases h with rfl | rfl | rfl | rfl | rfl | rfl | rfl
  · exact ⟨rfl, fun _ => .inl rfl⟩
  all_goals
    refine ⟨rfl, fun heq => .inr ?_⟩
    cases heq
    rfl

theorem comparison_ne_isNull (h : operator ∈ operators key) (operand : PyVal) :
    operator.2 operand ≠ .isNull := by
  simp only [operators, List.mem_cons, List.not_mem_nil, or_false] at h
  rcases h with rfl | rfl | rfl | rfl | rfl | rfl | rfl <;> (intro heq; cases heq)

theorem comparison_exists (h : operator ∈ operators key) (hname : operator.1 = "$exists")
    (operand operand' : PyVal) : operator.2 operand = operator.2 operand' := by
  simp only [operators, List.mem_cons, List.not_mem_nil, or_false] at h
  rcases h with rfl | rfl | rfl | rfl | rfl | rfl | rfl
  · rfl
  all_goals exact absurd hname (by dsimp only; decide)

theorem takenOperator_dumpOperands (key : String) (dumps : PyVal → String)
    (es : List (String × PyVal)) :
    takenOperator key (dumpOperands dumps es).1 = takenOperator key es := by
  simp only [takenOperator, hasKey_dumpOperands]

theorem takenOperator_eq (h : takenOperator key es = some operator) :
    operator ∈ operators key ∧ ∃ value, Dict.find operator.1 es = some value := by
  refine ⟨List.mem_of_find?_eq_some h, Option.isSome_iff_exists.mp ?_⟩
  have hhas := List.find?_some h
  exact hhas

theorem operatorFilter_taken (h : operatorFilter c key es = .ok atom) :
    ∃ operator, takenOperator key es = some operator ∧
      (operator.2 ((PyVal.dict es).getOrNone operator.1)).accepted c = true ∧
      atom = .compare c (operator.2 ((PyVal.dict es).getOrNone operator.1)) := by
  unfold operatorFilter at h
  split at h
  · next operator hfind =>
    dsimp only [acceptedFilter] at h
    split at h
    · next haccepted =>
      cases h
      exact ⟨operator, hfind, haccepted, rfl⟩
    · cases h
  · cases h

theorem operatorFilter_of_taken (htaken : takenOperator key es = some operator)
    (haccepted : (operator.2 ((PyVal.dict es).getOrNone operator.1)).accepted c = true) :
    operatorFilter c key es =
      .ok (.compare c (operator.2 ((PyVal.dict es).getOrNone operator.1))) := by
  unfold takenOperator at htaken
  simp only [operatorFilter, htaken, acceptedFilter, haccepted, if_true]

/-- Two comparisons of one column with different operands. -/
def OtherOperand (atom atom' : SqlAtom) : Prop :=
  ∃ c k k', atom = .compare c k ∧ atom' = .compare c k' ∧ k ≠ k' ∧ k ≠ .isNull ∧ k' ≠ .isNull

/-- A condition that was converted again: it is the same exactly if it keeps its operand. -/
def ConvertedAgain (keeps : Prop) (atom atom' : SqlAtom) : Prop :=
  keeps ∧ atom' = atom ∨ ¬ keeps ∧ OtherOperand atom atom'

/-- What was dumped is dumped again. -/
theorem operatorFilter_used (hdumps : ∀ s, dumps (.str s) ≠ s)
    (h : operatorFilter c key (dumpOperands dumps es).1 = .ok atom) :
    ∃ atom', operatorFilter c key (dumpOperands dumps (dumpOperands dumps es).1).1 = .ok atom' ∧
      ConvertedAgain (KeepsOperand (key, .dict es)) atom atom' := by
  obtain ⟨operator, htaken, haccepted, rfl⟩ := operatorFilter_taken h
  have htaken' : takenOperator key (dumpOperands dumps (dumpOperands dumps es).1).1 =
      some operator := (takenOperator_dumpOperands key dumps _).trans htaken
  rw [takenOperator_dumpOperands] at htaken
  obtain ⟨hmem, value, hvalue⟩ := takenOperator_eq htaken
  have hkeeps : KeepsOperand (key, .dict es) ↔
      operator.1 = "$exists" ∨ operator.1 ∉ dumpedOperators es := by
    constructor
    · exact fun hk => hk es rfl operator htaken
    · intro hk entries heq operator' htaken'
      cases heq
      cases htaken.symm.trans htaken'
      exact hk
  by_cases hin : operator.1 ∈ dumpedOperators es
  · -- the operand is the dump of the value, and then the dump of that
    have hin' : operator.1 ∈ dumpedOperators (dumpOperands dumps es).1 := by
      rwa [dumpedOperators_dumpOperands]
    have hdumped : Dict.find operator.1 (dumpOperands dumps es).1 = some (.str (dumps value)) := by
      rw [find_dumpOperands, if_pos hin, hvalue]
      rfl
    have hsecond := getOrNone_dumpOperands_of_mem dumps hin' hdumped
    rw [getOrNone_dumpOperands_of_mem dumps hin hvalue] at haccepted ⊢
    have hcomparison := comparison_str hmem c (dumps value) (dumps (.str (dumps value)))
    refine ⟨_, operatorFilter_of_taken htaken' ?_, ?_⟩
    · rw [hsecond, ← hcomparison.1]
      exact haccepted
    · rw [hsecond]
      by_cases hexists : operator.1 = "$exists"
      · refine .inl ⟨hkeeps.mpr (.inl hexists), ?_⟩
        rw [comparison_exists hmem hexists _ (.str (dumps value))]
      · have hnot : ¬ KeepsOperand (key, .dict es) := fun hk =>
          (hkeeps.mp hk).elim hexists fun hno => hno hin
        refine .inr ⟨hnot, c, _, _, rfl, rfl, fun heq => ?_, comparison_ne_isNull hmem _,
          comparison_ne_isNull hmem _⟩
        exact (hcomparison.2 heq).elim hexists fun hs => hdumps _ hs.symm
  · have hin' : operator.1 ∉ dumpedOperators (dumpOperands dumps es).1 := by
      rwa [dumpedOperators_dumpOperands]
    have hsame := getOrNone_dumpOperands_of_not_mem dumps hin'
    refine ⟨_, operatorFilter_of_taken htaken' (hsame ▸ haccepted),
      .inl ⟨hkeeps.mpr (.inr hin), ?_⟩⟩
    rw [hsame]

end Operands

section Conditions
variable {env : QueryEnv} {key subkey : String} {value : PyVal} {atom : SqlAtom}
  {e : String × PyVal}

theorem keepsOperand_of_not_dict (h : ∀ entries, value ≠ .dict entries) :
    KeepsOperand (key, value) :=
  fun entries heq => absurd heq (h entries)

theorem addJsonFilter_used (hdumps : ∀ s, env.dumps (.str s) ≠ s)
    (h : addJsonFilter env key value subkey = .ok atom) :
    ∃ atom', addJsonFilter env key (dumpedValue env.dumps value) subkey = .ok atom' ∧
      ConvertedAgain (KeepsOperand (key, value)) atom atom' := by
  cases value with
  | dict es =>
    obtain ⟨atom', hatom', hagain⟩ := operatorFilter_used hdumps h
    refine ⟨atom', ?_, hagain⟩
    rw [← hatom']
    simp only [addJsonFilter, dumpedValue, hasKey_dumpOperands, dumpOperands_text,
      keys_dumpOperands]
  | none | bool | num | str | list =>
    exact ⟨atom, h, .inl ⟨keepsOperand_of_not_dict fun _ => PyVal.noConfusion, rfl⟩⟩

/-- The part of the conversion that does not read the result. -/
theorem addAnalysisFilter_eq_json (hsub : isResultSubkey env subkey = true) (key : String)
    (value : PyVal) :
    addAnalysisFilter env key value subkey = addJsonFilter env key value subkey := by
  rw [isResultSubkey, Bool.and_eq_true, decide_eq_true_iff, Option.isNone_iff_eq_none] at hsub
  obtain ⟨⟨hcolumn, hrelation⟩, hattribute⟩ := hsub
  have hsummary : subkey ≠ "summary" := fun heq => hcolumn (heq ▸ by decide)
  rw [addAnalysisFilter, if_neg hsummary, if_neg hcolumn, if_neg hrelation, hattribute]

theorem analysisCondition_used (hdumps : ∀ s, env.dumps (.str s) ≠ s)
    {r : String × SqlAtom} (hkey : isAnalysisKey e.1 = true) (h : analysisCondition env e = .ok r) :
    ∃ r', analysisCondition env (usedEntry env e) = .ok r' ∧ r'.1 = r.1 ∧
      ConvertedAgain (isResultKey env e.1 = true → KeepsOperand e) r.2 r'.2 := by
  unfold analysisCondition at h
  obtain ⟨⟨plugin, subkey⟩, hsplit, h⟩ := except_bind_eq_ok h
  obtain ⟨atom, hatom, h⟩ := except_bind_eq_ok h
  cases h
  have hresult : isResultKey env e.1 = isResultSubkey env subkey := by
    rw [isResultKey, hkey, hsplit]
    rfl
  by_cases hsub : isResultSubkey env subkey = true
  · rw [addAnalysisFilter_eq_json hsub] at hatom
    obtain ⟨atom', hatom', hagain⟩ := addJsonFilter_used hdumps hatom
    refine ⟨(plugin, atom'), ?_, rfl, ?_⟩
    · rw [usedEntry, if_pos (hresult.trans hsub), analysisCondition, hsplit]
      show (addAnalysisFilter env e.1 _ subkey >>= fun atom => Except.ok (plugin, atom)) = _
      rw [addAnalysisFilter_eq_json hsub, hatom']
      rfl
    · simpa only [hresult, hsub, forall_const] using hagain
  · refine ⟨(plugin, atom), ?_, rfl, .inl ⟨fun hr => absurd (hresult.symm.trans hr) hsub, rfl⟩⟩
    rw [usedEntry, if_neg (hresult ▸ hsub), analysisCondition, hsplit]
    show (addAnalysisFilter env e.1 _ subkey >>= fun atom => Except.ok (plugin, atom)) = _
    rw [hatom]
    rfl

end Conditions

/-! ## 3. Same objects -/

/-- The SELECT with one filter only. -/
def SqlSelect.only (select : SqlSelect) (filter : List SqlAtom) : SqlSelect :=
  { select with filters := [filter], anyFilter := false }

/-- In every database the SELECTs give the same objects. -/
def SelectSame (select select' : SqlSelect) : Prop :=
  ∀ (C : Type) (engine : SqlEngine C) (db : SearchDb C),
    select'.run engine db = select.run engine db

/-- The SELECTs give the same objects, and so does each of their filters. -/
structure SameMeaning (select select' : SqlSelect) : Prop where
  query : SelectSame select select'
  filters : List.Forall₂
    (fun filter filter' => SelectSame (select.only filter) (select'.only filter'))
    select.filters select'.filters

theorem SelectSame.refl (select : SqlSelect) : SelectSame select select := fun _ _ _ => rfl

section Objects

/-- A database in which values are there or NULL, and the accepted comparisons are true. -/
def acceptingEngine (accepts : SqlComparison → Bool) : SqlEngine Bool where
  null := false
  isNull := (!·)
  dateString := id
  arrayString := id
  index value _ := value
  text := id
  compare comparison value := if value then some (accepts comparison) else none
  isNull_null := rfl
  dateString_null := rfl
  arrayString_null := rfl
  compare_null _ := rfl

/-- One firmware with an analysis. -/
def analyzedFirmware (plugin : String) : SearchDb Bool where
  fileObjects := Dict.ofList [("root", fun _ => true)]
  firmware := Dict.ofList [("root", fun _ => true)]
  analyses := Dict.ofList [(("root", plugin), fun _ => true)]
  firmware_fileObjects _ h := h

variable {accepts : SqlComparison → Bool} {row : JoinedRow Bool} {plugin : String}
  {select : SqlSelect} {c : SqlColumn} {k : SqlComparison}

theorem SqlColumn.eval_accepting (hrow : row.analysis = some (plugin, fun _ => true))
    (hc : c.table = .analysis) : c.eval (acceptingEngine accepts) row = true := by
  induction c with
  | column table name =>
    obtain rfl : table = .analysis := hc
    rw [SqlColumn.eval, JoinedRow.cells, hrow]
    rfl
  | dateString c ih => exact ih hc
  | arrayString c ih => exact ih hc
  | index c key ih => exact ih hc
  | text c ih => exact ih hc

theorem SqlAtom.eval_accepting (hrow : row.analysis = some (plugin, fun _ => true))
    (hc : c.table = .analysis) (hk : k ≠ .isNull) :
    (SqlAtom.compare c k).eval (acceptingEngine accepts) row = some (accepts k) := by
  have hcompare : (acceptingEngine accepts).compare k (c.eval (acceptingEngine accepts) row) =
      some (accepts k) := by
    rw [SqlColumn.eval_accepting hrow hc]
    rfl
  cases k with
  | isNull => exact absurd rfl hk
  | _ => exact hcompare

/-- A joined row of the firmware holds its analysis, and there is one. -/
theorem rows_analyzedFirmware (plugin : String) (hjoin : select.analysis = true) :
    (∃ row, row ∈ select.rows (analyzedFirmware plugin) "root") ∧
      ∀ row ∈ select.rows (analyzedFirmware plugin) "root",
        row.analysis = some (plugin, fun _ => true) := by
  have hanalysis : select.analysisRows (analyzedFirmware plugin) "root" =
      [some (plugin, fun _ => true)] := by
    rw [SqlSelect.analysisRows, if_pos hjoin]
    rfl
  have hfile : ∃ fileObject,
      fileObject ∈ select.fileObjectRows (analyzedFirmware plugin) "root" := by
    unfold SqlSelect.fileObjectRows
    split
    · exact ⟨none, List.mem_singleton_self _⟩
    · exact ⟨some fun _ => true, List.mem_singleton_self _⟩
  have hfirmware : ∃ firmware, firmware ∈ select.firmwareRows (analyzedFirmware plugin) "root" := by
    unfold SqlSelect.firmwareRows
    split
    · exact ⟨some fun _ => true, List.mem_singleton_self _⟩
    split
    · exact ⟨none, List.mem_singleton_self _⟩
    · exact ⟨some fun _ => true, List.mem_singleton_self _⟩
    · exact ⟨some fun _ => true, List.mem_singleton_self _⟩
  obtain ⟨fileObject, hfile⟩ := hfile
  obtain ⟨firmware, hfirmware⟩ := hfirmware
  refine ⟨⟨⟨fileObject, firmware, some (plugin, fun _ => true)⟩,
    mem_rows.mpr ⟨hfile, hfirmware, ?_⟩⟩, fun row hrow => ?_⟩
  · rw [hanalysis]
    exact List.mem_singleton_self _
  · have hmem := (mem_rows.mp hrow).2.2
    rw [hanalysis] at hmem
    exact List.mem_singleton.mp hmem

theorem mem_run_only (accepts : SqlComparison → Bool) (plugin : String)
    (hjoin : select.analysis = true) (hc : c.table = .analysis)
    (hk : k ≠ .isNull) :
    "root" ∈ (select.only [.compare c k, .plugin plugin]).run (acceptingEngine accepts)
      (analyzedFirmware plugin) ↔ accepts k = true := by
  have hjoin' : (select.only [.compare c k, .plugin plugin]).analysis = true := hjoin
  obtain ⟨⟨row, hrow⟩, hall⟩ := rows_analyzedFirmware plugin hjoin'
  have hholds : ∀ row ∈ (select.only [.compare c k, .plugin plugin]).rows (analyzedFirmware plugin)
      "root", (select.only [.compare c k, .plugin plugin]).holds (acceptingEngine accepts) row =
        some true ↔ accepts k = true := by
    intro row hrow
    have hplugin : (SqlAtom.plugin plugin).eval (acceptingEngine accepts) row = some true := by
      rw [SqlAtom.eval, hall row hrow, Option.map_some, decide_eq_true rfl]
    show ThreeValued.conj [ThreeValued.conj
      [(SqlAtom.compare c k).eval (acceptingEngine accepts) row,
        (SqlAtom.plugin plugin).eval (acceptingEngine accepts) row]] = some true ↔ _
    rw [ThreeValued.conj_eq_true, List.forall_mem_singleton, ThreeValued.conj_eq_true,
      List.forall_mem_cons, List.forall_mem_singleton, hplugin,
      SqlAtom.eval_accepting (hall row hrow) hc hk, Option.some_inj]
    exact and_iff_left rfl
  rw [mem_run]
  constructor
  · rintro ⟨-, row, hrow, h⟩
    exact (hholds row hrow).mp h
  · intro h
    refine ⟨?_, row, hrow, (hholds row hrow).mpr h⟩
    unfold SqlSelect.searched
    split <;> exact List.mem_singleton_self _

/-- Another operand selects other objects, in some database. -/
theorem not_selectSame {atom atom' : SqlAtom} (hjoin : select.analysis = true)
    (hover : atom.Over .analysis) (h : OtherOperand atom atom') :
    ¬ SelectSame (select.only [atom, .plugin plugin]) (select.only [atom', .plugin plugin]) := by
  classical
  obtain ⟨c, k, k', rfl, rfl, hne, hk, hk'⟩ := h
  intro hsame
  have hfirst := (mem_run_only (fun comparison => decide (comparison = k)) plugin hjoin hover
    hk).mpr (decide_eq_true rfl)
  rw [← hsame] at hfirst
  have hsecond := (mem_run_only _ plugin hjoin hover hk').mp hfirst
  exact hne (of_decide_eq_true hsecond).symm

end Objects

/-! ## 4. The query -/

section Queries
variable {env : QueryEnv} {fields : Dict String PyVal} {select : SqlSelect} {fwOnly orQuery : Bool}

theorem SameMeaning.refl (select : SqlSelect) : SameMeaning select select :=
  ⟨.refl select, List.forall₂_same.mpr fun filter _ => .refl (select.only filter)⟩

/-- After the conversion there is no `_id`. -/
theorem not_mem_renameId (fields : Dict String PyVal) :
    "_id" ∉ renameId fields := by
  rw [← Dict.get?_eq_none_iff]
  unfold renameId
  split
  · rw [Dict.get?_set_of_ne _ (by decide), Dict.get?_erase, if_pos rfl]
  · next hnone => exact hnone

theorem not_mem_usedFields (env : QueryEnv) (fields : Dict String PyVal) :
    "_id" ∉ usedFields env fields := by
  rw [← Dict.get?_eq_none_iff, usedFields, Dict.get?_mapValues,
    Dict.get?_eq_none_iff.mpr (not_mem_renameId fields)]
  rfl

theorem get?_renameId {key : String} (hid : key ≠ "_id") (huid : key ≠ "uid") :
    (renameId fields).get? key = fields.get? key := by
  unfold renameId
  split
  · rw [Dict.get?_set_of_ne _ huid, Dict.get?_erase, if_neg hid]
  · rfl

/-- Renaming does not touch the conditions on analyses. -/
theorem keepsOperands_iff : (QueryDict.plain fields).KeepsOperands env ↔
    ∀ e ∈ (renameId fields).entries.filter fun e => isAnalysisKey e.1,
      isResultKey env e.1 = true → KeepsOperand e := by
  have hentry : ∀ e : String × PyVal, isAnalysisKey e.1 = true →
      (e ∈ (renameId fields).entries ↔ e ∈ fields.entries) := by
    rintro ⟨key, value⟩ hkey
    have hne : ∀ name, isAnalysisKey name = false → key ≠ name := by
      rintro name hname rfl
      exact absurd (hname.symm.trans hkey) (by decide)
    have hid : key ≠ "_id" := hne "_id" (by decide)
    have huid : key ≠ "uid" := hne "uid" (by decide)
    rw [Dict.mem_entries_iff, Dict.mem_entries_iff, get?_renameId hid huid]
  constructor
  · intro h e he hresult
    obtain ⟨hmem, hkey⟩ := List.mem_filter.mp he
    exact h e ((hentry e hkey).mp hmem) hresult
  · intro h e he hresult
    have hkey : isAnalysisKey e.1 = true := (Bool.and_eq_true_iff.mp hresult).1
    exact h e (List.mem_filter.mpr ⟨(hentry e hkey).mpr he, hkey⟩) hresult

theorem usedEntry_eq {e : String × PyVal} (h : isAnalysisKey e.1 = false) :
    usedEntry env e = e := by
  rw [usedEntry, isResultKey, h]
  rfl

theorem filter_usedEntry (env : QueryEnv) (p : String → Bool) (es : List (String × PyVal)) :
    (es.map (usedEntry env)).filter (fun e => p e.1) =
      (es.filter fun e => p e.1).map (usedEntry env) :=
  List.filter_map

/-- The conditions on the columns of the other tables are not written to. -/
theorem getSearchKeysFromDict_used (env : QueryEnv) (fields : Dict String PyVal)
    {columns : List String} (blacklist : List String)
    (h : ∀ key ∈ columns, isAnalysisKey key = false) :
    getSearchKeysFromDict (usedFields env fields) columns blacklist =
      getSearchKeysFromDict (renameId fields) columns blacklist := by
  show ((renameId fields).entries.map (usedEntry env)).filter
    (fun e => decide (e.1 ∉ blacklist ∧ e.1 ∈ columns)) = _
  rw [filter_usedEntry env fun key => decide (key ∉ blacklist ∧ key ∈ columns)]
  refine (List.map_congr_left fun e he => ?_).trans (List.map_id _)
  have hin := of_decide_eq_true (List.mem_filter.mp he).2
  exact usedEntry_eq (h e.1 hin.2)

/-- An analysis filter that is converted again. -/
theorem analysisFilter_used (hdumps : ∀ s, env.dumps (.str s) ≠ s) (hjoin : select.analysis = true)
    {e : String × PyVal} {r : String × SqlAtom} (hkey : isAnalysisKey e.1 = true)
    (h : analysisCondition env e = .ok r) :
    ∃ r', analysisCondition env (usedEntry env e) = .ok r' ∧
      (r = r' ↔ (isResultKey env e.1 = true → KeepsOperand e)) ∧
      (SelectSame (select.only [r.2, .plugin r.1]) (select.only [r'.2, .plugin r'.1]) ↔
        (isResultKey env e.1 = true → KeepsOperand e)) := by
  obtain ⟨r', hr', hplugin, hagain⟩ := analysisCondition_used hdumps hkey h
  refine ⟨r', hr', ?_⟩
  rcases hagain with ⟨hkeeps, hatom⟩ | ⟨hnot, hother⟩
  · have hsame : r = r' := Prod.ext hplugin.symm hatom.symm
    refine ⟨iff_of_true hsame hkeeps, iff_of_true ?_ hkeeps⟩
    rw [hsame]
    exact .refl _
  · rw [hplugin]
    refine ⟨iff_of_false ?_ hnot, iff_of_false ?_ hnot⟩
    · rintro rfl
      obtain ⟨c, k, k', hk, hk', hne, -⟩ := hother
      rw [hk] at hk'
      cases hk'
      exact hne rfl
    · exact not_selectSame hjoin (analysisCondition_over h) hother

/-- The filters on analyses come first. If the others are the same, each of these means the same. -/
theorem SameMeaning.analysisFilters {rs rs' : List (String × SqlAtom)} {rest : List (List SqlAtom)}
    (hfilters : select.filters = (rs.map fun f => [f.2, .plugin f.1]) ++ rest)
    (h : SameMeaning select
      { select with filters := (rs'.map fun f => [f.2, .plugin f.1]) ++ rest }) :
    List.Forall₂ (fun r r' => SelectSame (select.only [r.2, .plugin r.1])
      (select.only [r'.2, .plugin r'.1])) rs rs' := by
  have hpairs := h.filters
  have hlength := hpairs.length_eq
  rw [hfilters] at hpairs hlength
  simp only [List.length_append, List.length_map, Nat.add_right_cancel_iff] at hlength
  have htake := List.forall₂_take_append _ _ _ hpairs
  rwa [List.length_map, ← hlength, List.take_left' (List.length_map _), List.forall₂_map_left_iff,
    List.forall₂_map_right_iff] at htake

/-- The query is converted again without an error. It means the same exactly if it keeps its
operands. -/
theorem buildQuery_used (hdumps : ∀ s, env.dumps (.str s) ≠ s) {d : QueryDict}
    (h : buildQueryFromDict env fwOnly orQuery d = .ok select) :
    ∃ select', buildQueryFromDict env fwOnly orQuery (d.used env) = .ok select' ∧
      (SameMeaning select select' ↔ d.KeepsOperands env) := by
  induction d generalizing orQuery with
  | withOr fields below ih => exact ih h
  | plain fields =>
    unfold buildQueryFromDict at h
    obtain ⟨rs, hrs, h⟩ := except_bind_eq_ok h
    obtain ⟨fs, hfs, h⟩ := except_bind_eq_ok h
    obtain ⟨os, hos, h⟩ := except_bind_eq_ok h
    have hselect := Except.ok.inj h
    have hstep : ∀ e ∈ (renameId fields).entries.filter fun e => isAnalysisKey e.1, ∀ r,
        analysisCondition env e = .ok r → ∃ r', analysisCondition env (usedEntry env e) = .ok r' ∧
          (r = r' ↔ (isResultKey env e.1 = true → KeepsOperand e)) ∧
          (SelectSame (select.only [r.2, .plugin r.1]) (select.only [r'.2, .plugin r'.1]) ↔
            (isResultKey env e.1 = true → KeepsOperand e)) := by
      intro e he r hr
      refine analysisFilter_used hdumps ?_ (List.mem_filter.mp he).2 hr
      rw [← hselect]
      exact not_isEmpty_iff.mpr ⟨e, he⟩
    obtain ⟨rs', hrs', hsame⟩ := exists_mapM_map_iff
      (fun e he r hr => (hstep e he r hr).imp fun r' h => ⟨h.1, h.2.1⟩) hrs
    obtain ⟨rs'', hrs'', hmeaning⟩ := exists_mapM_map_iff
      (fun e he r hr => (hstep e he r hr).imp fun r' h => ⟨h.1, h.2.2⟩) hrs
    obtain rfl : rs' = rs'' := Except.ok.inj (hrs'.symm.trans hrs'')
    rw [← keepsOperands_iff] at hsame hmeaning
    have hanalysis : (usedFields env fields).entries.filter (fun e => isAnalysisKey e.1) =
          ((renameId fields).entries.filter fun e => isAnalysisKey e.1).map (usedEntry env) :=
      filter_usedEntry env isAnalysisKey _
    let rest : List (List SqlAtom) := fs.map ([·]) ++ os.map ([·])
    have hfilters : select.filters = (rs.map fun f => [f.2, .plugin f.1]) ++ rest := by
      rw [← hselect, ← List.append_assoc]
    refine ⟨{ select with filters := (rs'.map fun f => [f.2, .plugin f.1]) ++ rest }, ?_, ?_⟩
    · have hfirmware := getSearchKeysFromDict_used env fields ["uid"] fun key hkey =>
        not_isAnalysisKey key (List.mem_append_right _ hkey)
      have hfile := getSearchKeysFromDict_used env fields [] fun key hkey =>
        not_isAnalysisKey key (List.mem_append_left _ hkey)
      simp only [QueryDict.used, buildQueryFromDict, renameId_eq (not_mem_usedFields env fields),
        hanalysis, hrs', hfirmware, hfs, hfile, hos, List.isEmpty_map, ← hselect, rest,
        ← List.append_assoc]
      rfl
    · refine ⟨fun h => hmeaning.mp (h.analysisFilters hfilters), fun hkeeps => ?_⟩
      have heq := hsame.mpr hkeeps
      rw [List.forall₂_eq_eq_eq] at heq
      rw [← heq, ← hfilters]
      exact .refl select

end Queries

end FactCore
