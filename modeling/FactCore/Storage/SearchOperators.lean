import FactCore.Storage.SearchBuild
import Mathlib.Data.List.TakeDrop

/-!
# Keys and operators of a query

The key of an analysis field is split into the plugin and the path again. Of several
operators in one dict the conversion takes the first one of a fixed list. In JSON the
operands before an operator for text are sent as JSON, but then one for text is taken.

Results:
1. `splitAnalysisKey_key`, `splitDots_subkeyOf`: the parts of a key.
2. `operatorFilter_column`, `getArrayFilter_operators`, `operatorFilter_json`: the first
   operator is taken.
-/

namespace FactCore

/-! ## 1. Keys -/

theorem splitFirst_append {first rest : List Char} (h : '.' ∉ first) :
    splitFirst (first ++ '.' :: rest) = some (first, rest) := by
  have hall : ∀ x ∈ first, decide (x ≠ '.') = true := fun x hx =>
    decide_eq_true fun heq => h (heq ▸ hx)
  unfold splitFirst
  rw [List.span_eq_takeWhile_dropWhile, List.takeWhile_append_of_pos hall,
    List.dropWhile_append_of_pos hall]
  simp

/-- The rest of a key, after the plugin. -/
def subkeyOf (path : List String) : String := ".".intercalate path

section Keys
variable {plugin : String} {path : List String} {key name : String}

theorem toList_analysisKey (plugin : String) (hpath : path ≠ []) :
    (SearchField.analysis plugin path).key.toList =
      "processed_analysis".toList ++ '.' :: (plugin.toList ++ '.' :: (subkeyOf path).toList) := by
  obtain ⟨name, path, rfl⟩ := List.exists_cons_of_ne_nil hpath
  rw [SearchField.key, subkeyOf, String.toList_intercalate, String.toList_intercalate]
  simp only [List.map_cons, List.intercalate_cons_cons]
  simp

theorem splitAnalysisKey_key (h : (SearchField.analysis plugin path).Valid) :
    splitAnalysisKey (SearchField.analysis plugin path).key = .ok (plugin, subkeyOf path) := by
  obtain ⟨hpath, hdots⟩ := h
  have hfirst : '.' ∉ "processed_analysis".toList := by decide
  rw [splitAnalysisKey, toList_analysisKey plugin hpath, splitFirst_append hfirst, Option.bind_some,
    splitFirst_append (hdots plugin List.mem_cons_self)]
  simp only [String.ofList_toList]

theorem isAnalysisKey_key (plugin : String) (hpath : path ≠ []) :
    isAnalysisKey (SearchField.analysis plugin path).key = true := by
  rw [isAnalysisKey, toList_analysisKey plugin hpath]
  exact decide_eq_true (List.prefix_append _ _)

theorem splitDots_subkeyOf (hpath : path ≠ []) (hdots : ∀ name ∈ path, '.' ∉ name.toList) :
    splitDots (subkeyOf path) = path := by
  have hsplit : (subkeyOf path).toList.splitOn '.' = path.map String.toList := by
    rw [subkeyOf, String.toList_intercalate]
    refine List.splitOn_intercalate _ (fun l hl => ?_) (by simpa using hpath)
    obtain ⟨name, hname, rfl⟩ := List.mem_map.mp hl
    exact hdots name hname
  rw [splitDots, hsplit, List.map_map]
  exact (List.map_congr_left fun name _ => String.ofList_toList).trans (List.map_id _)

/-- A path of several names is no name. -/
theorem dot_mem_subkeyOf (hpath : path ≠ []) (hlong : ∀ name, path ≠ [name]) :
    '.' ∈ (subkeyOf path).toList := by
  match path, hpath, hlong with
  | [name], _, hlong => exact absurd rfl (hlong name)
  | name :: name' :: path, _, _ =>
    rw [subkeyOf, String.toList_intercalate, List.map_cons, List.map_cons,
      List.intercalate_cons_cons]
    exact List.mem_append_left _ (List.mem_append_right _ (List.mem_singleton_self _))

theorem subkeyOf_singleton (name : String) : subkeyOf [name] = name :=
  String.intercalate_singleton

end Keys

/-! ## 2. Operators -/

/-- What `_dict_key_to_filter` makes of an operator. -/
def Operator.comparison : Operator → PyVal → SqlComparison
  | .like => .like
  | .isIn => .isIn
  | .lt => .lt
  | .gt => .gt
  | .contains => .contains
  | .overlap => .overlap

/-- The operators that compare text. -/
def textOperators : List Operator := [.like, .isIn]

def columnOperators : List Operator := textOperators ++ [.lt, .gt, .contains]

/-- The operators in the order in which they are looked for. -/
def operatorOrder : List Operator := columnOperators ++ [.overlap]

/-- The operator that is looked for first. -/
def firstOperator (ts : List (Operator × PyVal)) : Option Operator :=
  operatorOrder.find? fun operator => decide (operator ∈ ts.map Prod.fst)

section Operators
variable {es : List (String × PyVal)} {ts : List (Operator × PyVal)} {c : SqlColumn} {key : String}
  {operator : Operator} {operand : PyVal} {f : SearchField} {atom : SqlAtom}

theorem Operator.name_injective : Function.Injective Operator.name := by
  intro a b h
  cases a <;> cases b <;> first | rfl | exact absurd h (by decide)

theorem hasKey_iff {n : String} : (PyVal.dict es).hasKey n = true ↔ n ∈ es.map Prod.fst := by
  rw [PyVal.hasKey, PyVal.get?, Option.isSome_iff_ne_none, ne_eq, Dict.find_eq_none_iff, not_not]

/-- The entries of the dict for operators. -/
def operatorEntries (ts : List (Operator × PyVal)) : List (String × PyVal) :=
  ts.map fun t => (t.1.name, t.2)

theorem keys_operatorEntries (ts : List (Operator × PyVal)) :
    (operatorEntries ts).map Prod.fst = ts.map fun t => t.1.name := by
  rw [operatorEntries, List.map_map]
  rfl

theorem getOrNone_operatorEntries (hnodup : (ts.map Prod.fst).Nodup)
    (ht : (operator, operand) ∈ ts) :
    (PyVal.dict (operatorEntries ts)).getOrNone operator.name = operand := by
  induction ts with
  | nil => cases ht
  | cons t ts ih =>
    obtain ⟨hnot, hnodup⟩ := List.nodup_cons.mp hnodup
    rw [PyVal.getOrNone, PyVal.get?, operatorEntries, List.map_cons, Dict.find]
    rcases List.mem_cons.mp ht with rfl | ht
    · simp
    · have hne : t.1.name ≠ operator.name := by
        intro heq
        rw [Operator.name_injective heq] at hnot
        exact hnot (List.mem_map_of_mem ht)
      simp only [hne, if_false]
      exact ih hnodup ht

theorem name_mem_operatorEntries :
    operator.name ∈ (operatorEntries ts).map Prod.fst ↔ ∃ operand, (operator, operand) ∈ ts := by
  rw [keys_operatorEntries, List.mem_map]
  constructor
  · rintro ⟨⟨operator', operand⟩, ht, hname⟩
    obtain rfl := Operator.name_injective hname
    exact ⟨operand, ht⟩
  · rintro ⟨operand, ht⟩
    exact ⟨_, ht, rfl⟩

theorem names_operatorEntries :
    ∀ n ∈ (operatorEntries ts).map Prod.fst, ∃ operator : Operator, n = operator.name := by
  intro n hn
  rw [keys_operatorEntries] at hn
  obtain ⟨t, -, rfl⟩ := List.mem_map.mp hn
  exact ⟨t.1, rfl⟩

theorem hasKey_operatorEntries (operator : Operator)
    (hkeys : es.map Prod.fst = (operatorEntries ts).map Prod.fst) :
    (PyVal.dict es).hasKey operator.name = decide (operator ∈ ts.map Prod.fst) := by
  rw [Bool.eq_iff_iff, hasKey_iff, hkeys, name_mem_operatorEntries, decide_eq_true_iff,
    List.mem_map]
  constructor
  · rintro ⟨operand, ht⟩
    exact ⟨_, ht, rfl⟩
  · rintro ⟨⟨operator', operand⟩, ht, rfl⟩
    exact ⟨operand, ht⟩

/-- The other operators of `_dict_key_to_filter` are not there. -/
theorem not_hasKey {n : String} (hkeys : es.map Prod.fst = (operatorEntries ts).map Prod.fst)
    (hn : n ∈ ["$exists", "$regex"]) : (PyVal.dict es).hasKey n = false := by
  refine Bool.eq_false_iff.mpr fun hhas => ?_
  obtain ⟨operator, rfl⟩ := names_operatorEntries n (hkeys ▸ hasKey_iff.mp hhas)
  cases operator <;> exact absurd hn (by decide)

/-! The first operator. -/

theorem mem_of_firstOperator (hfirst : firstOperator ts = some operator) :
    ∃ operand, (operator, operand) ∈ ts := by
  have hmem : operator ∈ ts.map Prod.fst := by
    simpa using List.find?_some hfirst
  obtain ⟨⟨operator', operand⟩, ht, rfl⟩ := List.mem_map.mp hmem
  exact ⟨operand, ht⟩

theorem exists_firstOperator (hne : ts ≠ []) : ∃ operator, firstOperator ts = some operator := by
  obtain ⟨t, ht⟩ := List.exists_mem_of_ne_nil ts hne
  have hall : ∀ operator : Operator, operator ∈ operatorOrder := by
    intro operator
    cases operator <;> decide
  exact Option.isSome_iff_exists.mp (List.find?_isSome.mpr
    ⟨t.1, hall _, decide_eq_true (List.mem_map_of_mem ht)⟩)

/-- The operators that are looked for before are not there. -/
theorem not_mem_of_firstOperator {first rest : List Operator} (horder : operatorOrder = first ++ rest)
    (hfirst : firstOperator ts = some operator) (hnot : operator ∉ first) :
    ∀ operator' ∈ first, operator' ∉ ts.map Prod.fst := by
  intro operator' hmem hin
  rw [firstOperator, horder, List.find?_append] at hfirst
  have hsome : (first.find? fun o => decide (o ∈ ts.map Prod.fst)).isSome :=
    List.find?_isSome.mpr ⟨operator', hmem, decide_eq_true hin⟩
  obtain ⟨operator'', hfind⟩ := Option.isSome_iff_exists.mp hsome
  rw [hfind, Option.some_or] at hfirst
  obtain rfl := Option.some.inj hfirst
  exact hnot (List.mem_of_find?_eq_some hfind)

/-- `_dict_key_to_filter` takes the first operator, unless it is `$overlap`. -/
theorem operatorFilter_first (c : SqlColumn) (key : String)
    (hkeys : es.map Prod.fst = (operatorEntries ts).map Prod.fst)
    (hfirst : firstOperator ts = some operator) (hne : operator ≠ .overlap) :
    operatorFilter c key es =
      acceptedFilter c (operator.comparison ((PyVal.dict es).getOrNone operator.name))
        ((PyVal.dict es).getOrNone operator.name) := by
  have hlist : operators key = ("$exists", fun _ => .hasKey ((splitDots key).getLastD "")) ::
      ("$regex", .regex) :: columnOperators.map fun o => (o.name, o.comparison) := rfl
  have hfind : (columnOperators.find? fun o => (PyVal.dict es).hasKey o.name) = some operator := by
    simp only [hasKey_operatorEntries _ hkeys]
    rw [firstOperator, operatorOrder, List.find?_append] at hfirst
    rcases Option.or_eq_some_iff.mp hfirst with hcolumn | ⟨-, hoverlap⟩
    · exact hcolumn
    · exact absurd (List.mem_singleton.mp (List.mem_of_find?_eq_some hoverlap)) hne
  have hexists : (PyVal.dict es).hasKey "$exists" = false := not_hasKey hkeys (by decide)
  have hregex : (PyVal.dict es).hasKey "$regex" = false := not_hasKey hkeys (by decide)
  rw [operatorFilter, hlist, List.find?_cons, hexists, List.find?_cons, hregex, List.find?_map]
  simp only [Function.comp_def, hfind]
  rfl

/-- A comparison that the database can make is built. -/
theorem acceptedFilter_eq {comparison : SqlComparison} (h : accepted c comparison = some atom) :
    acceptedFilter c comparison operand = .ok atom := by
  unfold accepted at h
  split at h
  · next hyes =>
    cases h
    exact if_pos hyes
  · cases h

theorem acceptedFilter_columnTest (h : columnTest c operator operand = some atom) :
    acceptedFilter c (operator.comparison operand) operand = .ok atom := by
  cases operator with
  | like | contains =>
    cases h
    rfl
  | isIn | lt | gt => exact acceptedFilter_eq h
  | overlap => cases h

theorem columnTest_overlap (h : columnTest c operator operand = some atom) :
    operator ≠ .overlap := by
  rintro rfl
  cases h

/-- On a column, the first operator is taken. -/
theorem operatorFilter_column (key : String) (hnodup : (ts.map Prod.fst).Nodup)
    (hfirst : firstOperator ts = some operator) (ht : (operator, operand) ∈ ts)
    (htest : columnTest c operator operand = some atom) :
    operatorFilter c key (operatorEntries ts) = .ok atom := by
  rw [operatorFilter_first c key rfl hfirst (columnTest_overlap htest),
    getOrNone_operatorEntries hnodup ht]
  exact acceptedFilter_columnTest htest

/-- On an array, the first operator is taken. -/
theorem getArrayFilter_operators (hnodup : (ts.map Prod.fst).Nodup)
    (hfirst : firstOperator ts = some operator) (ht : (operator, operand) ∈ ts)
    (htest : arrayTest c operator operand = some atom) :
    getArrayFilter c key (.dict (operatorEntries ts)) = .ok atom := by
  have hhas : (PyVal.dict (operatorEntries ts)).hasKey operator.name = true :=
    (hasKey_operatorEntries operator rfl).trans (decide_eq_true (List.mem_map_of_mem ht))
  have hregex : (PyVal.dict (operatorEntries ts)).hasKey "$regex" = false :=
    not_hasKey rfl (by decide)
  have hget := getOrNone_operatorEntries hnodup ht
  cases operator with
  | contains =>
    cases htest
    change (PyVal.dict (operatorEntries ts)).hasKey "$contains" = true at hhas
    change (PyVal.dict (operatorEntries ts)).getOrNone "$contains" = operand at hget
    simp only [getArrayFilter, hregex, hhas, hget, Bool.false_eq_true, if_false, if_true]
  | overlap =>
    cases htest
    change (PyVal.dict (operatorEntries ts)).hasKey "$overlap" = true at hhas
    change (PyVal.dict (operatorEntries ts)).getOrNone "$overlap" = operand at hget
    have hno : (PyVal.dict (operatorEntries ts)).hasKey "$contains" = false :=
      (hasKey_operatorEntries .contains rfl).trans (decide_eq_false
        (not_mem_of_firstOperator rfl hfirst (by decide) _ (by decide)))
    simp only [getArrayFilter, hregex, hno, hhas, hget, Bool.false_eq_true, if_false, if_true]
  | like | isIn | lt | gt => cases htest

/-! JSON. -/

theorem keys_dumpOperands (dumps : PyVal → String) (es : List (String × PyVal)) :
    (dumpOperands dumps es).1.map Prod.fst = es.map Prod.fst := by
  induction es with
  | nil => rfl
  | cons e es ih =>
    unfold dumpOperands
    split
    · rfl
    · exact congrArg (e.1 :: ·) ih

/-- Operands for text stay as they are. -/
theorem find_dumpOperands_text (dumps : PyVal → String) (es : List (String × PyVal)) {n : String}
    (hn : n ∈ ["$in", "$like"]) : Dict.find n (dumpOperands dumps es).1 = Dict.find n es := by
  induction es with
  | nil => rfl
  | cons e es ih =>
    unfold dumpOperands
    split
    · rfl
    · next hnot =>
      have hne : e.1 ≠ n := fun heq => hnot (heq ▸ hn)
      simp only [Dict.find, hne, if_false]
      exact ih

/-- Without operators for text, each operand is sent as JSON. -/
theorem dumpOperands_json (dumps : PyVal → String) (es : List (String × PyVal))
    (h : ∀ e ∈ es, e.1 ∉ ["$in", "$like"]) :
    dumpOperands dumps es = (es.map fun e => (e.1, .str (dumps e.2)), false) := by
  induction es with
  | nil => rfl
  | cons e es ih =>
    obtain ⟨hnot, hrest⟩ := List.forall_mem_cons.mp h
    unfold dumpOperands
    rw [if_neg hnot, ih hrest]
    rfl

theorem dumpOperands_snd (dumps : PyVal → String) (es : List (String × PyVal))
    (h : ∃ e ∈ es, e.1 ∈ ["$in", "$like"]) : (dumpOperands dumps es).2 = true := by
  induction es with
  | nil =>
    obtain ⟨e, he, -⟩ := h
    cases he
  | cons e es ih =>
    unfold dumpOperands
    split
    · rfl
    · next hnot =>
      obtain ⟨e', he', hin⟩ := h
      rcases List.mem_cons.mp he' with rfl | he'
      · exact absurd hin hnot
      · exact ih ⟨e', he', hin⟩

theorem name_mem_text : operator.name ∈ ["$in", "$like"] ↔ operator ∈ textOperators := by
  cases operator <;> decide

/-- In JSON, the first operator is taken if it is one for text. -/
theorem operatorFilter_text {dumps : PyVal → String} (hnodup : (ts.map Prod.fst).Nodup)
    (hfirst : firstOperator ts = some operator) (ht : (operator, operand) ∈ ts)
    (htest : jsonTest c dumps operator operand = some atom) (htext : operator ∈ textOperators) :
    operatorFilter (if (dumpOperands dumps (operatorEntries ts)).2 then .text c else c) key
      (dumpOperands dumps (operatorEntries ts)).1 = .ok atom := by
  have hentry : (operator.name, operand) ∈ operatorEntries ts :=
    List.mem_map.mpr ⟨(operator, operand), ht, rfl⟩
  have hne : operator ≠ .overlap := by
    rintro rfl
    cases htest
  have hget : (PyVal.dict (dumpOperands dumps (operatorEntries ts)).1).getOrNone operator.name =
      operand := by
    rw [PyVal.getOrNone, PyVal.get?, find_dumpOperands_text _ _ (name_mem_text.mpr htext)]
    exact getOrNone_operatorEntries hnodup ht
  rw [dumpOperands_snd dumps _ ⟨_, hentry, name_mem_text.mpr htext⟩, if_pos rfl,
    operatorFilter_first (.text c) key (keys_dumpOperands dumps _) hfirst hne, hget]
  cases operator with
  | like =>
    cases htest
    rfl
  | isIn => exact acceptedFilter_eq htest
  | _ => exact absurd htext (by decide)

/-- In JSON, the first operator is taken. -/
theorem operatorFilter_json {dumps : PyVal → String} (hnodup : (ts.map Prod.fst).Nodup)
    (hfirst : firstOperator ts = some operator) (ht : (operator, operand) ∈ ts)
    (htest : jsonTest c dumps operator operand = some atom) :
    operatorFilter (if (dumpOperands dumps (operatorEntries ts)).2 then .text c else c) key
      (dumpOperands dumps (operatorEntries ts)).1 = .ok atom := by
  by_cases htext : operator ∈ textOperators
  · exact operatorFilter_text hnodup hfirst ht htest htext
  -- no operator is for text, so the operands are sent as JSON
  have hnone := not_mem_of_firstOperator
    (show operatorOrder = textOperators ++ [.lt, .gt, .contains, .overlap] from rfl) hfirst htext
  have hjson : ∀ e ∈ operatorEntries ts, e.1 ∉ ["$in", "$like"] :=
    List.forall_mem_map.mpr fun t ht hin =>
      hnone t.1 (name_mem_text.mp hin) (List.mem_map_of_mem ht)
  have hsame : columnTest c operator (.str (dumps operand)) = some atom := by
    rw [← htest]
    cases operator with
    | like | isIn => exact absurd (by decide) htext
    | _ => rfl
  have hdump : dumpOperands dumps (operatorEntries ts) =
      (operatorEntries (ts.map fun t => (t.1, .str (dumps t.2))), false) := by
    rw [dumpOperands_json dumps _ hjson, operatorEntries, operatorEntries, List.map_map,
      List.map_map]
    rfl
  have hkeys : (ts.map fun t => (t.1, PyVal.str (dumps t.2))).map Prod.fst = ts.map Prod.fst := by
    rw [List.map_map]
    rfl
  have hfirst' : firstOperator (ts.map fun t => (t.1, PyVal.str (dumps t.2))) = some operator := by
    rw [firstOperator, hkeys]
    exact hfirst
  rw [hdump]
  exact operatorFilter_column key (hkeys ▸ hnodup) hfirst'
    (List.mem_map.mpr ⟨(operator, operand), ht, rfl⟩) hsame

end Operators

end FactCore
