import FactCore.Storage.SearchOperators

/-!
# How a search condition is read

A condition is read as one comparison, which is mostly the one that is meant. It is not
- for a path that is the name of an attribute of the class `AnalysisEntry`,
- for operators on the metadata of an analysis, which is compared with the dict,
- for several operators, of which one is taken.

Results:
1. `rowFilterOf_entry`: the entry of a condition is converted field by field.
2. `SearchCondition.readAs_iff_convert`: to what the condition is read as.
3. `SearchCondition.reads_iff_holds`: a condition that is not misread is read as it is
   meant.
-/

namespace FactCore

/-! ## 1. Fields -/

namespace SearchField

/-- The conversion of the value, by the table of the field. -/
def convert (env : QueryEnv) (f : SearchField) (value : PyVal) : Except QueryError SqlAtom :=
  match f with
  | .fileObject column => fileObjectCondition (column, value)
  | .firmware column => firmwareCondition (column, value)
  | .analysis _ path => addAnalysisFilter env f.key value (subkeyOf path)

/-- The filter on a row of the table of the field. -/
def filter (f : SearchField) (atom : SqlAtom) : RowFilter :=
  match f with
  | .fileObject _ => .fileObject atom
  | .firmware _ => .firmware atom
  | .analysis plugin _ => .analysis plugin atom

/-- The path is the name of an attribute of the class `AnalysisEntry`, which is no column. -/
def IsAttribute (env : QueryEnv) : SearchField → Prop
  | .analysis _ path => ∃ name, path = [name] ∧ name ∉ analysisColumns ∧
      (name = "file_object" ∨ (env.attributes name).isSome)
  | _ => False

/-- The field is the relation of the class `AnalysisEntry`. -/
def IsRelation (f : SearchField) : Prop := ∃ plugin, f = .analysis plugin ["file_object"]

/-- The field is metadata of an analysis that is no array. -/
def IsMetadata : SearchField → Prop
  | .analysis _ path => ∃ name, path = [name] ∧ name ∈ analysisColumns ∧ name ≠ "summary"
  | _ => False

end SearchField

namespace SearchCondition

/-- The condition is not read as it is meant. -/
def Misread (env : QueryEnv) (c : SearchCondition) : Prop :=
  c.field.IsAttribute env ∨
    ∃ ts, c.value = .operators ts ∧ (c.field.IsMetadata ∨ 1 < ts.length)

/-- The conversion raises an exception: a relation is compared with a value. -/
def Raises (c : SearchCondition) : Prop := c.field.IsRelation ∧ c.value ≠ .plain .none

/-- The comparison that a condition is read as. -/
inductive ReadAs (env : QueryEnv) : SearchCondition → SqlAtom → Prop
  /-- A relation is NULL if its foreign key is. -/
  | relation {plugin : String} :
      ReadAs env ⟨.analysis plugin ["file_object"], .plain .none⟩
        (.compare (.column .analysis "uid") .isNull)
  /-- Another attribute is compared by Python. -/
  | classAttribute {plugin name : String} {value : FieldValue} {attributeEq : PyVal → Bool} :
      name ∉ analysisColumns → name ≠ "file_object" → env.attributes name = some attributeEq →
      ReadAs env ⟨.analysis plugin [name], value⟩ (.decided (attributeEq value.toPy))
  /-- Metadata is compared with the dict of the operators. -/
  | metadata {field : SearchField} {ts : List (Operator × PyVal)} : field.IsMetadata →
      ReadAs env ⟨field, .operators ts⟩ (.compare field.column (.eq (FieldValue.operators ts).toPy))
  | plain {field : SearchField} {value : PyVal} {atom : SqlAtom} : ¬ field.IsAttribute env →
      field.plainTest value = some atom → ReadAs env ⟨field, .plain value⟩ atom
  /-- One of the operators is taken. -/
  | operators {field : SearchField} {ts : List (Operator × PyVal)} {operator : Operator}
      {operand : PyVal} {atom : SqlAtom} : ¬ field.IsAttribute env → ¬ field.IsMetadata →
      firstOperator ts = some operator → (operator, operand) ∈ ts →
      field.operatorTest env.dumps operator operand = some atom →
      ReadAs env ⟨field, .operators ts⟩ atom

/-- The condition, as it is read, is true for an object. -/
def Reads {C : Type} (c : SearchCondition) (env : QueryEnv) (engine : SqlEngine C) (db : SearchDb C)
    (uid : String) : Prop :=
  ∃ row atom, c.field.row db uid = some row ∧ c.ReadAs env atom ∧ atom.eval engine row = some true

/-- The condition looks for NULL in a column of `firmware`. -/
def LooksForNull (c : SearchCondition) : Prop :=
  ∃ column, c.field = .firmware column ∧ column ≠ "firmware_tags" ∧ c.value = .plain .none

end SearchCondition

section Conversion
variable {env : QueryEnv} {f : SearchField} {value : PyVal} {atom : SqlAtom}
  {ts : List (Operator × PyVal)} {C : Type} {engine : SqlEngine C} {db : SearchDb C} {uid : String}

theorem analysisCondition_key {plugin : String} {path : List String}
    (hvalid : (SearchField.analysis plugin path).Valid) :
    analysisCondition env ((SearchField.analysis plugin path).key, value) =
      ((SearchField.analysis plugin path).convert env value).map fun atom => (plugin, atom) := by
  unfold analysisCondition
  dsimp only
  rw [splitAnalysisKey_key hvalid, SearchField.convert]
  change (addAnalysisFilter env (SearchField.analysis plugin path).key value (subkeyOf path) >>=
    fun atom => pure (plugin, atom)) = _
  cases addAnalysisFilter env (SearchField.analysis plugin path).key value (subkeyOf path) <;> rfl

/-- The entry of a condition is converted field by field. -/
theorem rowFilterOf_entry (hvalid : f.Valid) :
    rowFilterOf env (f.key, value) = (f.convert env value).map f.filter := by
  cases f with
  | fileObject column =>
    have hkey : ¬ isAnalysisKey column = true := by
      rw [not_isAnalysisKey column (List.mem_append_left _ hvalid)]
      decide
    have hnot : ¬ (column ≠ "uid" ∧ column ∈ firmwareColumns) := fun h =>
      h.1 (firmware_not_fileObject column h.2 hvalid)
    exact (if_neg hkey).trans ((if_neg hnot).trans (if_pos hvalid))
  | firmware column =>
    have hkey : ¬ isAnalysisKey column = true := by
      rw [not_isAnalysisKey column (List.mem_append_right _ hvalid.1)]
      decide
    exact (if_neg hkey).trans (if_pos ⟨hvalid.2, hvalid.1⟩)
  | analysis plugin path =>
    refine (if_pos (isAnalysisKey_key plugin hvalid.1)).trans ?_
    rw [analysisCondition_key hvalid]
    cases SearchField.convert env (.analysis plugin path) value <;> rfl

theorem filter_holds : (f.filter atom).Holds engine db uid ↔
    ∃ row, f.row db uid = some row ∧ atom.eval engine row = some true := by
  cases f <;>
    simp only [SearchField.filter, RowFilter.Holds, SearchField.row, Option.map_eq_some_iff,
      exists_exists_and_eq_and]

/-! What the conversion of a field is. -/

theorem convert_relation (plugin : String) :
    (SearchField.analysis plugin ["file_object"]).convert env value = relationEq value := by
  have hsummary : "file_object" ≠ "summary" := by decide
  have hcolumn : "file_object" ∉ analysisColumns := by decide
  rw [SearchField.convert, subkeyOf_singleton, addAnalysisFilter, if_neg hsummary, if_neg hcolumn,
    if_pos rfl]

theorem convert_attribute {plugin name : String} {attributeEq : PyVal → Bool}
    (hcolumn : name ∉ analysisColumns) (hrelation : name ≠ "file_object")
    (hattr : env.attributes name = some attributeEq) :
    (SearchField.analysis plugin [name]).convert env value = .ok (.decided (attributeEq value)) := by
  have hsummary : name ≠ "summary" := by
    rintro rfl
    exact hcolumn (by decide)
  rw [SearchField.convert, subkeyOf_singleton, addAnalysisFilter, if_neg hsummary, if_neg hcolumn,
    if_neg hrelation, hattr]

theorem convert_metadata (hmeta : f.IsMetadata) :
    f.convert env value = .ok (columnEq f.column value) := by
  cases f with
  | fileObject => exact hmeta.elim
  | firmware => exact hmeta.elim
  | analysis plugin path =>
    obtain ⟨name, rfl, hname, hsummary⟩ := hmeta
    rw [SearchField.convert, subkeyOf_singleton, addAnalysisFilter, if_neg hsummary, if_pos hname,
      SearchField.column, SearchField.metadata, if_pos hname]

/-- A path of one name that is no column is looked up in the result. -/
theorem convert_name {plugin name : String} (hcolumn : name ∉ analysisColumns)
    (hattr : ¬ (SearchField.analysis plugin [name]).IsAttribute env) :
    SearchField.metadata [name] = none ∧
      (SearchField.analysis plugin [name]).convert env value =
        addJsonFilter env (SearchField.analysis plugin [name]).key value (subkeyOf [name]) := by
  have hnot : ¬ (name = "file_object" ∨ (env.attributes name).isSome) := fun h =>
    hattr ⟨name, rfl, hcolumn, h⟩
  obtain ⟨hrelation, hnone⟩ := not_or.mp hnot
  have hsummary : name ≠ "summary" := by
    rintro rfl
    exact hcolumn (by decide)
  refine ⟨if_neg hcolumn, ?_⟩
  rw [SearchField.convert, subkeyOf_singleton, addAnalysisFilter, if_neg hsummary,
    if_neg hcolumn, if_neg hrelation, Option.not_isSome_iff_eq_none.mp hnone]

/-- A longer path has a dot, so it names neither a column nor an attribute. -/
theorem convert_path {plugin : String} {path : List String} (hpath : path ≠ [])
    (hlong : ∀ name, path ≠ [name]) :
    SearchField.metadata path = none ∧
      (SearchField.analysis plugin path).convert env value =
        addJsonFilter env (SearchField.analysis plugin path).key value (subkeyOf path) := by
  have hdot := dot_mem_subkeyOf hpath hlong
  have hnames : ∀ name ∈ "file_object" :: analysisColumns, '.' ∉ name.toList := by decide
  have hcolumn : subkeyOf path ∉ analysisColumns := fun hin =>
    hnames _ (List.mem_cons_of_mem _ hin) hdot
  have hsummary : subkeyOf path ≠ "summary" := fun heq => hcolumn (heq ▸ by decide)
  have hrelation : subkeyOf path ≠ "file_object" := fun heq =>
    hnames _ List.mem_cons_self (heq ▸ hdot)
  constructor
  · unfold SearchField.metadata
    split
    · next name => exact absurd rfl (hlong name)
    · rfl
  · rw [SearchField.convert, addAnalysisFilter, if_neg hsummary, if_neg hcolumn,
      if_neg hrelation, env.attributes_dot _ hdot]

/-- The other fields, by their kind. -/
theorem convert_kind (hvalid : f.Valid) (hattr : ¬ f.IsAttribute env) (hmeta : ¬ f.IsMetadata) :
    (f.kind = .scalar ∧ f.convert env value = dictKeyToFilter f.column f.key value) ∨
      (f.kind = .array ∧ f.convert env value = getArrayFilter f.column f.key value) ∨
      ∃ path, f.kind = .json ∧ f.column = path.foldl .index (.column .analysis "result") ∧
        splitDots (subkeyOf path) = path ∧
        f.convert env value = addJsonFilter env f.key value (subkeyOf path) := by
  cases f with
  | fileObject column =>
    have hdate : ∀ column ∈ fileObjectColumns, column ≠ "release_date" := by decide
    refine .inl ⟨rfl, ?_⟩
    rw [SearchField.convert, fileObjectCondition, getColumn, if_neg (hdate column hvalid)]
    rfl
  | firmware column =>
    by_cases htags : column = "firmware_tags"
    · subst htags
      exact .inr (.inl ⟨rfl, rfl⟩)
    · refine .inl ⟨if_neg htags, ?_⟩
      rw [SearchField.convert, firmwareCondition, if_neg htags]
      rfl
  | analysis plugin path =>
    obtain ⟨hpath, hdots⟩ := hvalid
    have hsplit := splitDots_subkeyOf hpath fun name hname =>
      hdots name (List.mem_cons_of_mem _ hname)
    by_cases hsummary : path = ["summary"]
    · subst hsummary
      refine .inr (.inl ⟨rfl, ?_⟩)
      rw [SearchField.convert, subkeyOf_singleton]
      rfl
    · have hjson : SearchField.metadata path = none ∧
          (SearchField.analysis plugin path).convert env value =
            addJsonFilter env (SearchField.analysis plugin path).key value (subkeyOf path) := by
        by_cases hsingle : ∃ name, path = [name]
        · obtain ⟨name, rfl⟩ := hsingle
          refine convert_name (fun hcolumn => hmeta ⟨name, rfl, hcolumn, ?_⟩) hattr
          rintro rfl
          exact hsummary rfl
        · exact convert_path hpath (not_exists.mp hsingle)
      obtain ⟨hmetadata, hconvert⟩ := hjson
      refine .inr (.inr ⟨path, ?_, ?_, hsplit, hconvert⟩)
      · rw [SearchField.kind, hmetadata]
      · rw [SearchField.column, hmetadata]

theorem kind_metadata (hmeta : f.IsMetadata) : f.kind = .scalar := by
  cases f with
  | fileObject => exact hmeta.elim
  | firmware => exact hmeta.elim
  | analysis plugin path =>
    obtain ⟨name, rfl, hname, hsummary⟩ := hmeta
    have hmetadata : SearchField.metadata [name] = some name := if_pos hname
    rw [SearchField.kind, hmetadata]
    exact if_neg hsummary

/-- A value is tested for as it is meant. -/
theorem convert_plain (hvalid : f.Valid) (hattr : ¬ f.IsAttribute env)
    (htest : f.plainTest value = some atom) : f.convert env value = .ok atom := by
  have hdict : ∀ entries, value ≠ .dict entries := by
    rintro entries rfl
    cases htest
  have hsome : f.plainTest value = some (f.valueTest value) := by
    cases value with
    | dict entries => exact absurd rfl (hdict entries)
    | _ => rfl
  rw [← Option.some.inj (hsome.symm.trans htest)]
  unfold SearchField.valueTest
  by_cases hmeta : f.IsMetadata
  · rw [kind_metadata hmeta]
    exact convert_metadata hmeta
  rcases convert_kind hvalid hattr hmeta with
    ⟨hkind, hconvert⟩ | ⟨hkind, hconvert⟩ | ⟨path, hkind, hcolumn, hsplit, hconvert⟩ <;>
    rw [hkind, hconvert]
  · cases value with
    | dict entries => exact absurd rfl (hdict entries)
    | _ => rfl
  · cases value with
    | dict entries => exact absurd rfl (hdict entries)
    | _ => rfl
  · unfold addJsonFilter
    rw [hsplit, hcolumn]
    cases value with
    | dict entries => exact absurd rfl (hdict entries)
    | _ => rfl

/-- Of several operators the first one is tested for. -/
theorem convert_operators {operator : Operator} {operand : PyVal} (hvalid : f.Valid)
    (hattr : ¬ f.IsAttribute env) (hmeta : ¬ f.IsMetadata) (hnodup : (ts.map Prod.fst).Nodup)
    (hfirst : firstOperator ts = some operator) (ht : (operator, operand) ∈ ts)
    (htest : f.operatorTest env.dumps operator operand = some atom) :
    f.convert env (.dict (operatorEntries ts)) = .ok atom := by
  unfold SearchField.operatorTest at htest
  rcases convert_kind hvalid hattr hmeta with
    ⟨hkind, hconvert⟩ | ⟨hkind, hconvert⟩ | ⟨path, hkind, hcolumn, hsplit, hconvert⟩ <;>
    rw [hconvert] <;> simp only [hkind] at htest
  · exact operatorFilter_column _ hnodup hfirst ht htest
  · exact getArrayFilter_operators hnodup hfirst ht htest
  · have hexists : (PyVal.dict (operatorEntries ts)).hasKey "$exists" = false :=
      not_hasKey rfl (by decide)
    unfold addJsonFilter
    simp only [hsplit, hexists, Bool.false_eq_true, if_false, ← hcolumn]
    exact operatorFilter_json hnodup hfirst ht htest

end Conversion

/-! ## 2. Conditions -/

namespace SearchCondition

section Reading
variable {env : QueryEnv} {c : SearchCondition} {atom : SqlAtom} {C : Type} {engine : SqlEngine C}
  {db : SearchDb C} {uid : String}

theorem Raises.isAttribute (h : c.Raises) : c.field.IsAttribute env := by
  obtain ⟨⟨plugin, hfield⟩, -⟩ := h
  rw [hfield]
  exact ⟨"file_object", rfl, by decide, .inl rfl⟩

/-- A condition is converted to what it is read as. -/
theorem ReadAs.convert (h : c.ReadAs env atom) (hvalid : c.Valid env.dumps) :
    c.field.convert env c.value.toPy = .ok atom := by
  cases h with
  | @relation plugin => exact convert_relation plugin
  | classAttribute hcolumn hrelation hattr => exact convert_attribute hcolumn hrelation hattr
  | metadata hmeta => exact convert_metadata hmeta
  | plain hattr htest => exact convert_plain hvalid.field hattr htest
  | @operators field ts operator operand atom hattr hmeta hfirst ht htest =>
    obtain ⟨-, hnodup⟩ := hvalid.operators ts rfl
    exact convert_operators hvalid.field hattr hmeta hnodup hfirst ht htest

/-- Everything but the comparison of a relation with a value is read as something. -/
theorem exists_readAs (hvalid : c.Valid env.dumps) (hraise : ¬ c.Raises) :
    ∃ atom, c.ReadAs env atom := by
  obtain ⟨field, value⟩ := c
  by_cases hattr : field.IsAttribute env
  · cases field with
    | fileObject => exact hattr.elim
    | firmware => exact hattr.elim
    | analysis plugin path =>
      obtain ⟨name, rfl, hcolumn, hname⟩ := hattr
      by_cases hrelation : name = "file_object"
      · subst hrelation
        obtain rfl : value = .plain .none := by
          by_contra hvalue
          exact hraise ⟨⟨plugin, rfl⟩, hvalue⟩
        exact ⟨_, .relation⟩
      · obtain ⟨attributeEq, hattr⟩ := Option.isSome_iff_exists.mp (hname.resolve_left hrelation)
        exact ⟨_, .classAttribute hcolumn hrelation hattr⟩
  · have htests := hvalid.tests
    unfold tests at htests
    cases value with
    | plain value =>
      rw [Option.isSome_map] at htests
      obtain ⟨atom, hatom⟩ := Option.isSome_iff_exists.mp htests
      exact ⟨atom, .plain hattr hatom⟩
    | operators ts =>
      by_cases hmeta : field.IsMetadata
      · exact ⟨_, .metadata hmeta⟩
      · obtain ⟨hne, -⟩ := hvalid.operators ts rfl
        obtain ⟨operator, hfirst⟩ := exists_firstOperator hne
        obtain ⟨operand, ht⟩ := mem_of_firstOperator hfirst
        obtain ⟨atom, hatom⟩ := exists_of_mapM_isSome htests _ ht
        exact ⟨atom, .operators hattr hmeta hfirst ht hatom⟩

theorem Raises.convert (h : c.Raises) :
    c.field.convert env c.value.toPy = .error (.argument c.value.toPy) := by
  obtain ⟨⟨plugin, hfield⟩, hvalue⟩ := h
  rw [hfield, convert_relation]
  cases hpy : c.value.toPy with
  | none =>
    cases hplain : c.value with
    | operators ts => rw [hplain] at hpy; cases hpy
    | plain value =>
      rw [hplain] at hpy hvalue
      exact absurd (congrArg FieldValue.plain hpy) hvalue
  | _ => rfl

/-- Only the comparison with a relation raises an exception. -/
theorem convert_ok_iff (hvalid : c.Valid env.dumps) :
    (∃ atom, c.field.convert env c.value.toPy = .ok atom) ↔ ¬ c.Raises := by
  constructor
  · rintro ⟨atom, hconvert⟩ hraise
    cases hraise.convert.symm.trans hconvert
  · intro hraise
    obtain ⟨atom, hatom⟩ := exists_readAs hvalid hraise
    exact ⟨atom, hatom.convert hvalid⟩

theorem readAs_iff_convert (hvalid : c.Valid env.dumps) :
    c.ReadAs env atom ↔ c.field.convert env c.value.toPy = .ok atom := by
  refine ⟨fun h => h.convert hvalid, fun hconvert => ?_⟩
  obtain ⟨atom', hatom⟩ := exists_readAs hvalid ((convert_ok_iff hvalid).mp ⟨atom, hconvert⟩)
  obtain rfl := Except.ok.inj ((hatom.convert hvalid).symm.trans hconvert)
  exact hatom

theorem rowFilterOf_eq (hvalid : c.Valid env.dumps)
    (hconvert : c.field.convert env c.value.toPy = .ok atom) :
    rowFilterOf env c.entry = .ok (c.field.filter atom) := by
  rw [entry, rowFilterOf_entry hvalid.field, hconvert]
  rfl

theorem reads_iff (hvalid : c.Valid env.dumps)
    (hconvert : c.field.convert env c.value.toPy = .ok atom) :
    c.Reads env engine db uid ↔
      ∃ row, c.field.row db uid = some row ∧ atom.eval engine row = some true := by
  constructor
  · rintro ⟨row, atom', hrow, hread, heval⟩
    obtain rfl := Except.ok.inj ((hread.convert hvalid).symm.trans hconvert)
    exact ⟨row, hrow, heval⟩
  · rintro ⟨row, hrow, heval⟩
    exact ⟨row, atom, hrow, (readAs_iff_convert hvalid).mpr hconvert, heval⟩

/-- A condition that is not misread is read as its only test. -/
theorem ReadAs.tests (h : c.ReadAs env atom) (hread : ¬ c.Misread env) :
    c.tests env.dumps = some [atom] := by
  obtain ⟨hattr, hoperators⟩ := not_or.mp hread
  unfold SearchCondition.tests
  cases h with
  | relation => exact absurd ⟨_, rfl, by decide, .inl rfl⟩ hattr
  | classAttribute hcolumn _ hattr' =>
    exact absurd ⟨_, rfl, hcolumn, .inr (Option.isSome_iff_exists.mpr ⟨_, hattr'⟩)⟩ hattr
  | metadata hmeta => exact absurd ⟨_, rfl, .inl hmeta⟩ hoperators
  | plain _ htest => simp only [htest, Option.map_some]
  | @operators field ts operator operand atom _ _ _ ht htest =>
    -- there is one operator
    match ts, ht with
    | [t], ht =>
      obtain rfl := List.mem_singleton.mp ht
      simp only [List.mapM_cons, List.mapM_nil, htest]
      rfl
    | _ :: _ :: _, _ => exact absurd ⟨_, rfl, .inr (by simp)⟩ hoperators

/-- A condition that is not misread is read as it is meant. -/
theorem reads_iff_holds (hvalid : c.Valid env.dumps) (hread : ¬ c.Misread env) :
    c.Reads env engine db uid ↔ c.Holds env.dumps engine db uid := by
  obtain ⟨atom, hatom⟩ := exists_readAs hvalid fun hraise => hread (.inl hraise.isAttribute)
  have htests := hatom.tests hread
  rw [reads_iff hvalid (hatom.convert hvalid), Holds]
  constructor
  · rintro ⟨row, hrow, heval⟩
    exact ⟨row, [atom], hrow, htests, List.forall_mem_singleton.mpr heval⟩
  · rintro ⟨row, atoms, hrow, hatoms, heval⟩
    obtain rfl := Option.some.inj (htests.symm.trans hatoms)
    exact ⟨row, hrow, heval atom (List.mem_singleton_self _)⟩

theorem accepted_eq {col : SqlColumn} {comparison : SqlComparison}
    (h : accepted col comparison = some atom) : atom = .compare col comparison := by
  unfold accepted at h
  split at h
  · exact (Option.some.inj h).symm
  · cases h

/-- An operator does not look for NULL. -/
theorem operatorTest_ne_isNull {f : SearchField} {dumps : PyVal → String} {operator : Operator}
    {operand : PyVal} {col : SqlColumn} :
    f.operatorTest dumps operator operand ≠ some (.compare col .isNull) := by
  intro h
  unfold SearchField.operatorTest at h
  split at h
  · cases operator with
    | like | contains | overlap => cases h
    | isIn | lt | gt => cases accepted_eq h
  · cases operator <;> cases h
  · cases operator with
    | isIn => cases accepted_eq h
    | _ => cases h

/-- A filter on `firmware` looks for NULL if the condition does. -/
theorem isNull_iff {column : String} {col : SqlColumn} {comparison : SqlComparison}
    (hvalid : c.Valid env.dumps) (hfield : c.field = .firmware column)
    (hconvert : c.field.convert env c.value.toPy = .ok (.compare col comparison)) :
    comparison = .isNull ↔ c.LooksForNull := by
  obtain ⟨field, value⟩ := c
  obtain rfl : field = .firmware column := hfield
  cases (readAs_iff_convert hvalid).mpr hconvert with
  | metadata hmeta => exact hmeta.elim
  | @plain _ value _ _ htest =>
    by_cases htags : column = "firmware_tags"
    · subst htags
      refine iff_of_false ?_ ?_
      · rintro rfl
        cases value <;> cases htest
      · rintro ⟨column', hcolumn, hnot, -⟩
        exact hnot (SearchField.firmware.inj hcolumn).symm
    · have hkind : (SearchField.firmware column).kind = .scalar := if_neg htags
      constructor
      · rintro rfl
        refine ⟨column, rfl, htags, congrArg FieldValue.plain ?_⟩
        cases value with
        | none => rfl
        | dict entries => cases htest
        | _ => simp [SearchField.plainTest, SearchField.valueTest, hkind, columnEq] at htest
      · rintro ⟨column', -, -, hnone⟩
        obtain rfl := FieldValue.plain.inj hnone
        simp only [SearchField.plainTest, SearchField.valueTest, hkind, columnEq, Option.some.injEq,
          SqlAtom.compare.injEq] at htest
        exact htest.2.symm
  | operators _ _ _ _ htest =>
    refine iff_of_false ?_ ?_
    · rintro rfl
      exact operatorTest_ne_isNull htest
    · rintro ⟨column', -, -, hnone⟩
      cases hnone

end Reading

end SearchCondition

end FactCore
