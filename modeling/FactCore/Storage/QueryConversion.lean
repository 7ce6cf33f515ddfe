import FactCore.Lib.Dict
import FactCore.Objects

/-!
# Search queries

`src/src/storage/query_conversion.py`: a search query, which is a dict of conditions,
becomes a SELECT with joins and a WHERE clause. A key names a column of `file_object`
or `firmware`, or a path into the analysis result of a plugin; a value is what the
column should be, or a dict with an operator.

`json.dumps` is a parameter, and what Python finds on the class `AnalysisEntry` beside
the columns and the relation.

Definitions:
1. `analysisCondition`, `firmwareCondition`, `fileObjectCondition`: the filter for a key.
2. `buildQueryFromDict`: the SELECT for a query.
-/

namespace FactCore

/-! ## 1. The SELECT -/

inductive SqlTable
  | fileObject
  | firmware
  | analysis
  deriving DecidableEq

/-- An expression over the columns of one table. -/
inductive SqlColumn
  | column (table : SqlTable) (name : String)
  /-- `func.to_char(column, 'YYYY-MM-DD')`. -/
  | dateString (c : SqlColumn)
  /-- `func.array_to_string(column, ',')`. -/
  | arrayString (c : SqlColumn)
  /-- `column[key]` of a JSON column. -/
  | index (c : SqlColumn) (key : String)
  /-- `column.astext`. -/
  | text (c : SqlColumn)

/-- What a column is compared with. -/
inductive SqlComparison
  | eq (value : PyVal)
  /-- The value is sent as JSON. -/
  | eqJson (value : PyVal)
  | isNull
  | hasKey (key : String)
  | regex (value : PyVal)
  /-- `ILIKE` with the pattern `%value%`. -/
  | like (value : PyVal)
  | isIn (value : PyVal)
  | lt (value : PyVal)
  | gt (value : PyVal)
  | contains (value : PyVal)
  | overlap (value : PyVal)

inductive SqlAtom
  | compare (c : SqlColumn) (comparison : SqlComparison)
  /-- `AnalysisEntry.plugin == name`. -/
  | plugin (name : String)
  /-- A comparison that Python has decided, because the attribute is no column. -/
  | decided (value : Bool)

inductive JoinKind
  | inner
  | outer

/-- The SELECT: of `firmware` or of `file_object`, the other tables that are joined on the UID, and
the filters, each a conjunction, with AND or OR between them. -/
structure SqlSelect where
  fwOnly : Bool
  analysis : Bool
  firmware : Option JoinKind
  fileObject : Bool
  filters : List (List SqlAtom)
  anyFilter : Bool

/-! ## 2. One condition -/

/-- The dict of a search query: with or without the key `$or`. -/
inductive QueryDict
  | plain (fields : Dict String PyVal)
  | withOr (fields : Dict String PyVal) (below : QueryDict)

/-- The exceptions of a conversion: `QueryConversionException`, an analysis key without three
parts, and an operand or an operator that SQLAlchemy does not take. -/
inductive QueryError
  | unsupported (value : PyVal)
  | malformedKey (key : String)
  | argument (value : PyVal)
  /-- There is no condition for a key that is no field. -/
  | unknownField (key : String)

/-- The code that the conversion uses: `json.dumps`, and the attributes of the class
`AnalysisEntry` that are neither columns nor the relation (such as `metadata`), with what
`attribute == value` gives. -/
structure QueryEnv where
  dumps : PyVal → String
  attributes : String → Option (PyVal → Bool)
  /-- The name of an attribute has no dot. -/
  attributes_dot : ∀ name, '.' ∈ name.toList → attributes name = none

def fileObjectColumns : List String :=
  ["uid", "sha256", "file_name", "depth", "size", "comments", "virtual_file_paths", "is_firmware"]

def firmwareColumns : List String :=
  ["uid", "submission_date", "release_date", "version", "vendor", "device_name", "device_class",
    "device_part", "firmware_tags"]

def analysisColumns : List String :=
  ["uid", "plugin", "plugin_version", "system_version", "analysis_date", "summary", "tags", "result"]

/-- `column == value`. -/
def columnEq (c : SqlColumn) : PyVal → SqlAtom
  | .none => .compare c .isNull
  | value => .compare c (.eq value)

/-- `key.split('.')`. -/
def splitDots (key : String) : List String := (key.toList.splitOn '.').map String.ofList

/-- The part before the first dot and the rest; `none` without a dot. -/
def splitFirst (key : List Char) : Option (List Char × List Char) :=
  match key.span (· ≠ '.') with
  | (first, _ :: rest) => some (first, rest)
  | _ => none

/-- `_, plugin, subkey = key.split('.', maxsplit=2)`. -/
def splitAnalysisKey (key : String) : Except QueryError (String × String) :=
  match (splitFirst key.toList).bind fun r => splitFirst r.2 with
  | some (plugin, subkey) => .ok (String.ofList plugin, String.ofList subkey)
  | none => .error (.malformedKey key)

/-- The operators of `_dict_key_to_filter`, in the order in which they are looked for. -/
def operators (key : String) : List (String × (PyVal → SqlComparison)) :=
  [("$exists", fun _ => .hasKey ((splitDots key).getLastD "")), ("$regex", .regex),
    ("$like", .like), ("$in", .isIn), ("$lt", .lt), ("$gt", .gt), ("$contains", .contains)]

/-- `has_key` is there for JSON only. -/
def SqlColumn.isJson : SqlColumn → Bool
  | .column table name => decide ((table, name) ∈ [(.fileObject, "comments"),
      (.fileObject, "virtual_file_paths"), (.analysis, "tags"), (.analysis, "result")])
  | .index c _ => c.isJson
  | .dateString _ | .arrayString _ | .text _ => false

/-- The comparisons that SQLAlchemy builds: `in_` takes a list, and `<` and `>` take no `None` and
no truth value. -/
def SqlComparison.accepted (c : SqlColumn) : SqlComparison → Bool
  | .hasKey _ => c.isJson
  | .isIn (.list _) => true
  | .isIn _ => false
  | .lt .none | .lt (.bool _) | .gt .none | .gt (.bool _) => false
  | _ => true

/-- The comparison, or the exception of SQLAlchemy. -/
def acceptedFilter (c : SqlColumn) (comparison : SqlComparison) (operand : PyVal) :
    Except QueryError SqlAtom :=
  if comparison.accepted c then .ok (.compare c comparison) else .error (.argument operand)

/-- `_dict_key_to_filter` for a dict: the first operator that it has. -/
def operatorFilter (c : SqlColumn) (key : String) (entries : List (String × PyVal)) :
    Except QueryError SqlAtom :=
  match (operators key).find? fun operator => (PyVal.dict entries).hasKey operator.1 with
  | some operator =>
    let operand := (PyVal.dict entries).getOrNone operator.1
    acceptedFilter c (operator.2 operand) operand
  | none => .error (.unsupported (.dict entries))

/-- `_dict_key_to_filter`. -/
def dictKeyToFilter (c : SqlColumn) (key : String) : PyVal → Except QueryError SqlAtom
  | .dict entries => operatorFilter c key entries
  | value => .ok (columnEq c value)

/-- `_to_list`. -/
def toList : PyVal → PyVal
  | .list values => .list values
  | value => .list [value]

/-- `_get_array_filter`. -/
def getArrayFilter (field : SqlColumn) (key : String) : PyVal → Except QueryError SqlAtom
  | .list values => .ok (.compare field (.contains (.list values)))
  | .dict entries =>
    let value := PyVal.dict entries
    if value.hasKey "$regex" then dictKeyToFilter (.arrayString field) key value
    else if value.hasKey "$contains" then
      .ok (.compare field (.contains (toList (value.getOrNone "$contains"))))
    else if value.hasKey "$overlap" then
      .ok (.compare field (.overlap (toList (value.getOrNone "$overlap"))))
    else .error (.unsupported value)
  | value => .ok (.compare field (.contains (.list [value])))

/-- `_get_column`. -/
def getColumn (key : String) (table : SqlTable) : SqlColumn :=
  if key = "release_date" then .dateString (.column table key) else .column table key

/-- The loop of `_add_json_filter` over the operators: `dumps` until one that needs text; with
whether there is such a one. -/
def dumpOperands (dumps : PyVal → String) :
    List (String × PyVal) → List (String × PyVal) × Bool
  | [] => ([], false)
  | (operator, value) :: entries =>
    if operator ∈ ["$in", "$like"] then ((operator, value) :: entries, true)
    else
      let rest := dumpOperands dumps entries
      ((operator, .str (dumps value)) :: rest.1, rest.2)

/-- `_add_json_filter`. -/
def addJsonFilter (env : QueryEnv) (key : String) (value : PyVal) (subkey : String) :
    Except QueryError SqlAtom :=
  let path := splitDots subkey
  let steps := if value.hasKey "$exists" then path.dropLast else path
  let c := steps.foldl SqlColumn.index (.column .analysis "result")
  match value with
  | .dict entries =>
    let dumped := dumpOperands env.dumps entries
    operatorFilter (if dumped.2 then .text c else c) key dumped.1
  | value => .ok (.compare c (.eqJson value))

/-- `AnalysisEntry.file_object == value`: for `None` the foreign key should be NULL. -/
def relationEq : PyVal → Except QueryError SqlAtom
  | .none => .ok (.compare (.column .analysis "uid") .isNull)
  | value => .error (.argument value)

/-- `_add_analysis_filter_to_query`. -/
def addAnalysisFilter (env : QueryEnv) (key : String) (value : PyVal) (subkey : String) :
    Except QueryError SqlAtom :=
  if subkey = "summary" then getArrayFilter (.column .analysis "summary") key value
  else if subkey ∈ analysisColumns then .ok (columnEq (.column .analysis subkey) value)
  else if subkey = "file_object" then relationEq value
  else match env.attributes subkey with
    | some attributeEq => .ok (.decided (attributeEq value))
    | none => addJsonFilter env key value subkey

/-- The condition on an analysis: the plugin and what its entry should meet. -/
def analysisCondition (env : QueryEnv) (e : String × PyVal) :
    Except QueryError (String × SqlAtom) := do
  let (plugin, subkey) ← splitAnalysisKey e.1
  let atom ← addAnalysisFilter env e.1 e.2 subkey
  return (plugin, atom)

/-- The condition on a column of `firmware`. -/
def firmwareCondition (e : String × PyVal) : Except QueryError SqlAtom :=
  if e.1 = "firmware_tags" then getArrayFilter (.column .firmware "firmware_tags") e.1 e.2
  else dictKeyToFilter (getColumn e.1 .firmware) e.1 e.2

/-- The condition on a column of `file_object`. -/
def fileObjectCondition (e : String × PyVal) : Except QueryError SqlAtom :=
  dictKeyToFilter (getColumn e.1 .fileObject) e.1 e.2

/-! ## 3. The query -/

def isAnalysisKey (key : String) : Bool := decide ("processed_analysis".toList <+: key.toList)

/-- `get_search_keys_from_dict`. -/
def getSearchKeysFromDict (fields : Dict String PyVal) (columns blacklist : List String) :
    List (String × PyVal) :=
  fields.entries.filter fun e => decide (e.1 ∉ blacklist ∧ e.1 ∈ columns)

/-- `query_dict['uid'] = query_dict.pop('_id')`. -/
def renameId (fields : Dict String PyVal) : Dict String PyVal :=
  match fields.get? "_id" with
  | some value => (fields.erase "_id").set "uid" value
  | none => fields

/-- `build_query_from_dict`; `orQuery` in the dict below `$or`. -/
def buildQueryFromDict (env : QueryEnv) (fwOnly : Bool) :
    Bool → QueryDict → Except QueryError SqlSelect
  | _, .withOr _ below => buildQueryFromDict env fwOnly true below
  | orQuery, .plain fields => do
    let fields := renameId fields
    let analysisSearch := fields.entries.filter fun e => isAnalysisKey e.1
    let analysisFilters ← analysisSearch.mapM (analysisCondition env)
    let firmwareSearch := getSearchKeysFromDict fields firmwareColumns ["uid"]
    let firmwareFilters ← firmwareSearch.mapM firmwareCondition
    let fileSearch := getSearchKeysFromDict fields fileObjectColumns []
    let fileFilters ← fileSearch.mapM fileObjectCondition
    return {
      fwOnly
      analysis := !analysisSearch.isEmpty
      firmware :=
        if firmwareSearch.isEmpty || fwOnly then none
        else some (if orQuery then .outer else .inner)
      fileObject := fwOnly && !fileSearch.isEmpty
      filters := (analysisFilters.map fun f => [f.2, .plugin f.1]) ++
        firmwareFilters.map ([·]) ++ fileFilters.map ([·])
      anyFilter := orQuery }

end FactCore
