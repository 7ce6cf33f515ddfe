import FactCore.Lib.ThreeValued
import FactCore.Storage.QueryConversion

/-!
# What a search query should select

A SELECT is evaluated on the tables: the joined rows of a UID, the filters on each of
them, and the UIDs for which they are true on some row. The values in the columns, and
what the database does with one of them, are a parameter.

A search condition is a field and what it is tested for: a value, or operators. It holds
for an object when the row of the object in the table of the field passes the tests; for
an analysis that is the row of the plugin.

Definitions:
1. `SqlSelect.run`: the result of a SELECT.
2. `SearchCondition.Holds`: what a condition means.
3. `QueryDict.Over`: the query dict for conditions.
-/

namespace FactCore

/-! ## 1. Evaluation -/

/-- What PostgreSQL does with the values of columns. Functions of NULL are NULL, and a comparison
with NULL is unknown. -/
structure SqlEngine (C : Type) where
  null : C
  isNull : C → Bool
  dateString : C → C
  arrayString : C → C
  index : C → String → C
  text : C → C
  compare : SqlComparison → C → Option Bool
  isNull_null : isNull null = true
  dateString_null : dateString null = null
  arrayString_null : arrayString null = null
  compare_null : ∀ comparison, compare comparison null = none

/-- The tables as a query sees them: the columns of the rows, by the primary keys. -/
structure SearchDb (C : Type) where
  fileObjects : Dict String (String → C)
  firmware : Dict String (String → C)
  analyses : Dict (String × String) (String → C)
  /-- The foreign key of `firmware`. -/
  firmware_fileObjects : ∀ uid ∈ firmware, uid ∈ fileObjects

/-- A joined row; an outer join leaves out the table that has no row. -/
structure JoinedRow (C : Type) where
  fileObject : Option (String → C)
  firmware : Option (String → C)
  analysis : Option (String × (String → C))

section Evaluation
variable {C : Type}

/-- The columns of one table; they are NULL where the table has no row. -/
def JoinedRow.cells (row : JoinedRow C) : SqlTable → Option (String → C)
  | .fileObject => row.fileObject
  | .firmware => row.firmware
  | .analysis => row.analysis.map Prod.snd

def SqlColumn.eval (engine : SqlEngine C) (row : JoinedRow C) : SqlColumn → C
  | .column table name => (row.cells table).elim engine.null fun cells => cells name
  | .dateString c => engine.dateString (c.eval engine row)
  | .arrayString c => engine.arrayString (c.eval engine row)
  | .index c key => engine.index (c.eval engine row) key
  | .text c => engine.text (c.eval engine row)

def SqlAtom.eval (engine : SqlEngine C) (row : JoinedRow C) : SqlAtom → Option Bool
  | .compare c .isNull => some (engine.isNull (c.eval engine row))
  | .compare c comparison => engine.compare comparison (c.eval engine row)
  | .plugin name => row.analysis.map fun a => decide (a.1 = name)
  | .decided value => some value

namespace SqlSelect

/-- The WHERE clause. Without filters there is none: `or_()` of nothing is left out. -/
def holds (engine : SqlEngine C) (select : SqlSelect) (row : JoinedRow C) : Option Bool :=
  let filters := select.filters.map fun atoms => ThreeValued.conj (atoms.map (·.eval engine row))
  if select.anyFilter && !filters.isEmpty then ThreeValued.disj filters else ThreeValued.conj filters

/-- The rows of `file_object` for the UID. -/
def fileObjectRows (select : SqlSelect) (db : SearchDb C) (uid : String) :
    List (Option (String → C)) :=
  if select.fwOnly && !select.fileObject then [none] else (db.fileObjects.get? uid).toList.map some

/-- The rows of `firmware` for the UID. -/
def firmwareRows (select : SqlSelect) (db : SearchDb C) (uid : String) :
    List (Option (String → C)) :=
  if select.fwOnly then (db.firmware.get? uid).toList.map some
  else match select.firmware with
    | none => [none]
    | some .inner => (db.firmware.get? uid).toList.map some
    | some .outer => [db.firmware.get? uid]

/-- The rows of `analysis` for the UID, with their plugins. -/
def analysisRows (select : SqlSelect) (db : SearchDb C) (uid : String) :
    List (Option (String × (String → C))) :=
  if select.analysis then
    (db.analyses.entries.filter fun e => decide (e.1.1 = uid)).map fun e => some (e.1.2, e.2)
  else [none]

/-- The joined rows for a UID. -/
def rows (select : SqlSelect) (db : SearchDb C) (uid : String) : List (JoinedRow C) :=
  (select.fileObjectRows db uid).flatMap fun fileObject =>
    (select.firmwareRows db uid).flatMap fun firmware =>
      (select.analysisRows db uid).map fun analysis => ⟨fileObject, firmware, analysis⟩

/-- The objects that are searched. -/
def searched (fwOnly : Bool) (db : SearchDb C) : List String :=
  if fwOnly then db.firmware.keys else db.fileObjects.keys

/-- The UIDs of the result, each once. -/
def run (engine : SqlEngine C) (select : SqlSelect) (db : SearchDb C) : List String :=
  (searched select.fwOnly db).filter fun uid =>
    (select.rows db uid).any fun row => decide (select.holds engine row = some true)

end SqlSelect

end Evaluation

/-! ## 2. Conditions -/

/-- A field of a search query: a column, or a path into what a plugin found. -/
inductive SearchField
  | fileObject (column : String)
  | firmware (column : String)
  | analysis (plugin : String) (path : List String)

inductive Operator
  | like
  | isIn
  | lt
  | gt
  | contains
  | overlap
  deriving DecidableEq

def Operator.name : Operator → String
  | .like => "$like"
  | .isIn => "$in"
  | .lt => "$lt"
  | .gt => "$gt"
  | .contains => "$contains"
  | .overlap => "$overlap"

/-- A comparison that the database can make. -/
def accepted (c : SqlColumn) (comparison : SqlComparison) : Option SqlAtom :=
  if comparison.accepted c then some (.compare c comparison) else none

/-- A test with an operator, on a column. -/
def columnTest (c : SqlColumn) : Operator → PyVal → Option SqlAtom
  | .like, operand => some (.compare c (.like operand))
  | .isIn, operand => accepted c (.isIn operand)
  | .lt, operand => accepted c (.lt operand)
  | .gt, operand => accepted c (.gt operand)
  | .contains, operand => some (.compare c (.contains operand))
  | .overlap, _ => none

/-- A test with an operator, on an array. -/
def arrayTest (c : SqlColumn) : Operator → PyVal → Option SqlAtom
  | .contains, operand => some (.compare c (.contains (toList operand)))
  | .overlap, operand => some (.compare c (.overlap (toList operand)))
  | _, _ => none

/-- A test with an operator, on a value in JSON. It is compared as text with `$like` and `$in`, and
with JSON otherwise. -/
def jsonTest (c : SqlColumn) (dumps : PyVal → String) : Operator → PyVal → Option SqlAtom
  | .like, operand => some (.compare (.text c) (.like operand))
  | .isIn, operand => accepted (.text c) (.isIn operand)
  | .lt, operand => some (.compare c (.lt (.str (dumps operand))))
  | .gt, operand => some (.compare c (.gt (.str (dumps operand))))
  | .contains, operand => some (.compare c (.contains (.str (dumps operand))))
  | .overlap, _ => none

/-- What a field is tested for: a value, or operators with their operands. -/
inductive FieldValue
  | plain (value : PyVal)
  | operators (tests : List (Operator × PyVal))

structure SearchCondition where
  field : SearchField
  value : FieldValue

inductive FieldKind
  | scalar
  | array
  | json
  deriving DecidableEq

namespace SearchField

/-- The path is a column of the analysis entry. -/
def metadata : List String → Option String
  | [name] => if name ∈ analysisColumns then some name else none
  | _ => none

/-- Metadata of an analysis stands in columns, the rest in its JSON result. -/
def kind : SearchField → FieldKind
  | .fileObject _ => .scalar
  | .firmware column => if column = "firmware_tags" then .array else .scalar
  | .analysis _ path =>
    match metadata path with
    | some name => if name = "summary" then .array else .scalar
    | none => .json

/-- The column of the field; dates are compared as texts. -/
def column : SearchField → SqlColumn
  | .fileObject column => .column .fileObject column
  | .firmware column =>
    if column = "release_date" then .dateString (.column .firmware column)
    else .column .firmware column
  | .analysis _ path =>
    match metadata path with
    | some name => .column .analysis name
    | none => path.foldl .index (.column .analysis "result")

/-- A test for a value. A single value is looked for in an array. -/
def valueTest (f : SearchField) (value : PyVal) : SqlAtom :=
  match f.kind with
  | .scalar => columnEq f.column value
  | .array => .compare f.column (.contains (toList value))
  | .json => .compare f.column (.eqJson value)

/-- A dict is no plain value. -/
def plainTest (f : SearchField) : PyVal → Option SqlAtom
  | .dict _ => none
  | value => some (f.valueTest value)

def operatorTest (f : SearchField) (dumps : PyVal → String) (operator : Operator)
    (operand : PyVal) : Option SqlAtom :=
  match f.kind with
  | .scalar => columnTest f.column operator operand
  | .array => arrayTest f.column operator operand
  | .json => jsonTest f.column dumps operator operand

/-- The row of the object in the table of the field. -/
def row {C : Type} (db : SearchDb C) (uid : String) : SearchField → Option (JoinedRow C)
  | .fileObject _ => (db.fileObjects.get? uid).map fun cells => ⟨some cells, none, none⟩
  | .firmware _ => (db.firmware.get? uid).map fun cells => ⟨none, some cells, none⟩
  | .analysis plugin _ =>
    (db.analyses.get? (uid, plugin)).map fun cells => ⟨none, none, some (plugin, cells)⟩

/-- The plugin whose analysis the field is about. -/
def plugin : SearchField → Option String
  | .analysis plugin _ => some plugin
  | _ => none

end SearchField

namespace SearchCondition

/-- The tests of the condition, all of which have to be passed; `none` if the field does not support
them. -/
def tests (c : SearchCondition) (dumps : PyVal → String) : Option (List SqlAtom) :=
  match c.value with
  | .plain value => (c.field.plainTest value).map ([·])
  | .operators tests => tests.mapM fun t => c.field.operatorTest dumps t.1 t.2

/-- The condition holds for an object: its row in the table, for an analysis the row of the plugin,
passes the tests. -/
def Holds {C : Type} (c : SearchCondition) (dumps : PyVal → String) (engine : SqlEngine C)
    (db : SearchDb C) (uid : String) : Prop :=
  ∃ row atoms, c.field.row db uid = some row ∧ c.tests dumps = some atoms ∧
    ∀ atom ∈ atoms, atom.eval engine row = some true

end SearchCondition

/-! ## 3. Queries -/

/-- The key of the field. -/
def SearchField.key : SearchField → String
  | .fileObject column | .firmware column => column
  | .analysis plugin path => ".".intercalate ("processed_analysis" :: plugin :: path)

/-- There is such a field. -/
def SearchField.Valid : SearchField → Prop
  | .fileObject column => column ∈ fileObjectColumns
  | .firmware column => column ∈ firmwareColumns ∧ column ≠ "uid"
  | .analysis plugin path =>
    path ≠ [] ∧ ∀ name ∈ plugin :: path, '.' ∉ name.toList

def FieldValue.toPy : FieldValue → PyVal
  | .plain value => value
  | .operators tests => .dict (tests.map fun t => (t.1.name, t.2))

/-- The condition is on a field that supports its tests. -/
structure SearchCondition.Valid (c : SearchCondition) (dumps : PyVal → String) : Prop where
  field : c.field.Valid
  tests : (c.tests dumps).isSome
  operators : ∀ tests, c.value = .operators tests → tests ≠ [] ∧ (tests.map Prod.fst).Nodup

/-- The entry of a query for a condition. -/
def SearchCondition.entry (c : SearchCondition) : String × PyVal := (c.field.key, c.value.toPy)

/-- The dict for conditions. -/
structure Conditions (dumps : PyVal → String) (fields : Dict String PyVal)
    (cs : List SearchCondition) : Prop where
  entries : fields.entries = cs.map SearchCondition.entry
  valid : ∀ c ∈ cs, c.Valid dumps

/-- A query: the conditions next to `$or`, and those below it. -/
inductive QueryDict.Over (dumps : PyVal → String) :
    QueryDict → List SearchCondition → Option (List SearchCondition) → Prop
  | plain {fields : Dict String PyVal} {cs : List SearchCondition} :
      Conditions dumps fields cs → Over dumps (.plain fields) cs none
  | withOr {fields below : Dict String PyVal} {cs ds : List SearchCondition} :
      Conditions dumps fields cs → Conditions dumps below ds →
      Over dumps (.withOr fields (.plain below)) cs (some ds)

/-- The object meets the query: all conditions hold, and one of those below `$or`. -/
def MeetsQuery {C : Type} (dumps : PyVal → String) (engine : SqlEngine C) (db : SearchDb C)
    (uid : String) (cs : List SearchCondition) (below : Option (List SearchCondition)) : Prop :=
  (∀ c ∈ cs, c.Holds dumps engine db uid) ∧
    ∀ ds, below = some ds → ∃ d ∈ ds, d.Holds dumps engine db uid

end FactCore
