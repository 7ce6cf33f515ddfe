import FactCore.Lib.MapM
import FactCore.Lib.Separator
import FactCore.Storage.Sanitizing

/-!
# The rules of the known vulnerabilities

A rule compares a value of the analysis results with a given one. The value is found by a
path. Each part of a path names keys, separated by dots, and between two parts there is a
list of dicts, in which all elements are looked at.

A key that is missing is reported by a `KeyError`, which is caught outside of the whole
rule. The values behind several lists are lists of lists, and only the elements of the
outermost one are compared.

Results:
1. `getValue_of_fails`, `getValue_of_complete`: what is found is decided by the first
   lookup that fails.
2. `evaluatePath_iff`: when one of the values a path leads to is found.
3. `evaluate_iff`: when a rule says what it stands for.
-/

namespace FactCore

/-! ## 1. The code -/

mutual

/-- `x == y`. -/
def PyVal.equals : PyVal → PyVal → Bool
  | .none, .none => true
  | .bool a, .bool b => a == b
  | .bool a, .num y => decide ((if a then 1 else 0) = y)
  | .num x, .bool b => decide (x = if b then 1 else 0)
  | .num x, .num y => decide (x = y)
  | .str s, .str t => decide (s = t)
  | .list xs, .list ys => elementsEqual xs ys
  | .dict entries, .dict others =>
    decide (entries.length = others.length) && entriesEqual entries others
  | _, _ => false

def PyVal.elementsEqual : List PyVal → List PyVal → Bool
  | [], [] => true
  | x :: xs, y :: ys => x.equals y && elementsEqual xs ys
  | _, _ => false

def PyVal.entriesEqual : List (String × PyVal) → List (String × PyVal) → Bool
  | [], _ => true
  | (key, v) :: entries, others =>
    (match Dict.find key others with
      | some w => v.equals w
      | Option.none => false) && entriesEqual entries others

end

/-- One of the functions in `RELATIONS`. -/
abbrev RuleRelation := PyVal → PyVal → Except PyException Bool

/-- `RELATIONS['equals']`. -/
def RuleRelation.equals : RuleRelation := fun x y => .ok (x.equals y)

structure SingleRule where
  valuePath : List String
  relation : RuleRelation
  comparison : PyVal

/-- The built-in function that is the `relation` of a `MetaRule`. -/
inductive Quantifier
  | any
  | all

structure MetaRule where
  rules : List SingleRule
  relation : Quantifier

structure SubPathRule where
  basePath : List String
  metaRule : MetaRule

inductive Rule
  | single (rule : SingleRule)
  | metaRule (rule : MetaRule)
  | subPath (rule : SubPathRule)

/-- `type(value)` as a text. -/
def PyVal.typeText : PyVal → String
  | .none => "<class 'NoneType'>"
  | .bool _ => "<class 'bool'>"
  | .num _ => "<class 'int'>"
  | .str _ => "<class 'str'>"
  | .list _ => "<class 'list'>"
  | .dict _ => "<class 'dict'>"

def pathError (keys : List String) (value : PyVal) : PyException :=
  .valueError ("path " ++ ".".intercalate keys ++ " can only be extracted from dict - not " ++
    value.typeText)

/-- The recursion of `_get_dotted_path_from_dictionary`, on the keys between the dots. -/
def getDotted : PyVal → List String → Except PyException PyVal
  | value, [] => .ok value
  | .dict entries, key :: keys =>
    match Dict.find key entries with
    | some next => getDotted next keys
    | none => .error (.keyError key)
  | value, key :: keys => .error (pathError (key :: keys) value)

/-- `_get_dotted_path_from_dictionary`. -/
def getDottedPathFromDictionary (dictionary : PyVal) (dottedPath : String) :
    Except PyException PyVal :=
  getDotted dictionary (splitAtChar '.' dottedPath)

/-- `_get_value`. -/
def getValue : PyVal → List String → Except PyException PyVal
  | _, [] => .error (.indexError "pop from empty list")
  | analysis, part :: path => do
    match ← getDottedPathFromDictionary analysis part with
    | .list items =>
      if path.isEmpty then return .list items
      else return .list (← items.mapM fun item => getValue item path)
    | value => return value

/-- `_evaluate_single_rule`. -/
def evaluateSingleRule (analysis : PyVal) (rule : SingleRule) : Except PyException Bool := do
  let values ← getValue analysis rule.valuePath
  if !values.isList || rule.comparison.isList then rule.relation values rule.comparison
  else values.elements.anyM fun value => rule.relation value rule.comparison

/-- The `except KeyError` of `evaluate`. -/
def catchKeyError : Except PyException Bool → Except PyException Bool
  | .error (.keyError _) => .ok false
  | result => result

/-- `evaluate` for one of the rules in a `MetaRule`. -/
def evaluateSingle (analysis : PyVal) (rule : SingleRule) : Except PyException Bool :=
  catchKeyError (evaluateSingleRule analysis rule)

/-- `_evaluate_meta_rule`. -/
def evaluateMetaRule (analysis : PyVal) (rule : MetaRule) : Except PyException Bool :=
  match rule.relation with
  | .any => rule.rules.anyM (evaluateSingle analysis)
  | .all => rule.rules.allM (evaluateSingle analysis)

/-- `_evaluate_sub_path_rule`. -/
def evaluateSubPathRule (analysis : PyVal) (rule : SubPathRule) : Except PyException Bool := do
  let values ← getValue analysis rule.basePath
  if !values.isList then evaluateMetaRule values rule.metaRule
  else values.elements.anyM fun value => evaluateMetaRule value rule.metaRule

/-- `evaluate`. -/
def evaluate (analysis : PyVal) : Rule → Except PyException Bool
  | .single rule => evaluateSingle analysis rule
  | .metaRule rule => catchKeyError (evaluateMetaRule analysis rule)
  | .subPath rule => catchKeyError (evaluateSubPathRule analysis rule)

/-! ## 2. What a rule stands for -/

/-- The keys of a path. -/
def pathKeys (path : List String) : List String := path.flatMap (splitAtChar '.')

/-- `Reaches v keys w`: the keys lead from `v` to `w`, with one element chosen in each list. -/
inductive Reaches : PyVal → List String → PyVal → Prop
  | here {v : PyVal} : v.isList = false → Reaches v [] v
  | key {v next w : PyVal} {key : String} {keys : List String} :
      v.get? key = some next → Reaches next keys w → Reaches v (key :: keys) w
  | element {items : List PyVal} {item w : PyVal} {keys : List String} :
      item ∈ items → Reaches item keys w → Reaches (.list items) keys w

/-- One of the values that a path leads to satisfies `f`. -/
def Found (analysis : PyVal) (path : List String) (f : PyVal → Except PyException Bool) : Prop :=
  ∃ w, Reaches analysis (pathKeys path) w ∧ f w = .ok true

/-- A rule holds if its relation does for one leaf, a `MetaRule` if any or all of its rules do, and
a `SubPathRule` if its `MetaRule` does for one element. -/
def Rule.Holds (analysis : PyVal) : Rule → Prop
  | .single rule => Found analysis rule.valuePath fun w => rule.relation w rule.comparison
  | .metaRule ⟨rules, .any⟩ => ∃ rule ∈ rules, evaluate analysis (.single rule) = .ok true
  | .metaRule ⟨rules, .all⟩ => ∀ rule ∈ rules, evaluate analysis (.single rule) = .ok true
  | .subPath rule =>
    Found analysis rule.basePath fun w => evaluate w (.metaRule rule.metaRule)

/-- A rule with a relation of its own compares with a scalar for equality. -/
def Rule.ComparesScalar : Rule → Prop
  | .single rule => rule.relation = RuleRelation.equals ∧ rule.comparison.isLeaf = true
  | _ => True

/-! ## 3. The lookups on a path -/

/-- A key is looked up in a value, with the keys that come later in the same part. -/
structure Lookup where
  value : PyVal
  key : String
  later : List String

def Lookup.fails (lookup : Lookup) : Bool := (lookup.value.get? lookup.key).isNone

/-- The keys of one part, followed from a value. -/
def follow : PyVal → List String → Option PyVal
  | v, [] => some v
  | v, key :: keys => (v.get? key).bind fun next => follow next keys

/-- The lookups for the keys of one part. -/
def partLookups : PyVal → List String → List Lookup
  | _, [] => []
  | v, key :: keys =>
    ⟨v, key, keys⟩ :: ((v.get? key).elim [] fun next => partLookups next keys)

/-- The elements that a path goes on with. -/
def nextItems : Option PyVal → List PyVal
  | some (.list items) => items
  | _ => []

/-- All lookups for a path, in their order, with those that come after one that fails. -/
def lookups : PyVal → List String → List Lookup
  | _, [] => []
  | v, part :: path =>
    partLookups v (splitAtChar '.' part) ++
      (nextItems (follow v (splitAtChar '.' part))).flatMap fun item => lookups item path

/-- The values that a rule is applied to: the one at the end of the first part, or where this is a
list, those at the end of the second part in each of its elements. -/
def comparedValues (v : PyVal) : List String → List PyVal
  | [] => []
  | part :: path =>
    match follow v (splitAtChar '.' part), path with
    | some (.list items), [] => items
    | some (.list items), next :: _ =>
      items.filterMap fun item => follow item (splitAtChar '.' next)
    | some w, _ => [w]
    | none, _ => []

/-- No key is missing, in any element of any list. -/
def Complete (analysis : PyVal) (path : List String) : Prop :=
  ∀ lookup ∈ lookups analysis path, lookup.fails = false

/-- The path suits the data. -/
structure PathFits (analysis : PyVal) (path : List String) (f : PyVal → Except PyException Bool) :
    Prop where
  notEmpty : path ≠ []
  /-- The first lookup that fails is one in a dict. -/
  dicts : ∀ lookup, (lookups analysis path).find? Lookup.fails = some lookup →
    ∃ entries, lookup.value = .dict entries
  /-- A value that is found is not hidden by a missing key elsewhere or by a second list. -/
  visible : Found analysis path f →
    Complete analysis path ∧ ∃ w ∈ comparedValues analysis path, f w = .ok true
  /-- A value that is compared although the path goes on is not taken for another. -/
  genuine : Complete analysis path → (∃ w ∈ comparedValues analysis path, f w = .ok true) →
    Found analysis path f

/-- No exception comes before the first result that decides. -/
def Decides (stop : Bool) : List (Except PyException Bool) → Prop
  | [] => True
  | .ok b :: results => b = stop ∨ Decides stop results
  | .error _ :: _ => False

/-- The exception for a lookup that fails. -/
def Lookup.exception (lookup : Lookup) : PyException :=
  match lookup.value with
  | .dict _ => .keyError lookup.key
  | value => pathError (lookup.key :: lookup.later) value

/-- The rule suits the data. -/
def Rule.Fits (analysis : PyVal) : Rule → Prop
  | .single rule => PathFits analysis rule.valuePath fun w => rule.relation w rule.comparison
  | .metaRule ⟨rules, .any⟩ =>
    Decides true (rules.map fun rule => evaluate analysis (.single rule))
  | .metaRule ⟨rules, .all⟩ =>
    Decides false (rules.map fun rule => evaluate analysis (.single rule))
  | .subPath rule =>
    PathFits analysis rule.basePath (fun w => evaluate w (.metaRule rule.metaRule)) ∧
      (Complete analysis rule.basePath →
        Decides true ((comparedValues analysis rule.basePath).map fun w =>
          evaluate w (.metaRule rule.metaRule)))

/-! ## 4. What is found at the end of a path -/

/-- A computation makes these lookups and raises the exception of the first one that fails. -/
def Reports {α : Type} (requests : List Lookup) (result : Except PyException α) : Prop :=
  match requests.find? Lookup.fails with
  | some lookup => result = .error lookup.exception
  | none => ∃ a, result = .ok a

section Reports
variable {α β : Type} {requests later : List Lookup} {result : Except PyException α}

theorem Reports.bind {f : α → Except PyException β} (h : Reports requests result)
    (hlater : ∀ a, result = .ok a → Reports later (f a)) :
    Reports (requests ++ later) (result >>= f) := by
  unfold Reports at h
  rw [Reports, List.find?_append]
  cases hfind : requests.find? Lookup.fails with
  | some lookup =>
    rw [hfind] at h
    rw [h]
    rfl
  | none =>
    rw [hfind] at h
    obtain ⟨a, rfl⟩ := h
    exact hlater a rfl

theorem Reports.ok (a : α) : Reports [] (Except.ok a : Except PyException α) := ⟨a, rfl⟩

theorem Reports.mapM {f : β → Except PyException α} {g : β → List Lookup} {l : List β}
    (h : ∀ x ∈ l, Reports (g x) (f x)) : Reports (l.flatMap g) (l.mapM f) := by
  induction l with
  | nil => exact Reports.ok []
  | cons x l ih =>
    rw [List.forall_mem_cons] at h
    rw [List.flatMap_cons, List.mapM_cons]
    refine h.1.bind fun y _ => ?_
    have hrest := (ih h.2).bind fun ys _ => Reports.ok (y :: ys)
    rwa [List.append_nil] at hrest

end Reports

section Paths
variable {v w r : PyVal} {keys : List String} {part : String} {path : List String}

theorem getDotted_cons (v : PyVal) (key : String) (keys : List String) :
    getDotted v (key :: keys) =
      (v.get? key).elim (.error (Lookup.exception ⟨v, key, keys⟩)) fun next =>
        getDotted next keys := by
  cases v with
  | dict entries =>
    rw [getDotted, PyVal.get?]
    cases Dict.find key entries <;> rfl
  | _ => rfl

theorem reports_getDotted (v : PyVal) (keys : List String) :
    Reports (partLookups v keys) (getDotted v keys) := by
  induction keys generalizing v with
  | nil => exact Reports.ok v
  | cons key keys ih =>
    rw [getDotted_cons, partLookups, Reports, List.find?_cons]
    cases hget : v.get? key with
    | none => simp [Lookup.fails, hget]
    | some next =>
      have hrest := ih next
      simpa [Lookup.fails, hget, Reports] using hrest

theorem getDotted_eq_ok_iff : getDotted v keys = .ok w ↔ follow v keys = some w := by
  induction keys generalizing v with
  | nil => simp [getDotted, follow]
  | cons key keys ih =>
    rw [getDotted_cons, follow]
    cases v.get? key with
    | none => simp
    | some next => exact ih

theorem reports_getValue (analysis : PyVal) (hpath : path ≠ []) :
    Reports (lookups analysis path) (getValue analysis path) := by
  induction path generalizing analysis with
  | nil => exact absurd rfl hpath
  | cons part path ih =>
    rw [lookups, getValue]
    refine (reports_getDotted analysis _).bind fun value hvalue => ?_
    rw [getDotted_eq_ok_iff.mp hvalue]
    cases value with
    | list items =>
      cases path with
      | nil =>
        have hnone : ((nextItems (some (.list items))).flatMap fun item => lookups item []) = [] :=
          List.flatMap_eq_nil_iff.mpr fun _ _ => rfl
        rw [hnone]
        exact Reports.ok _
      | cons next path =>
        have hitems := Reports.mapM fun item (_ : item ∈ items) => ih item (List.cons_ne_nil _ _)
        have hlist := hitems.bind fun values _ => Reports.ok (PyVal.list values)
        rwa [List.append_nil] at hlist
    | _ => exact Reports.ok _

/-- The value for a path, without the values for its later parts. -/
theorem getValue_ok (h : getValue v (part :: path) = .ok r) :
    ∃ w, follow v (splitAtChar '.' part) = some w ∧ (w.isList = false → r = w) ∧
      ∀ items, w = .list items → ∃ values, r = .list values ∧
        (path = [] → values = items) ∧
        (path ≠ [] → List.Forall₂ (fun item value => getValue item path = .ok value) items values) := by
  rw [getValue] at h
  obtain ⟨w, hw, h⟩ := except_bind_eq_ok h
  refine ⟨w, getDotted_eq_ok_iff.mp hw, ?_⟩
  cases w with
  | list items =>
    refine ⟨fun hlist => (by cases hlist), fun _ heq => ?_⟩
    cases heq
    cases path with
    | nil =>
      cases h
      exact ⟨items, rfl, fun _ => rfl, fun hne => absurd rfl hne⟩
    | cons next path =>
      obtain ⟨values, hvalues, h⟩ := except_bind_eq_ok h
      cases h
      exact ⟨values, rfl, fun hnil => (by cases hnil), fun _ => forall₂_of_mapM_eq_ok hvalues⟩
  | _ =>
    cases h
    exact ⟨fun _ => rfl, fun _ heq => by cases heq⟩

end Paths

/-! ## 5. The values that are compared -/

/-- The values that a rule is applied to when `values` was found. -/
def asValues (values : PyVal) : List PyVal := if values.isList then values.elements else [values]

section Values
variable {v r : PyVal} {path : List String} {f : PyVal → Except PyException Bool}

/-- What is compared in place of a list of lists is a list too. -/
theorem map_asValues (hblind : ∀ xs ys, f (.list xs) = f (.list ys))
    (h : getValue v path = .ok r) : (asValues r).map f = (comparedValues v path).map f := by
  cases path with
  | nil => cases h
  | cons part path =>
    obtain ⟨w, hfollow, hother, hlist⟩ := getValue_ok h
    cases w with
    | list items =>
      obtain ⟨values, rfl, hend, hnext⟩ := hlist items rfl
      cases path with
      | nil =>
        simp only [hend rfl, comparedValues, hfollow]
        rfl
      | cons next path =>
        have hpairs := hnext (List.cons_ne_nil _ _)
        simp only [comparedValues, hfollow]
        show values.map f =
          (items.filterMap fun item => follow item (splitAtChar '.' next)).map f
        clear h hother hlist hend hnext hfollow
        induction hpairs with
        | nil => rfl
        | @cons item value items values hvalue _ ih =>
          obtain ⟨u, hu, hsame, hlists⟩ := getValue_ok hvalue
          have hf : f value = f u := by
            cases hkind : u.isList with
            | false => rw [hsame hkind]
            | true =>
              cases u with
              | list us =>
                obtain ⟨_, rfl, -⟩ := hlists us rfl
                exact hblind _ _
              | _ => cases hkind
          rw [List.filterMap_cons, hu]
          show f value :: values.map f = f u :: _
          rw [hf, ih]
    | _ =>
      simp only [hother rfl, comparedValues, hfollow]
      rfl

variable {α : Type} {g : α → Except PyException Bool}

theorem anyM_cases (g : α → Except PyException Bool) (l : List α) :
    (Decides true (l.map g) ∧
        ∃ b, l.anyM g = .ok b ∧ (b = true ↔ ∃ x ∈ l, g x = .ok true)) ∨
      (¬Decides true (l.map g) ∧ ∃ x ∈ l, ∃ e, g x = .error e ∧ l.anyM g = .error e) := by
  induction l with
  | nil => exact .inl ⟨trivial, false, rfl, by simp⟩
  | cons x l ih =>
    rw [List.map_cons, List.anyM_cons]
    cases hx : g x with
    | error e => exact .inr ⟨fun h => h, x, List.mem_cons_self, e, hx, rfl⟩
    | ok b =>
      cases b with
      | true => exact .inl ⟨.inl rfl, true, rfl, by simp [hx]⟩
      | false =>
        have hdecides : Decides true (.ok false :: l.map g) ↔ Decides true (l.map g) := by
          simp [Decides]
        have hfound : (∃ y ∈ x :: l, g y = .ok true) ↔ ∃ y ∈ l, g y = .ok true := by
          simp [hx]
        rw [hdecides, hfound]
        refine ih.imp_right fun h => ⟨h.1, ?_⟩
        obtain ⟨y, hy, hrest⟩ := h.2
        exact ⟨y, List.mem_cons_of_mem x hy, hrest⟩

theorem allM_cases (g : α → Except PyException Bool) (l : List α) :
    (Decides false (l.map g) ∧
        ∃ b, l.allM g = .ok b ∧ (b = true ↔ ∀ x ∈ l, g x = .ok true)) ∨
      (¬Decides false (l.map g) ∧ ∃ x ∈ l, ∃ e, g x = .error e ∧ l.allM g = .error e) := by
  induction l with
  | nil => exact .inl ⟨trivial, true, rfl, by simp⟩
  | cons x l ih =>
    rw [List.map_cons, List.allM_cons]
    cases hx : g x with
    | error e => exact .inr ⟨fun h => h, x, List.mem_cons_self, e, hx, rfl⟩
    | ok b =>
      cases b with
      | false => exact .inl ⟨.inl rfl, false, rfl, by simp [hx]⟩
      | true =>
        have hdecides : Decides false (.ok true :: l.map g) ↔ Decides false (l.map g) := by
          simp [Decides]
        rw [hdecides, List.forall_mem_cons, and_iff_right hx]
        refine ih.imp_right fun h => ⟨h.1, ?_⟩
        obtain ⟨y, hy, hrest⟩ := h.2
        exact ⟨y, List.mem_cons_of_mem x hy, hrest⟩

theorem anyM_asValues_of_not_isList (h : r.isList = false) : (asValues r).anyM f = f r := by
  rw [asValues, h]
  show [r].anyM f = f r
  rw [List.anyM_cons]
  cases f r with
  | error e => rfl
  | ok b => cases b <;> rfl

/-- A value at the end of a path is found if and only if the path suits the data. -/
theorem evaluatePath_iff (hblind : ∀ xs ys, f (.list xs) = f (.list ys))
    (hkey : ∀ w key, f w ≠ .error (.keyError key)) :
    (∃ b, catchKeyError (getValue v path >>= fun values => (asValues values).anyM f) = .ok b ∧
        (b = true ↔ Found v path f)) ↔
      PathFits v path f ∧
        (Complete v path → Decides true ((comparedValues v path).map f)) := by
  rcases eq_or_ne path [] with rfl | hpath
  · refine iff_of_false (fun h => ?_) fun h => h.1.notEmpty rfl
    obtain ⟨b, hb, -⟩ := h
    cases hb
  have hreports := reports_getValue v hpath
  unfold Reports at hreports
  cases hfind : (lookups v path).find? Lookup.fails with
  | some lookup =>
    rw [hfind] at hreports
    rw [hreports]
    have hincomplete : ¬Complete v path := by
      intro h
      have hfails := List.find?_some hfind
      rw [h lookup (List.mem_of_find?_eq_some hfind)] at hfails
      cases hfails
    obtain ⟨value, key, later⟩ := lookup
    cases value with
    | dict entries =>
      -- a missing key, and the rule is false
      have hfalse : (∃ b, catchKeyError (.error (.keyError key)) = .ok b ∧
          (b = true ↔ Found v path f)) ↔ ¬Found v path f := by
        simp [catchKeyError]
      refine hfalse.trans ⟨fun h => ?_, fun h hfound => hincomplete (h.1.visible hfound).1⟩
      refine ⟨⟨hpath, fun lookup' h' => ?_, fun hfound => absurd hfound h,
        fun hcomplete => absurd hcomplete hincomplete⟩,
        fun hcomplete => absurd hcomplete hincomplete⟩
      cases hfind.symm.trans h'
      exact ⟨entries, rfl⟩
    | _ =>
      refine iff_of_false (fun h => ?_) fun h => ?_
      · obtain ⟨b, hb, -⟩ := h
        cases hb
      · obtain ⟨entries, hdict⟩ := h.1.dicts _ hfind
        cases hdict
  | none =>
    rw [hfind] at hreports
    obtain ⟨r, hr⟩ := hreports
    have hcomplete : Complete v path := by
      intro lookup hlookup
      simpa using List.find?_eq_none.mp hfind lookup hlookup
    have hmap := map_asValues hblind hr
    have hexists : (∃ w ∈ asValues r, f w = .ok true) ↔
        ∃ w ∈ comparedValues v path, f w = .ok true := by
      rw [← List.mem_map, ← List.mem_map, hmap]
    rw [hr]
    show (∃ b, catchKeyError ((asValues r).anyM f) = .ok b ∧ _) ↔ _
    rcases anyM_cases f (asValues r) with ⟨hdecides, b, hb, hiff⟩ | ⟨hnot, w, hw, e, he, hany⟩
    · rw [hb, ← hmap]
      have hok : (∃ b', catchKeyError (.ok b) = .ok b' ∧ (b' = true ↔ Found v path f)) ↔
          ((∃ w ∈ comparedValues v path, f w = .ok true) ↔ Found v path f) := by
        rw [← hexists, ← hiff]
        simp [catchKeyError]
      refine hok.trans ⟨fun h => ?_, fun h => ?_⟩
      · exact ⟨⟨hpath, fun lookup h' => by simp [hfind] at h',
          fun hfound => ⟨hcomplete, h.mpr hfound⟩, fun _ => h.mp⟩, fun _ => hdecides⟩
      · exact ⟨h.1.genuine hcomplete, fun hfound => (h.1.visible hfound).2⟩
    · refine iff_of_false (fun h => ?_) fun h => hnot (hmap ▸ h.2 hcomplete)
      obtain ⟨b, hb, -⟩ := h
      rw [hany] at hb
      cases e with
      | keyError key => exact hkey w key he
      | _ => cases hb

end Values

/-! ## 6. The rules -/

section Rules
variable {analysis : PyVal}

theorem equals_list_leaf (xs : List PyVal) {c : PyVal} (h : c.isLeaf = true) :
    (PyVal.list xs).equals c = false := by
  cases c <;> first | rfl | cases h

theorem not_isList_of_isLeaf {c : PyVal} (h : c.isLeaf = true) : c.isList = false := by
  cases c <;> first | rfl | cases h

theorem catchKeyError_ne {result : Except PyException Bool} {key : String} :
    catchKeyError result ≠ .error (.keyError key) := by
  intro h
  cases result with
  | ok b => cases h
  | error e => cases e <;> cases h

theorem catchKeyError_of_ne {result : Except PyException Bool}
    (h : ∀ key, result ≠ .error (.keyError key)) : catchKeyError result = result := by
  cases result with
  | ok b => rfl
  | error e =>
    cases e with
    | keyError key => exact absurd rfl (h key)
    | _ => rfl

/-- Only the rules of a `MetaRule` can raise, and they catch what is caught. -/
theorem evaluateMetaRule_ne (analysis : PyVal) (rule : MetaRule) (key : String) :
    evaluateMetaRule analysis rule ≠ .error (.keyError key) := by
  intro h
  obtain ⟨rules, _ | _⟩ := rule
  · rcases anyM_cases (evaluateSingle analysis) rules with ⟨-, b, hb, -⟩ | ⟨-, r, -, e, he, hany⟩
    · cases hb.symm.trans h
    · cases hany.symm.trans h
      exact catchKeyError_ne he
  · rcases allM_cases (evaluateSingle analysis) rules with ⟨-, b, hb, -⟩ | ⟨-, r, -, e, he, hall⟩
    · cases hb.symm.trans h
    · cases hall.symm.trans h
      exact catchKeyError_ne he

theorem evaluate_metaRule (analysis : PyVal) (rule : MetaRule) :
    evaluate analysis (.metaRule rule) = evaluateMetaRule analysis rule :=
  catchKeyError_of_ne (evaluateMetaRule_ne analysis rule)

/-- No key can be looked up in a list, whatever it holds. -/
theorem getValue_list (xs ys : List PyVal) (path : List String) :
    getValue (.list xs) path = getValue (.list ys) path := by
  cases path with
  | nil => rfl
  | cons part path =>
    rw [getValue, getValue, getDottedPathFromDictionary, getDottedPathFromDictionary]
    cases hkeys : splitAtChar '.' part with
    | nil => exact absurd hkeys (splitAtChar_ne_nil _ _)
    | cons key keys => rfl

theorem evaluateMetaRule_list (xs ys : List PyVal) (rule : MetaRule) :
    evaluateMetaRule (.list xs) rule = evaluateMetaRule (.list ys) rule := by
  have hsingle : evaluateSingle (.list xs) = evaluateSingle (.list ys) := by
    funext r
    rw [evaluateSingle, evaluateSingle, evaluateSingleRule, evaluateSingleRule,
      getValue_list xs ys]
  rw [evaluateMetaRule, evaluateMetaRule, hsingle]

theorem evaluateSubPathRule_eq (analysis : PyVal) (rule : SubPathRule) :
    evaluateSubPathRule analysis rule = getValue analysis rule.basePath >>= fun values =>
      (asValues values).anyM fun w => evaluate w (.metaRule rule.metaRule) := by
  simp only [evaluate_metaRule]
  rw [evaluateSubPathRule]
  congr 1
  funext values
  cases h : values.isList with
  | false =>
    show evaluateMetaRule values rule.metaRule = _
    rw [anyM_asValues_of_not_isList h]
  | true =>
    rw [asValues, h]
    rfl

theorem evaluateSingleRule_eq {rule : SingleRule} (h : Rule.ComparesScalar (.single rule)) :
    evaluateSingleRule analysis rule = getValue analysis rule.valuePath >>= fun values =>
      (asValues values).anyM fun w => rule.relation w rule.comparison := by
  rw [evaluateSingleRule]
  congr 1
  funext values
  rw [not_isList_of_isLeaf h.2]
  cases hvalues : values.isList with
  | false =>
    show rule.relation values rule.comparison = _
    rw [anyM_asValues_of_not_isList hvalues]
  | true =>
    rw [asValues, hvalues]
    rfl

theorem decides_of_ok {α : Type} (g : α → Bool) (l : List α) :
    Decides true (l.map fun x => Except.ok (g x)) := by
  induction l with
  | nil => trivial
  | cons x l ih => exact .inr ih

/-- A rule says what it stands for, if and only if it suits the data. -/
theorem evaluate_iff (analysis : PyVal) (rule : Rule) (h : rule.ComparesScalar) :
    (∃ b, evaluate analysis rule = .ok b ∧ (b = true ↔ rule.Holds analysis)) ↔
      rule.Fits analysis := by
  cases rule with
  | single rule =>
    have hequals : (fun w => rule.relation w rule.comparison) =
        fun w => .ok (w.equals rule.comparison) := by
      rw [h.1]
      rfl
    have hpath := @evaluatePath_iff analysis rule.valuePath
      (fun w => rule.relation w rule.comparison)
      (fun xs ys => by
        rw [h.1, RuleRelation.equals, equals_list_leaf xs h.2, RuleRelation.equals,
          equals_list_leaf ys h.2])
      (fun w key => by
        rw [h.1]
        intro h
        cases h)
    rw [← evaluateSingleRule_eq h] at hpath
    refine hpath.trans (and_iff_left fun _ => ?_)
    rw [hequals]
    exact decides_of_ok _ _
  | metaRule rule =>
    rw [evaluate_metaRule]
    obtain ⟨rules, _ | _⟩ := rule
    · rcases anyM_cases (evaluateSingle analysis) rules with ⟨hdecides, b, hb, hiff⟩ | ⟨hnot, h⟩
      · exact iff_of_true ⟨b, hb, hiff⟩ hdecides
      · refine iff_of_false (fun hok => ?_) hnot
        obtain ⟨r, -, e, -, hany⟩ := h
        obtain ⟨b, hb, -⟩ := hok
        cases hb.symm.trans hany
    · rcases allM_cases (evaluateSingle analysis) rules with ⟨hdecides, b, hb, hiff⟩ | ⟨hnot, h⟩
      · exact iff_of_true ⟨b, hb, hiff⟩ hdecides
      · refine iff_of_false (fun hok => ?_) hnot
        obtain ⟨r, -, e, -, hall⟩ := h
        obtain ⟨b, hb, -⟩ := hok
        cases hb.symm.trans hall
  | subPath rule =>
    have hpath := @evaluatePath_iff analysis rule.basePath
      (fun w => evaluate w (.metaRule rule.metaRule))
      (fun xs ys => by
        rw [evaluate_metaRule, evaluate_metaRule, evaluateMetaRule_list xs ys])
      (fun w key => catchKeyError_ne)
    rw [← evaluateSubPathRule_eq] at hpath
    exact hpath

end Rules

/-- The addresses that were found in a file. -/
def foundAddresses : PyVal :=
  .dict [("ip_and_uri_finder", .dict [("ip_v4",
    .list [.dict [("address", .str "1")], .dict [("address", .str "2")]])])]

def addressRule : Rule :=
  .single ⟨["ip_and_uri_finder.ip_v4", "address"], RuleRelation.equals, .str "2"⟩

theorem addressRule_fits : addressRule.Fits foundAddresses := by
  have hkeys : pathKeys ["ip_and_uri_finder.ip_v4", "address"] =
      ["ip_and_uri_finder", "ip_v4", "address"] := by decide
  have hitem : Reaches (.dict [("address", .str "2")]) ["address"] (.str "2") :=
    .key rfl (.here rfl)
  have hreaches : Reaches foundAddresses ["ip_and_uri_finder", "ip_v4", "address"] (.str "2") :=
    .key rfl (.key rfl (.element (List.mem_cons_of_mem _ List.mem_cons_self) hitem))
  exact (evaluate_iff foundAddresses addressRule ⟨rfl, rfl⟩).mp
    ⟨true, rfl, iff_of_true rfl ⟨.str "2", hkeys ▸ hreaches, rfl⟩⟩

/-- The versions of two components, one of them unknown. -/
def componentVersions : PyVal :=
  .dict [("components", .list [.dict [("version", .str "1.0.1a")], .dict []])]

/-- A version that is missing in one component hides the version of the other one. -/
theorem missingVersion_hides_match :
    ¬∀ (analysis : PyVal) (rule : Rule), rule.ComparesScalar →
      ∃ b, evaluate analysis rule = .ok b ∧ (b = true ↔ rule.Holds analysis) := by
  intro h
  obtain ⟨b, hb, hiff⟩ := h componentVersions
    (.single ⟨["components", "version"], RuleRelation.equals, .str "1.0.1a"⟩) ⟨rfl, rfl⟩
  cases hb
  have hkeys : pathKeys ["components", "version"] = ["components", "version"] := by decide
  have hitem : Reaches (.dict [("version", .str "1.0.1a")]) ["version"] (.str "1.0.1a") :=
    .key rfl (.here rfl)
  have hreaches : Reaches componentVersions ["components", "version"] (.str "1.0.1a") :=
    .key rfl (.element List.mem_cons_self hitem)
  cases hiff.mpr ⟨.str "1.0.1a", hkeys ▸ hreaches, rfl⟩

end FactCore
