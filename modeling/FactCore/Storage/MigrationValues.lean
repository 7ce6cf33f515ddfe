import FactCore.Storage.Sanitizing
import FactCore.Lib.MapM
import FactCore.Lib.Utf8

/-!
# The results of the old database

`src/src/migrate_db_to_postgresql.py`: the functions that make analysis results of
the MongoDB fit for the columns of the new database. A stored result could hold byte
strings and null bytes, JSON columns take neither.

`_fix_illegal_dict` and `_fix_illegal_list` rewrite a result in place, nested dicts
and lists included. The rewriting is about the leaves alone: what becomes of a value
depends on the value, the plugin, and whether it stands in a dict, and under which
key, or in a list. A key stays as it is, and so does a tuple, which a pickled report
can hold, with all that is in it.

Results:
1. `leaves_fixIllegalDict`: rewriting a result is rewriting its leaves one by one; the
   first leaf that cannot be rewritten ends the migration.
2. `jsonSafe_iff`: the leaves of a value that a JSON column takes.
3. `jsonSafe_fixIllegalDict_iff`: when a JSON column takes what is left.
-/

namespace FactCore

/-! ## 1. Values -/

/-- The values of a stored result. -/
inductive MongoVal
  | none
  | bool (b : Bool)
  | num (x : Rat)
  | str (s : String)
  | bytes (bs : List UInt8)
  | list (xs : List MongoVal)
  | tuple (xs : List MongoVal)
  | dict (entries : List (String × MongoVal))

/-- What ends the migration. -/
inductive MigrationError
  | raised (e : PyException)
  /-- `sys.exit(1)`. -/
  | systemExit
  | unicodeDecodeError
  deriving DecidableEq, Repr

/-- The digits of base64. -/
def b64Digits : List Char :=
  "ABCDEFGHIJKLMNOPQRSTUVWXYZabcdefghijklmnopqrstuvwxyz0123456789+/".toList

/-- The digit for six bits. -/
def b64Digit (n : Nat) : Char := b64Digits.getD n '='

/-- The digits of a byte string, in groups of four for three bytes. -/
def b64Chars : List UInt8 → List Char
  | [] => []
  | [a] => [b64Digit (a.toNat / 4), b64Digit (a.toNat % 4 * 16), '=', '=']
  | [a, b] =>
    [b64Digit (a.toNat / 4), b64Digit (a.toNat % 4 * 16 + b.toNat / 16),
      b64Digit (b.toNat % 16 * 4), '=']
  | a :: b :: c :: bs =>
    b64Digit (a.toNat / 4) :: b64Digit (a.toNat % 4 * 16 + b.toNat / 16) ::
      b64Digit (b.toNat % 16 * 4 + c.toNat / 64) :: b64Digit (c.toNat % 64) :: b64Chars bs

/-- `b64encode(value).decode()`. -/
def b64encode (bs : List UInt8) : String := String.ofList (b64Chars bs)

/-- `value.decode()`: `none` is the `UnicodeDecodeError`. -/
def decodeStrict (bs : List UInt8) : Option String := String.fromUTF8? ⟨bs.toArray⟩

/-- `s.replace('\0', '\\x00')`. -/
def replaceNul (s : String) : String :=
  String.ofList (s.toList.flatMap fun c => if c = nul then ['\\', 'x', '0', '0'] else [c])

/-- A byte string in a dict, in a result of the plugin `label`. -/
def fixDictBytes (label key : String) (bs : List UInt8) : Except MigrationError String :=
  if key = "entropy_analysis_graph" then .ok (b64encode bs)
  else if key = "strace" then .ok (b64encode bs)
  else if label = "users_and_passwords" then .ok (replaceNul (decodeReplace bs))
  else .error .systemExit

/-- A byte string in a list. A null byte stays in the text. -/
def fixListBytes (bs : List UInt8) : Except MigrationError String :=
  match decodeStrict bs with
  | some s => .ok s
  | none => .error .unicodeDecodeError

mutual

/-- `_fix_illegal_dict`, with the values that it leaves. -/
def fixIllegalDict (label : String) :
    List (String × MongoVal) → Except MigrationError (List (String × MongoVal))
  | [] => .ok []
  | (key, value) :: entries => do
    let value' ← fixDictValue label key value
    let entries' ← fixIllegalDict label entries
    return (key, value') :: entries'

/-- The round of the loop for one value of a dict. -/
def fixDictValue (label key : String) : MongoVal → Except MigrationError MongoVal
  | .none => .ok .none
  | .bool b => .ok (.bool b)
  | .num x => .ok (.num x)
  | .str s => .ok (.str (replaceNul s))
  | .bytes bs => (fixDictBytes label key bs).map .str
  | .list xs => (fixIllegalList label xs).map .list
  | .tuple xs => .ok (.tuple xs)
  | .dict entries => (fixIllegalDict label entries).map .dict

/-- `_fix_illegal_list`, with the elements that it leaves. -/
def fixIllegalList (label : String) : List MongoVal → Except MigrationError (List MongoVal)
  | [] => .ok []
  | element :: xs => do
    let element' ← fixListElement label element
    let xs' ← fixIllegalList label xs
    return element' :: xs'

/-- The round of the loop for one element of a list. -/
def fixListElement (label : String) : MongoVal → Except MigrationError MongoVal
  | .none => .ok .none
  | .bool b => .ok (.bool b)
  | .num x => .ok (.num x)
  | .str s => .ok (.str (replaceNul s))
  | .bytes bs => (fixListBytes bs).map .str
  | .list xs => (fixIllegalList label xs).map .list
  | .tuple xs => .ok (.tuple xs)
  | .dict entries => (fixIllegalDict label entries).map .dict

end

/-- `_check_for_missing_fields`. -/
def checkForMissingFields (analysisData : List (String × MongoVal)) : List (String × MongoVal) :=
  ["plugin_version", "analysis_date"].foldl
    (fun data field => if field ∈ data.map Prod.fst then data else data ++ [(field, .str "0")])
    analysisData

/-- The keys that `_migrate_plugin` leaves where they are. -/
def keptArchitectureKeys : List String :=
  ["analysis_date", "plugin_version", "skipped", "summary", "system_version", "tags"]

/-- `_migrate_plugin`: the architectures of `cpu_architecture` get a dict of their own, under a key
that is free then. -/
def migratePlugin (pluginName : String) (processedAnalysis : List (String × MongoVal)) :
    List (String × MongoVal) :=
  if pluginName = "cpu_architecture" then
    (processedAnalysis.filter fun e => decide (e.1 ∈ keptArchitectureKeys)) ++
      [("architectures",
        .dict (processedAnalysis.filter fun e => decide (e.1 ∉ keptArchitectureKeys)))]
  else processedAnalysis

/-- What `_migrate_single_object` does to one result. -/
def migrateAnalysis (plugin : String) (pluginData : List (String × MongoVal)) :
    Except MigrationError (List (String × MongoVal)) :=
  (fixIllegalDict plugin pluginData).map fun data =>
    migratePlugin plugin (checkForMissingFields data)

mutual

/-- A value as it is written to a JSON column: a tuple is written as a list, a byte string not at
all. -/
def jsonValue : MongoVal → Except MigrationError PyVal
  | .none => .ok .none
  | .bool b => .ok (.bool b)
  | .num x => .ok (.num x)
  | .str s => .ok (.str s)
  | .bytes _ => .error (.raised (.sqlAlchemyError
      "(builtins.TypeError) Object of type bytes is not JSON serializable"))
  | .list xs => (jsonElements xs).map .list
  | .tuple xs => (jsonElements xs).map .list
  | .dict entries => (jsonEntries entries).map .dict

def jsonElements : List MongoVal → Except MigrationError (List PyVal)
  | [] => .ok []
  | v :: xs => do
    let v' ← jsonValue v
    let xs' ← jsonElements xs
    return v' :: xs'

def jsonEntries : List (String × MongoVal) → Except MigrationError (List (String × PyVal))
  | [] => .ok []
  | (key, v) :: entries => do
    let v' ← jsonValue v
    let entries' ← jsonEntries entries
    return (key, v') :: entries'

end

/-! ## 2. Leaves -/

/-- A step down into a value. -/
inductive PathStep
  | key (k : String)
  | index (i : Nat)
  deriving DecidableEq, Repr

/-- The leaves of a value, or the value itself if it has none. -/
def orLeaf {α : Type} (leaf : α) (leaves : List α) : List α :=
  if leaves = [] then [leaf] else leaves

mutual

/-- The leaves of a value that stands at `path`, with their paths, the last step first. A tuple is a
leaf, and so is an empty list or dict. -/
def MongoVal.leaves (path : List PathStep) : MongoVal → List (List PathStep × MongoVal)
  | .list xs => orLeaf (path, .list []) (MongoVal.listLeaves path 0 xs)
  | .dict entries => orLeaf (path, .dict []) (MongoVal.dictLeaves path entries)
  | v => [(path, v)]

def MongoVal.listLeaves (path : List PathStep) (i : Nat) :
    List MongoVal → List (List PathStep × MongoVal)
  | [] => []
  | v :: xs => MongoVal.leaves (.index i :: path) v ++ MongoVal.listLeaves path (i + 1) xs

def MongoVal.dictLeaves (path : List PathStep) :
    List (String × MongoVal) → List (List PathStep × MongoVal)
  | [] => []
  | (k, v) :: entries => MongoVal.leaves (.key k :: path) v ++ MongoVal.dictLeaves path entries

end

/-- What becomes of a leaf. -/
def fixLeaf (label : String) (leaf : List PathStep × MongoVal) :
    Except MigrationError (List PathStep × MongoVal) :=
  match leaf.2 with
  | .str s => .ok (leaf.1, .str (replaceNul s))
  | .bytes bs =>
    match leaf.1 with
    | .key key :: _ => (fixDictBytes label key bs).map fun s => (leaf.1, .str s)
    | _ => (fixListBytes bs).map fun s => (leaf.1, .str s)
  | .list _ => .ok (leaf.1, .list [])
  | .dict _ => .ok (leaf.1, .dict [])
  | v => .ok (leaf.1, v)

section Leaves
variable {label : String} {path : List PathStep}

theorem mapM_orLeaf {α β ε : Type} {f : α → Except ε β} {leaf : α} {leaf' : β} {leaves : List α}
    (hleaf : f leaf = .ok leaf') :
    (orLeaf leaf leaves).mapM f = (leaves.mapM f).map (orLeaf leaf') := by
  cases leaves with
  | nil =>
    show [leaf].mapM f = .ok [leaf']
    rw [List.mapM_cons, hleaf]
    rfl
  | cons x xs =>
    rw [orLeaf, if_neg (List.cons_ne_nil x xs), List.mapM_cons]
    cases f x with
    | error e => rfl
    | ok y => cases xs.mapM f <;> rfl

/-- Induction over the values inside a list, a tuple or a dict. -/
theorem MongoVal.ind {P : MongoVal → Prop} (none : P .none) (bool : ∀ b, P (.bool b))
    (num : ∀ x, P (.num x)) (str : ∀ s, P (.str s)) (bytes : ∀ bs, P (.bytes bs))
    (list : ∀ xs, (∀ x ∈ xs, P x) → P (.list xs)) (tuple : ∀ xs, (∀ x ∈ xs, P x) → P (.tuple xs))
    (dict : ∀ entries, (∀ e ∈ entries, P e.2) → P (.dict entries)) (v : MongoVal) : P v := by
  refine @MongoVal.rec P (fun xs => ∀ x ∈ xs, P x) (fun entries => ∀ e ∈ entries, P e.2)
    (fun e => P e.2) none bool num str bytes list tuple dict ?_ ?_ ?_ ?_ (fun _ _ h => h) v
  · exact fun _ h => absurd h List.not_mem_nil
  · exact fun _ _ hx hxs => List.forall_mem_cons.mpr ⟨hx, hxs⟩
  · exact fun _ h => absurd h List.not_mem_nil
  · exact fun _ _ he hes => List.forall_mem_cons.mpr ⟨he, hes⟩

/-- Rewriting the value is rewriting its leaves, in a dict and in a list. -/
def FixesLeaves (label : String) (v : MongoVal) : Prop :=
  (∀ path key, (fixDictValue label key v).map (MongoVal.leaves (.key key :: path)) =
    (MongoVal.leaves (.key key :: path) v).mapM (fixLeaf label)) ∧
  ∀ path i, (fixListElement label v).map (MongoVal.leaves (.index i :: path)) =
    (MongoVal.leaves (.index i :: path) v).mapM (fixLeaf label)

theorem mapM_singleton {α β ε : Type} (f : α → Except ε β) (x : α) :
    [x].mapM f = (f x).map fun y => [y] := by
  rw [List.mapM_cons]
  cases f x <;> rfl

/-- The leaves of a value, then those of the rest. -/
theorem mapM_leaves_append {α β γ δ ε : Type} {f : α → Except ε β} {first rest : List α}
    {x : Except ε γ} {y : Except ε δ} {g : γ → List β} {h : δ → List β} {join : γ → δ → List β}
    (hjoin : ∀ a b, join a b = g a ++ h b) (hfirst : x.map g = first.mapM f)
    (hrest : y.map h = rest.mapM f) :
    (x >>= fun a => y.map (join a)) = (first ++ rest).mapM f := by
  rw [List.mapM_append, ← hfirst, ← hrest]
  cases x with
  | error e => rfl
  | ok a =>
    cases y with
    | error e => rfl
    | ok b => exact congrArg Except.ok (hjoin a b)

theorem leaves_fixIllegalList {xs : List MongoVal} (h : ∀ x ∈ xs, FixesLeaves label x)
    (path : List PathStep) (i : Nat) :
    (fixIllegalList label xs).map (MongoVal.listLeaves path i) =
      (MongoVal.listLeaves path i xs).mapM (fixLeaf label) := by
  induction xs generalizing i with
  | nil => rfl
  | cons x xs ih =>
    obtain ⟨hx, hxs⟩ := List.forall_mem_cons.mp h
    rw [MongoVal.listLeaves, ← mapM_leaves_append (fun _ _ => rfl) (hx.2 path i) (ih hxs (i + 1)),
      fixIllegalList]
    cases fixListElement label x with
    | error e => rfl
    | ok v => cases fixIllegalList label xs <;> rfl

theorem leaves_fixIllegalDict_of {entries : List (String × MongoVal)}
    (h : ∀ e ∈ entries, FixesLeaves label e.2) (path : List PathStep) :
    (fixIllegalDict label entries).map (MongoVal.dictLeaves path) =
      (MongoVal.dictLeaves path entries).mapM (fixLeaf label) := by
  induction entries with
  | nil => rfl
  | cons e entries ih =>
    obtain ⟨key, v⟩ := e
    obtain ⟨hv, hentries⟩ := List.forall_mem_cons.mp h
    rw [MongoVal.dictLeaves, ← mapM_leaves_append (fun _ _ => rfl) (hv.1 path key) (ih hentries),
      fixIllegalDict]
    cases fixDictValue label key v with
    | error e => rfl
    | ok v' => cases fixIllegalDict label entries <;> rfl

theorem fixesLeaves (label : String) (v : MongoVal) : FixesLeaves label v := by
  induction v using MongoVal.ind with
  | none | bool _ | num _ | str _ | tuple _ => exact ⟨fun _ _ => rfl, fun _ _ => rfl⟩
  | bytes bs =>
    -- what becomes of a byte string is a text, a leaf itself
    constructor
    · intro path key
      show ((fixDictBytes label key bs).map _).map _ = [_].mapM (fixLeaf label)
      rw [mapM_singleton]
      show _ = Except.map _ ((fixDictBytes label key bs).map _)
      cases fixDictBytes label key bs <;> rfl
    · intro path i
      show ((fixListBytes bs).map _).map _ = [_].mapM (fixLeaf label)
      rw [mapM_singleton]
      show _ = Except.map _ ((fixListBytes bs).map _)
      cases fixListBytes bs <;> rfl
  | list xs ih =>
    have hleaf : ∀ path, fixLeaf label (path, .list []) = .ok (path, .list []) := fun _ => rfl
    constructor
    · intro path key
      rw [MongoVal.leaves, mapM_orLeaf (hleaf _), ← leaves_fixIllegalList ih, fixDictValue]
      cases fixIllegalList label xs <;> rfl
    · intro path i
      rw [MongoVal.leaves, mapM_orLeaf (hleaf _), ← leaves_fixIllegalList ih, fixListElement]
      cases fixIllegalList label xs <;> rfl
  | dict entries ih =>
    have hleaf : ∀ path, fixLeaf label (path, .dict []) = .ok (path, .dict []) := fun _ => rfl
    constructor
    · intro path key
      rw [MongoVal.leaves, mapM_orLeaf (hleaf _), ← leaves_fixIllegalDict_of ih, fixDictValue]
      cases fixIllegalDict label entries <;> rfl
    · intro path i
      rw [MongoVal.leaves, mapM_orLeaf (hleaf _), ← leaves_fixIllegalDict_of ih, fixListElement]
      cases fixIllegalDict label entries <;> rfl

end Leaves

/-- Rewriting a result is rewriting its leaves one by one, in the order of the traversal; the first
leaf that cannot be rewritten ends the migration. -/
theorem leaves_fixIllegalDict (label : String) (dict : List (String × MongoVal)) :
    (fixIllegalDict label dict).map (MongoVal.dictLeaves []) =
      (MongoVal.dictLeaves [] dict).mapM (fixLeaf label) :=
  leaves_fixIllegalDict_of (fun e _ => fixesLeaves label e.2) []

/-! ## 3. JSON columns -/

/-- A JSON column takes the value: it holds no byte string, and no text or key with a null byte. -/
def JsonSafe (v : MongoVal) : Prop := ∃ result, jsonValue v = .ok result ∧ result.NulFree

section Json
variable {path : List PathStep} {xs : List MongoVal} {entries : List (String × MongoVal)}

theorem jsonElements_eq : jsonElements xs = xs.mapM jsonValue := by
  induction xs with
  | nil => rfl
  | cons v xs ih =>
    rw [jsonElements, List.mapM_cons, ih]

theorem jsonEntries_eq : jsonEntries entries =
    entries.mapM fun e => (jsonValue e.2).map fun v => (e.1, v) := by
  induction entries with
  | nil => rfl
  | cons e entries ih =>
    rw [jsonEntries, List.mapM_cons, ih]
    cases jsonValue e.2 <;> rfl

theorem exists_map_ok_iff {α β ε : Type} {x : Except ε α} {f : α → β} {P : β → Prop} :
    (∃ y, x.map f = .ok y ∧ P y) ↔ ∃ a, x = .ok a ∧ P (f a) := by
  cases x with
  | error e => exact iff_of_false (fun ⟨_, h, _⟩ => by cases h) (fun ⟨_, h, _⟩ => by cases h)
  | ok a => simp [Except.map]

theorem nulFree_list {ys : List PyVal} : (PyVal.list ys).NulFree ↔ ∀ y ∈ ys, y.NulFree :=
  PyVal.atEveryDepth_list.trans (and_iff_right fun _ h => absurd h List.not_mem_nil)

theorem jsonSafe_list : JsonSafe (.list xs) ↔ ∀ x ∈ xs, JsonSafe x := by
  rw [JsonSafe, jsonValue, exists_map_ok_iff, jsonElements_eq]
  simp only [nulFree_list]
  exact exists_mapM_ok_iff

theorem jsonSafe_tuple : JsonSafe (.tuple xs) ↔ ∀ x ∈ xs, JsonSafe x := jsonSafe_list

theorem jsonSafe_dict :
    JsonSafe (.dict entries) ↔ ∀ e ∈ entries, nul ∉ e.1.toList ∧ JsonSafe e.2 := by
  have hdict : ∀ {ys : List (String × PyVal)},
      (PyVal.dict ys).NulFree ↔ ∀ y ∈ ys, nul ∉ y.1.toList ∧ y.2.NulFree := by
    intro ys
    rw [PyVal.NulFree, PyVal.atEveryDepth_dict, PyVal.texts, List.forall_mem_map, forall₂_and]
  rw [JsonSafe, jsonValue, exists_map_ok_iff, jsonEntries_eq]
  simp only [hdict]
  rw [exists_mapM_ok_iff]
  refine forall₂_congr fun e _ => exists_map_ok_iff.trans ?_
  exact ⟨fun ⟨v, hv, hkey, hnul⟩ => ⟨hkey, v, hv, hnul⟩, fun ⟨hkey, v, hv, hnul⟩ => ⟨v, hv, hkey, hnul⟩⟩

/-- No key on the path has a null byte. -/
def KeysSafe (path : List PathStep) : Prop := ∀ key, .key key ∈ path → nul ∉ key.toList

/-- A JSON column takes the leaf, and the dicts that it stands in. -/
structure LeafSafe (leaf : List PathStep × MongoVal) : Prop where
  keys : KeysSafe leaf.1
  value : JsonSafe leaf.2

theorem keysSafe_nil : KeysSafe [] := fun _ hkey => absurd hkey List.not_mem_nil

theorem keysSafe_index {i : Nat} (h : KeysSafe path) : KeysSafe (.index i :: path) := by
  intro key hkey
  rcases List.mem_cons.mp hkey with heq | hkey
  · cases heq
  · exact h key hkey

theorem keysSafe_key {key : String} (hnul : nul ∉ key.toList) (h : KeysSafe path) :
    KeysSafe (.key key :: path) := by
  intro key' hkey
  rcases List.mem_cons.mp hkey with heq | hkey
  · obtain rfl := PathStep.key.inj heq
    exact hnul
  · exact h key' hkey

/-- Every value has a leaf, and the way to it goes through the value. -/
theorem exists_leaf (v : MongoVal) (path : List PathStep) :
    ∃ leaf ∈ MongoVal.leaves path v, path ⊆ leaf.1 := by
  induction v using MongoVal.ind generalizing path with
  | none | bool _ | num _ | str _ | bytes _ | tuple _ =>
    exact ⟨(path, _), List.mem_singleton_self _, List.Subset.refl path⟩
  | list xs ih =>
    cases xs with
    | nil => exact ⟨(path, _), List.mem_singleton_self _, List.Subset.refl path⟩
    | cons x xs =>
      obtain ⟨leaf, hleaf, hpath⟩ := ih x List.mem_cons_self (.index 0 :: path)
      have hmem : leaf ∈ MongoVal.listLeaves path 0 (x :: xs) := List.mem_append_left _ hleaf
      refine ⟨leaf, ?_, List.Subset.trans (List.subset_cons_self _ _) hpath⟩
      rw [MongoVal.leaves, orLeaf, if_neg (List.ne_nil_of_mem hmem)]
      exact hmem
  | dict entries ih =>
    cases entries with
    | nil => exact ⟨(path, _), List.mem_singleton_self _, List.Subset.refl path⟩
    | cons e entries =>
      obtain ⟨leaf, hleaf, hpath⟩ := ih e List.mem_cons_self (.key e.1 :: path)
      have hmem : leaf ∈ MongoVal.dictLeaves path (e :: entries) := List.mem_append_left _ hleaf
      refine ⟨leaf, ?_, List.Subset.trans (List.subset_cons_self _ _) hpath⟩
      rw [MongoVal.leaves, orLeaf, if_neg (List.ne_nil_of_mem hmem)]
      exact hmem

theorem forall_mem_orLeaf {α : Type} {p : α → Prop} {leaf : α} {leaves : List α} (h : p leaf) :
    (∀ x ∈ orLeaf leaf leaves, p x) ↔ ∀ x ∈ leaves, p x := by
  unfold orLeaf
  split
  · next hnil => simp [hnil, h]
  · exact Iff.rfl

theorem forall_listLeaves (h : KeysSafe path)
    (hleaves : ∀ x ∈ xs, ∀ path, KeysSafe path →
      ((∀ leaf ∈ MongoVal.leaves path x, LeafSafe leaf) ↔ JsonSafe x)) (i : Nat) :
    (∀ leaf ∈ MongoVal.listLeaves path i xs, LeafSafe leaf) ↔ ∀ x ∈ xs, JsonSafe x := by
  induction xs generalizing i with
  | nil => simp [MongoVal.listLeaves]
  | cons x xs ih =>
    obtain ⟨hx, hxs⟩ := List.forall_mem_cons.mp hleaves
    rw [MongoVal.listLeaves, List.forall_mem_append, List.forall_mem_cons,
      hx _ (keysSafe_index h), ih hxs]

theorem forall_dictLeaves (h : KeysSafe path)
    (hleaves : ∀ e ∈ entries, ∀ path, KeysSafe path →
      ((∀ leaf ∈ MongoVal.leaves path e.2, LeafSafe leaf) ↔ JsonSafe e.2)) :
    (∀ leaf ∈ MongoVal.dictLeaves path entries, LeafSafe leaf) ↔
      ∀ e ∈ entries, nul ∉ e.1.toList ∧ JsonSafe e.2 := by
  induction entries with
  | nil => simp [MongoVal.dictLeaves]
  | cons e entries ih =>
    obtain ⟨he, hentries⟩ := List.forall_mem_cons.mp hleaves
    rw [MongoVal.dictLeaves, List.forall_mem_append, List.forall_mem_cons, ih hentries]
    refine and_congr_left fun _ => ?_
    by_cases hnul : nul ∈ e.1.toList
    · -- the key is on the way to a leaf
      obtain ⟨leaf, hleaf, hpath⟩ := exists_leaf e.2 (.key e.1 :: path)
      refine iff_of_false (fun hall => ?_) fun hsafe => hsafe.1 hnul
      exact (hall leaf hleaf).keys e.1 (hpath List.mem_cons_self) hnul
    · rw [he _ (keysSafe_key hnul h), and_iff_right hnul]

/-- A JSON column takes a value exactly if it takes all leaves of it. -/
theorem jsonSafe_iff (v : MongoVal) {path : List PathStep} (h : KeysSafe path) :
    (∀ leaf ∈ MongoVal.leaves path v, LeafSafe leaf) ↔ JsonSafe v := by
  induction v using MongoVal.ind generalizing path with
  | none | bool _ | num _ | str _ | bytes _ | tuple _ =>
    show (∀ leaf ∈ [(path, _)], LeafSafe leaf) ↔ _
    rw [List.forall_mem_singleton]
    exact ⟨LeafSafe.value, fun hv => ⟨h, hv⟩⟩
  | list xs ih =>
    have hempty : LeafSafe (path, .list []) := ⟨h, jsonSafe_list.mpr (List.forall_mem_nil _)⟩
    rw [MongoVal.leaves, forall_mem_orLeaf hempty, jsonSafe_list]
    exact forall_listLeaves h (fun x hx _ hpath => ih x hx hpath) 0
  | dict entries ih =>
    have hempty : LeafSafe (path, .dict []) := ⟨h, jsonSafe_dict.mpr (List.forall_mem_nil _)⟩
    rw [MongoVal.leaves, forall_mem_orLeaf hempty, jsonSafe_dict]
    exact forall_dictLeaves h fun e he _ hpath => ih e he hpath

end Json

/-! ## 4. What is left for a JSON column -/

theorem not_mem_replaceNul (s : String) : nul ∉ (replaceNul s).toList := by
  intro h
  rw [replaceNul, String.toList_ofList] at h
  obtain ⟨c, -, hc⟩ := List.mem_flatMap.mp h
  split at hc
  · exact absurd hc (by decide)
  · next hne => exact hne (List.mem_singleton.mp hc).symm

theorem b64Digit_ne_nul (n : Nat) : b64Digit n ≠ nul := by
  have hcheck : (b64Digits.all fun c => decide (c ≠ nul)) = true := rfl
  have hall : ∀ c ∈ b64Digits, c ≠ nul := fun c hc =>
    of_decide_eq_true (List.all_eq_true.mp hcheck c hc)
  unfold b64Digit
  rw [List.getD_eq_getElem?_getD]
  cases h : b64Digits[n]? with
  | none => exact (by decide : '=' ≠ nul)
  | some c => exact hall c (List.mem_of_getElem? h)

theorem not_mem_b64encode (bs : List UInt8) : nul ∉ (b64encode bs).toList := by
  rw [b64encode, String.toList_ofList]
  have hpad : nul ≠ '=' := by decide
  induction bs using b64Chars.induct with
  | case1 => exact List.not_mem_nil
  | case2 a => simp [b64Chars, Ne.symm (b64Digit_ne_nul _), hpad]
  | case3 a b => simp [b64Chars, Ne.symm (b64Digit_ne_nul _), hpad]
  | case4 a b c bs ih => simp [b64Chars, Ne.symm (b64Digit_ne_nul _), ih]

/-- A byte string in a list is the text `s`. -/
def ListBytes (leaf : List PathStep × MongoVal) (s : String) : Prop :=
  (∀ key outer, leaf.1 ≠ .key key :: outer) ∧ ∃ bs, leaf.2 = .bytes bs ∧ decodeStrict bs = some s

/-- A leaf of a stored result that is fit for a JSON column once it is rewritten. -/
structure Mendable (leaf : List PathStep × MongoVal) : Prop where
  keys : KeysSafe leaf.1
  tuple : ∀ xs, leaf.2 = .tuple xs → JsonSafe (.tuple xs)
  listBytes : ∀ s, ListBytes leaf s → nul ∉ s.toList

section Mending
variable {label : String}

theorem not_mem_fixDictBytes {key : String} {bs : List UInt8} {s : String}
    (h : fixDictBytes label key bs = .ok s) : nul ∉ s.toList := by
  unfold fixDictBytes at h
  split_ifs at h
  · obtain rfl := Except.ok.inj h
    exact not_mem_b64encode bs
  · obtain rfl := Except.ok.inj h
    exact not_mem_b64encode bs
  · obtain rfl := Except.ok.inj h
    exact not_mem_replaceNul _

theorem jsonSafe_str {s : String} : JsonSafe (.str s) ↔ nul ∉ s.toList := by
  have hstr : (PyVal.str s).NulFree ↔ nul ∉ s.toList :=
    (PyVal.atEveryDepth_leaf rfl).trans List.forall_mem_singleton
  rw [JsonSafe, jsonValue, ← hstr]
  exact ⟨fun ⟨_, heq, hnul⟩ => Except.ok.inj heq ▸ hnul, fun hnul => ⟨_, rfl, hnul⟩⟩

theorem fixLeaf_safe_iff {leaf leaf' : List PathStep × MongoVal}
    (h : fixLeaf label leaf = .ok leaf') : LeafSafe leaf' ↔ Mendable leaf := by
  obtain ⟨path, v⟩ := leaf
  -- the path stays, so it is about what becomes of the value
  have hvalue : ∀ {v'}, (JsonSafe v' ↔ (∀ xs, v = .tuple xs → JsonSafe (.tuple xs)) ∧
      ∀ s, ListBytes (path, v) s → nul ∉ s.toList) → (LeafSafe (path, v') ↔ Mendable (path, v)) := by
    intro v' hiff
    exact ⟨fun hsafe => ⟨hsafe.keys, (hiff.mp hsafe.value).1, (hiff.mp hsafe.value).2⟩,
      fun hmend => ⟨hmend.keys, hiff.mpr ⟨hmend.tuple, hmend.listBytes⟩⟩⟩
  cases v with
  | none | bool _ | num _ =>
    cases h
    refine hvalue (iff_of_true ⟨_, rfl, (PyVal.atEveryDepth_leaf rfl).mpr ?_⟩ ⟨?_, ?_⟩)
    · exact fun _ ht => absurd ht List.not_mem_nil
    · rintro _ ⟨⟩
    · rintro _ ⟨-, _, ⟨⟩, -⟩
  | str s =>
    cases h
    refine hvalue (iff_of_true (jsonSafe_str.mpr (not_mem_replaceNul s)) ⟨?_, ?_⟩)
    · rintro _ ⟨⟩
    · rintro _ ⟨-, _, ⟨⟩, -⟩
  | list xs =>
    cases h
    refine hvalue (iff_of_true (jsonSafe_list.mpr (List.forall_mem_nil _)) ⟨?_, ?_⟩)
    · rintro _ ⟨⟩
    · rintro _ ⟨-, _, ⟨⟩, -⟩
  | dict entries =>
    cases h
    refine hvalue (iff_of_true (jsonSafe_dict.mpr (List.forall_mem_nil _)) ⟨?_, ?_⟩)
    · rintro _ ⟨⟩
    · rintro _ ⟨-, _, ⟨⟩, -⟩
  | tuple xs =>
    cases h
    refine hvalue ⟨fun hsafe => ⟨?_, ?_⟩, fun hall => hall.1 xs rfl⟩
    · rintro _ ⟨⟩
      exact hsafe
    · rintro _ ⟨-, _, ⟨⟩, -⟩
  | bytes bs =>
    have htuple : ∀ xs, MongoVal.bytes bs = .tuple xs → JsonSafe (.tuple xs) := by rintro _ ⟨⟩
    have hlist : ∀ {s}, (∀ key outer, path ≠ .key key :: outer) → fixListBytes bs = .ok s →
        (LeafSafe (path, .str s) ↔ Mendable (path, .bytes bs)) := by
      intro s hplace hfix
      unfold fixListBytes at hfix
      split at hfix
      · next t ht =>
        obtain rfl := Except.ok.inj hfix
        refine hvalue (jsonSafe_str.trans ⟨fun hnul => ⟨htuple, ?_⟩, fun hall => ?_⟩)
        · rintro s ⟨-, _, ⟨⟩, hs⟩
          rwa [Option.some.inj (hs.symm.trans ht)]
        · exact hall.2 t ⟨hplace, bs, rfl, ht⟩
      · cases hfix
    cases path with
    | nil =>
      obtain ⟨s, hs, rfl⟩ := except_map_eq_ok h
      exact hlist (by rintro _ _ ⟨⟩) hs
    | cons step outer =>
      cases step with
      | index i =>
        obtain ⟨s, hs, rfl⟩ := except_map_eq_ok h
        exact hlist (by rintro _ _ ⟨⟩) hs
      | key key =>
        obtain ⟨s, hs, rfl⟩ := except_map_eq_ok h
        refine hvalue (iff_of_true (jsonSafe_str.mpr (not_mem_fixDictBytes hs)) ⟨htuple, ?_⟩)
        rintro s ⟨hplace, -⟩
        exact absurd rfl (hplace key outer)

end Mending

/-- A JSON column takes what was rewritten exactly if no key and nothing in a tuple stands against
it, and no list holds a byte string with a null byte. -/
theorem jsonSafe_fixIllegalDict_iff {label : String} {dict dict' : List (String × MongoVal)}
    (h : fixIllegalDict label dict = .ok dict') :
    JsonSafe (.dict dict') ↔ ∀ leaf ∈ MongoVal.dictLeaves [] dict, Mendable leaf := by
  have hleaves : (MongoVal.dictLeaves [] dict).mapM (fixLeaf label) =
      .ok (MongoVal.dictLeaves [] dict') := by
    rw [← leaves_fixIllegalDict_of (fun e _ => fixesLeaves label e.2), h]
    rfl
  have hpairs := forall₂_of_mapM_eq_ok hleaves
  rw [jsonSafe_dict, ← forall_dictLeaves keysSafe_nil
    fun e _ _ hpath => jsonSafe_iff e.2 hpath]
  constructor
  · intro hsafe leaf hleaf
    obtain ⟨leaf', hmem, hfix⟩ := forall₂_mem_left hpairs hleaf
    exact (fixLeaf_safe_iff hfix).mp (hsafe leaf' hmem)
  · intro hmendable leaf' hmem
    obtain ⟨leaf, hleaf, hfix⟩ := forall₂_mem_left hpairs.flip hmem
    exact (fixLeaf_safe_iff hfix).mpr (hmendable leaf hleaf)

/-- A result of `qemu_exec` with the trace of a run, and a pickled report. -/
def tracedRun : List (String × MongoVal) :=
  [("strace", .bytes [0x01, 0x02]), ("parameters", .list [.str "-h\x00", .bytes [0x2d]]),
    ("report", .tuple [.str "ok", .num 1])]

theorem tracedRun_jsonSafe : ∃ dict', fixIllegalDict "qemu_exec" tracedRun = .ok dict' ∧
    JsonSafe (.dict dict') := by
  have hfix : fixIllegalDict "qemu_exec" tracedRun =
      .ok [("strace", .str (b64encode [0x01, 0x02])),
        ("parameters", .list [.str (replaceNul "-h\x00"), .str "-"]),
        ("report", .tuple [.str "ok", .num 1])] := by
    rfl
  refine ⟨_, hfix, (jsonSafe_fixIllegalDict_iff hfix).mpr fun leaf hleaf => ?_⟩
  have hleaves : MongoVal.dictLeaves [] tracedRun =
      [([.key "strace"], .bytes [0x01, 0x02]), ([.index 0, .key "parameters"], .str "-h\x00"),
        ([.index 1, .key "parameters"], .bytes [0x2d]),
        ([.key "report"], .tuple [.str "ok", .num 1])] := rfl
  have hreport : JsonSafe (.tuple [.str "ok", .num 1]) :=
    jsonSafe_tuple.mpr (List.forall_mem_cons.mpr ⟨jsonSafe_str.mpr (by decide),
      List.forall_mem_singleton.mpr ⟨.num 1, rfl, by decide⟩⟩)
  rw [hleaves] at hleaf
  simp only [List.mem_cons, List.not_mem_nil, or_false] at hleaf
  rcases hleaf with rfl | rfl | rfl | rfl
  · exact ⟨keysSafe_key (by decide) keysSafe_nil, by rintro _ ⟨⟩, fun s h => absurd rfl (h.1 _ _)⟩
  · exact ⟨keysSafe_index (keysSafe_key (by decide) keysSafe_nil), by rintro _ ⟨⟩,
      by rintro s ⟨-, _, ⟨⟩, -⟩⟩
  · refine ⟨keysSafe_index (keysSafe_key (by decide) keysSafe_nil), by rintro _ ⟨⟩, ?_⟩
    rintro s ⟨-, _, ⟨⟩, hs⟩
    have hminus : decodeStrict [0x2d] = some "-" := by rfl
    obtain rfl := Option.some.inj (hs.symm.trans hminus)
    decide
  · refine ⟨keysSafe_key (by decide) keysSafe_nil, ?_, by rintro s ⟨-, _, ⟨⟩, -⟩⟩
    rintro _ ⟨⟩
    exact hreport

end FactCore
