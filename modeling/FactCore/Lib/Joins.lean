import FactCore.Lib.Dict

/-!
# Joins and aggregates

A query joins tables row by row and groups the rows by a key. Tables are lists of rows,
the condition of a join is a Boolean function of two rows, and `array_agg` collects a
value of every row of a group. A dictionary of sets is what a program makes of such rows
with `d.setdefault(k, set()).add(v)`.

Results:
1. `mem_inner`: the rows of a join.
2. `get?_arrayAgg`: the groups, with their values.
3. `mem_collect`: a dictionary of sets holds exactly the pairs it was made of.
-/

namespace Joins

variable {α β κ ν : Type}

/-! ## 1. Joins -/

/-- `left JOIN right ON on`. -/
def inner (on : α → β → Bool) (left : List α) (right : List β) : List (α × β) :=
  left.flatMap fun a => (right.filter (on a)).map fun b => (a, b)

theorem mem_inner {on : α → β → Bool} {left : List α} {right : List β} {row : α × β} :
    row ∈ inner on left right ↔ row.1 ∈ left ∧ row.2 ∈ right ∧ on row.1 row.2 = true := by
  obtain ⟨a, b⟩ := row
  simp only [inner, List.mem_flatMap, List.mem_map, List.mem_filter, Prod.mk.injEq]
  constructor
  · rintro ⟨a', ha, b', ⟨hb, hon⟩, rfl, rfl⟩
    exact ⟨ha, hb, hon⟩
  · rintro ⟨ha, hb, hon⟩
    exact ⟨a, ha, b, ⟨hb, hon⟩, rfl, rfl⟩

/-- A condition on the right table is a condition on the rows that are joined. -/
theorem filter_inner_right (on : α → β → Bool) (p : β → Bool) (left : List α) (right : List β) :
    (inner on left right).filter (fun row => p row.2) = inner on left (right.filter p) := by
  rw [inner, List.filter_flatMap]
  refine List.flatMap_congr fun a _ => ?_
  rw [List.filter_map, List.filter_filter, List.filter_filter]
  exact congrArg _ (List.filter_congr fun b _ => Bool.and_comm _ _)

theorem inner_congr {on on' : α → β → Bool} {left : List α} (right : List β)
    (h : ∀ a ∈ left, ∀ b, on a b = on' a b) : inner on left right = inner on' left right :=
  List.flatMap_congr fun a ha => by rw [List.filter_congr fun b _ => h a ha b]

/-- What is done to the rows of the left table can be done after the join. -/
theorem inner_map_left {γ : Type} (on : γ → β → Bool) (f : α → γ) (left : List α)
    (right : List β) :
    inner on (left.map f) right =
      (inner (fun a => on (f a)) left right).map fun row => (f row.1, row.2) := by
  rw [inner, inner, List.flatMap_map, List.map_flatMap]
  refine List.flatMap_congr fun a _ => ?_
  rw [List.map_map]
  rfl

/-- A join over a foreign key keeps the rows as they are. -/
theorem map_fst_inner_key {κ ν : Type} [DecidableEq κ] {d : Dict κ ν} {key : α → κ} {left : List α}
    (h : ∀ a ∈ left, key a ∈ d) :
    (inner (fun a e => decide (e.1 = key a)) left d.entries).map Prod.fst = left := by
  have hpartner : ∀ k ∈ d, (d.entries.filter fun e => decide (e.1 = k)).length = 1 := by
    intro k hk
    have hcount := List.count_eq_one_of_mem d.nodup hk
    rw [← List.countP_eq_length_filter, ← hcount, List.count, List.countP_map]
    exact List.countP_congr fun e _ => by simp
  induction left with
  | nil => rfl
  | cons a left ih =>
    obtain ⟨hkey, hrest⟩ := List.forall_mem_cons.mp h
    obtain ⟨e, he⟩ := List.length_eq_one_iff.mp (hpartner (key a) hkey)
    have hcons : inner (fun a e => decide (e.1 = key a)) (a :: left) d.entries =
        (d.entries.filter fun e => decide (e.1 = key a)).map (fun e => (a, e)) ++
          inner (fun a e => decide (e.1 = key a)) left d.entries := rfl
    rw [hcons, he, List.map_append, ih hrest]
    rfl

/-! ## 2. Groups -/

section Group
variable [DecidableEq κ]

/-- `SELECT key, array_agg(value) ... GROUP BY key`. -/
def arrayAgg (key : α → κ) (value : α → ν) (rows : List α) : Dict κ (List ν) :=
  (rows.map fun row => (key row, value row)).foldl (fun d e => d.push e.1 e.2) ∅

variable {key : α → κ} {value : α → ν} {rows : List α} {k : κ} {v : ν} {vs : List ν}

theorem get?_arrayAgg : (arrayAgg key value rows).get? k =
    if k ∈ rows.map key then some ((rows.filter fun row => decide (key row = k)).map value)
    else none := by
  have hkeys : (rows.map fun row => (key row, value row)).map Prod.fst = rows.map key := by
    rw [List.map_map]
    rfl
  rw [arrayAgg, Dict.get?_foldl_push, hkeys, List.filter_map, List.map_map]
  simp [Dict.getD, Function.comp_def]

/-- A group is there for the key of a row, and has the values of all rows with this key. -/
theorem get?_arrayAgg_eq_some : (arrayAgg key value rows).get? k = some vs ↔
    (∃ row ∈ rows, key row = k) ∧
      vs = (rows.filter fun row => decide (key row = k)).map value := by
  rw [← List.mem_map, get?_arrayAgg]
  split
  · next h =>
    rw [Option.some.injEq]
    exact ⟨fun heq => ⟨h, heq.symm⟩, fun heq => heq.2.symm⟩
  · next h => simp [h]

theorem mem_arrayAgg (h : (arrayAgg key value rows).get? k = some vs) :
    v ∈ vs ↔ ∃ row ∈ rows, key row = k ∧ value row = v := by
  obtain ⟨-, rfl⟩ := get?_arrayAgg_eq_some.mp h
  simp only [List.mem_map, List.mem_filter, decide_eq_true_eq, and_assoc]

/-! ## 3. Dictionaries of sets -/

variable [DecidableEq ν] {d : Dict κ (List ν)} {pairs : List (κ × ν)}

/-- `d.setdefault(k, set()).add(v)`. -/
def addTo (d : Dict κ (List ν)) (k : κ) (v : ν) : Dict κ (List ν) :=
  d.set k ((d.getD k []).insert v)

/-- The dictionary of sets that a loop over pairs makes. -/
def collect (pairs : List (κ × ν)) : Dict κ (List ν) :=
  pairs.foldl (fun d e => addTo d e.1 e.2) ∅

theorem get?_addTo {j : κ} : (addTo d k v).get? j =
    if j = k then some ((d.getD k []).insert v) else d.get? j :=
  Dict.get?_set d k j _

theorem collect_concat (pairs : List (κ × ν)) (e : κ × ν) :
    collect (pairs ++ [e]) = addTo (collect pairs) e.1 e.2 := by
  rw [collect, List.foldl_append]
  rfl

theorem getD_collect_concat (pairs : List (κ × ν)) (e : κ × ν) : (collect (pairs ++ [e])).getD k [] =
    if k = e.1 then ((collect pairs).getD e.1 []).insert e.2 else (collect pairs).getD k [] := by
  rw [collect_concat, Dict.getD, get?_addTo]
  split <;> rfl

/-- The value is in the set of the key exactly if the pair was added. -/
theorem mem_collect : v ∈ (collect pairs).getD k [] ↔ (k, v) ∈ pairs := by
  induction pairs using List.reverseRecOn with
  | nil => simp [collect, Dict.getD]
  | append_singleton pairs e ih =>
    obtain ⟨j, w⟩ := e
    rw [getD_collect_concat, List.mem_append, List.mem_singleton, Prod.mk.injEq, ← ih]
    split
    · next heq =>
      subst heq
      simp [or_comm]
    · next hne => simp [hne]

/-- No key has an empty set. -/
theorem mem_keys_collect : k ∈ collect pairs ↔ ∃ v, (k, v) ∈ pairs := by
  induction pairs using List.reverseRecOn with
  | nil => simp [collect]
  | append_singleton pairs e ih =>
    rw [collect_concat, addTo, Dict.mem_set, ih]
    constructor
    · rintro (rfl | ⟨v, hv⟩)
      · exact ⟨e.2, List.mem_append_right _ (List.mem_singleton_self _)⟩
      · exact ⟨v, List.mem_append_left _ hv⟩
    · rintro ⟨v, hv⟩
      rcases List.mem_append.mp hv with hv | hv
      · exact .inr ⟨v, hv⟩
      · exact .inl (congrArg Prod.fst (List.mem_singleton.mp hv))

end Group

end Joins
