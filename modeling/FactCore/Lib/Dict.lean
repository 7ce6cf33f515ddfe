import Mathlib.Data.List.Induction
import Mathlib.Data.List.Nodup

/-!
# Ordered dictionaries

A dictionary keeps its keys in insertion order and never holds a key twice.
Writing to a key that is present replaces the value where it stands; writing to
a new key appends it. The order matters to programs that iterate over a
dictionary or take its first key, so it is kept, but every lookup result below
is independent of it.

Results:
1. `mem_iff`, `mem_entries_iff`: membership, the entry list and `get?` agree.
2. `get?_set`, `get?_filter`, `get?_erase`, `get?_mapValues`: what a lookup
   gives after each operation.
3. `set_eq_self`: writing the stored value changes nothing, order included.
4. `get?_unionWith`, `unionWith_self_iff`, `get?_update`, `mem_foldl_update`:
   merging dictionaries.
5. `get?_groupBy`: grouping a list by a key function.
-/

/-- A dictionary: its entries in insertion order, with pairwise distinct keys. -/
@[ext]
structure Dict (κ ν : Type) where
  entries : List (κ × ν)
  nodup : (entries.map Prod.fst).Nodup

namespace Dict

variable {κ ν μ : Type}

/-- The keys in insertion order. -/
def keys (d : Dict κ ν) : List κ := d.entries.map Prod.fst

/-- The values in insertion order. -/
def values (d : Dict κ ν) : List ν := d.entries.map Prod.snd

instance : Membership κ (Dict κ ν) := ⟨fun d k => k ∈ d.keys⟩

instance [DecidableEq κ] (d : Dict κ ν) (k : κ) : Decidable (k ∈ d) :=
  inferInstanceAs (Decidable (k ∈ d.keys))

theorem mem_def {d : Dict κ ν} {k : κ} : k ∈ d ↔ k ∈ d.keys := Iff.rfl

/-- The dictionary without entries. -/
def empty : Dict κ ν := ⟨[], List.nodup_nil⟩

instance : EmptyCollection (Dict κ ν) := ⟨empty⟩

instance : Inhabited (Dict κ ν) := ⟨empty⟩

@[simp] theorem keys_empty : (∅ : Dict κ ν).keys = [] := rfl

@[simp] theorem not_mem_empty (k : κ) : k ∉ (∅ : Dict κ ν) := by
  simp [mem_def]

theorem keys_nodup (d : Dict κ ν) : d.keys.Nodup := d.nodup

/-! ## 1. Lookup -/

section Lookup
variable [DecidableEq κ]

/-- The value of the first entry with key `k` in a list of entries. -/
def find (k : κ) : List (κ × ν) → Option ν
  | [] => none
  | e :: es => if e.1 = k then some e.2 else find k es

/-- The value stored under `k`. -/
def get? (d : Dict κ ν) (k : κ) : Option ν := find k d.entries

/-- The value stored under `k`, or `v` when there is none. -/
def getD (d : Dict κ ν) (k : κ) (v : ν) : ν := (d.get? k).getD v

@[simp] theorem get?_empty (k : κ) : (∅ : Dict κ ν).get? k = none := rfl

theorem find_eq_none_iff {k : κ} {es : List (κ × ν)} :
    find k es = none ↔ k ∉ es.map Prod.fst := by
  induction es with
  | nil => simp [find]
  | cons e es ih =>
    rcases eq_or_ne e.1 k with rfl | h
    · simp [find]
    · simp [find, h, ih, h.symm]

theorem find_eq_some_iff {k : κ} {v : ν} {es : List (κ × ν)} (hn : (es.map Prod.fst).Nodup) :
    find k es = some v ↔ (k, v) ∈ es := by
  induction es with
  | nil => simp [find]
  | cons e es ih =>
    obtain ⟨hne, hn'⟩ := List.nodup_cons.mp hn
    rcases eq_or_ne e.1 k with rfl | h
    · simp only [find, if_true, Option.some.injEq, List.mem_cons]
      constructor
      · rintro rfl
        exact .inl rfl
      · rintro (he | he)
        · exact congrArg Prod.snd he.symm
        · exact absurd (List.mem_map_of_mem he) hne
    · simp only [find, if_neg h, ih hn', List.mem_cons]
      exact ⟨.inr, fun hm => hm.resolve_left fun he => h (congrArg Prod.fst he).symm⟩

theorem get?_eq_none_iff {d : Dict κ ν} {k : κ} : d.get? k = none ↔ k ∉ d :=
  find_eq_none_iff

/-- An entry of the dictionary is what its key looks up. -/
theorem mem_entries_iff {d : Dict κ ν} {k : κ} {v : ν} :
    (k, v) ∈ d.entries ↔ d.get? k = some v :=
  (find_eq_some_iff d.nodup).symm

theorem mem_iff {d : Dict κ ν} {k : κ} : k ∈ d ↔ ∃ v, d.get? k = some v := by
  rw [← not_iff_not, ← get?_eq_none_iff]
  cases d.get? k <;> simp

theorem mem_of_get? {d : Dict κ ν} {k : κ} {v : ν} (h : d.get? k = some v) : k ∈ d :=
  mem_iff.mpr ⟨v, h⟩

theorem isSome_get? {d : Dict κ ν} {k : κ} : (d.get? k).isSome = true ↔ k ∈ d := by
  rw [mem_iff, Option.isSome_iff_exists]

end Lookup

/-! ## 2. Writing, selecting, mapping -/

section Write
variable [DecidableEq κ]

/-- Replace the value of the entry with key `k`. -/
def replace (k : κ) (v : ν) (es : List (κ × ν)) : List (κ × ν) :=
  es.map fun e => if e.1 = k then (k, v) else e

theorem map_fst_replace (k : κ) (v : ν) (es : List (κ × ν)) :
    (replace k v es).map Prod.fst = es.map Prod.fst := by
  rw [replace, List.map_map]
  refine List.map_congr_left fun e _ => ?_
  by_cases h : e.1 = k <;> simp [h]

/-- `d[k] = v`. -/
def set (d : Dict κ ν) (k : κ) (v : ν) : Dict κ ν :=
  if h : k ∈ d.keys then ⟨replace k v d.entries, by rw [map_fst_replace]; exact d.nodup⟩
  else ⟨d.entries ++ [(k, v)], by
    rw [List.map_append]
    refine d.nodup.append (List.nodup_singleton k) fun j hj hk => ?_
    have hjk : j = k := List.mem_singleton.mp hk
    exact h (hjk ▸ hj)⟩

/-- The entries whose key satisfies `p`. -/
def filter (d : Dict κ ν) (p : κ → Bool) : Dict κ ν :=
  ⟨d.entries.filter fun e => p e.1, d.nodup.sublist (List.filter_sublist.map _)⟩

/-- `d.pop(k)`, without the error for a missing key. -/
def erase (d : Dict κ ν) (k : κ) : Dict κ ν := d.filter fun j => decide (j ≠ k)

/-- Apply `f` to the value of every key. -/
def mapValues (d : Dict κ ν) (f : κ → ν → μ) : Dict κ μ :=
  ⟨d.entries.map fun e => (e.1, f e.1 e.2), by
    rw [List.map_map]; exact d.nodup⟩

/-- `d.setdefault(k, v)`: a value that is stored already is written back. -/
def setDefault (d : Dict κ ν) (k : κ) (v : ν) : Dict κ ν := d.set k (d.getD k v)

/-- Write the entries of a list one after the other. -/
def setAll (d : Dict κ ν) (es : List (κ × ν)) : Dict κ ν :=
  es.foldl (fun d e => d.set e.1 e.2) d

/-- The dictionary that a list of entries builds. -/
def ofList (es : List (κ × ν)) : Dict κ ν := (∅ : Dict κ ν).setAll es

theorem find_replace (k j : κ) (v : ν) (es : List (κ × ν)) :
    find j (replace k v es) = if j = k then (find j es).map (fun _ => v) else find j es := by
  induction es with
  | nil => simp [replace, find]
  | cons e es ih =>
    simp only [replace, List.map_cons] at ih ⊢
    rcases eq_or_ne e.1 k with he | he
    · rcases eq_or_ne j k with hj | hj
      · simp [find, he, hj]
      · simpa [find, he, hj, hj.symm] using ih
    · rcases eq_or_ne e.1 j with rfl | hj
      · simp [find, he]
      · simpa [find, he, hj] using ih

theorem find_append (j : κ) (es fs : List (κ × ν)) :
    find j (es ++ fs) = (find j es).or (find j fs) := by
  induction es with
  | nil => simp [find]
  | cons e es ih => by_cases h : e.1 = j <;> simp [find, h, ih]

theorem get?_set (d : Dict κ ν) (k j : κ) (v : ν) :
    (d.set k v).get? j = if j = k then some v else d.get? j := by
  unfold set
  split
  · next h =>
    simp only [get?, find_replace]
    rcases eq_or_ne j k with rfl | hj
    · obtain ⟨w, hw⟩ := mem_iff.mp (mem_def.mpr h)
      simp only [get?] at hw
      simp [hw]
    · simp [hj]
  · next h =>
    simp only [get?, find_append]
    rcases eq_or_ne j k with rfl | hj
    · simp [find_eq_none_iff.mpr h, find]
    · simp [find, hj.symm, hj]

@[simp] theorem get?_set_self (d : Dict κ ν) (k : κ) (v : ν) : (d.set k v).get? k = some v := by
  simp [get?_set]

theorem get?_set_of_ne {d : Dict κ ν} {k j : κ} (v : ν) (h : j ≠ k) :
    (d.set k v).get? j = d.get? j := by
  simp [get?_set, h]

theorem get?_set_eq_some {d : Dict κ ν} {k j : κ} {v w : ν} :
    (d.set k v).get? j = some w ↔ (j = k ∧ v = w) ∨ (j ≠ k ∧ d.get? j = some w) := by
  rw [get?_set]
  split
  · next h => simp [h]
  · next h => simp [h]

@[simp] theorem mem_set {d : Dict κ ν} {k j : κ} {v : ν} : j ∈ d.set k v ↔ j = k ∨ j ∈ d := by
  rw [mem_iff, get?_set, mem_iff]
  by_cases h : j = k <;> simp [h]

/-- Writing over a stored key keeps the keys. -/
theorem mem_set_of_mem {d : Dict κ ν} {k j : κ} {v : ν} (h : k ∈ d) : j ∈ d.set k v ↔ j ∈ d := by
  rw [mem_set]
  exact or_iff_right_of_imp fun hj => hj ▸ h

theorem replace_eq_self {k : κ} {v : ν} {es : List (κ × ν)} (hn : (es.map Prod.fst).Nodup)
    (h : find k es = some v) : replace k v es = es := by
  conv_rhs => rw [← List.map_id es]
  refine List.map_congr_left fun e he => ?_
  rcases eq_or_ne e.1 k with hk | hk
  · have hv : find k es = some e.2 := (find_eq_some_iff hn).mpr (hk ▸ he)
    rw [h, Option.some.injEq] at hv
    subst hk hv
    simp
  · simp [hk]

/-- Writing back the stored value changes nothing. -/
theorem set_eq_self {d : Dict κ ν} {k : κ} {v : ν} (h : d.get? k = some v) : d.set k v = d := by
  refine Dict.ext ?_
  have hk : k ∈ d.keys := mem_def.mp (mem_of_get? h)
  simpa only [set, dif_pos hk] using replace_eq_self d.nodup h

theorem set_eq_self_iff {d : Dict κ ν} {k : κ} {v : ν} : d.set k v = d ↔ d.get? k = some v :=
  ⟨fun h => by rw [← h, get?_set_self], set_eq_self⟩

theorem find_filter (p : κ → Bool) (k : κ) (es : List (κ × ν)) :
    find k (es.filter fun e => p e.1) = if p k then find k es else none := by
  induction es with
  | nil => simp [find]
  | cons e es ih =>
    rcases eq_or_ne e.1 k with rfl | hk
    · cases hp : p e.1
      · simpa [List.filter_cons, hp] using ih
      · simp [hp, find]
    · cases hp : p e.1 <;> simpa [List.filter_cons, hp, find, hk] using ih

theorem get?_filter (d : Dict κ ν) (p : κ → Bool) (k : κ) :
    (d.filter p).get? k = if p k then d.get? k else none :=
  find_filter p k d.entries

@[simp] theorem mem_filter {d : Dict κ ν} {p : κ → Bool} {k : κ} :
    k ∈ d.filter p ↔ k ∈ d ∧ p k = true := by
  rw [mem_iff, get?_filter, mem_iff]
  by_cases h : p k <;> simp [h]

theorem get?_erase (d : Dict κ ν) (k j : κ) :
    (d.erase k).get? j = if j = k then none else d.get? j := by
  rw [erase, get?_filter]
  by_cases h : j = k <;> simp [h]

theorem keys_erase (d : Dict κ ν) (k : κ) : (d.erase k).keys = d.keys.erase k := by
  have hne : (fun j => j != k) = fun j => decide (j ≠ k) := by
    funext j
    exact Bool.eq_iff_iff.mpr (by simp)
  rw [d.keys_nodup.erase_eq_filter, hne, keys, keys, List.filter_map]
  rfl

theorem get?_of_get?_erase {d : Dict κ ν} {k j : κ} {v : ν} (h : (d.erase k).get? j = some v) :
    d.get? j = some v := by
  rw [get?_erase] at h
  split at h
  · cases h
  · exact h

@[simp] theorem mem_erase {d : Dict κ ν} {k j : κ} : j ∈ d.erase k ↔ j ≠ k ∧ j ∈ d := by
  simp [erase, and_comm]

omit [DecidableEq κ] in
theorem filter_filter (d : Dict κ ν) (p q : κ → Bool) :
    (d.filter p).filter q = d.filter fun k => p k && q k := by
  refine Dict.ext ?_
  simp [filter, List.filter_filter, Bool.and_comm]

omit [DecidableEq κ] in
theorem filter_eq_self {d : Dict κ ν} {p : κ → Bool} (h : ∀ k ∈ d, p k = true) :
    d.filter p = d := by
  refine Dict.ext (List.filter_eq_self.mpr fun e he => h e.1 ?_)
  exact List.mem_map_of_mem he

theorem erase_of_not_mem {d : Dict κ ν} {k : κ} (h : k ∉ d) : d.erase k = d :=
  filter_eq_self fun _ hj => decide_eq_true fun heq => h (heq ▸ hj)

theorem find_mapValues (f : κ → ν → μ) (k : κ) (es : List (κ × ν)) :
    find k (es.map fun e => (e.1, f e.1 e.2)) = (find k es).map (f k) := by
  induction es with
  | nil => simp [find]
  | cons e es ih =>
    rcases eq_or_ne e.1 k with rfl | h
    · simp [find]
    · simp [find, h, ih]

@[simp] theorem get?_mapValues (d : Dict κ ν) (f : κ → ν → μ) (k : κ) :
    (d.mapValues f).get? k = (d.get? k).map (f k) :=
  find_mapValues f k d.entries

@[simp] theorem mem_setAll {d : Dict κ ν} {es : List (κ × ν)} {k : κ} :
    k ∈ d.setAll es ↔ k ∈ d ∨ k ∈ es.map Prod.fst := by
  induction es generalizing d with
  | nil => simp [setAll]
  | cons e es ih =>
    simp only [setAll, List.foldl_cons] at ih ⊢
    rw [ih, mem_set, List.map_cons, List.mem_cons]
    tauto

/-- What is under a key after writing a list of entries. -/
theorem get?_setAll_cases {d : Dict κ ν} {es : List (κ × ν)} {k : κ} {v : ν}
    (h : (d.setAll es).get? k = some v) :
    (k, v) ∈ es ∨ (k ∉ es.map Prod.fst ∧ d.get? k = some v) := by
  induction es generalizing d with
  | nil => exact .inr ⟨List.not_mem_nil, h⟩
  | cons e es ih =>
    rcases ih h with hmem | ⟨hnot, hget⟩
    · exact .inl (List.mem_cons_of_mem e hmem)
    · rcases get?_set_eq_some.mp hget with ⟨rfl, rfl⟩ | ⟨hne, hget⟩
      · exact .inl List.mem_cons_self
      · exact .inr ⟨fun hmem => (List.mem_cons.mp hmem).elim hne hnot, hget⟩

theorem get?_setAll_of_not_mem {d : Dict κ ν} {es : List (κ × ν)} {k : κ}
    (h : k ∉ es.map Prod.fst) : (d.setAll es).get? k = d.get? k := by
  induction es generalizing d with
  | nil => rfl
  | cons e es ih =>
    rw [List.map_cons, List.mem_cons, not_or] at h
    exact (ih h.2).trans (get?_set_of_ne e.2 h.1)

/-- A list of entries leaves one of its values under each of its keys. -/
theorem exists_get?_ofList {es : List (κ × ν)} {k : κ} (h : k ∈ es.map Prod.fst) :
    ∃ v, (ofList es).get? k = some v ∧ (k, v) ∈ es := by
  obtain ⟨v, hv⟩ := mem_iff.mp (mem_setAll.mpr (.inr h) : k ∈ ofList es)
  exact ⟨v, hv, (get?_setAll_cases hv).resolve_right fun hnot => hnot.1 h⟩

theorem mem_of_get?_ofList {es : List (κ × ν)} {k : κ} {v : ν} (h : (ofList es).get? k = some v) :
    (k, v) ∈ es := by
  rcases get?_setAll_cases h with hmem | ⟨-, hnone⟩
  · exact hmem
  · cases hnone

theorem get?_setAll (d : Dict κ ν) (es : List (κ × ν)) (k : κ) :
    (d.setAll es).get? k = ((ofList es).get? k).or (d.get? k) := by
  induction es using List.reverseRecOn with
  | nil => rfl
  | append_singleton es e ih =>
    have hset : ∀ d : Dict κ ν, d.setAll (es ++ [e]) = (d.setAll es).set e.1 e.2 := by
      intro d
      rw [setAll, List.foldl_append]
      rfl
    rw [ofList, hset, hset, get?_set, get?_set, ih, ofList]
    split <;> rfl

/-- Later entries come first. -/
theorem get?_ofList_append (es fs : List (κ × ν)) (k : κ) :
    (ofList (es ++ fs)).get? k = ((ofList fs).get? k).or ((ofList es).get? k) := by
  rw [ofList, setAll, List.foldl_append]
  exact get?_setAll (ofList es) fs k

theorem get?_ofList_concat (es : List (κ × ν)) (e : κ × ν) (k : κ) :
    (ofList (es ++ [e])).get? k = if k = e.1 then some e.2 else (ofList es).get? k := by
  rw [ofList, setAll, List.foldl_append]
  exact get?_set (ofList es) e.1 k e.2

/-- What is under a key: the value of the last entry with this key. -/
theorem get?_ofList_eq_some_iff {es : List (κ × ν)} {k : κ} {v : ν} :
    (ofList es).get? k = some v ↔
      ∃ front back, es = front ++ (k, v) :: back ∧ k ∉ back.map Prod.fst := by
  induction es using List.reverseRecOn with
  | nil => exact iff_of_false (by simp [ofList, setAll]) (by simp)
  | append_singleton es e ih =>
    have hset : ofList (es ++ [e]) = (ofList es).set e.1 e.2 := by
      rw [ofList, setAll, List.foldl_append]
      rfl
    rw [hset, get?_set_eq_some, ih]
    constructor
    · rintro (⟨rfl, rfl⟩ | ⟨hne, front, back, rfl, hback⟩)
      · exact ⟨es, [], rfl, List.not_mem_nil⟩
      · refine ⟨front, back ++ [e], by simp, ?_⟩
        rw [List.map_append, List.mem_append, not_or]
        exact ⟨hback, fun hmem => hne (List.mem_singleton.mp hmem)⟩
    · rintro ⟨front, back, heq, hback⟩
      rcases List.eq_nil_or_concat back with rfl | ⟨back', e', rfl⟩
      · obtain ⟨-, rfl⟩ := List.append_singleton_inj.mp heq
        exact .inl ⟨rfl, rfl⟩
      · rw [List.concat_eq_append] at heq hback
        rw [← List.cons_append, ← List.append_assoc] at heq
        obtain ⟨rfl, rfl⟩ := List.append_singleton_inj.mp heq
        rw [List.map_append, List.mem_append, not_or] at hback
        exact .inr ⟨fun heq => hback.2 (List.mem_singleton.mpr heq), front, back', rfl, hback.1⟩

theorem entries_set_of_not_mem {d : Dict κ ν} {k : κ} (v : ν) (h : k ∉ d) :
    (d.set k v).entries = d.entries ++ [(k, v)] := by
  rw [set, dif_neg (mem_def.not.mp h)]

theorem entries_setAll_of_nodup {d : Dict κ ν} {es : List (κ × ν)}
    (h : (d.entries ++ es |>.map Prod.fst).Nodup) : (d.setAll es).entries = d.entries ++ es := by
  induction es generalizing d with
  | nil => simp [setAll]
  | cons e es ih =>
    have hnot : e.1 ∉ d := by
      rw [List.map_append, List.nodup_append] at h
      exact fun hmem => h.2.2 e.1 hmem e.1 (by simp) rfl
    have hset := entries_set_of_not_mem e.2 hnot
    rw [setAll, List.foldl_cons]
    refine (ih ?_).trans ?_
    · rwa [hset, List.append_assoc]
    · rw [hset, List.append_assoc]
      rfl

/-- A list of entries with distinct keys builds the dictionary with these entries. -/
theorem entries_ofList {es : List (κ × ν)} (h : (es.map Prod.fst).Nodup) :
    (ofList es).entries = es :=
  entries_setAll_of_nodup (d := ∅) h

/-- A loop over distinct keys whose steps replace the value of a key (`v` if it has none): the
keys of the loop have the new value of what they had. -/
theorem get?_foldl_set {step : Dict κ ν → κ → Dict κ ν} {f : κ → ν → ν} {v : ν}
    (hstep : ∀ d k j, (step d k).get? j = if j = k then some (f k (d.getD k v)) else d.get? j)
    {ks : List κ} (hks : ks.Nodup) (d : Dict κ ν) (j : κ) :
    (ks.foldl step d).get? j = if j ∈ ks then some (f j (d.getD j v)) else d.get? j := by
  induction ks generalizing d with
  | nil => simp
  | cons k ks ih =>
    obtain ⟨hk, hks'⟩ := List.nodup_cons.mp hks
    rw [List.foldl_cons, ih hks']
    rcases eq_or_ne j k with rfl | hj
    · simp [hk, hstep]
    · simp [getD, hstep, hj]

theorem get?_setDefault (d : Dict κ ν) (k j : κ) (v : ν) :
    (d.setDefault k v).get? j = if j = k then some (d.getD k v) else d.get? j :=
  get?_set d k j (d.getD k v)

theorem mem_values_iff {d : Dict κ ν} {v : ν} : v ∈ d.values ↔ ∃ k, d.get? k = some v := by
  constructor
  · intro h
    obtain ⟨e, he, rfl⟩ := List.mem_map.mp h
    exact ⟨e.1, mem_entries_iff.mp he⟩
  · rintro ⟨k, hk⟩
    exact List.mem_map_of_mem (mem_entries_iff.mpr hk)

/-- No value stands under two keys. -/
theorem values_nodup_iff {d : Dict κ ν} :
    d.values.Nodup ↔ ∀ k k' v, d.get? k = some v → d.get? k' = some v → k = k' := by
  have hentries : d.entries.Nodup := .of_map _ d.nodup
  rw [values, List.nodup_map_iff_inj_on hentries]
  constructor
  · intro h k k' v hk hk'
    exact congrArg Prod.fst (h _ (mem_entries_iff.mpr hk) _ (mem_entries_iff.mpr hk') rfl)
  · rintro h ⟨k, v⟩ hk ⟨k', v'⟩ hk' (rfl : v = v')
    rw [h k k' v (mem_entries_iff.mp hk) (mem_entries_iff.mp hk')]

theorem values_set_of_not_mem {d : Dict κ ν} {k : κ} (v : ν) (h : k ∉ d) :
    (d.set k v).values = d.values ++ [v] := by
  rw [values, entries_set_of_not_mem v h, List.map_append]
  rfl

theorem keys_set (d : Dict κ ν) (k : κ) (v : ν) :
    (d.set k v).keys = if k ∈ d then d.keys else d.keys ++ [k] := by
  split
  · next h =>
    rw [set, dif_pos (mem_def.mp h)]
    exact map_fst_replace k v d.entries
  · next h =>
    rw [keys, entries_set_of_not_mem v h, List.map_append]
    rfl

theorem map_values_eq_keys {d : Dict κ ν} {f : ν → κ} (h : ∀ k v, d.get? k = some v → f v = k) :
    d.values.map f = d.keys := by
  rw [values, keys, List.map_map]
  exact List.map_congr_left fun e he => h e.1 e.2 (mem_entries_iff.mp he)

end Write

/-! ## 3. Merging -/

section Merge
variable [DecidableEq κ]

/-- Write `v` under `k`, combined by `f` with the value that is stored there already. -/
def setWith (f : ν → ν → ν) (d : Dict κ ν) (k : κ) (v : ν) : Dict κ ν :=
  d.set k ((d.get? k).elim v fun old => f old v)

/-- The entries of `new` written over `d`, a stored value `old` and a new value `v` under the
same key giving `f old v`. -/
def unionWith (f : ν → ν → ν) (d new : Dict κ ν) : Dict κ ν :=
  new.entries.foldl (fun d e => d.setWith f e.1 e.2) d

/-- `d.update(new)`. -/
def update (d new : Dict κ ν) : Dict κ ν := d.setAll new.entries

@[simp] theorem mem_update {d new : Dict κ ν} {k : κ} : k ∈ d.update new ↔ k ∈ d ∨ k ∈ new :=
  mem_setAll

theorem get?_foldl_setWith (f : ν → ν → ν) (es : List (κ × ν)) (hn : (es.map Prod.fst).Nodup)
    (d : Dict κ ν) (k : κ) :
    (es.foldl (fun d e => d.setWith f e.1 e.2) d).get? k =
      (find k es).elim (d.get? k) fun v => some ((d.get? k).elim v fun old => f old v) := by
  induction es generalizing d with
  | nil => rfl
  | cons e es ih =>
    obtain ⟨hne, hn'⟩ := List.nodup_cons.mp hn
    rw [List.foldl_cons, ih hn']
    rcases eq_or_ne e.1 k with rfl | hk
    · simp [find_eq_none_iff.mpr hne, find, setWith]
    · simp [find, hk, setWith, get?_set_of_ne _ hk.symm]

theorem get?_unionWith (f : ν → ν → ν) (d new : Dict κ ν) (k : κ) :
    (d.unionWith f new).get? k =
      (new.get? k).elim (d.get? k) fun v => some ((d.get? k).elim v fun old => f old v) :=
  get?_foldl_setWith f new.entries new.nodup d k

@[simp] theorem mem_unionWith {f : ν → ν → ν} {d new : Dict κ ν} {k : κ} :
    k ∈ d.unionWith f new ↔ k ∈ d ∨ k ∈ new := by
  rw [mem_iff, get?_unionWith, mem_iff, mem_iff]
  cases h : new.get? k <;> simp

theorem unionWith_eq_update (d new : Dict κ ν) : d.unionWith (fun _ v => v) new = d.update new := by
  unfold unionWith update setAll setWith
  congr 1
  funext d e
  cases d.get? e.1 <;> rfl

theorem get?_update (d new : Dict κ ν) (k : κ) :
    (d.update new).get? k = (new.get? k).or (d.get? k) := by
  rw [← unionWith_eq_update, get?_unionWith]
  cases new.get? k <;> cases d.get? k <;> rfl

/-- Merging a dictionary into itself changes nothing exactly when `f` leaves every stored value
alone. -/
theorem unionWith_self_iff {f : ν → ν → ν} {d : Dict κ ν} :
    d.unionWith f d = d ↔ ∀ k v, d.get? k = some v → f v v = v := by
  constructor
  · intro h k v hk
    have hget := get?_unionWith f d d k
    rw [h, hk] at hget
    exact (Option.some.inj hget).symm
  · intro h
    suffices ∀ es : List (κ × ν), (∀ e ∈ es, d.get? e.1 = some e.2) →
        es.foldl (fun d e => d.setWith f e.1 e.2) d = d from
      this d.entries fun e he => mem_entries_iff.mp he
    intro es hes
    induction es with
    | nil => rfl
    | cons e es ih =>
      have he := hes e List.mem_cons_self
      rw [List.foldl_cons, setWith, he, Option.elim_some, h _ _ he, set_eq_self he]
      exact ih fun e' he' => hes e' (List.mem_cons_of_mem _ he')

section Updates
variable {α : Type} {f : α → Dict κ ν} {l : List α} {d : Dict κ ν} {k : κ}

/-- The keys after updates with several dictionaries. -/
theorem mem_foldl_update :
    k ∈ l.foldl (fun d x => d.update (f x)) d ↔ (∃ x ∈ l, k ∈ f x) ∨ k ∈ d := by
  induction l generalizing d with
  | nil => simp
  | cons x l ih =>
    rw [List.foldl_cons, ih, mem_update, List.exists_mem_cons_iff, or_comm, or_assoc, or_comm]

/-- What is stored after updates comes from one of the dictionaries. -/
theorem get?_foldl_update_cases {v : ν} (h : (l.foldl (fun d x => d.update (f x)) d).get? k = some v) :
    (∃ x ∈ l, (f x).get? k = some v) ∨ d.get? k = some v := by
  induction l generalizing d with
  | nil => exact .inr h
  | cons x l ih =>
    rcases ih h with ⟨y, hy, hv⟩ | hv
    · exact .inl ⟨y, List.mem_cons_of_mem x hy, hv⟩
    · rw [get?_update] at hv
      rcases Option.or_eq_some_iff.mp hv with hx | ⟨-, hd⟩
      · exact .inl ⟨x, List.mem_cons_self, hx⟩
      · exact .inr hd

end Updates

theorem update_self (d : Dict κ ν) : d.update d = d := by
  rw [← unionWith_eq_update]
  exact unionWith_self_iff.mpr fun _ _ _ => rfl

end Merge

/-! ## 4. Grouping -/

section Group
variable [DecidableEq κ]

/-- `d.setdefault(k, []).append(v)`. -/
def push (d : Dict κ (List ν)) (k : κ) (v : ν) : Dict κ (List ν) := d.set k (d.getD k [] ++ [v])

theorem get?_foldl_push (es : List (κ × ν)) (d : Dict κ (List ν)) (k : κ) :
    (es.foldl (fun d e => d.push e.1 e.2) d).get? k =
      if k ∈ es.map Prod.fst then
        some (d.getD k [] ++ (es.filter fun e => decide (e.1 = k)).map Prod.snd)
      else d.get? k := by
  induction es generalizing d with
  | nil => simp
  | cons e es ih =>
    rw [List.foldl_cons, ih]
    rcases eq_or_ne e.1 k with rfl | hx
    · rcases Decidable.em (e.1 ∈ es.map Prod.fst) with hl | hl
      · simp [push, getD, hl]
      · have hf : es.filter (fun e' => decide (e'.1 = e.1)) = [] :=
          List.filter_eq_nil_iff.mpr fun e' he' heq =>
            hl (List.mem_map.mpr ⟨e', he', of_decide_eq_true heq⟩)
        simp [push, getD, hl, hf]
    · have hkeys : k ∈ (e :: es).map Prod.fst ↔ k ∈ es.map Prod.fst := by
        rw [List.map_cons, List.mem_cons]
        exact or_iff_right hx.symm
      simp only [hkeys]
      simp [push, getD, hx, get?_set_of_ne _ hx.symm]

/-- One step of the grouping loop: `d.setdefault(f(x), []).append(x)`. -/
def pushGroup (f : ν → κ) (d : Dict κ (List ν)) (x : ν) : Dict κ (List ν) :=
  d.set (f x) (d.getD (f x) [] ++ [x])

/-- The elements of a list, grouped by `f`, both groups and elements in order of appearance. -/
def groupBy (f : ν → κ) (l : List ν) : Dict κ (List ν) := l.foldl (pushGroup f) ∅

theorem groupBy_eq_foldl_push (f : ν → κ) (l : List ν) :
    groupBy f l = (l.map fun x => (f x, x)).foldl (fun d e => d.push e.1 e.2) ∅ := by
  rw [groupBy, List.foldl_map]
  rfl

theorem get?_groupBy (f : ν → κ) (l : List ν) (k : κ) :
    (groupBy f l).get? k =
      if k ∈ l.map f then some (l.filter fun x => decide (f x = k)) else none := by
  have hkeys : (l.map fun x => (f x, x)).map Prod.fst = l.map f := by
    rw [List.map_map]
    rfl
  rw [groupBy_eq_foldl_push, get?_foldl_push, hkeys, List.filter_map, List.map_map]
  simp [getD, Function.comp_def]

end Group

end Dict
