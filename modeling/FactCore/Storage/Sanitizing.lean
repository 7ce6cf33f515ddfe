import Mathlib.Data.List.Perm.Subperm
import FactCore.Storage.EntryConversion

/-!
# Sanitizing analysis results

PostgreSQL takes no null byte in a JSON column, so `sanitize` removes them from
the keys and strings of a result before it is stored. The tree of a result is
changed in place: dicts are entered at any depth, and so are the lists that
stand in a dict, but a list that stands in a list is passed over. A key is
renamed by writing its value under the new key, so of two keys that become equal
one entry is lost.

Results:
1. `atEveryDepth_list`, `atEveryDepth_dict`: properties of all values inside a
   value.
2. `exists_strippedEntry_of_mem_sanitize`, `sanitize_perm`: the entries after
   sanitizing, in general and when no keys become equal.
3. `stripValue_of_nulFree`, `sanitize_sanitize`: what has no null byte stays as
   it is, so sanitizing is idempotent.
4. `sanitize_correct_iff`: when it removes all null bytes and nothing else.
-/

namespace FactCore

/-! ## 1. Values at every depth -/

namespace PyVal

/-- Neither a list nor a dict. -/
def isLeaf : PyVal → Bool
  | .list _ => false
  | .dict _ => false
  | _ => true

def isList : PyVal → Bool
  | .list _ => true
  | _ => false

/-- The elements of a list. -/
def elements : PyVal → List PyVal
  | .list xs => xs
  | _ => []

/-- The keys of a dict. -/
def keys : PyVal → List String
  | .dict entries => entries.map Prod.fst
  | _ => []

/-- The texts that a value holds itself: a string, or the keys of a dict. -/
def texts : PyVal → List String
  | .str s => [s]
  | .dict entries => entries.map Prod.fst
  | _ => []

mutual

/-- A value and all the values inside it, at any depth. -/
def subvalues : PyVal → List PyVal
  | .list xs => .list xs :: elementSubvalues xs
  | .dict entries => .dict entries :: entrySubvalues entries
  | v => [v]

def elementSubvalues : List PyVal → List PyVal
  | [] => []
  | x :: xs => x.subvalues ++ elementSubvalues xs

def entrySubvalues : List (String × PyVal) → List PyVal
  | [] => []
  | (_, v) :: entries => v.subvalues ++ entrySubvalues entries

end

/-- Induction over the values inside a list or a dict. -/
theorem ind {P : PyVal → Prop} (leaf : ∀ v, v.isLeaf = true → P v)
    (list : ∀ xs, (∀ x ∈ xs, P x) → P (.list xs))
    (dict : ∀ entries, (∀ e ∈ entries, P e.2) → P (.dict entries)) (v : PyVal) : P v := by
  refine @PyVal.rec P (fun xs => ∀ x ∈ xs, P x) (fun entries => ∀ e ∈ entries, P e.2)
    (fun e => P e.2) (leaf _ rfl) (fun _ => leaf _ rfl) (fun _ => leaf _ rfl)
    (fun _ => leaf _ rfl) list dict ?_ ?_ ?_ ?_ (fun _ _ h => h) v
  · exact fun _ h => absurd h List.not_mem_nil
  · exact fun _ _ hx hxs => List.forall_mem_cons.mpr ⟨hx, hxs⟩
  · exact fun _ h => absurd h List.not_mem_nil
  · exact fun _ _ he hes => List.forall_mem_cons.mpr ⟨he, hes⟩

/-- `p` holds of a value and of all values inside it. -/
def AtEveryDepth (p : PyVal → Prop) (v : PyVal) : Prop := ∀ w ∈ v.subvalues, p w

instance (p : PyVal → Prop) [DecidablePred p] (v : PyVal) : Decidable (AtEveryDepth p v) :=
  inferInstanceAs (Decidable (∀ _ ∈ _, _))

variable {p : PyVal → Prop}

theorem mem_elementSubvalues {xs : List PyVal} {w : PyVal} :
    w ∈ elementSubvalues xs ↔ ∃ x ∈ xs, w ∈ x.subvalues := by
  induction xs with
  | nil => simp [elementSubvalues]
  | cons x xs ih => simp [elementSubvalues, ih]

theorem mem_entrySubvalues {entries : List (String × PyVal)} {w : PyVal} :
    w ∈ entrySubvalues entries ↔ ∃ e ∈ entries, w ∈ e.2.subvalues := by
  induction entries with
  | nil => simp [entrySubvalues]
  | cons e entries ih =>
    obtain ⟨key, v⟩ := e
    simp [entrySubvalues, ih]

theorem atEveryDepth_leaf {v : PyVal} (h : v.isLeaf = true) : AtEveryDepth p v ↔ p v := by
  have hself : v.subvalues = [v] := by
    cases v <;> first | rfl | cases h
  rw [AtEveryDepth, hself, List.forall_mem_singleton]

theorem atEveryDepth_list {xs : List PyVal} :
    AtEveryDepth p (.list xs) ↔ p (.list xs) ∧ ∀ x ∈ xs, AtEveryDepth p x := by
  simp only [AtEveryDepth, subvalues, List.forall_mem_cons, mem_elementSubvalues]
  exact and_congr_right fun _ =>
    ⟨fun h x hx w hw => h w ⟨x, hx, hw⟩, fun h w ⟨x, hx, hw⟩ => h x hx w hw⟩

theorem atEveryDepth_dict {entries : List (String × PyVal)} :
    AtEveryDepth p (.dict entries) ↔
      p (.dict entries) ∧ ∀ e ∈ entries, AtEveryDepth p e.2 := by
  simp only [AtEveryDepth, subvalues, List.forall_mem_cons, mem_entrySubvalues]
  exact and_congr_right fun _ =>
    ⟨fun h e he w hw => h w ⟨e, he, hw⟩, fun h w ⟨e, he, hw⟩ => h e he w hw⟩

/-- No text at any depth holds a null byte. -/
def NulFree : PyVal → Prop := AtEveryDepth fun w => ∀ t ∈ w.texts, nul ∉ t.toList

/-- Every dict at any depth has pairwise distinct keys, as Python's dicts have. -/
def DistinctKeys : PyVal → Prop := AtEveryDepth fun w => w.keys.Nodup

/-- In every dict the keys are distinct also without their null bytes. -/
def KeysStayDistinct : PyVal → Prop := AtEveryDepth fun w => (w.keys.map stripNul).Nodup

/-- A list that is an element of a list holds no null byte. -/
def NestedListsNulFree : PyVal → Prop :=
  AtEveryDepth fun w => ∀ x ∈ w.elements, x.isList = true → x.NulFree

instance (v : PyVal) : Decidable v.NulFree := inferInstanceAs (Decidable (AtEveryDepth _ _))

instance (v : PyVal) : Decidable v.DistinctKeys := inferInstanceAs (Decidable (AtEveryDepth _ _))

instance (v : PyVal) : Decidable v.KeysStayDistinct :=
  inferInstanceAs (Decidable (AtEveryDepth _ _))

instance (v : PyVal) : Decidable v.NestedListsNulFree :=
  inferInstanceAs (Decidable (AtEveryDepth _ _))

/-- `NulsRemoved v v'`: the value `v'` has the shape of `v`, with the null bytes removed from every
string and every key. The entries of a dict may come in another order. -/
inductive NulsRemoved : PyVal → PyVal → Prop
  | none : NulsRemoved .none .none
  | bool (b : Bool) : NulsRemoved (.bool b) (.bool b)
  | num (x : Rat) : NulsRemoved (.num x) (.num x)
  | str (s : String) : NulsRemoved (.str s) (.str (stripNul s))
  | list {xs ys : List PyVal} : xs.length = ys.length →
      (∀ (i : Nat) (x y : PyVal), xs[i]? = some x → ys[i]? = some y → NulsRemoved x y) →
      NulsRemoved (.list xs) (.list ys)
  | dict {entries stripped entries' : List (String × PyVal)} :
      stripped.map Prod.fst = entries.map (fun e => stripNul e.1) →
      (∀ (i : Nat) (e e' : String × PyVal), entries[i]? = some e → stripped[i]? = some e' →
        NulsRemoved e.2 e'.2) →
      entries'.Perm stripped → NulsRemoved (.dict entries) (.dict entries')

end PyVal

/-! ## 2. The entries after sanitizing -/

/-- What `sanitize` leaves of a value that stands under a key. -/
def stripValue : PyVal → PyVal
  | .str s => .str (stripNul s)
  | v => sanitizeNested v

/-- What `_sanitize_list` leaves of an element. -/
def stripElement (x : PyVal) : PyVal := if x.isList then x else stripValue x

/-- An entry without the null bytes of its key and its value. -/
def strippedEntry (e : String × PyVal) : String × PyVal := (stripNul e.1, stripValue e.2)

/-- A string with a null byte. -/
def isNulStr : PyVal → Bool
  | .str s => decide (nul ∈ s.toList)
  | _ => false

/-- What `_sanitize_value` writes to `d`: lists and dicts are changed in place. -/
def sanitizeValue (d : List (String × PyVal)) (key : String) (v : PyVal) : List (String × PyVal) :=
  if isNulStr v then PyVal.setEntry d key (stripValue v) else d

theorem not_mem_stripNul (s : String) : nul ∉ (stripNul s).toList := by
  simp [stripNul]

theorem stripNul_eq_self {s : String} : stripNul s = s ↔ nul ∉ s.toList := by
  constructor
  · intro h
    rw [← h]
    exact not_mem_stripNul s
  · intro h
    have hkeep : s.toList.filter (fun c => decide (c ≠ nul)) = s.toList :=
      List.filter_eq_self.mpr fun c hc => decide_eq_true fun heq => h (heq ▸ hc)
    rw [stripNul, hkeep, String.ofList_toList]

theorem stripNul_stripNul (s : String) : stripNul (stripNul s) = stripNul s :=
  stripNul_eq_self.mpr (not_mem_stripNul s)

theorem sanitizeValues_eq_map (entries : List (String × PyVal)) :
    sanitizeValues entries = entries.map fun e => (e.1, sanitizeNested e.2) := by
  induction entries with
  | nil => rfl
  | cons e entries ih =>
    obtain ⟨key, v⟩ := e
    rw [sanitizeValues, List.map_cons, ih]

theorem sanitizeElements_eq_map (xs : List PyVal) : sanitizeElements xs = xs.map stripElement := by
  induction xs with
  | nil => rfl
  | cons x xs ih =>
    cases x <;> simp [sanitizeElements, stripElement, stripValue, sanitizeNested, PyVal.isList, ih]

theorem stripValue_list (xs : List PyVal) : stripValue (.list xs) = .list (xs.map stripElement) := by
  show sanitizeNested (.list xs) = _
  rw [sanitizeNested, sanitizeElements_eq_map]

theorem stripValue_dict (entries : List (String × PyVal)) :
    stripValue (.dict entries) = .dict (sanitize entries) := by
  show sanitizeNested (.dict entries) = _
  rw [sanitizeNested, sanitize]

theorem stripValue_of_not_isNulStr {v : PyVal} (h : isNulStr v = false) :
    stripValue v = sanitizeNested v := by
  cases v with
  | str s =>
    have hs : nul ∉ s.toList := of_decide_eq_false h
    rw [stripValue, stripNul_eq_self.mpr hs, sanitizeNested] <;> nofun
  | _ => rfl

/-- One round of the loop: the value first, then the key. -/
theorem sanitizeItem_eq (d : List (String × PyVal)) (key : String) (v : PyVal) :
    sanitizeItem d (key, v) =
      if nul ∈ key.toList then moveKey (sanitizeValue d key v) key (stripNul key)
      else sanitizeValue d key v := by
  cases v with
  | str s =>
    unfold sanitizeItem sanitizeValue isNulStr
    simp only [decide_eq_true_eq]
    rfl
  | _ => rfl

theorem replace_of_not_mem {key : String} {v : PyVal} {d : List (String × PyVal)}
    (h : key ∉ d.map Prod.fst) : Dict.replace key v d = d := by
  conv_rhs => rw [← List.map_id d]
  refine List.map_congr_left fun e he => if_neg fun heq => h ?_
  rw [← heq]
  exact List.mem_map_of_mem he

/-- A value is stored in the one entry with its key. -/
theorem sanitizeValue_middle {before after : List (String × PyVal)} {key : String} (v : PyVal)
    (hbefore : key ∉ before.map Prod.fst) (hafter : key ∉ after.map Prod.fst) :
    sanitizeValue (before ++ (key, sanitizeNested v) :: after) key v =
      before ++ (key, stripValue v) :: after := by
  cases hstr : isNulStr v with
  | false => rw [stripValue_of_not_isNulStr hstr, sanitizeValue, hstr, if_neg Bool.false_ne_true]
  | true =>
    rw [sanitizeValue, hstr, if_pos rfl, PyVal.setEntry, if_pos (by simp)]
    show (before ++ (key, sanitizeNested v) :: after).map _ = _
    rw [List.map_append, List.map_cons, if_pos rfl]
    exact congrArg₂ (fun b a => b ++ (key, stripValue v) :: a) (replace_of_not_mem hbefore)
      (replace_of_not_mem hafter)

theorem filter_ne_of_not_mem {key : String} {d : List (String × PyVal)}
    (h : key ∉ d.map Prod.fst) : d.filter (fun e => decide (e.1 ≠ key)) = d :=
  List.filter_eq_self.mpr fun _ he =>
    decide_eq_true fun heq => h (heq ▸ List.mem_map_of_mem he)

/-- A renamed entry moves to the end. -/
theorem moveKey_middle {before after : List (String × PyVal)} {key key' : String} {v : PyVal}
    (hbefore : key ∉ before.map Prod.fst) (hafter : key ∉ after.map Prod.fst)
    (hnew : key' ∉ (before ++ after).map Prod.fst) :
    moveKey (before ++ (key, v) :: after) key key' = before ++ after ++ [(key', v)] := by
  have hfind : Dict.find key (before ++ (key, v) :: after) = some v := by
    rw [Dict.find_append, Dict.find_eq_none_iff.mpr hbefore, Option.none_or]
    exact if_pos rfl
  have hrest : (before ++ (key, v) :: after).filter (fun e => decide (e.1 ≠ key)) =
      before ++ after := by
    rw [List.filter_append, List.filter_cons_of_neg (by simp), filter_ne_of_not_mem hbefore,
      filter_ne_of_not_mem hafter]
  unfold moveKey
  rw [hfind]
  show PyVal.setEntry (List.filter _ _) _ _ = _
  rw [hrest, PyVal.setEntry, if_neg hnew]

theorem sanitizeItem_middle {before after : List (String × PyVal)} {key : String} (v : PyVal)
    (hbefore : key ∉ before.map Prod.fst) (hafter : key ∉ after.map Prod.fst)
    (hnew : nul ∈ key.toList → stripNul key ∉ (before ++ after).map Prod.fst) :
    sanitizeItem (before ++ (key, sanitizeNested v) :: after) (key, v) =
      if nul ∈ key.toList then before ++ after ++ [strippedEntry (key, v)]
      else before ++ strippedEntry (key, v) :: after := by
  rw [sanitizeItem_eq, sanitizeValue_middle v hbefore hafter]
  split
  · next hnul => exact moveKey_middle hbefore hafter (hnew hnul)
  · next hnul => rw [strippedEntry, stripNul_eq_self.mpr hnul]

theorem sanitizeValues_keys (entries : List (String × PyVal)) :
    (sanitizeValues entries).map Prod.fst = entries.map Prod.fst := by
  rw [sanitizeValues_eq_map, List.map_map]
  rfl

/-- The loop of `sanitize` when no two keys become equal: the entries `done` and `moved` are
finished, those of `items` are still to come. -/
theorem foldl_sanitizeItem_perm {items : List (String × PyVal)}
    (hnodup : (items.map fun e => stripNul e.1).Nodup) :
    ∀ done moved : List (String × PyVal),
      (∀ e ∈ items, stripNul e.1 ∉ (done ++ moved).map Prod.fst) →
      (∀ e ∈ done ++ moved, nul ∉ e.1.toList) →
      (items.foldl sanitizeItem (done ++ (sanitizeValues items ++ moved))).Perm
        (items.map strippedEntry ++ (done ++ moved)) := by
  induction items with
  | nil => exact fun _ _ _ _ => List.Perm.refl _
  | cons item items ih =>
    obtain ⟨key, v⟩ := item
    obtain ⟨hnot, hitems⟩ := List.nodup_cons.mp hnodup
    have hkey : ∀ e ∈ items, stripNul e.1 ≠ stripNul key :=
      fun e he heq => hnot (List.mem_map.mpr ⟨e, he, heq⟩)
    intro done moved hapart hfinished
    -- no other entry has this key or will get it
    have hfresh : ∀ k, stripNul k = stripNul key →
        k ∉ (done ++ (sanitizeValues items ++ moved)).map Prod.fst := by
      intro k hk hmem
      have hcases : k ∈ (done ++ moved).map Prod.fst ∨ k ∈ items.map Prod.fst := by
        simp only [List.map_append, List.mem_append, sanitizeValues_keys] at hmem ⊢
        tauto
      rcases hcases with hmem | hmem
      · obtain ⟨e, he, rfl⟩ := List.mem_map.mp hmem
        rw [stripNul_eq_self.mpr (hfinished e he)] at hk
        exact hapart (key, v) List.mem_cons_self (hk ▸ hmem)
      · obtain ⟨e, he, rfl⟩ := List.mem_map.mp hmem
        exact hkey e he hk
    have hold := hfresh key rfl
    rw [List.map_append, List.mem_append, not_or] at hold
    have hlater : ∀ done' moved' : List (String × PyVal),
        (done' ++ moved').Perm (strippedEntry (key, v) :: (done ++ moved)) →
        (items.foldl sanitizeItem (done' ++ (sanitizeValues items ++ moved'))).Perm
          (((key, v) :: items).map strippedEntry ++ (done ++ moved)) := by
      intro done' moved' hperm
      refine (ih hitems done' moved' (fun e he => ?_) fun e he => ?_).trans
        ((hperm.append_left _).trans List.perm_middle)
      · rw [(hperm.map Prod.fst).mem_iff, List.map_cons, List.mem_cons, not_or]
        exact ⟨hkey e he, hapart e (List.mem_cons_of_mem _ he)⟩
      · rcases List.mem_cons.mp (hperm.mem_iff.mp he) with rfl | he
        · exact not_mem_stripNul key
        · exact hfinished e he
    rw [List.foldl_cons, sanitizeValues, List.cons_append,
      sanitizeItem_middle v hold.1 hold.2 fun _ => hfresh _ (stripNul_stripNul key)]
    split
    · next hnul =>
      rw [List.append_assoc, List.append_assoc]
      refine hlater done (moved ++ [strippedEntry (key, v)]) ?_
      rw [← List.append_assoc]
      exact List.perm_append_singleton _ _
    · next hnul =>
      have hshape : done ++ strippedEntry (key, v) :: (sanitizeValues items ++ moved) =
          done ++ [strippedEntry (key, v)] ++ (sanitizeValues items ++ moved) := by
        rw [List.append_assoc, List.singleton_append]
      rw [hshape]
      refine hlater (done ++ [strippedEntry (key, v)]) moved ?_
      rw [List.append_assoc, List.singleton_append]
      exact List.perm_middle

/-- When the keys stay distinct, the entries are those of the input without their null bytes. -/
theorem sanitize_perm {entries : List (String × PyVal)}
    (h : (entries.map fun e => stripNul e.1).Nodup) :
    (sanitize entries).Perm (entries.map strippedEntry) := by
  have hloop := foldl_sanitizeItem_perm h [] [] (fun _ _ => List.not_mem_nil)
    fun _ he => absurd he List.not_mem_nil
  rwa [List.append_nil, List.append_nil, List.append_nil, List.nil_append] at hloop

theorem mem_of_find {d : List (String × PyVal)} {key : String} {v : PyVal}
    (h : Dict.find key d = some v) : (key, v) ∈ d := by
  induction d with
  | nil => cases h
  | cons e d ih =>
    rw [Dict.find] at h
    split at h
    · next heq =>
      obtain rfl := Option.some.inj h
      rw [← heq]
      exact List.mem_cons_self
    · exact List.mem_cons_of_mem _ (ih h)

theorem mem_setEntry {d : List (String × PyVal)} {key : String} {v : PyVal} {e : String × PyVal}
    (h : e ∈ PyVal.setEntry d key v) : e = (key, v) ∨ e ∈ d ∧ e.1 ≠ key := by
  unfold PyVal.setEntry at h
  split at h
  · obtain ⟨old, hold, rfl⟩ := List.mem_map.mp h
    split
    · exact .inl rfl
    · next hne => exact .inr ⟨hold, hne⟩
  · next hnot =>
    rcases List.mem_append.mp h with hold | hnew
    · exact .inr ⟨hold, fun heq => hnot (heq ▸ List.mem_map_of_mem hold)⟩
    · exact .inl (List.mem_singleton.mp hnew)

theorem mem_moveKey {d : List (String × PyVal)} {key key' : String} {e : String × PyVal}
    (h : e ∈ moveKey d key key') : (∃ v, (key, v) ∈ d ∧ e = (key', v)) ∨ e ∈ d ∧ e.1 ≠ key := by
  unfold moveKey at h
  split at h
  · next hnone =>
    exact .inr ⟨h, fun heq => Dict.find_eq_none_iff.mp hnone (heq ▸ List.mem_map_of_mem h)⟩
  · next v hsome =>
    rcases mem_setEntry h with rfl | ⟨hrest, -⟩
    · exact .inl ⟨v, mem_of_find hsome, rfl⟩
    · obtain ⟨hold, hne⟩ := List.mem_filter.mp hrest
      exact .inr ⟨hold, of_decide_eq_true hne⟩

theorem mem_sanitizeValue {d : List (String × PyVal)} {key : String} {v : PyVal}
    {e : String × PyVal} (h : e ∈ sanitizeValue d key v) :
    e = (key, stripValue v) ∨ e ∈ d ∧ (isNulStr v = false ∨ e.1 ≠ key) := by
  unfold sanitizeValue at h
  split at h
  · exact (mem_setEntry h).imp_right fun ⟨hold, hne⟩ => ⟨hold, .inr hne⟩
  · next hstr => exact .inr ⟨h, .inl (Bool.not_eq_true _ ▸ hstr)⟩

/-- The entries of `d` while `items` are still to come: each is finished, or waits for its round
with its value changed in place at most. -/
def Sanitizes (entries items d : List (String × PyVal)) : Prop :=
  ∀ e ∈ d, (∃ item ∈ entries, e = strippedEntry item) ∨
    ∃ item ∈ items, e = (item.1, sanitizeNested item.2)

/-- One round finishes its entry, also when another entry with the same key is lost. -/
theorem Sanitizes.step {entries items d : List (String × PyVal)} {item : String × PyVal}
    (h : Sanitizes entries (item :: items) d) (hitem : item ∈ entries)
    (hkeys : ∀ other ∈ items, other.1 ≠ item.1) :
    Sanitizes entries items (sanitizeItem d item) := by
  obtain ⟨key, v⟩ := item
  have hvalue : ∀ e ∈ sanitizeValue d key v, e = (key, stripValue v) ∨
      (∃ item ∈ entries, e = strippedEntry item) ∨
      e.1 ≠ key ∧ ∃ item ∈ items, e = (item.1, sanitizeNested item.2) := by
    intro e he
    rcases mem_sanitizeValue he with heq | ⟨hold, hwhy⟩
    · exact .inl heq
    · rcases h e hold with hdone | ⟨other, hother, rfl⟩
      · exact .inr (.inl hdone)
      · rcases List.mem_cons.mp hother with rfl | hother
        · have hstr := hwhy.resolve_right fun hne => hne rfl
          exact .inl (by rw [stripValue_of_not_isNulStr hstr])
        · exact .inr (.inr ⟨hkeys other hother, other, hother, rfl⟩)
  intro e he
  rw [sanitizeItem_eq] at he
  split at he
  · next hnul =>
    rcases mem_moveKey he with ⟨w, hw, rfl⟩ | ⟨hold, hne⟩
    · rcases hvalue _ hw with heq | ⟨item, -, heq⟩ | ⟨hne, -⟩
      · obtain ⟨-, rfl⟩ := Prod.mk.inj heq
        exact .inl ⟨(key, v), hitem, rfl⟩
      · obtain ⟨rfl, -⟩ := Prod.mk.inj heq
        exact absurd hnul (not_mem_stripNul _)
      · exact absurd rfl hne
    · rcases hvalue e hold with rfl | hdone | ⟨-, hwaits⟩
      · exact absurd rfl hne
      · exact .inl hdone
      · exact .inr hwaits
  · next hnul =>
    rcases hvalue e he with rfl | hdone | ⟨-, hwaits⟩
    · refine .inl ⟨(key, v), hitem, ?_⟩
      rw [strippedEntry, stripNul_eq_self.mpr hnul]
    · exact .inl hdone
    · exact .inr hwaits

theorem Sanitizes.run {entries items : List (String × PyVal)} (hitems : items ⊆ entries)
    (hnodup : (items.map Prod.fst).Nodup) :
    ∀ {d}, Sanitizes entries items d → Sanitizes entries [] (items.foldl sanitizeItem d) := by
  induction items with
  | nil => exact fun h => h
  | cons item items ih =>
    intro d h
    obtain ⟨hnot, hnodup⟩ := List.nodup_cons.mp hnodup
    refine ih (fun _ h => hitems (List.mem_cons_of_mem _ h)) hnodup
      (h.step (hitems List.mem_cons_self) fun other hother heq => hnot ?_)
    rw [← heq]
    exact List.mem_map_of_mem hother

/-- Every entry after sanitizing is one of the input without its null bytes. -/
theorem exists_strippedEntry_of_mem_sanitize {entries : List (String × PyVal)}
    (hnodup : (entries.map Prod.fst).Nodup) {e : String × PyVal} (h : e ∈ sanitize entries) :
    ∃ item ∈ entries, e = strippedEntry item := by
  have hstart : Sanitizes entries entries (sanitizeValues entries) := by
    intro e he
    rw [sanitizeValues_eq_map] at he
    obtain ⟨item, hitem, rfl⟩ := List.mem_map.mp he
    exact .inr ⟨item, hitem, rfl⟩
  exact (hstart.run (List.Subset.refl _) hnodup e h).resolve_right
    fun ⟨_, hnot, _⟩ => absurd hnot List.not_mem_nil

theorem nodup_keys_setEntry {d : List (String × PyVal)} (h : (d.map Prod.fst).Nodup) (key : String)
    (v : PyVal) : ((PyVal.setEntry d key v).map Prod.fst).Nodup := by
  unfold PyVal.setEntry
  split
  · rwa [Dict.map_fst_replace]
  · next hnot =>
    rw [List.map_append, List.map_cons, List.map_nil]
    exact (List.nodup_append_comm.mp (List.nodup_cons.mpr ⟨hnot, h⟩))

theorem nodup_keys_sanitizeItem {d : List (String × PyVal)} (h : (d.map Prod.fst).Nodup)
    (item : String × PyVal) : ((sanitizeItem d item).map Prod.fst).Nodup := by
  obtain ⟨key, v⟩ := item
  have hvalue : ((sanitizeValue d key v).map Prod.fst).Nodup := by
    unfold sanitizeValue
    split
    · exact nodup_keys_setEntry h key _
    · exact h
  rw [sanitizeItem_eq]
  split
  · unfold moveKey
    split
    · exact hvalue
    · exact nodup_keys_setEntry (hvalue.sublist (List.filter_sublist.map _)) _ _
  · exact hvalue

theorem nodup_keys_sanitize {entries : List (String × PyVal)}
    (h : (entries.map Prod.fst).Nodup) : ((sanitize entries).map Prod.fst).Nodup := by
  have hloop : ∀ items d : List (String × PyVal), (d.map Prod.fst).Nodup →
      ((items.foldl sanitizeItem d).map Prod.fst).Nodup := by
    intro items
    induction items with
    | nil => exact fun _ hd => hd
    | cons item items ih => exact fun d hd => ih _ (nodup_keys_sanitizeItem hd item)
  exact hloop entries _ (by rwa [sanitizeValues_keys])

/-! ## 3. What has no null byte stays as it is -/

theorem stripElement_of_stripValue {x : PyVal} (h : stripValue x = x) : stripElement x = x := by
  rw [stripElement]
  split
  · rfl
  · exact h

/-- A dict of finished entries is not changed. -/
theorem sanitize_eq_self {entries : List (String × PyVal)}
    (h : ∀ e ∈ entries, nul ∉ e.1.toList ∧ stripValue e.2 = e.2) : sanitize entries = entries := by
  have hstr : ∀ e ∈ entries, isNulStr e.2 = false := by
    rintro ⟨key, v⟩ he
    cases v with
    | str s => exact decide_eq_false (stripNul_eq_self.mp (PyVal.str.inj (h _ he).2))
    | _ => rfl
  have hvalues : sanitizeValues entries = entries := by
    rw [sanitizeValues_eq_map]
    conv_rhs => rw [← List.map_id entries]
    refine List.map_congr_left fun e he => ?_
    rw [← stripValue_of_not_isNulStr (hstr e he), (h e he).2]
    rfl
  have hloop : ∀ items ⊆ entries, items.foldl sanitizeItem entries = entries := by
    intro items
    induction items with
    | nil => exact fun _ => rfl
    | cons item items ih =>
      intro hsub
      obtain ⟨hitem, hrest⟩ := List.cons_subset.mp hsub
      have hsame : sanitizeItem entries item = entries := by
        rw [sanitizeItem_eq, if_neg (h item hitem).1, sanitizeValue, hstr item hitem,
          if_neg Bool.false_ne_true]
      rw [List.foldl_cons, hsame]
      exact ih hrest
  rw [sanitize, hvalues]
  exact hloop entries (List.Subset.refl _)

theorem stripValue_of_nulFree {v : PyVal} : v.NulFree → stripValue v = v := by
  induction v using PyVal.ind with
  | leaf v hleaf =>
    intro h
    have htexts := (PyVal.atEveryDepth_leaf hleaf).mp h
    cases v with
    | str s =>
      exact congrArg PyVal.str (stripNul_eq_self.mpr (htexts s (List.mem_singleton_self s)))
    | list => cases hleaf
    | dict => cases hleaf
    | _ => rfl
  | list xs ih =>
    intro h
    obtain ⟨-, hxs⟩ := PyVal.atEveryDepth_list.mp h
    rw [stripValue_list]
    conv_rhs => rw [← List.map_id xs]
    exact congrArg _ (List.map_congr_left fun x hx =>
      stripElement_of_stripValue (ih x hx (hxs x hx)))
  | dict entries ih =>
    intro h
    obtain ⟨hkeys, hvalues⟩ := PyVal.atEveryDepth_dict.mp h
    rw [stripValue_dict, sanitize_eq_self fun e he =>
      ⟨hkeys e.1 (List.mem_map_of_mem he), ih e he (hvalues e he)⟩]

theorem stripValue_stripValue {v : PyVal} :
    v.DistinctKeys → stripValue (stripValue v) = stripValue v := by
  induction v using PyVal.ind with
  | leaf v hleaf =>
    intro _
    cases v with
    | str s => exact congrArg PyVal.str (stripNul_stripNul s)
    | list => cases hleaf
    | dict => cases hleaf
    | _ => rfl
  | list xs ih =>
    intro h
    obtain ⟨-, hxs⟩ := PyVal.atEveryDepth_list.mp h
    rw [stripValue_list, stripValue_list, List.map_map]
    refine congrArg PyVal.list (List.map_congr_left fun x hx => ?_)
    show stripElement (stripElement x) = stripElement x
    cases hlist : x.isList with
    | true =>
      have hsame : stripElement x = x := by rw [stripElement, if_pos hlist]
      rw [hsame, hsame]
    | false =>
      have hstrip : stripElement x = stripValue x := by
        rw [stripElement, hlist, if_neg Bool.false_ne_true]
      rw [hstrip]
      exact stripElement_of_stripValue (ih x hx (hxs x hx))
  | dict entries ih =>
    intro h
    obtain ⟨hnodup, hvalues⟩ := PyVal.atEveryDepth_dict.mp h
    rw [stripValue_dict, stripValue_dict]
    refine congrArg PyVal.dict (sanitize_eq_self fun e he => ?_)
    obtain ⟨item, hitem, rfl⟩ := exists_strippedEntry_of_mem_sanitize hnodup he
    exact ⟨not_mem_stripNul item.1, ih item hitem (hvalues item hitem)⟩

/-- Sanitizing twice is sanitizing once. -/
theorem sanitize_sanitize {entries : List (String × PyVal)} (h : (PyVal.dict entries).DistinctKeys) :
    sanitize (sanitize entries) = sanitize entries := by
  have htwice := stripValue_stripValue h
  rw [stripValue_dict, stripValue_dict] at htwice
  exact PyVal.dict.inj htwice

/-! ## 4. When nothing but the null bytes is lost -/

namespace PyVal

theorem NulFree.nulsRemoved {v : PyVal} : v.NulFree → NulsRemoved v v := by
  induction v using ind with
  | leaf v hleaf =>
    intro h
    have htexts := (atEveryDepth_leaf hleaf).mp h
    cases v with
    | none => exact .none
    | bool b => exact .bool b
    | num x => exact .num x
    | str s =>
      have hs := stripNul_eq_self.mpr (htexts s (List.mem_singleton_self s))
      have hstr := NulsRemoved.str s
      rwa [hs] at hstr
    | list => cases hleaf
    | dict => cases hleaf
  | list xs ih =>
    intro h
    obtain ⟨-, hxs⟩ := atEveryDepth_list.mp h
    refine .list rfl fun i x y hx hy => ?_
    obtain rfl := Option.some.inj (hx.symm.trans hy)
    have hmem := List.mem_of_getElem? hx
    exact ih x hmem (hxs x hmem)
  | dict entries ih =>
    intro h
    obtain ⟨hkeys, hvalues⟩ := atEveryDepth_dict.mp h
    refine .dict (List.map_congr_left fun e he => ?_) (fun i e e' he he' => ?_)
      (List.Perm.refl entries)
    · exact (stripNul_eq_self.mpr (hkeys e.1 (List.mem_map_of_mem he))).symm
    · obtain rfl := Option.some.inj (he.symm.trans he')
      have hmem := List.mem_of_getElem? he
      exact ih e hmem (hvalues e hmem)

/-- A value in which sanitizing finds all null bytes and keeps all entries. -/
def Sanitizable (v : PyVal) : Prop := v.KeysStayDistinct ∧ v.NestedListsNulFree

theorem sanitizable_list {xs : List PyVal} :
    (PyVal.list xs).Sanitizable ↔
      (∀ x ∈ xs, x.isList = true → x.NulFree) ∧ ∀ x ∈ xs, x.Sanitizable := by
  unfold Sanitizable KeysStayDistinct NestedListsNulFree
  rw [atEveryDepth_list, atEveryDepth_list]
  constructor
  · rintro ⟨⟨-, hkeys⟩, hlists, hin⟩
    exact ⟨hlists, fun x hx => ⟨hkeys x hx, hin x hx⟩⟩
  · rintro ⟨hlists, hin⟩
    exact ⟨⟨List.nodup_nil, fun x hx => (hin x hx).1⟩, hlists, fun x hx => (hin x hx).2⟩

theorem sanitizable_dict {entries : List (String × PyVal)} :
    (PyVal.dict entries).Sanitizable ↔
      (entries.map fun e => stripNul e.1).Nodup ∧ ∀ e ∈ entries, e.2.Sanitizable := by
  have hkeys : (PyVal.dict entries).keys.map stripNul = entries.map fun e => stripNul e.1 :=
    List.map_map
  unfold Sanitizable KeysStayDistinct NestedListsNulFree
  rw [atEveryDepth_dict, atEveryDepth_dict, hkeys]
  constructor
  · rintro ⟨⟨hnodup, hin⟩, -, hlists⟩
    exact ⟨hnodup, fun e he => ⟨hin e he, hlists e he⟩⟩
  · rintro ⟨hnodup, hin⟩
    exact ⟨⟨hnodup, fun e he => (hin e he).1⟩, fun _ h => absurd h List.not_mem_nil,
      fun e he => (hin e he).2⟩

theorem sanitizable_leaf {v : PyVal} (h : v.isLeaf = true) : v.Sanitizable := by
  refine ⟨(atEveryDepth_leaf h).mpr ?_, (atEveryDepth_leaf h).mpr ?_⟩
  · cases v <;> first | exact List.nodup_nil | cases h
  · cases v <;> first | exact fun _ hx => absurd hx List.not_mem_nil | cases h

theorem NulFree.sanitizable {v : PyVal} : v.DistinctKeys → v.NulFree → v.Sanitizable := by
  induction v using ind with
  | leaf v hleaf => exact fun _ _ => sanitizable_leaf hleaf
  | list xs ih =>
    intro hdistinct hfree
    obtain ⟨-, hdistinct⟩ := atEveryDepth_list.mp hdistinct
    obtain ⟨-, hfree⟩ := atEveryDepth_list.mp hfree
    exact sanitizable_list.mpr
      ⟨fun x hx _ => hfree x hx, fun x hx => ih x hx (hdistinct x hx) (hfree x hx)⟩
  | dict entries ih =>
    intro hdistinct hfree
    obtain ⟨hnodup, hdistinct⟩ := atEveryDepth_dict.mp hdistinct
    obtain ⟨hkeys, hfree⟩ := atEveryDepth_dict.mp hfree
    refine sanitizable_dict.mpr
      ⟨?_, fun e he => ih e he (hdistinct e he) (hfree e he)⟩
    have hsame : entries.map (fun e => stripNul e.1) = entries.map Prod.fst :=
      List.map_congr_left fun e he => stripNul_eq_self.mpr (hkeys e.1 (List.mem_map_of_mem he))
    rwa [hsame]

theorem correct_leaf {v : PyVal} (hleaf : v.isLeaf = true) :
    (stripValue v).NulFree ∧ NulsRemoved v (stripValue v) := by
  have htexts : ∀ w : PyVal, w.isLeaf = true → w.texts = [] → w.NulFree := fun w hw hno =>
    (atEveryDepth_leaf hw).mpr fun t ht => absurd (hno ▸ ht) List.not_mem_nil
  cases v with
  | none => exact ⟨htexts .none rfl rfl, .none⟩
  | bool b => exact ⟨htexts (.bool b) rfl rfl, .bool b⟩
  | num x => exact ⟨htexts (.num x) rfl rfl, .num x⟩
  | str s =>
    refine ⟨(atEveryDepth_leaf rfl).mpr fun t ht => ?_, .str s⟩
    rw [List.mem_singleton.mp ht]
    exact not_mem_stripNul s
  | list => cases hleaf
  | dict => cases hleaf

/-- Sanitizing a value of this kind leaves the value without its null bytes. -/
theorem Sanitizable.correct {v : PyVal} :
    v.Sanitizable → (stripValue v).NulFree ∧ NulsRemoved v (stripValue v) := by
  induction v using ind with
  | leaf v hleaf => exact fun _ => correct_leaf hleaf
  | list xs ih =>
    intro h
    obtain ⟨hlists, hxs⟩ := sanitizable_list.mp h
    have helement : ∀ x ∈ xs, (stripElement x).NulFree ∧ NulsRemoved x (stripElement x) := by
      intro x hx
      unfold stripElement
      split
      · next hlist => exact ⟨hlists x hx hlist, (hlists x hx hlist).nulsRemoved⟩
      · exact ih x hx (hxs x hx)
    rw [stripValue_list]
    refine ⟨atEveryDepth_list.mpr ⟨fun _ h => absurd h List.not_mem_nil, fun y hy => ?_⟩,
      .list (by rw [List.length_map]) fun i x y hx hy => ?_⟩
    · obtain ⟨x, hx, rfl⟩ := List.mem_map.mp hy
      exact (helement x hx).1
    · rw [List.getElem?_map, hx] at hy
      obtain rfl := Option.some.inj hy
      exact (helement x (List.mem_of_getElem? hx)).2
  | dict entries ih =>
    intro h
    obtain ⟨hnodup, hvalues⟩ := sanitizable_dict.mp h
    have hperm := sanitize_perm hnodup
    rw [stripValue_dict]
    refine ⟨atEveryDepth_dict.mpr ⟨fun t ht => ?_, fun e he => ?_⟩,
      .dict ?_ (fun i e e' he he' => ?_) hperm⟩
    · obtain ⟨e, he, rfl⟩ := List.mem_map.mp ht
      obtain ⟨item, -, rfl⟩ := List.mem_map.mp (hperm.mem_iff.mp he)
      exact not_mem_stripNul item.1
    · obtain ⟨item, hitem, rfl⟩ := List.mem_map.mp (hperm.mem_iff.mp he)
      exact (ih item hitem (hvalues item hitem)).1
    · rw [List.map_map]
      rfl
    · rw [List.getElem?_map, he] at he'
      obtain rfl := Option.some.inj he'
      have hmem := List.mem_of_getElem? he
      exact (ih e hmem (hvalues e hmem)).2

/-- Entries with distinct keys are determined by their order and by what they are in any order. -/
theorem eq_of_perm_of_keys {entries entries' : List (String × PyVal)}
    (hnodup : (entries.map Prod.fst).Nodup)
    (hkeys : entries'.map Prod.fst = entries.map Prod.fst) (hperm : entries'.Perm entries) :
    entries' = entries := by
  refine List.ext_getElem hperm.length_eq fun i hi hi' => ?_
  have hkey : entries'[i].1 = entries[i].1 := by
    have hat : (entries'.map Prod.fst)[i]? = (entries.map Prod.fst)[i]? := by rw [hkeys]
    rw [List.getElem?_map, List.getElem?_map, List.getElem?_eq_getElem hi,
      List.getElem?_eq_getElem hi'] at hat
    exact Option.some.inj hat
  exact List.inj_on_of_nodup_map hnodup (hperm.mem_iff.mp (List.getElem_mem hi))
    (List.getElem_mem hi') hkey

/-- Where sanitizing leaves the value without its null bytes, nothing stood in its way. -/
theorem sanitizable_of_correct {v : PyVal} : v.DistinctKeys → (stripValue v).NulFree →
    NulsRemoved v (stripValue v) → v.Sanitizable := by
  induction v using ind with
  | leaf v hleaf => exact fun _ _ _ => sanitizable_leaf hleaf
  | list xs ih =>
    intro hdistinct hfree hremoved
    rw [stripValue_list] at hfree hremoved
    obtain ⟨-, hdistinct⟩ := atEveryDepth_list.mp hdistinct
    obtain ⟨-, hfree⟩ := atEveryDepth_list.mp hfree
    have hlists : ∀ x ∈ xs, x.isList = true → x.NulFree := by
      intro x hx hlist
      have hx' := hfree _ (List.mem_map_of_mem hx)
      rwa [stripElement, if_pos hlist] at hx'
    refine sanitizable_list.mpr ⟨hlists, fun x hx => ?_⟩
    cases hlist : x.isList with
    | true => exact (hlists x hx hlist).sanitizable (hdistinct x hx)
    | false =>
      have hstrip : stripElement x = stripValue x := by
        rw [stripElement, hlist, if_neg Bool.false_ne_true]
      refine ih x hx (hdistinct x hx) (hstrip ▸ hfree _ (List.mem_map_of_mem hx)) ?_
      obtain ⟨i, hi⟩ := List.mem_iff_getElem?.mp hx
      cases hremoved with
      | list _ hpairs =>
        rw [← hstrip]
        exact hpairs i x _ hi (by rw [List.getElem?_map, hi]; rfl)
  | dict entries ih =>
    intro hdistinct hfree hremoved
    rw [stripValue_dict] at hfree hremoved
    obtain ⟨hnodup, hdistinct⟩ := atEveryDepth_dict.mp hdistinct
    obtain ⟨-, hfree⟩ := atEveryDepth_dict.mp hfree
    cases hremoved with
    | dict hkeys hpairs hperm =>
      next stripped =>
      -- the result is a dict, so its keys are distinct, and these are the stripped ones
      have hstay : (entries.map fun e => stripNul e.1).Nodup := by
        rw [← hkeys]
        exact (hperm.map Prod.fst).nodup_iff.mp (nodup_keys_sanitize hnodup)
      have hentries := sanitize_perm hstay
      have hfst : (entries.map strippedEntry).map Prod.fst = entries.map fun e => stripNul e.1 := by
        rw [List.map_map]
        rfl
      obtain rfl : stripped = entries.map strippedEntry :=
        eq_of_perm_of_keys (hfst ▸ hstay) (hkeys.trans hfst.symm) (hperm.symm.trans hentries)
      refine sanitizable_dict.mpr ⟨hstay, fun e he => ?_⟩
      have hin : strippedEntry e ∈ sanitize entries :=
        hentries.mem_iff.mpr (List.mem_map_of_mem he)
      refine ih e he (hdistinct e he) (hfree _ hin) ?_
      obtain ⟨i, hi⟩ := List.mem_iff_getElem?.mp he
      exact hpairs i e (strippedEntry e) hi (by rw [List.getElem?_map, hi]; rfl)

end PyVal

/-- What sanitizing is for: no null byte is left, a result without null bytes stays as it is, the
shape is kept with the null bytes removed, and doing it again changes nothing. -/
def SanitizedCorrectly (analysisData : List (String × PyVal)) : Prop :=
  (PyVal.dict (sanitize analysisData)).NulFree ∧
  ((PyVal.dict analysisData).NulFree → sanitize analysisData = analysisData) ∧
  PyVal.NulsRemoved (.dict analysisData) (.dict (sanitize analysisData)) ∧
  sanitize (sanitize analysisData) = sanitize analysisData

/-- A result is sanitized correctly exactly when no list that stands in a list holds a null byte and
no two keys of one dict differ in their null bytes only. -/
theorem sanitize_correct_iff {analysisData : List (String × PyVal)}
    (hdistinct : (PyVal.dict analysisData).DistinctKeys) :
    SanitizedCorrectly analysisData ↔
      (PyVal.dict analysisData).NestedListsNulFree ∧
        (PyVal.dict analysisData).KeysStayDistinct := by
  constructor
  · rintro ⟨hfree, -, hremoved, -⟩
    rw [← stripValue_dict] at hfree hremoved
    exact (PyVal.sanitizable_of_correct hdistinct hfree hremoved).symm
  · intro h
    obtain ⟨hfree, hremoved⟩ := PyVal.Sanitizable.correct h.symm
    rw [stripValue_dict] at hfree hremoved
    refine ⟨hfree, fun hnul => ?_, hremoved, sanitize_sanitize hdistinct⟩
    have hsame := stripValue_of_nulFree hnul
    rw [stripValue_dict] at hsame
    exact PyVal.dict.inj hsame

/-- A result with null bytes in its keys, its strings and a list. -/
def exampleResult : List (String × PyVal) :=
  [("ille\x00gal", .str "a\x00b"), ("list", .list [.str "item\x001", .dict [("k\x00", .num 1)]])]

theorem exampleResult_sanitized : SanitizedCorrectly exampleResult ∧
    sanitize exampleResult =
      [("list", .list [.str "item1", .dict [("k", .num 1)]]), ("illegal", .str "ab")] :=
  ⟨(sanitize_correct_iff (by decide)).mpr ⟨by decide, by decide⟩, rfl⟩

/-- The null byte in a list in a list is found by nothing. -/
theorem sanitize_leaves_nul_in_nested_list :
    ¬ SanitizedCorrectly [("rows", .list [.list [.str "x\x00"]])] := by
  rintro ⟨hfree, -⟩
  revert hfree
  decide

end FactCore
