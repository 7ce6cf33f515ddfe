import FactCore.Lib.Exclusive
import FactCore.Storage.ChunkedStore

/-!
# Who owns the chunks

A database of the chunked store represents a content when each value is encoded by what
stands under its key, each queue by its list, and no chunk is named twice. The place
whose bytes name a chunk holds it. Each operation is looked at once: what the database
represents afterwards, and what happens to the chunks.

Results:
1. `Represents.frame`: chunks that nobody holds can come and go.
2. `Represents.set_ok`, `Represents.queuePut_ok`: a value is put at a place.
3. `Represents.get_delete`, `Represents.get_keep`, `Represents.queueGet_ok`: a value is
   taken from its place, or only read.
-/

namespace FactCore

/-! ## 1. What the store represents -/

/-- Where a value can be: under a key, or at a place in a queue. -/
inductive Owner
  | value (key : String)
  | item (queue : String) (index : Nat)
  deriving DecidableEq

/-- The bytes that are stored for the application, not as a chunk. -/
inductive BytesAt (db : RedisDb) : Owner → Bytes → Prop
  | value {key : String} {b : Bytes} : ¬ IsChunkKey key → db.strings.get? key = some b →
      BytesAt db (.value key) b
  | item {queue : String} {index : Nat} {b : Bytes} : (db.lists.getD queue [])[index]? = some b →
      BytesAt db (.item queue index) b

/-- The keys of the chunks of a value, if it is there. -/
def chunksOf (b : Option Bytes) : List String := b.elim [] references

/-- The chunk is named by the bytes that are stored at this place. -/
def Holds (db : RedisDb) (o : Owner) (chunk : String) : Prop :=
  ∃ b, BytesAt db o b ∧ chunk ∈ references b

/-- The database holds the content: values under application keys, lists under queue keys, and no
chunk is shared. Other chunks may be there. -/
structure Represents {V : Type} (config : RedisConfig V) (isQueue : String → Prop) (db : RedisDb)
    (c : StoreContent V) : Prop where
  values : ∀ key, ¬ isQueue key → ¬ IsChunkKey key →
    Option.Rel (Encodes config db.strings) (db.strings.get? key) (c.values key)
  queues : ∀ key, isQueue key →
    List.Forall₂ (Encodes config db.strings) (db.lists.getD key []) (c.queues key)
  exclusive : Exclusive (Holds db)
  valueKeys : ∀ key ∈ db.strings, ¬ isQueue key
  queueKeys : ∀ key ∈ db.lists, isQueue key

/-- The operation uses an application key of its kind. -/
def RedisOp.Legal {V : Type} (isQueue : String → Prop) : RedisOp V → Prop
  | .set key _ _ => ¬ isQueue key ∧ ¬ IsChunkKey key
  | .get key _ => ¬ isQueue key ∧ ¬ IsChunkKey key
  | .queuePut key _ _ => isQueue key
  | .queueGet key => isQueue key

section Representation
variable {V : Type} {config : RedisConfig V} {isQueue : String → Prop} {db db' : RedisDb}
  {c : StoreContent V} {key : String} {b : Bytes} {v : V}

/-- A value under a key is encoded by what stands there. -/
theorem Represents.encodes_value (h : Represents config isQueue db c) (hkey : ¬ IsChunkKey key)
    (hb : db.strings.get? key = some b) :
    ∃ v, c.values key = some v ∧ Encodes config db.strings b v := by
  have hrel := h.values key (h.valueKeys key (Dict.mem_of_get? hb)) hkey
  rw [hb] at hrel
  cases hc : c.values key with
  | none => rw [hc] at hrel; cases hrel
  | some v =>
    rw [hc] at hrel
    cases hrel with
    | some henc => exact ⟨v, rfl, henc⟩

/-- An item of a queue stands in a list. -/
theorem exists_list_of_getElem? {i : Nat} (hb : (db.lists.getD key [])[i]? = some b) :
    ∃ l, db.lists.get? key = some l ∧ b ∈ l := by
  cases hlist : db.lists.get? key with
  | none =>
    rw [Dict.getD, hlist] at hb
    cases hb
  | some l =>
    rw [Dict.getD, hlist] at hb
    exact ⟨l, rfl, List.mem_of_getElem? hb⟩

theorem Represents.encodes_item (h : Represents config isQueue db c) {i : Nat}
    (hb : (db.lists.getD key [])[i]? = some b) : ∃ v, Encodes config db.strings b v := by
  obtain ⟨l, hlist, -⟩ := exists_list_of_getElem? hb
  have hkey := h.queueKeys key (Dict.mem_of_get? hlist)
  have hrel := List.forall₂_iff_get.mp (h.queues key hkey)
  obtain ⟨hi, rfl⟩ := List.getElem?_eq_some_iff.mp hb
  exact ⟨_, hrel.2 i hi (hrel.1 ▸ hi)⟩

/-- Whatever is stored for the application stands for a value. -/
theorem Represents.encodes (h : Represents config isQueue db c) {o : Owner} (hb : BytesAt db o b) :
    ∃ v, Encodes config db.strings b v := by
  cases hb with
  | value hkey hget =>
    obtain ⟨v, -, henc⟩ := h.encodes_value hkey hget
    exact ⟨v, henc⟩
  | item hget => exact h.encodes_item hget

theorem Represents.mem_of_holds (h : Represents config isQueue db c) {o : Owner} {k : String}
    (hk : Holds db o k) : k ∈ db.strings ∧ IsChunkKey k := by
  obtain ⟨b, hb, hk⟩ := hk
  obtain ⟨v, henc⟩ := h.encodes hb
  exact ⟨henc.mem hk, henc.isChunkKey hk⟩

/-- Chunks that nobody holds can come and go. -/
theorem Represents.frame (h : Represents config isQueue db c)
    (hchunk : ∀ key, isQueue key → ¬ IsChunkKey key) (hlists : db'.lists = db.lists)
    (hother : ∀ k, ¬ IsChunkKey k → db'.strings.get? k = db.strings.get? k)
    (hheld : ∀ o k, Holds db o k → db'.strings.get? k = db.strings.get? k) :
    Represents config isQueue db' c ∧ ∀ o k, Holds db' o k ↔ Holds db o k := by
  have hstored : ∀ o b, BytesAt db' o b ↔ BytesAt db o b := by
    intro o b
    constructor
    · rintro (⟨hkey, hget⟩ | hget)
      · exact .value hkey ((hother _ hkey).symm.trans hget)
      · exact .item (hlists ▸ hget)
    · rintro (⟨hkey, hget⟩ | hget)
      · exact .value hkey ((hother _ hkey).trans hget)
      · exact .item (hlists ▸ hget)
  have hholds : ∀ o k, Holds db' o k ↔ Holds db o k := fun o k =>
    exists_congr fun b => and_congr_left fun _ => hstored o b
  have henc : ∀ o b v, BytesAt db o b → Encodes config db.strings b v →
      Encodes config db'.strings b v :=
    fun o b v hb henc => henc.congr fun k hk => hheld o k ⟨b, hb, hk⟩
  refine ⟨⟨fun key hq hkey => ?_, fun key hq => ?_, fun o o' k hk hk' =>
    h.exclusive o o' k ((hholds o k).mp hk) ((hholds o' k).mp hk'), fun key hkey => ?_,
    hlists ▸ h.queueKeys⟩, hholds⟩
  · have hrel := h.values key hq hkey
    rw [hother key hkey]
    cases hb : db.strings.get? key with
    | none =>
      rw [hb] at hrel
      cases hc : c.values key with
      | none => exact .none
      | some v => rw [hc] at hrel; cases hrel
    | some b =>
      obtain ⟨v, hv, he⟩ := h.encodes_value hkey hb
      rw [hv]
      exact .some (henc (.value key) b v (.value hkey hb) he)
  · rw [hlists]
    refine List.forall₂_iff_get.mpr ⟨(h.queues key hq).length_eq, fun i hi hi' => ?_⟩
    exact henc (.item key i) _ _ (.item (List.getElem?_eq_getElem hi))
      ((List.forall₂_iff_get.mp (h.queues key hq)).2 i hi hi')
  · rcases Classical.em (isQueue key) with hq | hq
    · -- a queue key is no chunk key, so its entry is an old one
      obtain ⟨b, hb⟩ := Dict.mem_iff.mp hkey
      rw [hother key (hchunk key hq)] at hb
      exact h.valueKeys key (Dict.mem_of_get? hb)
    · exact hq

end Representation

/-! ## 2. Changes of one value and of one queue -/

/-- `db'` is `db` with other bytes, or none, under one key. -/
structure ValueSet (db db' : RedisDb) (key : String) (b : Option Bytes) : Prop where
  lists : db'.lists = db.lists
  self : db'.strings.get? key = b
  others : ∀ k, k ≠ key → db'.strings.get? k = db.strings.get? k

/-- `db'` is `db` with other items in one queue. -/
structure QueueSet (db db' : RedisDb) (key : String) (items : List Bytes) : Prop where
  strings : db'.strings = db.strings
  self : db'.lists.getD key [] = items
  others : ∀ k, k ≠ key → db'.lists.getD k [] = db.lists.getD k []
  keys : ∀ k ∈ db'.lists, k = key ∨ k ∈ db.lists

section Changes
variable {V : Type} {config : RedisConfig V} {isQueue : String → Prop} {db db' : RedisDb}
  {c : StoreContent V} {key k : String} {o : Owner} {items : List Bytes}

theorem valueSet_setString (b : Bytes) (h : key ∉ db.lists) :
    ValueSet db (db.setString key b) key (some b) := by
  exact ⟨Dict.erase_of_not_mem h, Dict.get?_set_self _ _ _, fun k hk => Dict.get?_set_of_ne _ hk⟩

theorem valueSet_delete (h : key ∉ db.lists) : ValueSet db (db.delete key) key none := by
  refine ⟨Dict.erase_of_not_mem h, ?_, fun k hk => ?_⟩
  · exact (Dict.get?_erase _ _ _).trans (if_pos rfl)
  · exact (Dict.get?_erase _ _ _).trans (if_neg hk)

theorem getD_set (lists : Dict String (List Bytes)) (key k : String) (items : List Bytes) :
    (lists.set key items).getD k [] = if k = key then items else lists.getD k [] := by
  rw [Dict.getD, Dict.get?_set]
  split <;> rfl

theorem rpush_ok (b : Bytes) (h : key ∉ db.strings) :
    ∃ db', db.rpush key b = some db' ∧ QueueSet db db' key (db.lists.getD key [] ++ [b]) := by
  refine ⟨_, if_neg h, rfl, (getD_set _ _ _ _).trans (if_pos rfl), fun k hk => ?_, fun k hk => ?_⟩
  · exact (getD_set _ _ _ _).trans (if_neg hk)
  · exact Dict.mem_set.mp hk

theorem lpop_ok (h : key ∉ db.strings) :
    ∃ db', db.lpop key = some (db', (db.lists.getD key []).head?) ∧
      QueueSet db db' key (db.lists.getD key []).tail := by
  unfold RedisDb.lpop
  rw [if_neg h]
  split
  · next hnil => exact ⟨db, by rw [hnil]; rfl, rfl, by rw [hnil]; rfl, fun _ _ => rfl, fun _ => .inr⟩
  · next item hone =>
    rw [hone]
    refine ⟨_, rfl, rfl, ?_, fun k hk => ?_, fun k hk => .inr (Dict.mem_erase.mp hk).2⟩
    · rw [Dict.getD, Dict.get?_erase, if_pos rfl]
      rfl
    · rw [Dict.getD, Dict.get?_erase, if_neg hk]
      rfl
  · next item items _ hmany =>
    rw [hmany]
    refine ⟨_, rfl, rfl, ?_, fun k hk => ?_, fun k hk => Dict.mem_set.mp hk⟩
    · exact (getD_set _ _ _ _).trans (if_pos rfl)
    · exact (getD_set _ _ _ _).trans (if_neg hk)

/-! What the places hold afterwards. -/

theorem holds_value : Holds db (.value key) k ↔
    ¬ IsChunkKey key ∧ ∃ b, db.strings.get? key = some b ∧ k ∈ references b := by
  constructor
  · rintro ⟨b, ⟨hkey, hb⟩ | _, hk⟩
    exact ⟨hkey, b, hb, hk⟩
  · rintro ⟨hkey, b, hb, hk⟩
    exact ⟨b, .value hkey hb, hk⟩

theorem holds_item {i : Nat} : Holds db (.item key i) k ↔
    ∃ b, (db.lists.getD key [])[i]? = some b ∧ k ∈ references b := by
  constructor
  · rintro ⟨b, _ | hb, hk⟩
    exact ⟨b, hb, hk⟩
  · rintro ⟨b, hb, hk⟩
    exact ⟨b, .item hb, hk⟩

theorem holds_value_iff (hname : ¬ IsChunkKey key) :
    Holds db (.value key) k ↔ k ∈ chunksOf (db.strings.get? key) := by
  rw [holds_value, and_iff_right hname]
  cases db.strings.get? key <;> simp [chunksOf]

theorem holds_first :
    Holds db (.item key 0) k ↔ k ∈ chunksOf (db.lists.getD key []).head? := by
  rw [holds_item, ← List.head?_eq_getElem?]
  cases (db.lists.getD key []).head? <;> simp [chunksOf]

theorem ValueSet.holds_other {b : Option Bytes} (h : ValueSet db db' key b)
    (ho : o ≠ .value key) : Holds db' o k ↔ Holds db o k := by
  cases o with
  | value key' =>
    have hne : key' ≠ key := fun heq => ho (congrArg Owner.value heq)
    rw [holds_value, holds_value, h.others key' hne]
  | item queue i => rw [holds_item, holds_item, h.lists]

theorem ValueSet.holds_none (h : ValueSet db db' key none) :
    Holds db' o k ↔ o ≠ .value key ∧ Holds db o k := by
  by_cases ho : o = .value key
  · subst ho
    rw [holds_value, h.self]
    simp
  · rw [h.holds_other ho, and_iff_right ho]

/-- The place of an item once the first item of the queue is gone. -/
def Owner.next (key : String) : Owner → Owner
  | .value k => .value k
  | .item queue i => .item queue (if queue = key then i + 1 else i)

theorem Owner.next_injective (key : String) : Function.Injective (Owner.next key) := by
  intro o o' h
  cases o <;> cases o' <;>
    simp only [Owner.next, Owner.value.injEq, Owner.item.injEq, reduceCtorEq] at h
  · rw [h]
  · obtain ⟨rfl, h⟩ := h
    split at h
    · rw [Nat.succ.inj h]
    · rw [h]

theorem Owner.next_ne_first (key : String) (o : Owner) : o.next key ≠ .item key 0 := by
  cases o with
  | value => exact nofun
  | item queue i =>
    intro h
    obtain ⟨rfl, h⟩ := Owner.item.inj h
    rw [if_pos rfl] at h
    exact absurd h (Nat.succ_ne_zero i)

/-- Every other place is the place of an item that moves up. -/
theorem Owner.next_surjective {key : String} {o : Owner} (h : o ≠ .item key 0) :
    ∃ o' : Owner, o'.next key = o := by
  cases o with
  | value k => exact ⟨.value k, rfl⟩
  | item queue i =>
    by_cases hq : queue = key
    · subst hq
      cases i with
      | zero => exact absurd rfl h
      | succ i => exact ⟨.item queue i, congrArg _ (if_pos rfl)⟩
    · exact ⟨.item queue i, congrArg _ (if_neg hq)⟩

theorem QueueSet.holds_push {b : Bytes} (h : QueueSet db db' key (db.lists.getD key [] ++ [b]))
    (ho : o ≠ .item key (db.lists.getD key []).length) : Holds db' o k ↔ Holds db o k := by
  cases o with
  | value => rw [holds_value, holds_value, h.strings]
  | item queue i =>
    rw [holds_item, holds_item]
    by_cases hq : queue = key
    · subst hq
      have hi : i ≠ (db.lists.getD queue []).length := fun heq => ho (congrArg _ heq)
      rw [h.self]
      rcases Nat.lt_or_gt_of_ne hi with hlt | hgt
      · rw [List.getElem?_append_left hlt]
      · rw [List.getElem?_eq_none (by rw [List.length_append, List.length_singleton]; omega),
          List.getElem?_eq_none (Nat.le_of_lt hgt)]
    · rw [h.others queue hq]

theorem QueueSet.holds_pushed {b : Bytes} (h : QueueSet db db' key (db.lists.getD key [] ++ [b])) :
    Holds db' (.item key (db.lists.getD key []).length) k ↔ k ∈ references b := by
  rw [holds_item, h.self, List.getElem?_concat_length]
  constructor
  · rintro ⟨b', hb, hk⟩
    exact Option.some.inj hb ▸ hk
  · exact fun hk => ⟨b, rfl, hk⟩

theorem QueueSet.holds_pop (h : QueueSet db db' key (db.lists.getD key []).tail) :
    Holds db' o k ↔ Holds db (o.next key) k := by
  cases o with
  | value => exact (holds_value.trans (by rw [h.strings])).trans holds_value.symm
  | item queue i =>
    rw [Owner.next, holds_item, holds_item]
    by_cases hq : queue = key
    · rw [if_pos hq, hq, h.self, List.getElem?_tail]
    · rw [if_neg hq, h.others queue hq]

/-! What the database represents afterwards. -/

theorem rel_mono {r r' : Bytes → V → Prop} {b : Option Bytes} {v : Option V}
    (hsub : ∀ b v, r b v → r' b v) (h : Option.Rel r b v) : Option.Rel r' b v := by
  cases h with
  | none => exact .none
  | some h => exact .some (hsub _ _ h)

theorem rel_head_tail {r : Bytes → V → Prop} {vs : List V} (h : List.Forall₂ r items vs) :
    Option.Rel r items.head? vs.head? ∧ List.Forall₂ r items.tail vs.tail := by
  cases h with
  | nil => exact ⟨.none, .nil⟩
  | cons hhead htail => exact ⟨.some hhead, htail⟩

theorem Represents.setValue {b : Option Bytes} {v : Option V} (h : Represents config isQueue db c)
    (hset : ValueSet db db' key b) (hkey : ¬ isQueue key) (hname : ¬ IsChunkKey key)
    (hv : Option.Rel (Encodes config db.strings) b v) (hexcl : Exclusive (Holds db')) :
    Represents config isQueue db' { c with values := Function.update c.values key v } := by
  -- the values do not depend on the key itself
  have henc : ∀ b v, Encodes config db.strings b v → Encodes config db'.strings b v :=
    fun b v he => he.congr fun k hk => hset.others k fun heq => hname (heq ▸ he.isChunkKey hk)
  refine ⟨fun k hq hk => ?_, fun k hq => ?_, hexcl, fun k hk => ?_, hset.lists ▸ h.queueKeys⟩
  · show Option.Rel _ _ (Function.update c.values key v k)
    rcases eq_or_ne k key with rfl | hne
    · rw [hset.self, Function.update_self]
      exact rel_mono henc hv
    · rw [hset.others k hne, Function.update_of_ne hne]
      exact rel_mono henc (h.values k hq hk)
  · rw [hset.lists]
    exact (h.queues k hq).imp henc
  · rcases eq_or_ne k key with rfl | hne
    · exact hkey
    · obtain ⟨b', hb⟩ := Dict.mem_iff.mp hk
      rw [hset.others k hne] at hb
      exact h.valueKeys k (Dict.mem_of_get? hb)

/-- What a key held still stands for the value when the key is given up. -/
theorem Represents.rel_values {b : Option Bytes} (h : Represents config isQueue db c)
    (hset : ValueSet db db' key b) (hkey : ¬ isQueue key) (hname : ¬ IsChunkKey key) :
    Option.Rel (Encodes config db'.strings) (db.strings.get? key) (c.values key) := by
  refine rel_mono (fun b v he => he.congr fun k hk => hset.others k ?_) (h.values key hkey hname)
  exact fun heq => hname (heq ▸ he.isChunkKey hk)

theorem Represents.setQueue {vs : List V} (h : Represents config isQueue db c)
    (hset : QueueSet db db' key items) (hkey : isQueue key)
    (hvs : List.Forall₂ (Encodes config db.strings) items vs) (hexcl : Exclusive (Holds db')) :
    Represents config isQueue db' { c with queues := Function.update c.queues key vs } := by
  refine ⟨fun k hq hk => ?_, fun k hq => ?_, hexcl, hset.strings ▸ h.valueKeys, fun k hk => ?_⟩
  · rw [hset.strings]
    exact h.values k hq hk
  · show List.Forall₂ _ _ (Function.update c.queues key vs k)
    rw [hset.strings]
    rcases eq_or_ne k key with rfl | hne
    · rw [hset.self, Function.update_self]
      exact hvs
    · rw [hset.others k hne, Function.update_of_ne hne]
      exact h.queues k hq
  · rcases hset.keys k hk with rfl | hk
    · exact hkey
    · exact h.queueKeys k hk

end Changes

/-! ## 3. One operation -/

/-- A value is put at the place `o`, under chunks of its own. -/
structure ChunksPlaced (db db' : RedisDb) (o : Owner) (refs : List String) : Prop where
  self : ∀ k, Holds db' o k ↔ k ∈ refs
  others : ∀ o' k, o' ≠ o → (Holds db' o' k ↔ Holds db o' k)
  fresh : ∀ k ∈ refs, k ∉ db.strings
  chunks : ∀ k, IsChunkKey k → (k ∈ db'.strings ↔ k ∈ refs ∨ k ∈ db.strings)

/-- The value at the place `o` is taken, with its chunks. The others may be at other places. -/
structure ChunksFreed (db db' : RedisDb) (o : Owner) : Prop where
  kept : ∀ o' k, o' ≠ o → Holds db o' k → ∃ o'', Holds db' o'' k
  chunks : ∀ k, IsChunkKey k → k ∈ db'.strings → k ∈ db.strings ∧ ¬ Holds db o k

section Operations
variable {V : Type} {config : RedisConfig V} {isQueue : String → Prop} {db db' : RedisDb}
  {c : StoreContent V} {key : String} {v : V} {draws : List (Fin 10000)}

theorem Represents.not_mem_lists (h : Represents config isQueue db c) (hkey : ¬ isQueue key) :
    key ∉ db.lists :=
  fun hmem => hkey (h.queueKeys key hmem)

theorem Represents.not_mem_strings (h : Represents config isQueue db c) (hkey : isQueue key) :
    key ∉ db.strings :=
  fun hmem => h.valueKeys key hmem hkey

/-- Storing the chunks of a value changes nothing that is represented. -/
theorem Represents.split {b : Bytes} (h : Represents config isQueue db c)
    (hchunk : ∀ key, isQueue key → ¬ IsChunkKey key) (hst : ValueStored config db db' b v) :
    Represents config isQueue db' c ∧ (∀ o k, Holds db' o k ↔ Holds db o k) ∧
      ∀ k ∈ references b, ∀ o, ¬ Holds db' o k := by
  obtain ⟨hrep, hholds⟩ := h.frame hchunk hst.lists
    (fun k hk => hst.others k fun hin => hk (hst.encodes.isChunkKey hin))
    (fun o k hk => hst.others k fun hin => hst.fresh k hin (h.mem_of_holds hk).1)
  refine ⟨hrep, hholds, fun k hk o ho => ?_⟩
  exact hst.fresh k hk (h.mem_of_holds ((hholds o k).mp ho)).1

theorem ValueStored.mem_iff {b : Bytes} (hst : ValueStored config db db' b v) (k : String) :
    k ∈ db'.strings ↔ k ∈ references b ∨ k ∈ db.strings := by
  by_cases hk : k ∈ references b
  · exact iff_of_true (hst.encodes.mem hk) (.inl hk)
  · rw [Dict.mem_iff, Dict.mem_iff, hst.others k hk, or_iff_right hk]

/-- `set`. -/
theorem Represents.set_ok {out : Option V} (h : Represents config isQueue db c)
    (hchunk : ∀ key, isQueue key → ¬ IsChunkKey key) (hkey : ¬ isQueue key)
    (hname : ¬ IsChunkKey key) (hrun : RedisOp.run config db (.set key v draws) = some (db', out)) :
    out = some config.pyNone ∧
      Represents config isQueue db'
        { c with values := Function.update c.values key (some v) } ∧
      ∃ refs, ChunksPlaced db db' (.value key) refs := by
  obtain ⟨⟨db₁, b⟩, hsplit, heq⟩ := Option.map_eq_some_iff.mp hrun
  obtain ⟨rfl, rfl⟩ := Prod.mk.inj heq
  have hst := splitIfNecessary_ok hsplit
  obtain ⟨hrep, hholds, hfree⟩ := h.split hchunk hst
  have hset := valueSet_setString b (hrep.not_mem_lists hkey)
  have hself : ∀ k, Holds (db₁.setString key b) (.value key) k ↔ k ∈ references b := by
    intro k
    rw [holds_value, hset.self]
    simp [hname]
  have hexcl : Exclusive (Holds (db₁.setString key b)) :=
    hrep.exclusive.take (fun o k ho hk => (hset.holds_other ho).mp hk)
      fun k hk => hfree k ((hself k).mp hk)
  refine ⟨rfl, hrep.setValue hset hkey hname (.some hst.encodes) hexcl, references b, hself,
    fun o k ho => (hset.holds_other ho).trans (hholds o k), hst.fresh, fun k hk => ?_⟩
  have hne : k ≠ key := fun heq => hname (heq ▸ hk)
  rw [← hst.mem_iff, Dict.mem_iff, Dict.mem_iff, hset.others k hne]

/-- `queue_put`. -/
theorem Represents.queuePut_ok {out : Option V} (h : Represents config isQueue db c)
    (hchunk : ∀ key, isQueue key → ¬ IsChunkKey key) (hkey : isQueue key)
    (hrun : RedisOp.run config db (.queuePut key v draws) = some (db', out)) :
    out = some config.pyNone ∧
      Represents config isQueue db'
        { c with queues := Function.update c.queues key (c.queues key ++ [v]) } ∧
      ∃ refs, ChunksPlaced db db' (.item key (db.lists.getD key []).length) refs := by
  obtain ⟨⟨db₁, b⟩, hsplit, heq⟩ := Option.map_eq_some_iff.mp hrun
  have hst := splitIfNecessary_ok hsplit
  obtain ⟨hrep, hholds, hfree⟩ := h.split hchunk hst
  obtain ⟨db₂, hpush, hset⟩ := rpush_ok b (hrep.not_mem_strings hkey)
  rw [hpush] at heq
  obtain ⟨rfl, rfl⟩ := Prod.mk.inj heq
  have hexcl : Exclusive (Holds db₂) :=
    hrep.exclusive.take (fun o k ho hk => (hset.holds_push ho).mp hk)
      fun k hk => hfree k (hset.holds_pushed.mp hk)
  have hitems := List.rel_append (hrep.queues key hkey) (.cons hst.encodes .nil)
  refine ⟨rfl, hrep.setQueue hset hkey hitems hexcl, references b, fun k => ?_, fun o k ho => ?_,
    hst.fresh, fun k _ => ?_⟩
  · rw [← hst.lists]
    exact hset.holds_pushed
  · rw [← hst.lists] at ho
    exact (hset.holds_push ho).trans (hholds o k)
  · rw [hset.strings]
    exact hst.mem_iff k

/-- Reading the bytes of a value whose chunks nobody holds. -/
theorem Represents.combine {b : Option Bytes} {v : Option V} (h : Represents config isQueue db c)
    (hchunk : ∀ key, isQueue key → ¬ IsChunkKey key)
    (hv : Option.Rel (Encodes config db.strings) b v)
    (hfree : ∀ k ∈ chunksOf b, ∀ o, ¬ Holds db o k) :
    ∃ db', db.combineIfSplit config true b = (db', some (v.getD config.pyNone)) ∧
      Represents config isQueue db' c ∧ (∀ o k, Holds db' o k ↔ Holds db o k) ∧
      db'.lists = db.lists ∧
      ∀ k, db'.strings.get? k = if k ∈ chunksOf b then none else db.strings.get? k := by
  cases hv with
  | none =>
    exact ⟨db, rfl, h, fun _ _ => Iff.rfl, rfl, fun k => (if_neg List.not_mem_nil).symm⟩
  | @some b v henc =>
    obtain ⟨strings', hcombine, hget⟩ := henc.combine_delete
    have hframe : Represents config isQueue { db with strings := strings' } c ∧
        ∀ o k, Holds { db with strings := strings' } o k ↔ Holds db o k :=
      h.frame hchunk rfl
        (fun k hk => (hget k).trans (if_neg fun hin => hk (henc.isChunkKey hin)))
        (fun o k hk => (hget k).trans (if_neg fun hin => hfree k hin o hk))
    exact ⟨_, hcombine, hframe.1, hframe.2, rfl, hget⟩

/-- `get` with `delete`. -/
theorem Represents.get_delete (h : Represents config isQueue db c)
    (hchunk : ∀ key, isQueue key → ¬ IsChunkKey key) (hkey : ¬ isQueue key)
    (hname : ¬ IsChunkKey key) :
    ∃ db', RedisOp.run config db (.get key true) =
        some (db', some ((c.values key).getD config.pyNone)) ∧
      Represents config isQueue db' { c with values := Function.update c.values key none } ∧
      ChunksFreed db db' (.value key) ∧ db'.lists = db.lists ∧
      ∀ k, db'.strings.get? k =
        if k = key ∨ k ∈ chunksOf (db.strings.get? key) then none else db.strings.get? k := by
  have hlist := h.not_mem_lists hkey
  have hset := valueSet_delete hlist
  have hrep := h.setValue hset hkey hname .none
    (h.exclusive.mono fun o k hk => (hset.holds_none.mp hk).2)
  have hv := h.rel_values hset hkey hname
  have hfree : ∀ k ∈ chunksOf (db.strings.get? key), ∀ o, ¬ Holds (db.delete key) o k := by
    intro k hk o ho
    obtain ⟨hne, ho⟩ := hset.holds_none.mp ho
    exact hne (h.exclusive _ _ k ho ((holds_value_iff hname).mpr hk))
  obtain ⟨db', hcombine, hrep', hholds, hlists, hget⟩ := hrep.combine hchunk hv hfree
  have hgone : ∀ k, db'.strings.get? k =
      if k = key ∨ k ∈ chunksOf (db.strings.get? key) then none else db.strings.get? k := by
    intro k
    rw [hget k]
    by_cases hk : k ∈ chunksOf (db.strings.get? key)
    · rw [if_pos hk, if_pos (.inr hk)]
    · rw [if_neg hk]
      rcases eq_or_ne k key with rfl | hne
      · rw [if_pos (.inl rfl), hset.self]
      · rw [if_neg (not_or.mpr ⟨hne, hk⟩), hset.others k hne]
  refine ⟨db', ?_, hrep', ⟨fun o k ho hk => ?_, fun k hk hin => ?_⟩, hlists.trans hset.lists, hgone⟩
  · rw [RedisOp.run, RedisDb.getString, if_neg hlist]
    exact congrArg some hcombine
  · exact ⟨o, (hholds o k).mpr (hset.holds_none.mpr ⟨ho, hk⟩)⟩
  · obtain ⟨b, hb⟩ := Dict.mem_iff.mp hin
    rw [hgone k] at hb
    split at hb
    · cases hb
    · next hnot =>
      exact ⟨Dict.mem_of_get? hb, fun hk => hnot (.inr ((holds_value_iff hname).mp hk))⟩

/-- `get` without `delete`. -/
theorem Represents.get_keep (h : Represents config isQueue db c) (hkey : ¬ isQueue key)
    (hname : ¬ IsChunkKey key) :
    RedisOp.run config db (.get key false) =
      some (db, some ((c.values key).getD config.pyNone)) := by
  have hrel := h.values key hkey hname
  rw [RedisOp.run, RedisDb.getString, if_neg (h.not_mem_lists hkey)]
  refine congrArg some ?_
  show db.combineIfSplit config false (db.strings.get? key) = _
  generalize db.strings.get? key = b at hrel ⊢
  generalize c.values key = v at hrel ⊢
  cases hrel with
  | none => rfl
  | some henc => exact henc.combine_keep

/-- `queue_get`. -/
theorem Represents.queueGet_ok (h : Represents config isQueue db c)
    (hchunk : ∀ key, isQueue key → ¬ IsChunkKey key) (hkey : isQueue key) :
    ∃ db', RedisOp.run config db (.queueGet key) =
        some (db', some ((c.queues key).head?.getD config.pyNone)) ∧
      Represents config isQueue db'
        { c with queues := Function.update c.queues key (c.queues key).tail } ∧
      ChunksFreed db db' (.item key 0) := by
  obtain ⟨db₁, hpop, hset⟩ := lpop_ok (h.not_mem_strings hkey)
  obtain ⟨hhead, htail⟩ := rel_head_tail (h.queues key hkey)
  have hrep := h.setQueue hset hkey htail
    (h.exclusive.comap (Owner.next_injective key) fun _ _ => hset.holds_pop.mp)
  have hfree : ∀ k ∈ chunksOf (db.lists.getD key []).head?, ∀ o, ¬ Holds db₁ o k := by
    intro k hk o ho
    exact Owner.next_ne_first key o (h.exclusive _ _ k (hset.holds_pop.mp ho) (holds_first.mpr hk))
  have hv : Option.Rel (Encodes config db₁.strings) (db.lists.getD key []).head?
      (c.queues key).head? := by
    rw [hset.strings]
    exact hhead
  obtain ⟨db', hcombine, hrep', hholds, -, hget⟩ := hrep.combine hchunk hv hfree
  refine ⟨db', ?_, hrep', fun o k ho hk => ?_, fun k _ hin => ?_⟩
  · rw [RedisOp.run, hpop]
    exact congrArg some hcombine
  · obtain ⟨o', rfl⟩ := Owner.next_surjective ho
    exact ⟨o', (hholds o' k).mpr (hset.holds_pop.mpr hk)⟩
  · obtain ⟨b, hb⟩ := Dict.mem_iff.mp hin
    rw [hget k] at hb
    split at hb
    · cases hb
    · next hnot =>
      rw [hset.strings] at hb
      exact ⟨Dict.mem_of_get? hb, fun hk => hnot (holds_first.mp hk)⟩

end Operations

end FactCore
