import FactCore.Lib.Dict

/-!
# The Redis store

`src/src/storage/redis_interface.py`. A value is stored as its pickle. A pickle that
is too large for Redis is split into chunks under keys of their own, and what is
stored is a meta key that names them. Reading a value deletes it together with its
chunks.

Pickling is a parameter, with what is used of it as fields: it can be undone, and no
pickle looks like a meta key.

Results:
1. `splitMetaKey_metaKey`, `flatten_splitIntoChunks`: names and chunks can be put
   together again.
2. `get_of_storedUnder`: a stored value is read, and nothing of it is left.
-/

namespace FactCore

/-! ## 1. Values and chunks -/

/-- The bytes of a value, each as the character with its number. -/
abbrev Bytes := List Char

/-- The values in Redis by their keys. -/
abbrev Redis := Dict String Bytes

/-- `CHUNK_MAGIC`. -/
def chunkMagic : Bytes := "$CHUNKED$".toList

/-- The Python values that are sent, with `pickle` and their truth value, and the size of a
chunk. -/
structure RedisConfig (V : Type) where
  dumps : V → Bytes
  /-- `none` where `loads` raises an exception. -/
  loads : Bytes → Option V
  /-- Python's `None`. -/
  pyNone : V
  truthy : V → Bool
  chunkSize : Nat
  loads_dumps : ∀ v, loads (dumps v) = some v
  /-- A pickle begins with the opcode of its protocol. -/
  dumps_notMagic : ∀ v, ¬ chunkMagic <+: dumps v
  pyNone_falsy : truthy pyNone = false
  chunkSize_pos : 0 < chunkSize

/-- The keys of `_get_new_chunk_key`. -/
def chunkKey (n : Nat) : String := "chunk_" ++ n.repr

/-- The chunks of `_store_chunks`. -/
def splitIntoChunks (chunkSize : Nat) (value : Bytes) : List Bytes :=
  (List.range ((value.length + chunkSize - 1) / chunkSize)).map fun index =>
    (value.drop (chunkSize * index)).take chunkSize

/-- The meta key of `_store_chunks`. -/
def metaKey (keys : List String) : Bytes :=
  keys.foldl (fun joined key => joined ++ '#' :: key.toList) chunkMagic

/-- `meta_key.split(SEPARATOR)[1:]`. -/
def splitMetaKey (value : Bytes) : List String := ((value.splitOn '#').drop 1).map String.ofList

/-- `_redis_pop`: both commands are one transaction. -/
def Redis.pop (redis : Redis) (key : String) : Redis × Option Bytes :=
  (redis.erase key, redis.get? key)

/-- `_combine_chunks` with `delete`; `none` where a chunk is missing, so that joining them raises an
exception. -/
def Redis.combineChunks (redis : Redis) : List String → Redis × Option Bytes
  | [] => (redis, some [])
  | key :: keys =>
    let popped := redis.pop key
    let combined := Redis.combineChunks popped.1 keys
    (combined.1, do
      let chunk ← popped.2
      let rest ← combined.2
      return chunk ++ rest)

/-- `_combine_if_split` with `delete`. -/
def Redis.combineIfSplit {V : Type} (config : RedisConfig V) (redis : Redis) :
    Option Bytes → Redis × Option V
  | none => (redis, some config.pyNone)
  | some value =>
    if chunkMagic <+: value then
      let combined := redis.combineChunks (splitMetaKey value)
      (combined.1, combined.2.bind config.loads)
    else (redis, config.loads value)

/-- `RedisInterface.get` with `delete`: the value, `none` for an exception. -/
def Redis.popValue {V : Type} (config : RedisConfig V) (redis : Redis) (key : String) :
    Redis × Option V :=
  let popped := redis.pop key
  popped.1.combineIfSplit config popped.2

/-- The value is stored under the key, in one piece or in chunks under the keys of the list. -/
inductive StoredUnder {V : Type} (config : RedisConfig V) (redis : Redis) (key : String) (v : V) :
    List String → Prop
  | whole : redis.get? key = some (config.dumps v) → StoredUnder config redis key v []
  | chunks {keys : List String} {chunks : List Bytes} : redis.get? key = some (metaKey keys) →
      List.Forall₂ (fun k chunk => redis.get? k = some chunk) keys chunks →
      chunks.flatten = config.dumps v → keys.Nodup → key ∉ keys →
      (∀ k ∈ keys, ∃ n, k = chunkKey n) → StoredUnder config redis key v keys

/-! ## 2. Names and chunks -/

theorem not_mem_chunkKey (n : Nat) : '#' ∉ (chunkKey n).toList := by
  unfold chunkKey
  rw [String.toList_append, Nat.toList_repr, List.mem_append, not_or]
  refine ⟨by decide, fun hmem => ?_⟩
  have hdigit := Nat.isDigit_of_mem_toDigits (by decide) (by decide) hmem
  revert hdigit
  decide

theorem metaKey_eq (keys : List String) :
    metaKey keys = ['#'].intercalate (chunkMagic :: keys.map String.toList) := by
  unfold metaKey
  generalize chunkMagic = first
  induction keys generalizing first with
  | nil => simp
  | cons key keys ih =>
    rw [List.foldl_cons, ih, List.map_cons, List.intercalate_cons_cons]
    cases keys with
    | nil => simp
    | cons key' keys => simp [List.intercalate_cons_cons]

/-- The names of the chunks are read from the meta key. -/
theorem splitMetaKey_metaKey {keys : List String} (h : ∀ k ∈ keys, ∃ n, k = chunkKey n) :
    splitMetaKey (metaKey keys) = keys := by
  unfold splitMetaKey
  rw [metaKey_eq, List.splitOn_intercalate _ _ (List.cons_ne_nil _ _), List.drop_one,
    List.tail_cons, List.map_map]
  · exact (List.map_congr_left fun k _ => String.ofList_toList).trans (List.map_id _)
  · intro l hl
    rcases List.mem_cons.mp hl with rfl | hl
    · decide
    · obtain ⟨k, hk, rfl⟩ := List.mem_map.mp hl
      obtain ⟨n, rfl⟩ := h k hk
      exact not_mem_chunkKey n

theorem magic_metaKey (keys : List String) : chunkMagic <+: metaKey keys := by
  rw [metaKey_eq]
  cases keys with
  | nil => simp
  | cons key keys =>
    rw [List.map_cons, List.intercalate_cons_cons]
    simp

theorem flatten_take_chunks (size : Nat) (value : Bytes) (n : Nat) :
    ((List.range n).map fun index => (value.drop (size * index)).take size).flatten =
      value.take (size * n) := by
  induction n with
  | zero => simp
  | succ n ih =>
    rw [List.range_succ, List.map_append, List.flatten_append, ih, Nat.mul_succ, List.take_add]
    simp

/-- The chunks of a value together are the value. -/
theorem flatten_splitIntoChunks {size : Nat} (hsize : 0 < size) (value : Bytes) :
    (splitIntoChunks size value).flatten = value := by
  unfold splitIntoChunks
  rw [flatten_take_chunks, List.take_of_length_le]
  -- the number of chunks is rounded up
  have hdiv := Nat.div_add_mod (value.length + size - 1) size
  have hmod := Nat.mod_lt (value.length + size - 1) hsize
  omega

/-! ## 3. Reading a value -/

section Reading
variable {V : Type} {config : RedisConfig V} {redis : Redis} {key : String} {v : V}
  {keys : List String}

/-- The chunks are the same in a store that agrees on their keys. -/
theorem chunks_congr {redis' : Redis} {chunks : List Bytes}
    (h : List.Forall₂ (fun k chunk => redis.get? k = some chunk) keys chunks)
    (hsame : ∀ k ∈ keys, redis'.get? k = redis.get? k) :
    List.Forall₂ (fun k chunk => redis'.get? k = some chunk) keys chunks := by
  induction h with
  | nil => exact .nil
  | cons hkey _ ih =>
    exact .cons ((hsame _ List.mem_cons_self).trans hkey)
      (ih fun k hk => hsame k (List.mem_cons_of_mem _ hk))

theorem StoredUnder.mem (h : StoredUnder config redis key v keys) : key ∈ redis := by
  cases h with
  | whole hwhole => exact Dict.mem_of_get? hwhole
  | chunks hmeta => exact Dict.mem_of_get? hmeta

theorem StoredUnder.congr {redis' : Redis} (h : StoredUnder config redis key v keys)
    (hkey : redis'.get? key = redis.get? key) (hsame : ∀ k ∈ keys, redis'.get? k = redis.get? k) :
    StoredUnder config redis' key v keys := by
  cases h with
  | whole hwhole => exact .whole (hkey.trans hwhole)
  | chunks hmeta hchunks hjoined hn hnot hnames =>
    exact .chunks (hkey.trans hmeta) (chunks_congr hchunks hsame) hjoined hn hnot hnames

/-- Reading the chunks deletes them. -/
theorem combineChunks_of_stored {chunks : List Bytes} (hn : keys.Nodup)
    (h : List.Forall₂ (fun k chunk => redis.get? k = some chunk) keys chunks) :
    (redis.combineChunks keys).2 = some chunks.flatten ∧
      ∀ k, (redis.combineChunks keys).1.get? k = if k ∈ keys then none else redis.get? k := by
  induction keys generalizing redis chunks with
  | nil =>
    cases h
    exact ⟨rfl, fun k => (if_neg List.not_mem_nil).symm⟩
  | cons key keys ih =>
    cases h with
    | @cons _ chunk _ chunks hkey hrest =>
      obtain ⟨hnot, hn⟩ := List.nodup_cons.mp hn
      -- the other chunks are still there once the first one is deleted
      have hkept : List.Forall₂ (fun k chunk => (redis.erase key).get? k = some chunk) keys
          chunks := by
        refine chunks_congr hrest fun k hk => ?_
        have hne : k ≠ key := fun heq => hnot (heq ▸ hk)
        rw [Dict.get?_erase, if_neg hne]
      obtain ⟨hjoined, hgone⟩ := ih hn hkept
      constructor
      · simp only [Redis.combineChunks, Redis.pop, hkey, hjoined]
        rfl
      · intro k
        show (Redis.combineChunks (redis.erase key) keys).1.get? k = _
        rw [hgone, Dict.get?_erase]
        by_cases hk : k = key <;> by_cases hk' : k ∈ keys <;> simp [hk, hk']

/-- A stored value is read, and afterwards its key and its chunks are gone. -/
theorem popValue_of_storedUnder (h : StoredUnder config redis key v keys) :
    (redis.popValue config key).2 = some v ∧
      ∀ k, (redis.popValue config key).1.get? k =
        if k = key ∨ k ∈ keys then none else redis.get? k := by
  cases h with
  | whole hkey =>
    unfold Redis.popValue Redis.pop
    simp only [hkey, Redis.combineIfSplit, if_neg (config.dumps_notMagic v), config.loads_dumps,
      Dict.get?_erase, List.not_mem_nil, or_false, implies_true, and_self]
  | @chunks _ chunks hkey hchunks hjoined hn hnot hnames =>
    have hkept : List.Forall₂ (fun k chunk => (redis.erase key).get? k = some chunk) keys
        chunks := by
      refine chunks_congr hchunks fun k hk => ?_
      have hne : k ≠ key := fun heq => hnot (heq ▸ hk)
      rw [Dict.get?_erase, if_neg hne]
    obtain ⟨hall, hgone⟩ := combineChunks_of_stored hn hkept
    unfold Redis.popValue Redis.pop
    simp only [hkey, Redis.combineIfSplit, if_pos (magic_metaKey keys),
      splitMetaKey_metaKey hnames, hall, hjoined, Option.bind_some, config.loads_dumps, true_and]
    intro k
    rw [hgone, Dict.get?_erase]
    by_cases hk : k = key <;> by_cases hk' : k ∈ keys <;> simp [hk, hk']

/-- Reading a key that is not there gives `None`. -/
theorem popValue_of_not_mem (h : key ∉ redis) :
    (redis.popValue config key).2 = some config.pyNone ∧
      ∀ k, (redis.popValue config key).1.get? k = redis.get? k := by
  have hnone := Dict.get?_eq_none_iff.mpr h
  unfold Redis.popValue Redis.pop
  simp only [hnone, Redis.combineIfSplit, true_and]
  intro k
  rw [Dict.get?_erase]
  split
  · next heq => rw [heq, hnone]
  · rfl

end Reading

end FactCore
