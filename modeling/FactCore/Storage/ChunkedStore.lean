import FactCore.Storage.RedisInterface

/-!
# The chunked store

`RedisInterface` of `src/src/storage/redis_interface.py`, used by one client: values
under keys and values in queues, each stored as its pickle or as a meta key that names
its chunks. The keys of chunks are drawn at random until one is free; the draws are an
argument, and an operation gives `none` where they are used up before it is done.

What the store is for is `StoreContent`: a value under each key, and a list of values
for each queue.

Results:
1. `StoreContent.values_runAll`, `StoreContent.fifo_runAll`: what the content means.
2. `splitIfNecessary_ok`: storing a value in chunks.
3. `Encodes.combine_delete`, `Encodes.combine_keep`: reading it.
-/

namespace FactCore

/-! ## 1. Commands of Redis -/

/-- The Redis database: what is stored under the keys that hold strings, and under those that hold
lists. No key holds both. -/
structure RedisDb where
  strings : Redis
  lists : Dict String (List Bytes)

namespace RedisDb

/-- `exists`. -/
def exists? (db : RedisDb) (key : String) : Bool := decide (key ∈ db.strings ∨ key ∈ db.lists)

/-- `set`, whatever the key held. -/
def setString (db : RedisDb) (key : String) (value : Bytes) : RedisDb where
  strings := db.strings.set key value
  lists := db.lists.erase key

/-- `get`; `none` where the key holds a list, so that an exception is raised. -/
def getString (db : RedisDb) (key : String) : Option (Option Bytes) :=
  if key ∈ db.lists then none else some (db.strings.get? key)

/-- `delete`. -/
def delete (db : RedisDb) (key : String) : RedisDb where
  strings := db.strings.erase key
  lists := db.lists.erase key

/-- `rpush`; `none` where the key holds a string. -/
def rpush (db : RedisDb) (key : String) (item : Bytes) : Option RedisDb :=
  if key ∈ db.strings then none
  else some { db with lists := db.lists.set key (db.lists.getD key [] ++ [item]) }

/-- `lpop`; `none` where the key holds a string. A list that is empty is removed. -/
def lpop (db : RedisDb) (key : String) : Option (RedisDb × Option Bytes) :=
  if key ∈ db.strings then none
  else match db.lists.getD key [] with
    | [] => some (db, none)
    | [item] => some ({ db with lists := db.lists.erase key }, some item)
    | item :: items => some ({ db with lists := db.lists.set key items }, some item)

/-! ## 2. The interface -/

/-- `_get_new_chunk_key`, for the numbers that `randint` gives; with the numbers that are left. -/
def getNewChunkKey (db : RedisDb) : List (Fin 10000) → Option (String × List (Fin 10000))
  | [] => none
  | n :: draws =>
    if db.exists? (chunkKey n) then db.getNewChunkKey draws else some (chunkKey n, draws)

/-- The loop of `_store_chunks`: the meta key so far and the chunks that remain. -/
def storeChunks : RedisDb → List (Fin 10000) → Bytes → List Bytes → Option (RedisDb × Bytes)
  | db, _, metaKey, [] => some (db, metaKey)
  | db, draws, metaKey, chunk :: chunks =>
    (db.getNewChunkKey draws).bind fun r =>
      storeChunks (db.setString r.1 chunk) r.2 (metaKey ++ '#' :: r.1.toList) chunks

variable {V : Type}

/-- `_split_if_necessary` on the pickle of a value. -/
def splitIfNecessary (config : RedisConfig V) (db : RedisDb) (draws : List (Fin 10000))
    (value : Bytes) : Option (RedisDb × Bytes) :=
  if config.chunkSize < value.length then
    db.storeChunks draws chunkMagic (splitIntoChunks config.chunkSize value)
  else some (db, value)

/-- `_combine_chunks` without `delete`; `none` where a chunk is missing. -/
def readChunks (db : RedisDb) (keys : List String) : Option Bytes :=
  (keys.mapM db.strings.get?).map List.flatten

/-- `_combine_if_split`: the value, `none` for an exception. The key of a chunk holds a string. -/
def combineIfSplit (config : RedisConfig V) (db : RedisDb) (delete : Bool) :
    Option Bytes → RedisDb × Option V
  | none => (db, some config.pyNone)
  | some value =>
    if chunkMagic <+: value then
      if delete then
        let combined := db.strings.combineChunks (splitMetaKey value)
        ({ db with strings := combined.1 }, combined.2.bind config.loads)
      else (db, (db.readChunks (splitMetaKey value)).bind config.loads)
    else (db, config.loads value)

end RedisDb

/-- An operation of the interface, with the numbers that are drawn during it. -/
inductive RedisOp (V : Type)
  | set (key : String) (value : V) (draws : List (Fin 10000))
  | get (key : String) (delete : Bool)
  | queuePut (key : String) (value : V) (draws : List (Fin 10000))
  | queueGet (key : String)

/-- `set`, `get`, `queue_put` and `queue_get`: the database afterwards and the value that is
returned, `none` for an exception. The outer `none` means that the draws were used up. -/
def RedisOp.run {V : Type} (config : RedisConfig V) (db : RedisDb) :
    RedisOp V → Option (RedisDb × Option V)
  | .set key value draws =>
    (db.splitIfNecessary config draws (config.dumps value)).map fun r =>
      (r.1.setString key r.2, some config.pyNone)
  | .get key delete =>
    let db' := if delete then db.delete key else db
    some ((db.getString key).elim (db', none) fun value => db'.combineIfSplit config delete value)
  | .queuePut key value draws =>
    (db.splitIfNecessary config draws (config.dumps value)).map fun r =>
      (r.1.rpush key r.2).elim (r.1, none) fun db' => (db', some config.pyNone)
  | .queueGet key =>
    some ((db.lpop key).elim (db, none) fun r => r.1.combineIfSplit config true r.2)

/-- A run of operations, with what each of them returned. -/
def RedisOp.runAll {V : Type} (config : RedisConfig V) :
    RedisDb → List (RedisOp V) → Option (RedisDb × List (Option V))
  | db, [] => some (db, [])
  | db, op :: ops =>
    (op.run config db).bind fun r =>
      (RedisOp.runAll config r.1 ops).map fun rest => (rest.1, r.2 :: rest.2)

/-! ## 3. What the store is for -/

/-- The values under the keys and in the queues. -/
structure StoreContent (V : Type) where
  values : String → Option V
  queues : String → List V

namespace StoreContent
variable {V : Type}

/-- What an operation does to the content, and the value it returns. -/
def run (pyNone : V) (c : StoreContent V) : RedisOp V → StoreContent V × V
  | .set key value _ => ({ c with values := Function.update c.values key (some value) }, pyNone)
  | .get key true =>
    ({ c with values := Function.update c.values key none }, (c.values key).getD pyNone)
  | .get key false => (c, (c.values key).getD pyNone)
  | .queuePut key value _ =>
    ({ c with queues := Function.update c.queues key (c.queues key ++ [value]) }, pyNone)
  | .queueGet key =>
    ({ c with queues := Function.update c.queues key (c.queues key).tail },
      (c.queues key).head?.getD pyNone)

/-- The content and the returned values of a run. -/
def runAll (pyNone : V) : StoreContent V → List (RedisOp V) → StoreContent V × List V
  | c, [] => (c, [])
  | c, op :: ops =>
    let r := c.run pyNone op
    let rest := r.1.runAll pyNone ops
    (rest.1, r.2 :: rest.2)

variable (pyNone : V) (key : String) (c : StoreContent V)

/-- What an operation takes from the queue. -/
def taken : RedisOp V → List V
  | .queueGet k => if k = key then (c.queues key).head?.toList else []
  | _ => []

/-- What the operations of a run take from the queue, in this order. -/
def takenAll : StoreContent V → List (RedisOp V) → List V
  | _, [] => []
  | c, op :: ops => c.taken key op ++ takenAll (c.run pyNone op).1 ops

end StoreContent

namespace RedisOp
variable {V : Type} (key : String)

/-- What an operation puts into the queue. -/
def put : RedisOp V → List V
  | .queuePut k v _ => if k = key then [v] else []
  | _ => []

/-- The value under the key after an operation, for the one before it. -/
def held (before : Option V) : RedisOp V → Option V
  | .set k v _ => if k = key then some v else before
  | .get k true => if k = key then none else before
  | _ => before

/-- The value of the last `set` of the key since it was last read with `delete`. -/
def lastSet (before : Option V) (ops : List (RedisOp V)) : Option V := ops.foldl (held key) before

end RedisOp

namespace StoreContent
variable {V : Type} (pyNone : V) (key : String) (c : StoreContent V)

theorem values_run (op : RedisOp V) : (c.run pyNone op).1.values key = op.held key (c.values key) := by
  have hupdate : ∀ k v, Function.update c.values k v key = if k = key then v else c.values key := by
    intro k v
    rw [Function.update_apply]
    exact if_congr eq_comm rfl rfl
  rcases op with ⟨k, v, _⟩ | ⟨k, _ | _⟩ | _ | _
  · exact hupdate k (some v)
  · rfl
  · exact hupdate k none
  · rfl
  · rfl

/-- A key holds the value of the last `set`, whatever came in between. -/
theorem values_runAll (ops : List (RedisOp V)) :
    (c.runAll pyNone ops).1.values key = RedisOp.lastSet key (c.values key) ops := by
  induction ops generalizing c with
  | nil => rfl
  | cons op ops ih =>
    rw [RedisOp.lastSet, List.foldl_cons, ← values_run pyNone]
    exact ih _

theorem fifo_run (op : RedisOp V) :
    c.queues key ++ op.put key = c.taken key op ++ (c.run pyNone op).1.queues key := by
  rcases op with ⟨k, v, _⟩ | ⟨k, _ | _⟩ | ⟨k, v, _⟩ | k
  · exact List.append_nil _
  · exact List.append_nil _
  · exact List.append_nil _
  · show _ = Function.update c.queues k (c.queues k ++ [v]) key
    rcases eq_or_ne key k with rfl | hne
    · rw [Function.update_self, RedisOp.put, if_pos rfl]
    · rw [Function.update_of_ne hne, RedisOp.put, if_neg hne.symm, List.append_nil]
  · show _ = _ ++ Function.update c.queues k (c.queues k).tail key
    rcases eq_or_ne key k with rfl | hne
    · rw [Function.update_self, taken, if_pos rfl]
      cases hqueue : c.queues key with
      | nil => rfl
      | cons v vs => exact List.append_nil _
    · rw [Function.update_of_ne hne, taken, if_neg hne.symm]
      exact List.append_nil _

/-- What was put into a queue is taken from it in this order, each value once. -/
theorem fifo_runAll (ops : List (RedisOp V)) :
    c.queues key ++ ops.flatMap (RedisOp.put key) =
      takenAll pyNone key c ops ++ (c.runAll pyNone ops).1.queues key := by
  induction ops generalizing c with
  | nil => exact List.append_nil _
  | cons op ops ih =>
    calc c.queues key ++ (op.put key ++ ops.flatMap (RedisOp.put key))
        = (c.taken key op ++ (c.run pyNone op).1.queues key) ++ ops.flatMap (RedisOp.put key) := by
          rw [← fifo_run, List.append_assoc]
      _ = c.taken key op ++ (takenAll pyNone key (c.run pyNone op).1 ops ++
            ((c.run pyNone op).1.runAll pyNone ops).1.queues key) := by
          rw [List.append_assoc, ih]
      _ = _ := (List.append_assoc _ _ _).symm

end StoreContent

/-! ## 4. Encoded values -/

/-- One of the keys that `_get_new_chunk_key` draws. -/
def IsChunkKey (key : String) : Prop := ∃ n : Fin 10000, key = chunkKey n

/-- The keys of chunks that a stored value names. -/
def references (value : Bytes) : List String :=
  if chunkMagic <+: value then splitMetaKey value else []

/-- The bytes stand for a value, in one piece or through its chunks. -/
inductive Encodes {V : Type} (config : RedisConfig V) (strings : Redis) : Bytes → V → Prop
  | whole (v : V) : Encodes config strings (config.dumps v) v
  | chunks {keys : List String} {chunks : List Bytes} {v : V} :
      List.Forall₂ (fun k chunk => strings.get? k = some chunk) keys chunks →
      chunks.flatten = config.dumps v → keys.Nodup → (∀ k ∈ keys, IsChunkKey k) →
      Encodes config strings (metaKey keys) v

section Encoding
variable {V : Type} {config : RedisConfig V} {strings strings' : Redis} {b : Bytes} {v : V}
  {keys : List String}

theorem references_dumps (v : V) : references (config.dumps v) = [] :=
  if_neg (config.dumps_notMagic v)

theorem references_metaKey (h : ∀ k ∈ keys, IsChunkKey k) : references (metaKey keys) = keys := by
  rw [references, if_pos (magic_metaKey keys)]
  refine splitMetaKey_metaKey fun k hk => ?_
  obtain ⟨n, rfl⟩ := h k hk
  exact ⟨n, rfl⟩

theorem Encodes.references_nodup (h : Encodes config strings b v) : (references b).Nodup := by
  cases h with
  | whole => rw [references_dumps]; exact List.nodup_nil
  | chunks _ _ hn hnames => rwa [references_metaKey hnames]

theorem Encodes.isChunkKey (h : Encodes config strings b v) {k : String} (hk : k ∈ references b) :
    IsChunkKey k := by
  cases h with
  | whole => rw [references_dumps] at hk; cases hk
  | chunks _ _ _ hnames => exact hnames k (references_metaKey hnames ▸ hk)

theorem mem_of_forall₂_get? {chunks : List Bytes}
    (h : List.Forall₂ (fun k chunk => strings.get? k = some chunk) keys chunks) {k : String}
    (hk : k ∈ keys) : k ∈ strings := by
  induction h with
  | nil => cases hk
  | cons hkey _ ih =>
    rcases List.mem_cons.mp hk with rfl | hk
    · exact Dict.mem_of_get? hkey
    · exact ih hk

/-- The chunks that are named are there. -/
theorem Encodes.mem (h : Encodes config strings b v) {k : String} (hk : k ∈ references b) :
    k ∈ strings := by
  cases h with
  | whole => rw [references_dumps] at hk; cases hk
  | chunks hchunks _ _ hnames =>
    rw [references_metaKey hnames] at hk
    exact mem_of_forall₂_get? hchunks hk

theorem Encodes.congr (h : Encodes config strings b v)
    (hsame : ∀ k ∈ references b, strings'.get? k = strings.get? k) : Encodes config strings' b v := by
  cases h with
  | whole => exact .whole v
  | chunks hchunks hjoined hn hnames =>
    rw [references_metaKey hnames] at hsame
    exact .chunks (chunks_congr hchunks hsame) hjoined hn hnames

/-- Reading with `delete` gives the value and deletes its chunks. -/
theorem Encodes.combine_delete {db : RedisDb} (h : Encodes config db.strings b v) :
    ∃ strings', db.combineIfSplit config true (some b) = ({ db with strings := strings' }, some v) ∧
      ∀ k, strings'.get? k = if k ∈ references b then none else db.strings.get? k := by
  cases h with
  | whole =>
    refine ⟨db.strings, ?_, fun k => ?_⟩
    · simp only [RedisDb.combineIfSplit, if_neg (config.dumps_notMagic v), config.loads_dumps]
    · rw [references_dumps, if_neg List.not_mem_nil]
  | @chunks keys chunks _ hchunks hjoined hn hnames =>
    have hrefs := references_metaKey hnames
    obtain ⟨hall, hgone⟩ := combineChunks_of_stored hn hchunks
    have hnames' : splitMetaKey (metaKey keys) = keys := by
      rw [references, if_pos (magic_metaKey keys)] at hrefs
      exact hrefs
    refine ⟨(db.strings.combineChunks keys).1, ?_, fun k => ?_⟩
    · simp only [RedisDb.combineIfSplit, if_pos (magic_metaKey keys), hnames', hall, hjoined,
        Option.bind_some, config.loads_dumps, if_true]
    · rw [hrefs]
      exact hgone k

theorem mapM_get?_of_forall₂ {chunks : List Bytes}
    (h : List.Forall₂ (fun k chunk => strings.get? k = some chunk) keys chunks) :
    keys.mapM strings.get? = some chunks := by
  induction h with
  | nil => rfl
  | cons hkey _ ih =>
    rw [List.mapM_cons, hkey, ih]
    rfl

/-- Reading without `delete` gives the value and changes nothing. -/
theorem Encodes.combine_keep {db : RedisDb} (h : Encodes config db.strings b v) :
    db.combineIfSplit config false (some b) = (db, some v) := by
  cases h with
  | whole =>
    simp only [RedisDb.combineIfSplit, if_neg (config.dumps_notMagic v), config.loads_dumps]
  | @chunks keys chunks _ hchunks hjoined hn hnames =>
    have hrefs := references_metaKey hnames
    rw [references, if_pos (magic_metaKey keys)] at hrefs
    simp only [RedisDb.combineIfSplit, if_pos (magic_metaKey keys), hrefs, RedisDb.readChunks,
      mapM_get?_of_forall₂ hchunks, Option.map_some, hjoined, Option.bind_some, config.loads_dumps,
      Bool.false_eq_true, if_false]

end Encoding

/-! ## 5. Storing a value -/

section Storing
variable {V : Type} {config : RedisConfig V} {db db' : RedisDb} {draws draws' : List (Fin 10000)}

theorem getNewChunkKey_ok {key : String} (h : db.getNewChunkKey draws = some (key, draws')) :
    IsChunkKey key ∧ db.exists? key = false := by
  induction draws with
  | nil => cases h
  | cons n draws ih =>
    unfold RedisDb.getNewChunkKey at h
    split at h
    · exact ih h
    · next hfree =>
      obtain ⟨rfl, -⟩ := Prod.mk.inj (Option.some.inj h)
      exact ⟨⟨n, rfl⟩, Bool.eq_false_iff.mpr hfree⟩

theorem exists?_eq_false {key : String} :
    db.exists? key = false ↔ key ∉ db.strings ∧ key ∉ db.lists := by
  rw [RedisDb.exists?, decide_eq_false_iff_not, not_or]

/-- Writing to a key that does not exist changes no list. -/
theorem setString_of_free {key : String} (h : db.exists? key = false) (value : Bytes) :
    db.setString key value = { db with strings := db.strings.set key value } := by
  obtain ⟨-, hlist⟩ := exists?_eq_false.mp h
  rw [RedisDb.setString, Dict.erase_of_not_mem hlist]

/-- `db'` is `db` with chunks under new keys. -/
structure ChunksStored (db db' : RedisDb) (keys : List String) (chunks : List Bytes) : Prop where
  lists : db'.lists = db.lists
  stored : List.Forall₂ (fun k chunk => db'.strings.get? k = some chunk) keys chunks
  nodup : keys.Nodup
  names : ∀ k ∈ keys, IsChunkKey k
  fresh : ∀ k ∈ keys, k ∉ db.strings
  others : ∀ k, k ∉ keys → db'.strings.get? k = db.strings.get? k

theorem storeChunks_ok {chunks : List Bytes} {joined joined' : Bytes}
    (h : db.storeChunks draws joined chunks = some (db', joined')) :
    ∃ keys : List String,
      joined' = keys.foldl (fun joined key => joined ++ '#' :: key.toList) joined ∧
      ChunksStored db db' keys chunks := by
  induction chunks generalizing db draws joined with
  | nil =>
    obtain ⟨rfl, rfl⟩ := Prod.mk.inj (Option.some.inj h)
    exact ⟨[], rfl, rfl, .nil, List.nodup_nil, fun _ hk => absurd hk List.not_mem_nil,
      fun _ hk => absurd hk List.not_mem_nil, fun _ _ => rfl⟩
  | cons chunk chunks ih =>
    obtain ⟨⟨key, rest⟩, hkey, hrest⟩ := Option.bind_eq_some_iff.mp h
    obtain ⟨hname, hfree⟩ := getNewChunkKey_ok hkey
    rw [setString_of_free hfree] at hrest
    obtain ⟨keys, hjoined, hlists, hstored, hnodup, hnames, hfresh, hothers⟩ := ih hrest
    -- the key is taken now, so it is not drawn again
    have hnot : key ∉ keys := fun hin => hfresh key hin (Dict.mem_set.mpr (.inl rfl))
    refine ⟨key :: keys, hjoined, hlists, .cons ?_ hstored, List.nodup_cons.mpr ⟨hnot, hnodup⟩,
      List.forall_mem_cons.mpr ⟨hname, hnames⟩, List.forall_mem_cons.mpr
        ⟨(exists?_eq_false.mp hfree).1, fun k hk hin => hfresh k hk (Dict.mem_set.mpr (.inr hin))⟩,
      fun k hk => ?_⟩
    · rw [hothers key hnot]
      exact Dict.get?_set_self _ _ _
    · rw [List.mem_cons, not_or] at hk
      rw [hothers k hk.2]
      exact Dict.get?_set_of_ne _ hk.1

/-- What storing the pickle of a value leaves: chunks under keys that were free, and bytes that
stand for the value. -/
structure ValueStored (config : RedisConfig V) (db db' : RedisDb) (b : Bytes) (v : V) : Prop where
  encodes : Encodes config db'.strings b v
  lists : db'.lists = db.lists
  fresh : ∀ k ∈ references b, k ∉ db.strings
  others : ∀ k, k ∉ references b → db'.strings.get? k = db.strings.get? k

theorem splitIfNecessary_ok {v : V} {b : Bytes}
    (h : db.splitIfNecessary config draws (config.dumps v) = some (db', b)) :
    ValueStored config db db' b v := by
  unfold RedisDb.splitIfNecessary at h
  split at h
  · obtain ⟨keys, hjoined, hstored⟩ := storeChunks_ok h
    have hb : b = metaKey keys := hjoined
    have hrefs := references_metaKey hstored.names
    subst hb
    refine ⟨.chunks hstored.stored (flatten_splitIntoChunks config.chunkSize_pos _) hstored.nodup
      hstored.names, hstored.lists, ?_, ?_⟩
    · rw [hrefs]
      exact hstored.fresh
    · rw [hrefs]
      exact hstored.others
  · obtain ⟨rfl, rfl⟩ := Prod.mk.inj (Option.some.inj h)
    refine ⟨.whole v, rfl, ?_, fun _ _ => rfl⟩
    rw [references_dumps]
    exact fun _ hk => absurd hk List.not_mem_nil

end Storing

end FactCore
