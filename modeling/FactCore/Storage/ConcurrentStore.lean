import FactCore.Storage.ChunkOwnership

/-!
# Clients of the chunked store

Several clients use the Redis database at once. Between two of its commands a client
remembers what it has drawn, stored or read; the commands of the clients come in any
order. Looking for a free key and storing a chunk under it are two commands.

`SpecState` says what the clients should see: a value is put, and read, in one step.

Results:
1. `ClientSound.congr`, `ClientSound.mem`: what a client needs of the database.
-/

namespace FactCore

/-! ## 1. What a client does -/

/-- Where a value is put. -/
inductive Destination
  | value (key : String)
  | queue (key : String)

/-- A client between two commands. -/
inductive ClientState (V : Type)
  /-- The last operation returned a value, `none` for an exception. -/
  | done (out : Option V)
  /-- In `_get_new_chunk_key`, for a chunk. The keys in `meta_key` so far, and the chunks after this
  one. -/
  | drawing (dest : Destination) (keys : List String) (chunk : Bytes) (chunks : List Bytes)
  /-- Before the chunk is set under the key that was found. -/
  | storing (dest : Destination) (keys : List String) (key : String) (chunk : Bytes)
      (chunks : List Bytes)
  /-- Before the pickle or the meta key is put where it belongs. -/
  | putting (dest : Destination) (b : Bytes)
  /-- In `_combine_chunks`, before a chunk is read. The keys after this one, and what was read. -/
  | reading (delete : Bool) (key : String) (keys : List String) (chunks : List (Option Bytes))

/-- A call, or the next command of a call. -/
inductive ClientAction (V : Type)
  | put (dest : Destination) (value : V)
  | draw (n : Fin 10000)
  | setChunk
  | publish
  | get (key : String) (delete : Bool)
  | queueGet (key : String)
  | readChunk

section Clients
variable {V : Type}

/-- The next round of the loop of `_store_chunks`. -/
def storeNext (dest : Destination) (keys : List String) : List Bytes → ClientState V
  | [] => .putting dest (metaKey keys)
  | chunk :: chunks => .drawing dest keys chunk chunks

/-- The next round of the loop of `_combine_chunks`; a chunk that is missing cannot be joined. -/
def readNext (config : RedisConfig V) (delete : Bool) (chunks : List (Option Bytes)) :
    List String → ClientState V
  | [] => .done ((chunks.mapM id).bind fun chunks => config.loads chunks.flatten)
  | key :: keys => .reading delete key keys chunks

/-- `_combine_if_split`. -/
def combineNext (config : RedisConfig V) (delete : Bool) : Option Bytes → ClientState V
  | none => .done (some config.pyNone)
  | some value =>
    if chunkMagic <+: value then readNext config delete [] (splitMetaKey value)
    else .done (config.loads value)

/-- One step of a client. A command on a key of the wrong kind raises an exception. -/
def ClientState.step (config : RedisConfig V) (db : RedisDb) (x : ClientState V)
    (act : ClientAction V) : Option (RedisDb × ClientState V) :=
  match x, act with
  | .done _, .put dest value =>
    some (db, if config.chunkSize < (config.dumps value).length then
      storeNext dest [] (splitIntoChunks config.chunkSize (config.dumps value))
    else .putting dest (config.dumps value))
  | .drawing dest keys chunk chunks, .draw n =>
    some (db, if db.exists? (chunkKey n) then .drawing dest keys chunk chunks
      else .storing dest keys (chunkKey n) chunk chunks)
  | .storing dest keys key chunk chunks, .setChunk =>
    some (db.setString key chunk, storeNext dest (keys ++ [key]) chunks)
  | .putting (.value key) b, .publish => some (db.setString key b, .done (some config.pyNone))
  | .putting (.queue key) b, .publish =>
    some ((db.rpush key b).elim (db, .done none) fun db' => (db', .done (some config.pyNone)))
  | .done _, .get key delete =>
    let db' := if delete then db.delete key else db
    some ((db.getString key).elim (db', .done none) fun value =>
      (db', combineNext config delete value))
  | .done _, .queueGet key =>
    some ((db.lpop key).elim (db, .done none) fun r => (r.1, combineNext config true r.2))
  | .reading delete key keys chunks, .readChunk =>
    let db' := if delete then db.delete key else db
    some ((db.getString key).elim (db', .done none) fun chunk =>
      (db', readNext config delete (chunks ++ [chunk]) keys))
  | _, _ => none

/-- The database and its clients. -/
structure ClientsState (ι V : Type) where
  db : RedisDb
  clients : ι → ClientState V

/-- One step of one of the clients. -/
def ClientsState.step {ι : Type} [DecidableEq ι] (config : RedisConfig V) (s : ClientsState ι V)
    (e : ι × ClientAction V) : Option (ClientsState ι V) :=
  ((s.clients e.1).step config s.db e.2).map fun r => ⟨r.1, Function.update s.clients e.1 r.2⟩

/-- The empty database, before the first call. -/
def ClientsState.start {ι : Type} (config : RedisConfig V) : ClientsState ι V :=
  ⟨⟨∅, ∅⟩, fun _ => .done (some config.pyNone)⟩

/-! ## 2. What the clients should see -/

/-- A client puts a value, or its last operation returned one. -/
inductive SpecClient (V : Type)
  | done (out : V)
  | putting (dest : Destination) (value : V)

/-- The content of the store and the clients. -/
structure SpecState (ι V : Type) where
  content : StoreContent V
  clients : ι → SpecClient V

/-- The operation that puts the value. -/
def Destination.putOp (value : V) : Destination → RedisOp V
  | .value key => .set key value []
  | .queue key => .queuePut key value []

/-- A value is put, and a value is read, in one step. The other commands do nothing. -/
def SpecState.step {ι : Type} [DecidableEq ι] (pyNone : V) (a : SpecState ι V)
    (e : ι × ClientAction V) : Option (SpecState ι V) :=
  let perform (op : RedisOp V) : SpecState ι V :=
    ⟨(a.content.run pyNone op).1,
      Function.update a.clients e.1 (.done (a.content.run pyNone op).2)⟩
  match a.clients e.1, e.2 with
  | .done _, .put dest value =>
    some ⟨a.content, Function.update a.clients e.1 (.putting dest value)⟩
  | .putting dest value, .publish => some (perform (dest.putOp value))
  | .done _, .get key delete => some (perform (.get key delete))
  | .done _, .queueGet key => some (perform (.queueGet key))
  | .putting _ _, .draw _ => some a
  | .putting _ _, .setChunk => some a
  | .done _, .readChunk => some a
  | _, _ => none

/-- No values, before the first call. -/
def SpecState.start {ι : Type} (pyNone : V) : SpecState ι V :=
  ⟨⟨fun _ => none, fun _ => []⟩, fun _ => .done pyNone⟩

/-- The clients as a system. -/
def ClientsStep {ι : Type} [DecidableEq ι] (config : RedisConfig V) (s : ClientsState ι V)
    (e : ι × ClientAction V) (s' : ClientsState ι V) : Prop :=
  s.step config e = some s'

/-- The specification as a system. -/
def SpecStep {ι : Type} [DecidableEq ι] (pyNone : V) (a : SpecState ι V) (e : ι × ClientAction V)
    (a' : SpecState ι V) : Prop :=
  a.step pyNone e = some a'

end Clients

/-! ## 3. Clients and what they should see -/

/-- An application key of its kind. -/
def Destination.Legal (isQueue : String → Prop) : Destination → Prop
  | .value key => ¬ isQueue key ∧ ¬ IsChunkKey key
  | .queue key => isQueue key

/-- The call uses an application key of its kind. -/
def ClientAction.Legal {V : Type} (isQueue : String → Prop) : ClientAction V → Prop
  | .put dest _ => dest.Legal isQueue
  | .get key _ => ¬ isQueue key ∧ ¬ IsChunkKey key
  | .queueGet key => isQueue key
  | _ => True

/-- The chunks stand under the keys, which are different chunk keys. -/
structure ChunksAt (strings : Redis) (keys : List String) (chunks : List Bytes) : Prop where
  stored : List.Forall₂ (fun k chunk => strings.get? k = some chunk) keys chunks
  nodup : keys.Nodup
  names : ∀ k ∈ keys, IsChunkKey k

/-- The client is where it should be: what it has stored or read so far, together with what is
still to come, is the value. -/
inductive ClientSound {V : Type} (config : RedisConfig V) (isQueue : String → Prop)
    (strings : Redis) : ClientState V → SpecClient V → Prop
  | done (v : V) : ClientSound config isQueue strings (.done (some v)) (.done v)
  | drawing {dest : Destination} {keys : List String} {stored chunks : List Bytes} {chunk : Bytes}
      {v : V} : dest.Legal isQueue → ChunksAt strings keys stored →
      (stored ++ chunk :: chunks).flatten = config.dumps v →
      ClientSound config isQueue strings (.drawing dest keys chunk chunks) (.putting dest v)
  | storing {dest : Destination} {keys : List String} {stored chunks : List Bytes} {chunk : Bytes}
      {key : String} {v : V} : dest.Legal isQueue → ChunksAt strings keys stored → IsChunkKey key →
      key ∉ keys → (stored ++ chunk :: chunks).flatten = config.dumps v →
      ClientSound config isQueue strings (.storing dest keys key chunk chunks) (.putting dest v)
  | putting {dest : Destination} {b : Bytes} {v : V} : dest.Legal isQueue →
      Encodes config strings b v →
        ClientSound config isQueue strings (.putting dest b) (.putting dest v)
  | reading {delete : Bool} {key : String} {keys : List String} {read chunks : List Bytes} {v : V} :
      ChunksAt strings (key :: keys) chunks → (read ++ chunks).flatten = config.dumps v →
      ClientSound config isQueue strings (.reading delete key keys (read.map some)) (.done v)

/-- The chunks that the client needs. -/
def ClientState.names {V : Type} : ClientState V → List String
  | .done _ => []
  | .drawing _ keys _ _ => keys
  | .storing _ keys _ _ _ => keys
  | .putting _ b => references b
  | .reading _ key keys _ => key :: keys

/-- The chunk that the client sets or deletes with its next command. -/
def ClientState.touched {V : Type} : ClientState V → Option String
  | .storing _ _ key _ _ => some key
  | .reading true key _ _ => some key
  | _ => none

/-- The client reads a value that stays where it is. -/
def ClientState.Borrows {V : Type} : ClientState V → Prop
  | .reading false _ _ _ => True
  | _ => False

section Sound
variable {V : Type} {config : RedisConfig V} {isQueue : String → Prop} {strings strings' : Redis}
  {x : ClientState V} {y : SpecClient V} {keys : List String} {chunks : List Bytes} {key : String}
  {chunk : Bytes}

theorem ChunksAt.nil : ChunksAt strings [] [] :=
  ⟨.nil, List.nodup_nil, fun _ hk => absurd hk List.not_mem_nil⟩

theorem ChunksAt.congr (h : ChunksAt strings keys chunks)
    (hsame : ∀ k ∈ keys, strings'.get? k = strings.get? k) : ChunksAt strings' keys chunks :=
  ⟨chunks_congr h.stored hsame, h.nodup, h.names⟩

theorem ChunksAt.tail (h : ChunksAt strings (key :: keys) chunks) :
    ∃ chunk rest, chunks = chunk :: rest ∧ strings.get? key = some chunk ∧ key ∉ keys ∧
      IsChunkKey key ∧ ChunksAt strings keys rest := by
  obtain ⟨hstored, hnodup, hnames⟩ := h
  obtain ⟨hnot, hnodup⟩ := List.nodup_cons.mp hnodup
  obtain ⟨hname, hnames⟩ := List.forall_mem_cons.mp hnames
  cases hstored with
  | cons hkey hrest => exact ⟨_, _, rfl, hkey, hnot, hname, hrest, hnodup, hnames⟩

/-- Another chunk is stored. -/
theorem ChunksAt.concat (h : ChunksAt strings keys chunks) (hnot : key ∉ keys)
    (hname : IsChunkKey key) (hkey : strings'.get? key = some chunk)
    (hsame : ∀ k, k ≠ key → strings'.get? k = strings.get? k) :
    ChunksAt strings' (keys ++ [key]) (chunks ++ [chunk]) := by
  have hkept := h.congr fun k hk => hsame k fun heq => hnot (heq ▸ hk)
  refine ⟨List.rel_append hkept.stored (.cons hkey .nil), ?_, ?_⟩
  · exact List.nodup_append_comm.mpr (List.nodup_cons.mpr ⟨hnot, h.nodup⟩)
  · exact List.forall_mem_append.mpr ⟨h.names, List.forall_mem_singleton.mpr hname⟩

/-! What a sound client should see. -/

theorem ClientSound.of_done {out : Option V}
    (h : ClientSound config isQueue strings (.done out) y) : ∃ v, y = .done v ∧ out = some v := by
  cases h with
  | done v => exact ⟨v, rfl, rfl⟩

theorem ClientSound.of_drawing {dest : Destination}
    (h : ClientSound config isQueue strings (.drawing dest keys chunk chunks) y) :
    ∃ v stored, y = .putting dest v ∧ dest.Legal isQueue ∧ ChunksAt strings keys stored ∧
      (stored ++ chunk :: chunks).flatten = config.dumps v := by
  cases h with
  | drawing hdest hchunks hjoined => exact ⟨_, _, rfl, hdest, hchunks, hjoined⟩

theorem ClientSound.of_storing {dest : Destination}
    (h : ClientSound config isQueue strings (.storing dest keys key chunk chunks) y) :
    ∃ v stored, y = .putting dest v ∧ dest.Legal isQueue ∧ ChunksAt strings keys stored ∧
      IsChunkKey key ∧ key ∉ keys ∧ (stored ++ chunk :: chunks).flatten = config.dumps v := by
  cases h with
  | storing hdest hchunks hname hnot hjoined =>
    exact ⟨_, _, rfl, hdest, hchunks, hname, hnot, hjoined⟩

theorem ClientSound.of_putting {dest : Destination} {b : Bytes}
    (h : ClientSound config isQueue strings (.putting dest b) y) :
    ∃ v, y = .putting dest v ∧ dest.Legal isQueue ∧ Encodes config strings b v := by
  cases h with
  | putting hdest henc => exact ⟨_, rfl, hdest, henc⟩

theorem ClientSound.of_reading {delete : Bool} {read : List (Option Bytes)}
    (h : ClientSound config isQueue strings (.reading delete key keys read) y) :
    ∃ v done chunks, y = .done v ∧ read = done.map some ∧ ChunksAt strings (key :: keys) chunks ∧
      (done ++ chunks).flatten = config.dumps v := by
  cases h with
  | reading hchunks hjoined => exact ⟨_, _, _, rfl, rfl, hchunks, hjoined⟩

/-- Only the chunks that a client needs matter to it. -/
theorem ClientSound.congr (h : ClientSound config isQueue strings x y)
    (hsame : ∀ k ∈ x.names, strings'.get? k = strings.get? k) :
    ClientSound config isQueue strings' x y := by
  cases h with
  | done v => exact .done v
  | drawing hdest hchunks hjoined => exact .drawing hdest (hchunks.congr hsame) hjoined
  | storing hdest hchunks hname hnot hjoined =>
    exact .storing hdest (hchunks.congr hsame) hname hnot hjoined
  | putting hdest henc => exact .putting hdest (henc.congr hsame)
  | reading hchunks hjoined => exact .reading (hchunks.congr hsame) hjoined

/-- What a client needs is there. -/
theorem ClientSound.mem (h : ClientSound config isQueue strings x y) {k : String}
    (hk : k ∈ x.names) : k ∈ strings ∧ IsChunkKey k := by
  cases h with
  | done v => cases hk
  | drawing _ hchunks _ => exact ⟨mem_of_forall₂_get? hchunks.stored hk, hchunks.names k hk⟩
  | storing _ hchunks _ _ _ => exact ⟨mem_of_forall₂_get? hchunks.stored hk, hchunks.names k hk⟩
  | putting _ henc => exact ⟨henc.mem hk, henc.isChunkKey hk⟩
  | reading hchunks _ => exact ⟨mem_of_forall₂_get? hchunks.stored hk, hchunks.names k hk⟩

/-- The loop of `_store_chunks` goes on with the chunks that remain. -/
theorem storeNext_sound {dest : Destination} {stored : List Bytes} {v : V}
    (hdest : dest.Legal isQueue) (hchunks : ChunksAt strings keys stored)
    (hjoined : (stored ++ chunks).flatten = config.dumps v) :
    ClientSound config isQueue strings (storeNext dest keys chunks) (.putting dest v) ∧
      (storeNext dest keys chunks : ClientState V).names = keys := by
  cases chunks with
  | nil =>
    rw [List.append_nil] at hjoined
    exact ⟨.putting hdest (.chunks hchunks.stored hjoined hchunks.nodup hchunks.names),
      references_metaKey hchunks.names⟩
  | cons chunk chunks => exact ⟨.drawing hdest hchunks hjoined, rfl⟩

theorem mapM_map_some (read : List Bytes) : (read.map some).mapM id = some read := by
  induction read with
  | nil => rfl
  | cons chunk read ih =>
    rw [List.map_cons, List.mapM_cons, ih]
    rfl

/-- The loop of `_combine_chunks` goes on with the keys that remain. -/
theorem readNext_sound {delete : Bool} {read : List Bytes} {v : V}
    (hchunks : ChunksAt strings keys chunks) (hjoined : (read ++ chunks).flatten = config.dumps v) :
    ClientSound config isQueue strings (readNext config delete (read.map some) keys) (.done v) ∧
      (readNext config delete (read.map some) keys).names = keys := by
  cases keys with
  | nil =>
    cases hchunks.stored
    rw [List.append_nil] at hjoined
    refine ⟨?_, rfl⟩
    rw [readNext, mapM_map_some, Option.bind_some, hjoined, config.loads_dumps]
    exact .done v
  | cons key keys => exact ⟨.reading hchunks hjoined, rfl⟩

/-- Reading what encodes a value. -/
theorem combineNext_sound (delete : Bool) {b : Option Bytes} {v : Option V}
    (h : Option.Rel (Encodes config strings) b v) :
    ClientSound config isQueue strings (combineNext config delete b)
        (.done (v.getD config.pyNone)) ∧
      (combineNext config delete b).names = chunksOf b := by
  cases h with
  | none => exact ⟨.done _, rfl⟩
  | @some b v henc =>
    cases henc with
    | whole =>
      rw [combineNext, if_neg (config.dumps_notMagic v), config.loads_dumps]
      exact ⟨.done v, (references_dumps v).symm⟩
    | @chunks keys chunks _ hchunks hjoined hnodup hnames =>
      have hrefs := references_metaKey hnames
      have hsplit : splitMetaKey (metaKey keys) = keys := by
        rw [references, if_pos (magic_metaKey keys)] at hrefs
        exact hrefs
      rw [combineNext, if_pos (magic_metaKey keys), hsplit, chunksOf, Option.elim_some, hrefs]
      have hread : ([] ++ chunks).flatten = config.dumps v := hjoined
      exact readNext_sound ⟨hchunks, hnodup, hnames⟩ hread

/-- A client that reads without deleting borrows what it reads. -/
theorem readNext_keep {read : List (Option Bytes)}
    (h : ¬ (readNext config false read keys).Borrows) :
    (readNext config false read keys).names = [] := by
  cases keys with
  | nil => rfl
  | cons key keys => exact absurd trivial h

theorem combineNext_keep {b : Option Bytes} (h : ¬ (combineNext config false b).Borrows) :
    (combineNext config false b).names = [] := by
  cases b with
  | none => rfl
  | some b =>
    by_cases hmagic : chunkMagic <+: b
    · rw [combineNext, if_pos hmagic] at h ⊢
      exact readNext_keep h
    · rw [combineNext, if_neg hmagic]
      rfl

end Sound

end FactCore
