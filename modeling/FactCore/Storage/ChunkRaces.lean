import FactCore.Storage.ChunkLeaks
import FactCore.Storage.ConcurrentStore
import Mathlib.Logic.Equiv.Basic

/-!
# Races for chunk keys

Each chunk has one owner: the place in the store whose value names it, or the client
that stores or reads it. A client that finds a free key has not taken it yet, and
another client can find the same key: one chunk is then written over the other. A
client that reads a value without deleting it owns nothing of it, and another client
can delete the value meanwhile.

Results:
1. `ClientsSound.step`: a step without a race keeps each client where it should be.
2. `clients_read_what_was_put`: a run without races is one of the specification.
-/

namespace FactCore

/-! ## 1. Owners -/

/-- A place in the store, or a client. -/
inductive ChunkOwner (ι : Type)
  | stored (o : Owner)
  | client (i : ι)
  deriving DecidableEq

/-- The chunk belongs to this place, or to this client. -/
def Owns {ι V : Type} (db : RedisDb) (clients : ι → ClientState V) : ChunkOwner ι → String → Prop
  | .stored o, k => Holds db o k
  | .client i, k => ¬ (clients i).Borrows ∧ k ∈ (clients i).names

/-- The database holds the content, each client is where it should be, and each chunk has one
owner. -/
structure ClientsSound {ι V : Type} (config : RedisConfig V) (isQueue : String → Prop)
    (s : ClientsState ι V) (a : SpecState ι V) : Prop where
  represents : Represents config isQueue s.db a.content
  clients : ∀ i, ClientSound config isQueue s.db.strings (s.clients i) (a.clients i)
  exclusive : Exclusive (Owns s.db s.clients)

/-- No race: nobody else needs the chunk that is set or deleted. No stored value names it, and no
other client has stored it or has still to read it. -/
def NoRace {ι V : Type} (s : ClientsState ι V) (e : ι × ClientAction V) : Prop :=
  ∀ key, (s.clients e.1).touched = some key →
    (∀ o, ¬ Holds s.db o key) ∧ ∀ j, j ≠ e.1 → key ∉ (s.clients j).names

section Owners
variable {ι V : Type} [DecidableEq ι] {config : RedisConfig V} {isQueue : String → Prop}
  {s : ClientsState ι V} {a : SpecState ι V} {db' : RedisDb} {x' : ClientState V}
  {y' : SpecClient V} {i : ι} {content' : StoreContent V}

/-- The chunks of a step: each owner afterwards has its chunks from the owner `f` before, except
for chunks of the client that nobody had. -/
structure OwnersFrom (s : ClientsState ι V) (i : ι) (db' : RedisDb) (x' : ClientState V)
    (f : ChunkOwner ι → ChunkOwner ι) : Prop where
  injective : Function.Injective f
  stored : ∀ o k, Holds db' o k → Owns s.db s.clients (f (.stored o)) k
  self : ∀ k, ¬ x'.Borrows → k ∈ x'.names →
    Owns s.db s.clients (f (.client i)) k ∨ ∀ o, ¬ Owns s.db s.clients o k
  others : ∀ j, j ≠ i → f (.client j) = .client j

/-- One client takes a step, and the others stay where they should be. -/
theorem ClientsSound.update {f : ChunkOwner ι → ChunkOwner ι} (h : ClientsSound config isQueue s a)
    (hown : OwnersFrom s i db' x' f)
    (hrep : Exclusive (Holds db') → Represents config isQueue db' content')
    (hsound : ClientSound config isQueue db'.strings x' y')
    (hkept : ∀ j, j ≠ i → ∀ k ∈ (s.clients j).names,
      db'.strings.get? k = s.db.strings.get? k) :
    ClientsSound config isQueue ⟨db', Function.update s.clients i x'⟩
      ⟨content', Function.update a.clients i y'⟩ := by
  have hfrom : ∀ o k, Owns db' (Function.update s.clients i x') o k →
      Owns s.db s.clients (f o) k ∨ o = .client i ∧ ∀ o', ¬ Owns s.db s.clients o' k := by
    rintro (o | j) k hk
    · exact .inl (hown.stored o k hk)
    · change ¬ (Function.update s.clients i x' j).Borrows ∧
        k ∈ (Function.update s.clients i x' j).names at hk
      rcases eq_or_ne j i with rfl | hj
      · rw [Function.update_self] at hk
        exact (hown.self k hk.1 hk.2).imp_right fun hfresh => ⟨rfl, hfresh⟩
      · rw [Function.update_of_ne hj] at hk
        rw [hown.others j hj]
        exact .inl hk
  have hexcl := h.exclusive.transfer hown.injective hfrom
  refine ⟨hrep fun o o' k ho ho' => ChunkOwner.stored.inj (hexcl (.stored o) (.stored o') k ho ho'),
    fun j => ?_, hexcl⟩
  show ClientSound _ _ _ (Function.update s.clients i x' j) (Function.update a.clients i y' j)
  rcases eq_or_ne j i with rfl | hne
  · rw [Function.update_self, Function.update_self]
    exact hsound
  · rw [Function.update_of_ne hne, Function.update_of_ne hne]
    exact (h.clients j).congr (hkept j hne)

/-! ## 2. The steps of a client -/

omit [DecidableEq ι] in
/-- Nothing is written, and the client needs no other chunks. -/
theorem ownersFrom_id (hstored : ∀ o k, Holds db' o k → Holds s.db o k)
    (hself : ∀ k, ¬ x'.Borrows → k ∈ x'.names →
      Owns s.db s.clients (.client i) k ∨ ∀ o, ¬ Owns s.db s.clients o k) :
    OwnersFrom s i db' x' id :=
  ⟨Function.injective_id, hstored, hself, fun _ _ => rfl⟩

/-- The client and a place of the store change their chunks. -/
theorem ownersFrom_swap {o₀ : Owner}
    (hplace : ∀ k, Holds db' o₀ k → Owns s.db s.clients (.client i) k)
    (hothers : ∀ o k, o ≠ o₀ → Holds db' o k → Holds s.db o k)
    (hself : ∀ k ∈ x'.names, Holds s.db o₀ k) :
    OwnersFrom s i db' x' (Equiv.swap (.stored o₀) (.client i)) := by
  have hne : ∀ (o : Owner) (j : ι), ChunkOwner.stored o ≠ .client j := by
    intro o j heq
    cases heq
  refine ⟨Equiv.injective _, fun o k hk => ?_, fun k _ hk => .inl ?_, fun j hj =>
    Equiv.swap_apply_of_ne_of_ne (hne o₀ j).symm fun heq => hj (ChunkOwner.client.inj heq)⟩
  · rcases eq_or_ne o o₀ with rfl | ho
    · rw [Equiv.swap_apply_left]
      exact hplace k hk
    · rw [Equiv.swap_apply_of_ne_of_ne (fun heq => ho (ChunkOwner.stored.inj heq)) (hne o i)]
      exact hothers o k ho hk
  · rw [Equiv.swap_apply_right]
    exact hself k hk

theorem ClientsSound.put {out : Option V} {dest : Destination} {value : V}
    (h : ClientsSound config isQueue s a) (hx : s.clients i = .done out)
    (hlegal : dest.Legal isQueue) (hx' : x' = if config.chunkSize < (config.dumps value).length then
        storeNext dest [] (splitIntoChunks config.chunkSize (config.dumps value))
      else .putting dest (config.dumps value)) :
    ∃ a', a.step config.pyNone (i, .put dest value) = some a' ∧
      ClientsSound config isQueue ⟨s.db, Function.update s.clients i x'⟩ a' := by
  obtain ⟨v, hy, -⟩ := (hx ▸ h.clients i).of_done
  have hsound : ClientSound config isQueue s.db.strings x' (.putting dest value) ∧
      x'.names = [] := by
    rw [hx']
    split
    · exact storeNext_sound hlegal .nil (flatten_splitIntoChunks config.chunkSize_pos _)
    · exact ⟨.putting hlegal (.whole value), references_dumps value⟩
  have hnone : ∀ k, k ∉ x'.names := fun k hk => absurd (hsound.2 ▸ hk) List.not_mem_nil
  refine ⟨⟨a.content, Function.update a.clients i (.putting dest value)⟩,
    by simp only [SpecState.step, hy], ?_⟩
  exact h.update (ownersFrom_id (fun _ _ => id) fun k _ hk => absurd hk (hnone k))
    (fun _ => h.represents) hsound.1 fun _ _ _ _ => rfl

theorem ClientsSound.draw {dest : Destination} {keys : List String} {chunk : Bytes}
    {chunks : List Bytes} {n : Fin 10000} (h : ClientsSound config isQueue s a)
    (hx : s.clients i = .drawing dest keys chunk chunks)
    (hx' : x' = if s.db.exists? (chunkKey n) then .drawing dest keys chunk chunks
      else .storing dest keys (chunkKey n) chunk chunks) :
    ∃ a', a.step config.pyNone (i, .draw n) = some a' ∧
      ClientsSound config isQueue ⟨s.db, Function.update s.clients i x'⟩ a' := by
  obtain ⟨v, stored, hy, hdest, hchunks, hjoined⟩ := (hx ▸ h.clients i).of_drawing
  have hsound : ClientSound config isQueue s.db.strings x' (.putting dest v) ∧
      x'.names = keys := by
    rw [hx']
    split
    · exact ⟨.drawing hdest hchunks hjoined, rfl⟩
    · next hfree =>
      have hnot : chunkKey n ∉ keys := fun hin =>
        (exists?_eq_false.mp (Bool.eq_false_iff.mpr hfree)).1
          (mem_of_forall₂_get? hchunks.stored hin)
      exact ⟨.storing hdest hchunks ⟨n, rfl⟩ hnot hjoined, rfl⟩
  have hself : ∀ k, ¬ x'.Borrows → k ∈ x'.names →
      Owns s.db s.clients (.client i) k ∨ ∀ o, ¬ Owns s.db s.clients o k := by
    intro k _ hk
    rw [hsound.2] at hk
    rw [Owns, hx]
    exact .inl ⟨id, hk⟩
  refine ⟨a, by simp only [SpecState.step, hy], ?_⟩
  have hnext : ClientsSound config isQueue ⟨s.db, Function.update s.clients i x'⟩
      ⟨a.content, Function.update a.clients i (.putting dest v)⟩ :=
    h.update (ownersFrom_id (fun _ _ => id) hself) (fun _ => h.represents) hsound.1
      fun _ _ _ _ => rfl
  rwa [← hy, Function.update_eq_self] at hnext

omit [DecidableEq ι] in
/-- Changes of a chunk that nobody in the store holds. -/
theorem ClientsSound.frame (h : ClientsSound config isQueue s a)
    (hchunk : ∀ key, isQueue key → ¬ IsChunkKey key) {key : String} (hname : IsChunkKey key)
    (hlists : db'.lists = s.db.lists) (hfree : ∀ o, ¬ Holds s.db o key)
    (hothers : ∀ k, k ≠ key → db'.strings.get? k = s.db.strings.get? k) :
    Represents config isQueue db' a.content ∧ ∀ o k, Holds db' o k → Holds s.db o k := by
  obtain ⟨hrep, hholds⟩ := h.represents.frame hchunk hlists
    (fun k hk => hothers k fun heq => hk (heq ▸ hname))
    fun o k hk => hothers k fun heq => hfree o (heq ▸ hk)
  exact ⟨hrep, fun o k => (hholds o k).mp⟩

omit [DecidableEq ι] in
/-- The others keep their chunks if none of them needs the one that changes. -/
theorem kept_of_not_names {key : String} {strings' : Redis}
    (hothers : ∀ k, k ≠ key → strings'.get? k = s.db.strings.get? k)
    (hnot : ∀ j, j ≠ i → key ∉ (s.clients j).names) :
    ∀ j, j ≠ i → ∀ k ∈ (s.clients j).names, strings'.get? k = s.db.strings.get? k :=
  fun j hj k hk => hothers k fun heq => hnot j hj (heq ▸ hk)

theorem ClientsSound.setChunk {dest : Destination} {keys : List String} {key : String}
    {chunk : Bytes} {chunks : List Bytes} (h : ClientsSound config isQueue s a)
    (hchunk : ∀ key, isQueue key → ¬ IsChunkKey key)
    (hx : s.clients i = .storing dest keys key chunk chunks)
    (hunheld : ∀ o, ¬ Holds s.db o key) (hothers : ∀ j, j ≠ i → key ∉ (s.clients j).names) :
    ∃ a', a.step config.pyNone (i, .setChunk) = some a' ∧
      ClientsSound config isQueue ⟨s.db.setString key chunk,
        Function.update s.clients i (storeNext dest (keys ++ [key]) chunks)⟩ a' := by
  obtain ⟨v, stored, hy, hdest, hchunks, hname, hnot, hjoined⟩ := (hx ▸ h.clients i).of_storing
  have hlist : key ∉ s.db.lists :=
    fun hmem => hchunk key (h.represents.queueKeys key hmem) hname
  have hset := valueSet_setString chunk hlist
  obtain ⟨hrep, hholds⟩ := h.frame hchunk hname hset.lists hunheld hset.others
  have hjoined' : ((stored ++ [chunk]) ++ chunks).flatten = config.dumps v := by
    rw [List.append_assoc]
    exact hjoined
  obtain ⟨hsound, hnames⟩ := storeNext_sound hdest
    (hchunks.concat hnot hname hset.self hset.others) hjoined'
  have hfree : ∀ o, ¬ Owns s.db s.clients o key := by
    rintro (o | j) ho
    · exact hunheld o ho
    · rcases eq_or_ne j i with rfl | hj
      · rw [Owns, hx] at ho
        exact hnot ho.2
      · exact hothers j hj ho.2
  have hself : ∀ k, k ∈ (storeNext dest (keys ++ [key]) chunks : ClientState V).names →
      Owns s.db s.clients (.client i) k ∨ ∀ o, ¬ Owns s.db s.clients o k := by
    intro k hk
    rw [hnames] at hk
    rcases List.mem_append.mp hk with hk | hk
    · rw [Owns, hx]
      exact .inl ⟨id, hk⟩
    · rw [List.mem_singleton.mp hk]
      exact .inr hfree
  have hnext : ClientsSound config isQueue ⟨s.db.setString key chunk,
        Function.update s.clients i (storeNext dest (keys ++ [key]) chunks)⟩
      ⟨a.content, Function.update a.clients i (.putting dest v)⟩ :=
    h.update (ownersFrom_id hholds fun k _ => hself k) (fun _ => hrep) hsound
      (kept_of_not_names hset.others hothers)
  refine ⟨a, by simp only [SpecState.step, hy], ?_⟩
  rwa [← hy, Function.update_eq_self] at hnext

/-- A client gives its chunks to a place of the store, and is done. -/
theorem ClientsSound.place {dest : Destination} {b : Bytes} {o₀ : Owner} {v : V}
    (h : ClientsSound config isQueue s a) (hx : s.clients i = .putting dest b)
    (hself : ∀ k, Holds db' o₀ k → k ∈ references b)
    (hothers : ∀ o k, o ≠ o₀ → Holds db' o k → Holds s.db o k)
    (hkept : ∀ k, IsChunkKey k → db'.strings.get? k = s.db.strings.get? k)
    (hrep : Exclusive (Holds db') → Represents config isQueue db' content') :
    ClientsSound config isQueue ⟨db', Function.update s.clients i (.done (some v))⟩
      ⟨content', Function.update a.clients i (.done v)⟩ := by
  have hown : OwnersFrom s i db' (.done (some v)) (Equiv.swap (.stored o₀) (.client i)) := by
    refine ownersFrom_swap (fun k hk => ?_) hothers fun k hk => absurd hk List.not_mem_nil
    rw [Owns, hx]
    exact ⟨id, hself k hk⟩
  exact h.update hown hrep (.done v) fun j _ k hk => hkept k ((h.clients j).mem hk).2

theorem ClientsSound.publish_value {key : String} {b : Bytes}
    (h : ClientsSound config isQueue s a) (hx : s.clients i = .putting (.value key) b) :
    ∃ a', a.step config.pyNone (i, .publish) = some a' ∧
      ClientsSound config isQueue ⟨s.db.setString key b,
        Function.update s.clients i (.done (some config.pyNone))⟩ a' := by
  obtain ⟨v, hy, ⟨hkey, hname⟩, henc⟩ := (hx ▸ h.clients i).of_putting
  have hset := valueSet_setString b (h.represents.not_mem_lists hkey)
  refine ⟨⟨{ a.content with values := Function.update a.content.values key (some v) },
    Function.update a.clients i (.done config.pyNone)⟩, by simp only [SpecState.step, hy]; rfl, ?_⟩
  have hself : ∀ k, Holds (s.db.setString key b) (.value key) k → k ∈ references b := by
    intro k hk
    rw [holds_value_iff hname, hset.self] at hk
    exact hk
  exact h.place hx hself (fun o k ho => (hset.holds_other ho).mp)
    (fun k hk => hset.others k fun heq => hname (heq ▸ hk))
    (h.represents.setValue hset hkey hname (.some henc))

theorem ClientsSound.publish_queue {key : String} {b : Bytes}
    (h : ClientsSound config isQueue s a) (hx : s.clients i = .putting (.queue key) b) {r}
    (hr : r = (s.db.rpush key b).elim (s.db, ClientState.done none)
      fun db' => (db', .done (some config.pyNone))) :
    ∃ a', a.step config.pyNone (i, .publish) = some a' ∧
      ClientsSound config isQueue ⟨r.1, Function.update s.clients i r.2⟩ a' := by
  obtain ⟨v, hy, hkey, henc⟩ := (hx ▸ h.clients i).of_putting
  obtain ⟨db', hpush, hset⟩ := rpush_ok b (h.represents.not_mem_strings hkey)
  rw [hpush] at hr
  subst hr
  refine ⟨⟨{ a.content with
    queues := Function.update a.content.queues key (a.content.queues key ++ [v]) },
    Function.update a.clients i (.done config.pyNone)⟩, by simp only [SpecState.step, hy]; rfl, ?_⟩
  exact h.place hx (fun k => hset.holds_pushed.mp) (fun o k ho => (hset.holds_push ho).mp)
    (fun k _ => congrArg (fun strings => strings.get? k) hset.strings)
    (h.represents.setQueue hset hkey (List.rel_append (h.represents.queues key hkey)
      (.cons henc .nil)))

theorem ClientsSound.get_delete {key : String} {out : Option V}
    (h : ClientsSound config isQueue s a) (hx : s.clients i = .done out) (hkey : ¬ isQueue key)
    (hname : ¬ IsChunkKey key) :
    ∃ a', a.step config.pyNone (i, .get key true) = some a' ∧
      ClientsSound config isQueue ⟨s.db.delete key,
        Function.update s.clients i (combineNext config true (s.db.strings.get? key))⟩ a' := by
  obtain ⟨v, hy, -⟩ := (hx ▸ h.clients i).of_done
  have hset := valueSet_delete (h.represents.not_mem_lists hkey)
  obtain ⟨hsound, hnames⟩ := combineNext_sound true
    (h.represents.rel_values hset hkey hname)
  -- the client has the chunks of the value
  have hown : OwnersFrom s i (s.db.delete key) (combineNext config true (s.db.strings.get? key))
      (Equiv.swap (.stored (.value key)) (.client i)) :=
    ownersFrom_swap (fun k hk => absurd rfl (hset.holds_none.mp hk).1)
      (fun o k _ hk => (hset.holds_none.mp hk).2)
      fun k hk => (holds_value_iff hname).mpr (hnames ▸ hk)
  refine ⟨⟨{ a.content with values := Function.update a.content.values key none },
    Function.update a.clients i (.done ((a.content.values key).getD config.pyNone))⟩,
    by simp only [SpecState.step, hy]; rfl, ?_⟩
  exact h.update hown (h.represents.setValue hset hkey hname .none) hsound
    fun j _ k hk => hset.others k fun heq => hname (heq ▸ ((h.clients j).mem hk).2)

theorem ClientsSound.get_keep {key : String} {out : Option V}
    (h : ClientsSound config isQueue s a) (hx : s.clients i = .done out) (hkey : ¬ isQueue key)
    (hname : ¬ IsChunkKey key) :
    ∃ a', a.step config.pyNone (i, .get key false) = some a' ∧
      ClientsSound config isQueue ⟨s.db,
        Function.update s.clients i (combineNext config false (s.db.strings.get? key))⟩ a' := by
  obtain ⟨v, hy, -⟩ := (hx ▸ h.clients i).of_done
  obtain ⟨hsound, -⟩ := combineNext_sound false (h.represents.values key hkey hname)
  have hnone : ∀ k, ¬ (combineNext config false (s.db.strings.get? key)).Borrows →
      k ∉ (combineNext config false (s.db.strings.get? key)).names := by
    intro k hb hk
    rw [combineNext_keep hb] at hk
    cases hk
  refine ⟨⟨a.content,
    Function.update a.clients i (.done ((a.content.values key).getD config.pyNone))⟩,
    by simp only [SpecState.step, hy]; rfl, ?_⟩
  exact h.update (ownersFrom_id (fun _ _ => id) fun k hb hk => absurd hk (hnone k hb))
    (fun _ => h.represents) hsound fun _ _ _ _ => rfl

/-- The owners before the first item of the queue went to the client. -/
def takenFirst (key : String) (i : ι) : ChunkOwner ι → ChunkOwner ι
  | .stored o => .stored (o.next key)
  | .client j => if j = i then .stored (.item key 0) else .client j

theorem takenFirst_client (key : String) (i j : ι) :
    j = i ∧ takenFirst key i (.client j) = .stored (.item key 0) ∨
      j ≠ i ∧ takenFirst key i (.client j) = .client j := by
  rcases eq_or_ne j i with hj | hj
  · exact .inl ⟨hj, if_pos hj⟩
  · exact .inr ⟨hj, if_neg hj⟩

theorem takenFirst_injective (key : String) (i : ι) : Function.Injective (takenFirst key i) := by
  have hfirst : ∀ o j, takenFirst key i (.stored o) ≠ takenFirst key i (.client j) := by
    intro o j heq
    rcases takenFirst_client key i j with ⟨-, hj⟩ | ⟨-, hj⟩
    · rw [hj] at heq
      exact Owner.next_ne_first key o (ChunkOwner.stored.inj heq)
    · rw [hj] at heq
      cases heq
  rintro (o | j) (o' | j') heq
  · exact congrArg _ (Owner.next_injective key (ChunkOwner.stored.inj heq))
  · exact absurd heq (hfirst o j')
  · exact absurd heq.symm (hfirst o' j)
  · rcases takenFirst_client key i j with ⟨hi, hj⟩ | ⟨-, hj⟩ <;>
      rcases takenFirst_client key i j' with ⟨hi', hj'⟩ | ⟨-, hj'⟩ <;> rw [hj, hj'] at heq
    · rw [hi, hi']
    · cases heq
    · cases heq
    · exact heq

theorem ClientsSound.queueGet {key : String} {out : Option V}
    (h : ClientsSound config isQueue s a) (hx : s.clients i = .done out) (hkey : isQueue key) {r}
    (hr : r = (s.db.lpop key).elim (s.db, ClientState.done none)
      fun r => (r.1, combineNext config true r.2)) :
    ∃ a', a.step config.pyNone (i, .queueGet key) = some a' ∧
      ClientsSound config isQueue ⟨r.1, Function.update s.clients i r.2⟩ a' := by
  obtain ⟨v, hy, -⟩ := (hx ▸ h.clients i).of_done
  obtain ⟨db', hpop, hset⟩ := lpop_ok (h.represents.not_mem_strings hkey)
  rw [hpop] at hr
  subst hr
  obtain ⟨hhead, htail⟩ := rel_head_tail (h.represents.queues key hkey)
  rw [← hset.strings] at hhead
  obtain ⟨hsound, hnames⟩ := combineNext_sound true hhead
  have hown : OwnersFrom s i db' (combineNext config true (s.db.lists.getD key []).head?)
      (takenFirst key i) := by
    refine ⟨takenFirst_injective key i, fun o k => hset.holds_pop.mp, fun k _ hk => .inl ?_,
      fun j hj => if_neg hj⟩
    rw [takenFirst, if_pos rfl]
    exact holds_first.mpr (hnames ▸ hk)
  refine ⟨⟨{ a.content with
    queues := Function.update a.content.queues key (a.content.queues key).tail },
    Function.update a.clients i (.done ((a.content.queues key).head?.getD config.pyNone))⟩,
    by simp only [SpecState.step, hy]; rfl, ?_⟩
  exact h.update hown (h.represents.setQueue hset hkey htail) hsound
    fun j _ k _ => congrArg (fun strings => strings.get? k) hset.strings

theorem ClientsSound.readChunk {delete : Bool} {key : String} {keys : List String}
    {read : List (Option Bytes)} (h : ClientsSound config isQueue s a)
    (hchunk : ∀ key, isQueue key → ¬ IsChunkKey key)
    (hx : s.clients i = .reading delete key keys read)
    (hrace : delete = true → (∀ o, ¬ Holds s.db o key) ∧ ∀ j, j ≠ i → key ∉ (s.clients j).names) {r}
    (hr : r = (s.db.getString key).elim
      (if delete then s.db.delete key else s.db, ClientState.done none) fun chunk =>
        (if delete then s.db.delete key else s.db, readNext config delete (read ++ [chunk]) keys)) :
    ∃ a', a.step config.pyNone (i, .readChunk) = some a' ∧
      ClientsSound config isQueue ⟨r.1, Function.update s.clients i r.2⟩ a' := by
  obtain ⟨v, done, chunks, hy, rfl, hchunks, hjoined⟩ := (hx ▸ h.clients i).of_reading
  obtain ⟨chunk, rest, rfl, hget, hnot, hname, hrest⟩ := hchunks.tail
  have hlist : key ∉ s.db.lists :=
    fun hmem => hchunk key (h.represents.queueKeys key hmem) hname
  rw [RedisDb.getString, if_neg hlist, hget, Option.elim_some, ← List.map_singleton,
    ← List.map_append] at hr
  have hjoined' : ((done ++ [chunk]) ++ rest).flatten = config.dumps v := by
    rw [List.append_assoc]
    exact hjoined
  subst hr
  refine ⟨a, by simp only [SpecState.step, hy], ?_⟩
  suffices hnext : ClientsSound config isQueue ⟨if delete then s.db.delete key else s.db,
      Function.update s.clients i (readNext config delete ((done ++ [chunk]).map some) keys)⟩
      ⟨a.content, Function.update a.clients i (.done v)⟩ by
    rwa [← hy, Function.update_eq_self] at hnext
  cases delete with
  | true =>
    obtain ⟨hunheld, hothers⟩ := hrace rfl
    have hset := valueSet_delete hlist
    obtain ⟨hrep, hholds⟩ := h.frame hchunk hname hset.lists hunheld hset.others
    have hkept := hrest.congr fun k hk => hset.others k fun heq => hnot (heq ▸ hk)
    obtain ⟨hsound, hnames⟩ := readNext_sound hkept hjoined'
    have hself : ∀ k, ¬ (readNext config true ((done ++ [chunk]).map some) keys).Borrows →
        k ∈ (readNext config true ((done ++ [chunk]).map some) keys).names →
        Owns s.db s.clients (.client i) k ∨ ∀ o, ¬ Owns s.db s.clients o k := by
      intro k _ hk
      rw [hnames] at hk
      rw [Owns, hx]
      exact .inl ⟨id, List.mem_cons_of_mem _ hk⟩
    exact h.update (ownersFrom_id hholds hself) (fun _ => hrep) hsound
      (kept_of_not_names hset.others hothers)
  | false =>
    obtain ⟨hsound, -⟩ := readNext_sound hrest hjoined'
    refine h.update (ownersFrom_id (fun _ _ => id) fun k hb hk => ?_) (fun _ => h.represents) hsound
      fun _ _ _ _ => rfl
    rw [readNext_keep hb] at hk
    cases hk

/-- A step without a race is a step of the specification, and each client is where it should be
afterwards. -/
theorem ClientsSound.step {act : ClientAction V} {s' : ClientsState ι V}
    (h : ClientsSound config isQueue s a) (hchunk : ∀ key, isQueue key → ¬ IsChunkKey key)
    (hlegal : act.Legal isQueue) (hrace : NoRace s (i, act))
    (hstep : s.step config (i, act) = some s') :
    ∃ a', a.step config.pyNone (i, act) = some a' ∧ ClientsSound config isQueue s' a' := by
  obtain ⟨⟨db', x'⟩, hx', rfl⟩ := Option.map_eq_some_iff.mp hstep
  unfold ClientState.step at hx'
  dsimp only at hx'
  split at hx'
  · next hx =>
    obtain ⟨rfl, rfl⟩ := Prod.mk.inj (Option.some.inj hx')
    exact h.put hx hlegal rfl
  · next hx =>
    obtain ⟨rfl, rfl⟩ := Prod.mk.inj (Option.some.inj hx')
    exact h.draw hx rfl
  · next hx =>
    obtain ⟨rfl, rfl⟩ := Prod.mk.inj (Option.some.inj hx')
    obtain ⟨hunheld, hothers⟩ := hrace _ (congrArg ClientState.touched hx)
    exact h.setChunk hchunk hx hunheld hothers
  · next hx =>
    obtain ⟨rfl, rfl⟩ := Prod.mk.inj (Option.some.inj hx')
    exact h.publish_value hx
  · next hx => exact h.publish_queue hx (Option.some.inj hx').symm
  · next key delete hx =>
    obtain ⟨hkey, hname⟩ := hlegal
    rw [RedisDb.getString, if_neg (h.represents.not_mem_lists hkey)] at hx'
    obtain ⟨rfl, rfl⟩ := Prod.mk.inj (Option.some.inj hx')
    cases delete with
    | true => exact h.get_delete hx hkey hname
    | false => exact h.get_keep hx hkey hname
  · next hx => exact h.queueGet hx hlegal (Option.some.inj hx').symm
  · next hx =>
    refine h.readChunk hchunk hx (fun hdelete => ?_) (Option.some.inj hx').symm
    subst hdelete
    exact hrace _ (congrArg ClientState.touched hx)
  · cases hx'

omit [DecidableEq ι] in
theorem clientsSound_start : ClientsSound config isQueue
    (.start config : ClientsState ι V) (.start config.pyNone) := by
  have hrep : Represents config isQueue ⟨∅, ∅⟩ ⟨fun _ => none, fun _ => []⟩ := represents_empty
  refine ⟨hrep, fun _ => .done _, ?_⟩
  rintro (o | i) o' k ho _
  · exact absurd (hrep.mem_of_holds ho).1 (Dict.not_mem_empty k)
  · exact absurd ho.2 List.not_mem_nil

/-- A run without races is a run of the specification. -/
theorem ClientsSound.run {es : List (ι × ClientAction V)} {s' : ClientsState ι V}
    (h : ClientsSound config isQueue s a) (hchunk : ∀ key, isQueue key → ¬ IsChunkKey key)
    (hlegal : ∀ e ∈ es, e.2.Legal isQueue)
    (hrun : Run (Restrict NoRace (ClientsStep config)) s es s') :
    ∃ a', Run (SpecStep config.pyNone) a es a' ∧
      ClientsSound config isQueue s' a' := by
  induction hrun generalizing a with
  | nil => exact ⟨a, .nil a, h⟩
  | @cons s s₁ s' e es hstep _ ih =>
    obtain ⟨a₁, ha, h₁⟩ := h.step hchunk (hlegal e List.mem_cons_self) hstep.1 hstep.2
    obtain ⟨a', hrun', h'⟩ := ih h₁ fun e' he' => hlegal e' (List.mem_cons_of_mem _ he')
    exact ⟨a', .cons ha hrun', h'⟩

end Owners

/-- In a run without races the clients get what the specification gives them for the same calls,
each chunk has one owner, and the chunks that a client has stored are as it stored them. -/
theorem clients_read_what_was_put {ι V : Type} [DecidableEq ι] {config : RedisConfig V}
    {isQueue : String → Prop} {es : List (ι × ClientAction V)} {s : ClientsState ι V}
    (hchunk : ∀ key, isQueue key → ¬ IsChunkKey key) (hlegal : ∀ e ∈ es, e.2.Legal isQueue)
    (hrun : Run (Restrict NoRace (ClientsStep config)) (.start config) es s) :
    ∃ a, Run (SpecStep config.pyNone) (.start config.pyNone) es a ∧
      (∀ i out, s.clients i = .done out → ∃ v, a.clients i = .done v ∧ out = some v) ∧
      ClientsSound config isQueue s a := by
  obtain ⟨a, hspec, hsound⟩ := clientsSound_start.run hchunk hlegal hrun
  exact ⟨a, hspec, fun i out hi => (hi ▸ hsound.clients i).of_done, hsound⟩

/-! ## 3. Two runs -/

/-- Two clients put `True` and `False` into a queue, in two chunks each, and a third one reads. -/
def queueRun (n : Fin 10000) : List (Fin 3 × ClientAction (Option Bool)) :=
  [(0, .put (.queue "analysis_task") (some true)), (1, .put (.queue "analysis_task") (some false)),
    (0, .draw 0), (0, .setChunk), (1, .draw 1), (1, .setChunk), (0, .draw 2), (1, .draw n),
    (0, .setChunk), (1, .setChunk), (0, .publish), (1, .publish),
    (2, .queueGet "analysis_task"), (2, .readChunk), (2, .readChunk)]

theorem queueRun_legal (n : Fin 10000) :
    ∀ e ∈ queueRun n, e.2.Legal (· = "analysis_task") := by
  simp [queueRun, ClientAction.Legal, Destination.Legal]

theorem noRace_of_none {ι V : Type} {s : ClientsState ι V} {e : ι × ClientAction V}
    (h : (s.clients e.1).touched = none) : NoRace s e := by
  intro key hkey
  rw [h] at hkey
  cases hkey

/-- The check of `NoRace` on a database, entry by entry. -/
theorem noRace_of_touched {ι V : Type} {s : ClientsState ι V} {e : ι × ClientAction V}
    (key : String) (h : (s.clients e.1).touched = some key)
    (hvalues : ∀ e ∈ s.db.strings.entries, key ∉ references e.2)
    (hitems : ∀ e ∈ s.db.lists.entries, ∀ b ∈ e.2, key ∉ references b)
    (hothers : ∀ j, j ≠ e.1 → key ∉ (s.clients j).names) : NoRace s e := by
  intro key' hkey'
  obtain rfl := Option.some.inj (h.symm.trans hkey')
  refine ⟨?_, hothers⟩
  rintro o ⟨b, hb, hk⟩
  cases hb with
  | value _ hget => exact hvalues _ (Dict.mem_entries_iff.mpr hget) hk
  | item hget =>
    obtain ⟨l, hlist, hmem⟩ := exists_list_of_getElem? hget
    exact hitems _ (Dict.mem_entries_iff.mpr hlist) b hmem hk

/-- `True` was put first. -/
theorem spec_queueRun (n : Fin 10000) {a : SpecState (Fin 3) (Option Bool)}
    (h : Run (SpecStep none) (.start none) (queueRun n) a) : a.clients 2 = .done (some true) := by
  have hput : ((queueRun n).foldlM (SpecState.step none) (.start none)).map
      (fun a => a.clients 2) = some (.done (some true)) := by rfl
  rw [Run.partial_iff.mp h] at hput
  exact Option.some.inj hput

/-- Each client finds a key of its own, and `True` is read. -/
theorem unraced_chunk_read : ∃ (s : ClientsState (Fin 3) (Option Bool)) (out : Option (Option Bool)),
    Run (ClientsStep flagConfig) (.start flagConfig) (queueRun 3) s ∧
      s.clients 2 = .done out ∧ out = some (some true) := by
  have hrun : Run (Restrict NoRace (ClientsStep flagConfig)) (.start flagConfig) (queueRun 3) _ :=
    .cons ⟨noRace_of_none rfl, rfl⟩ <| .cons ⟨noRace_of_none rfl, rfl⟩ <|
    .cons ⟨noRace_of_none rfl, rfl⟩ <|
    .cons ⟨noRace_of_touched "chunk_0" rfl (by decide) (by decide) (by decide), rfl⟩ <|
    .cons ⟨noRace_of_none rfl, rfl⟩ <|
    .cons ⟨noRace_of_touched "chunk_1" rfl (by decide) (by decide) (by decide), rfl⟩ <|
    .cons ⟨noRace_of_none rfl, rfl⟩ <| .cons ⟨noRace_of_none rfl, rfl⟩ <|
    .cons ⟨noRace_of_touched "chunk_2" rfl (by decide) (by decide) (by decide), rfl⟩ <|
    .cons ⟨noRace_of_touched "chunk_3" rfl (by decide) (by decide) (by decide), rfl⟩ <|
    .cons ⟨noRace_of_none rfl, rfl⟩ <| .cons ⟨noRace_of_none rfl, rfl⟩ <|
    .cons ⟨noRace_of_none rfl, rfl⟩ <|
    .cons ⟨noRace_of_touched "chunk_0" rfl (by decide) (by decide) (by decide), rfl⟩ <|
    .cons ⟨noRace_of_touched "chunk_2" rfl (by decide) (by decide) (by decide), rfl⟩ <| .nil _
  obtain ⟨a, hspec, hall, -⟩ :=
    clients_read_what_was_put analysisTask_notChunkKey (queueRun_legal 3) hrun
  obtain ⟨v, hv, hout⟩ := hall 2 _ rfl
  rw [spec_queueRun 3 hspec] at hv
  cases hv
  exact ⟨_, _, hrun.of_restrict, rfl, hout⟩

/-- Both clients find the same key free, and one chunk is written over the other: `False` is
read. -/
theorem raced_chunk_read :
    ¬ ∀ (ι V : Type) [DecidableEq ι] (config : RedisConfig V) (isQueue : String → Prop)
        (es : List (ι × ClientAction V)) (s : ClientsState ι V),
      (∀ key, isQueue key → ¬ IsChunkKey key) → (∀ e ∈ es, e.2.Legal isQueue) →
      Run (ClientsStep config) (.start config) es s →
      ∃ a, Run (SpecStep config.pyNone) (.start config.pyNone) es a ∧
        ∀ i out, s.clients i = .done out → ∃ v, a.clients i = .done v ∧ out = some v := by
  intro h
  have hread : ((queueRun 2).foldlM (ClientsState.step flagConfig) (.start flagConfig)).map
      (fun s => s.clients 2) = some (.done (some (some false))) := by rfl
  obtain ⟨s, hs, hout⟩ := Option.map_eq_some_iff.mp hread
  obtain ⟨a, hspec, hall⟩ := h _ _ flagConfig (· = "analysis_task") (queueRun 2) s
    analysisTask_notChunkKey (queueRun_legal 2) (Run.partial_iff.mpr hs)
  obtain ⟨v, hv, heq⟩ := hall 2 _ hout
  rw [spec_queueRun 2 hspec] at hv
  cases hv
  cases heq

end FactCore
