import FactCore.Storage.ChunkOwnership
import Mathlib.Data.Fintype.Card

/-!
# Runs of the chunked store

A sequence of operations of one client. An operation is completed when it finds its
chunk keys: fewer than 10000 of them are live whenever it needs one.

Results:
1. `run_total`: operations are completed.
2. `Represents.run`, `Represents.runAll`: they do what they should.
3. `chunkedStore_correct`: both, and what `get` leaves.
-/

namespace FactCore

/-! ## 1. Finding free keys -/

/-- The chunk keys that are live. -/
def RedisDb.liveChunks (db : RedisDb) : Finset (Fin 10000) :=
  Finset.univ.filter fun n => db.exists? (chunkKey n) = true

/-- The number of chunks in which the pickle of a value is stored. -/
def chunkCount {V : Type} (config : RedisConfig V) (v : V) : Nat :=
  if config.chunkSize < (config.dumps v).length then
    (splitIntoChunks config.chunkSize (config.dumps v)).length
  else 0

/-- Each time the operation needs a chunk key, fewer than 10000 of them are live, and each of them
is drawn at some time. -/
def RedisOp.FindsKeys {V : Type} (config : RedisConfig V) (db : RedisDb) : RedisOp V → Prop
  | .set _ value draws | .queuePut _ value draws =>
    db.liveChunks.card + chunkCount config value ≤ 10000 ∧ ∀ n, n ∈ draws
  | .get _ _ | .queueGet _ => True

section FreeKeys
variable {V : Type} {config : RedisConfig V} {db : RedisDb} {draws : List (Fin 10000)}

theorem chunkKey_injective : Function.Injective chunkKey := by
  intro m n h
  have hdigits : Nat.toDigits 10 m = Nat.toDigits 10 n := by
    have hlist := congrArg String.toList h
    rw [chunkKey, chunkKey, String.toList_append, String.toList_append, Nat.toList_repr,
      Nat.toList_repr] at hlist
    exact List.append_cancel_left hlist
  rw [← Nat.ofDigitChars_toDigits (by decide : 1 < 10) (by decide) (n := m), hdigits,
    Nat.ofDigitChars_toDigits (by decide) (by decide)]

theorem mem_liveChunks {n : Fin 10000} :
    n ∈ db.liveChunks ↔ db.exists? (chunkKey n) = true := by
  rw [RedisDb.liveChunks, Finset.mem_filter]
  exact and_iff_right (Finset.mem_univ n)

theorem exists?_setString (key k : String) (value : Bytes) :
    (db.setString key value).exists? k = true ↔ k = key ∨ db.exists? k = true := by
  simp only [RedisDb.exists?, RedisDb.setString, decide_eq_true_eq, Dict.mem_set, Dict.mem_erase]
  tauto

theorem liveChunks_setString (n : Fin 10000) (value : Bytes) :
    (db.setString (chunkKey n) value).liveChunks = insert n db.liveChunks := by
  refine Finset.ext fun m => ?_
  rw [mem_liveChunks, exists?_setString, Finset.mem_insert, mem_liveChunks]
  exact or_congr_left ⟨fun h => Fin.ext (chunkKey_injective h), fun h => h ▸ rfl⟩

/-- The first free key that is drawn is taken; the other free keys are still to come. -/
theorem getNewChunkKey_total {n : Fin 10000} (hn : n ∉ db.liveChunks) (hdrawn : n ∈ draws) :
    ∃ (m : Fin 10000) (draws' : List (Fin 10000)),
      db.getNewChunkKey draws = some (chunkKey m, draws') ∧ m ∉ db.liveChunks ∧
        ∀ i ∈ draws, i ∉ db.liveChunks → i = m ∨ i ∈ draws' := by
  induction draws with
  | nil => cases hdrawn
  | cons i draws ih =>
    by_cases hi : db.exists? (chunkKey i) = true
    · have hin : n ∈ draws := by
        rcases List.mem_cons.mp hdrawn with rfl | hin
        · exact absurd (mem_liveChunks.mpr hi) hn
        · exact hin
      obtain ⟨m, draws', hkey, hm, hrest⟩ := ih hin
      refine ⟨m, draws', (if_pos hi).trans hkey, hm, fun j hj hfree => ?_⟩
      rcases List.mem_cons.mp hj with rfl | hj
      · exact absurd (mem_liveChunks.mpr hi) hfree
      · exact hrest j hj hfree
    · exact ⟨i, draws, if_neg hi, fun h => hi (mem_liveChunks.mp h),
        fun j hj _ => List.mem_cons.mp hj⟩

theorem storeChunks_total {chunks : List Bytes} (joined : Bytes)
    (hroom : db.liveChunks.card + chunks.length ≤ 10000)
    (hdrawn : ∀ n, n ∉ db.liveChunks → n ∈ draws) :
    ∃ r, db.storeChunks draws joined chunks = some r := by
  induction chunks generalizing db draws joined with
  | nil => exact ⟨_, rfl⟩
  | cons chunk chunks ih =>
    rw [List.length_cons] at hroom
    have hfree : ∃ n, n ∉ db.liveChunks := by
      by_contra hall
      have huniv : db.liveChunks = Finset.univ :=
        Finset.eq_univ_of_forall fun n => Classical.not_not.mp fun hn => hall ⟨n, hn⟩
      rw [huniv, Finset.card_univ, Fintype.card_fin] at hroom
      omega
    obtain ⟨n, hn⟩ := hfree
    obtain ⟨m, draws', hkey, hm, hrest⟩ := getNewChunkKey_total hn (hdrawn n hn)
    unfold RedisDb.storeChunks
    rw [hkey, Option.bind_some]
    refine ih _ ?_ fun i hi => ?_
    · rw [liveChunks_setString, Finset.card_insert_of_notMem hm]
      omega
    · rw [liveChunks_setString, Finset.mem_insert, not_or] at hi
      exact (hrest i (hdrawn i hi.2) hi.2).resolve_left hi.1

theorem splitIfNecessary_total {v : V}
    (hroom : db.liveChunks.card + chunkCount config v ≤ 10000) (hdrawn : ∀ n, n ∈ draws) :
    ∃ r, db.splitIfNecessary config draws (config.dumps v) = some r := by
  unfold RedisDb.splitIfNecessary
  unfold chunkCount at hroom
  split
  · next hlarge =>
    rw [if_pos hlarge] at hroom
    exact storeChunks_total _ hroom fun n _ => hdrawn n
  · exact ⟨_, rfl⟩

/-- An operation that finds its chunk keys is completed. -/
theorem run_total {op : RedisOp V} (h : op.FindsKeys config db) :
    ∃ r, op.run config db = some r := by
  cases op with
  | set key value draws =>
    obtain ⟨r, hr⟩ := splitIfNecessary_total h.1 h.2
    exact ⟨_, Option.map_eq_some_iff.mpr ⟨r, hr, rfl⟩⟩
  | queuePut key value draws =>
    obtain ⟨r, hr⟩ := splitIfNecessary_total h.1 h.2
    exact ⟨_, Option.map_eq_some_iff.mpr ⟨r, hr, rfl⟩⟩
  | get => exact ⟨_, rfl⟩
  | queueGet => exact ⟨_, rfl⟩

end FreeKeys

/-! ## 2. Runs -/

section Runs
variable {V : Type} {config : RedisConfig V} {isQueue : String → Prop} {db db' : RedisDb}
  {c : StoreContent V}

/-- One operation does what it should. -/
theorem Represents.run {op : RedisOp V} {out : Option V} (h : Represents config isQueue db c)
    (hchunk : ∀ key, isQueue key → ¬ IsChunkKey key) (hop : op.Legal isQueue)
    (hrun : op.run config db = some (db', out)) :
    out = some (c.run config.pyNone op).2 ∧
      Represents config isQueue db' (c.run config.pyNone op).1 := by
  cases op with
  | set key value draws =>
    obtain ⟨hout, hrep, -⟩ := h.set_ok hchunk hop.1 hop.2 hrun
    exact ⟨hout, hrep⟩
  | get key delete =>
    cases delete with
    | true =>
      obtain ⟨db'', hget, hrep, -⟩ := h.get_delete hchunk hop.1 hop.2
      rw [hget] at hrun
      obtain ⟨rfl, rfl⟩ := Prod.mk.inj (Option.some.inj hrun)
      exact ⟨rfl, hrep⟩
    | false =>
      rw [h.get_keep hop.1 hop.2] at hrun
      obtain ⟨rfl, rfl⟩ := Prod.mk.inj (Option.some.inj hrun)
      exact ⟨rfl, h⟩
  | queuePut key value draws =>
    obtain ⟨hout, hrep, -⟩ := h.queuePut_ok hchunk hop hrun
    exact ⟨hout, hrep⟩
  | queueGet key =>
    obtain ⟨db'', hget, hrep, -⟩ := h.queueGet_ok hchunk hop
    rw [hget] at hrun
    obtain ⟨rfl, rfl⟩ := Prod.mk.inj (Option.some.inj hrun)
    exact ⟨rfl, hrep⟩

/-- All operations of a run do what they should. -/
theorem Represents.runAll {ops : List (RedisOp V)} {outs : List (Option V)}
    (h : Represents config isQueue db c) (hchunk : ∀ key, isQueue key → ¬ IsChunkKey key)
    (hops : ∀ op ∈ ops, op.Legal isQueue) (hrun : RedisOp.runAll config db ops = some (db', outs)) :
    outs = (c.runAll config.pyNone ops).2.map some ∧
      Represents config isQueue db' (c.runAll config.pyNone ops).1 := by
  induction ops generalizing db c outs with
  | nil =>
    obtain ⟨rfl, rfl⟩ := Prod.mk.inj (Option.some.inj hrun)
    exact ⟨rfl, h⟩
  | cons op ops ih =>
    obtain ⟨⟨db₁, out⟩, hop, hrest⟩ := Option.bind_eq_some_iff.mp hrun
    obtain ⟨⟨db₂, outs'⟩, hall, heq⟩ := Option.map_eq_some_iff.mp hrest
    obtain ⟨rfl, rfl⟩ := Prod.mk.inj heq
    obtain ⟨hout, hrep⟩ := h.run hchunk (hops op List.mem_cons_self) hop
    obtain ⟨houts, hrep'⟩ := ih hrep (fun op' hop' => hops op' (List.mem_cons_of_mem _ hop')) hall
    exact ⟨congrArg₂ List.cons hout houts, hrep'⟩

theorem represents_empty : Represents config isQueue ⟨∅, ∅⟩ ⟨fun _ => none, fun _ => []⟩ where
  values _ _ _ := .none
  queues _ _ := .nil
  exclusive := by
    rintro o _ k ⟨b, ⟨-, hb⟩ | hb, -⟩
    · cases hb
    · cases hb
  valueKeys _ hk := absurd hk (Dict.not_mem_empty _)
  queueKeys _ hk := absurd hk (Dict.not_mem_empty _)

end Runs

/-- The chunked store, used by one client. The empty database represents the empty content. From
every database that represents a content:
- the operations of a run return what they should, and the database represents the content that
  they should lead to. There, a key holds the value of its last `set`, unless it was read with
  `delete` since then, and each queue has given its values in their order,
- an operation that finds its chunk keys is completed,
- reading with `delete` removes the key and the chunks of its value, and nothing else,
- reading without `delete` changes nothing. -/
theorem chunkedStore_correct {V : Type} (config : RedisConfig V) (isQueue : String → Prop)
    (hchunk : ∀ key, isQueue key → ¬ IsChunkKey key) :
    Represents config isQueue ⟨∅, ∅⟩ ⟨fun _ => none, fun _ => []⟩ ∧
    ∀ db c, Represents config isQueue db c →
      (∀ ops db' outs, (∀ op ∈ ops, RedisOp.Legal isQueue op) →
        RedisOp.runAll config db ops = some (db', outs) →
        outs = (c.runAll config.pyNone ops).2.map some ∧
        Represents config isQueue db' (c.runAll config.pyNone ops).1 ∧
        (∀ key, (c.runAll config.pyNone ops).1.values key =
          RedisOp.lastSet key (c.values key) ops) ∧
        ∀ key, c.queues key ++ ops.flatMap (RedisOp.put key) =
          StoreContent.takenAll config.pyNone key c ops ++
            (c.runAll config.pyNone ops).1.queues key) ∧
      (∀ op, RedisOp.FindsKeys config db op → ∃ r, RedisOp.run config db op = some r) ∧
      ∀ key, ¬ isQueue key → ¬ IsChunkKey key →
        (∃ db', RedisOp.run config db (.get key true) =
            some (db', some ((c.values key).getD config.pyNone)) ∧ db'.lists = db.lists ∧
          ∀ k, db'.strings.get? k =
            if k = key ∨ k ∈ chunksOf (db.strings.get? key) then none else db.strings.get? k) ∧
        RedisOp.run config db (.get key false) =
          some (db, some ((c.values key).getD config.pyNone)) := by
  refine ⟨represents_empty, fun db c h => ⟨fun ops db' outs hops hrun => ?_,
    fun op hop => run_total hop, fun key hkey hname => ⟨?_, h.get_keep hkey hname⟩⟩⟩
  · obtain ⟨houts, hrep⟩ := h.runAll hchunk hops hrun
    exact ⟨houts, hrep, fun key => c.values_runAll config.pyNone key ops,
      fun key => c.fifo_runAll config.pyNone key ops⟩
  · obtain ⟨db', hget, -, -, hlists, hgone⟩ := h.get_delete hchunk hkey hname
    exact ⟨db', hget, hlists, hgone⟩

/-- The pickles of `None`, `False` and `True`, of four bytes each, in chunks of two. -/
def flagConfig : RedisConfig (Option Bool) where
  dumps
    | none => [0x80, 4, 78, 46].map Char.ofNat
    | some false => [0x80, 4, 0x89, 46].map Char.ofNat
    | some true => [0x80, 4, 0x88, 46].map Char.ofNat
  loads value :=
    if value = [0x80, 4, 78, 46].map Char.ofNat then some none
    else if value = [0x80, 4, 0x89, 46].map Char.ofNat then some (some false)
    else if value = [0x80, 4, 0x88, 46].map Char.ofNat then some (some true)
    else none
  pyNone := none
  truthy v := decide (v = some true)
  chunkSize := 2
  loads_dumps v := by rcases v with _ | _ | _ <;> decide
  dumps_notMagic v := by rcases v with _ | _ | _ <;> decide
  pyNone_falsy := rfl
  chunkSize_pos := by decide

theorem IsChunkKey.head {key : String} (h : IsChunkKey key) : key.toList.head? = some 'c' := by
  obtain ⟨n, rfl⟩ := h
  rw [chunkKey, String.toList_append, List.head?_append]
  rfl

theorem flags_read : ∃ db outs, RedisOp.runAll flagConfig ⟨∅, ∅⟩
    [.set "task" (some true) [0, 1], .queuePut "analysis_task" (some false) [0, 1, 2, 3],
      .get "task" true, .queueGet "analysis_task"] = some (db, outs) ∧
    outs = [some none, some none, some (some true), some (some false)] := by
  have hrun : (RedisOp.runAll flagConfig ⟨∅, ∅⟩
      [.set "task" (some true) [0, 1], .queuePut "analysis_task" (some false) [0, 1, 2, 3],
        .get "task" true, .queueGet "analysis_task"]).isSome = true := by decide
  obtain ⟨⟨db, outs⟩, hsome⟩ := Option.isSome_iff_exists.mp hrun
  obtain ⟨hempty, hall⟩ := chunkedStore_correct flagConfig (· = "analysis_task")
    (fun key hkey hname => absurd hname.head (by rw [hkey]; decide))
  have hname : ¬ IsChunkKey "task" := fun h => absurd h.head (by decide)
  have htask : ¬ "task" = "analysis_task" := by decide
  refine ⟨db, outs, hsome, ((hall _ _ hempty).1 _ db outs ?_ hsome).1.trans (by decide)⟩
  exact List.forall_mem_cons.mpr ⟨⟨htask, hname⟩, List.forall_mem_cons.mpr ⟨rfl,
    List.forall_mem_cons.mpr ⟨⟨htask, hname⟩, List.forall_mem_singleton.mpr rfl⟩⟩⟩

end FactCore
