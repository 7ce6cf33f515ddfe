import FactCore.Lib.Run
import FactCore.Storage.ChunkedRuns

/-!
# Leaked chunks

The chunks that are stored should be those of the values that are stored. `set` writes
over the meta key of a value in chunks, and its chunks stay where they are: no value
names them, and their keys are not free again. All other operations keep the account.

Results:
1. `Represents.owned_set_iff`: a `set` keeps it when no chunks stand under the key.
2. `chunks_owned_iff`: the runs in which all chunks have an owner.
-/

namespace FactCore

/-! ## 1. The account -/

/-- The chunks that are stored and the chunks that are named by a stored value are the same, and
each is named by one value, once. -/
structure ChunksOwned (db : RedisDb) : Prop where
  present : ∀ k, IsChunkKey k → (db.exists? k = true ↔ ∃ o, Holds db o k)
  exclusive : Exclusive (Holds db)
  once : ∀ o b, BytesAt db o b → (references b).Nodup

/-- An operation on an application key that is completed. -/
def RedisStep {V : Type} (config : RedisConfig V) (isQueue : String → Prop) (db : RedisDb)
    (op : RedisOp V) (db' : RedisDb) : Prop :=
  op.Legal isQueue ∧ ∃ out, op.run config db = some (db', out)

/-- The operation does not write over a value that is stored in chunks. -/
def KeepsChunks {V : Type} (db : RedisDb) : RedisOp V → Prop
  | .set key _ _ => chunksOf (db.strings.get? key) = []
  | _ => True

section Account
variable {V : Type} {config : RedisConfig V} {isQueue : String → Prop} {db db' : RedisDb}
  {c : StoreContent V} {o : Owner} {key : String}

theorem Represents.exists?_iff (h : Represents config isQueue db c)
    (hchunk : ∀ key, isQueue key → ¬ IsChunkKey key) {k : String} (hk : IsChunkKey k) :
    db.exists? k = true ↔ k ∈ db.strings := by
  rw [RedisDb.exists?, decide_eq_true_eq]
  exact or_iff_left fun hlist => hchunk k (h.queueKeys k hlist) hk

/-- Only a chunk without an owner can be missing in the account. -/
theorem Represents.chunksOwned_iff (h : Represents config isQueue db c)
    (hchunk : ∀ key, isQueue key → ¬ IsChunkKey key) :
    ChunksOwned db ↔ ∀ k, IsChunkKey k → k ∈ db.strings → ∃ o, Holds db o k := by
  constructor
  · intro howned k hk hin
    exact (howned.present k hk).mp ((h.exists?_iff hchunk hk).mpr hin)
  · intro howned
    refine ⟨fun k hk => ?_, h.exclusive, fun o b hb => ?_⟩
    · rw [h.exists?_iff hchunk hk]
      exact ⟨howned k hk, fun ⟨o, ho⟩ => (h.mem_of_holds ho).1⟩
    · obtain ⟨v, henc⟩ := h.encodes hb
      exact henc.references_nodup

/-- A value that is put at a free place keeps the account, and only there. -/
theorem owned_placed_iff {refs : List String} (hplaced : ChunksPlaced db db' o refs)
    (hnames : ∀ k, Holds db o k → IsChunkKey k ∧ k ∈ db.strings)
    (howned : ∀ k, IsChunkKey k → k ∈ db.strings → ∃ o, Holds db o k)
    (hexcl : Exclusive (Holds db)) :
    (∀ k, IsChunkKey k → k ∈ db'.strings → ∃ o', Holds db' o' k) ↔ ∀ k, ¬ Holds db o k := by
  constructor
  · intro hall k hk
    obtain ⟨hname, hin⟩ := hnames k hk
    obtain ⟨o', ho'⟩ := hall k hname ((hplaced.chunks k hname).mpr (.inr hin))
    rcases Classical.em (o' = o) with rfl | hne
    · exact hplaced.fresh k ((hplaced.self k).mp ho') hin
    · exact hne (hexcl o' o k ((hplaced.others o' k hne).mp ho') hk)
  · intro hfree k hname hin
    rcases (hplaced.chunks k hname).mp hin with hnew | hold
    · exact ⟨o, (hplaced.self k).mpr hnew⟩
    · obtain ⟨o', ho'⟩ := howned k hname hold
      have hne : o' ≠ o := fun heq => hfree k (heq ▸ ho')
      exact ⟨o', (hplaced.others o' k hne).mpr ho'⟩

theorem owned_freed (hfreed : ChunksFreed db db' o)
    (howned : ∀ k, IsChunkKey k → k ∈ db.strings → ∃ o, Holds db o k) :
    ∀ k, IsChunkKey k → k ∈ db'.strings → ∃ o', Holds db' o' k := by
  intro k hname hin
  obtain ⟨hold, hnot⟩ := hfreed.chunks k hname hin
  obtain ⟨o', ho'⟩ := howned k hname hold
  exact hfreed.kept o' k (fun heq => hnot (heq ▸ ho')) ho'

theorem chunksOf_eq_nil_iff (hname : ¬ IsChunkKey key) :
    chunksOf (db.strings.get? key) = [] ↔ ∀ k, ¬ Holds db (.value key) k := by
  rw [List.eq_nil_iff_forall_not_mem]
  exact forall_congr' fun k => not_congr (holds_value_iff hname).symm

end Account

/-! ## 2. Runs -/

section Runs
variable {V : Type} {config : RedisConfig V} {isQueue : String → Prop} {db db' : RedisDb}
  {c : StoreContent V}

/-- One operation keeps the account exactly if it does not write over chunks. -/
theorem Represents.owned_step_iff {op : RedisOp V} (h : Represents config isQueue db c)
    (hchunk : ∀ key, isQueue key → ¬ IsChunkKey key) (howned : ChunksOwned db)
    (hstep : RedisStep config isQueue db op db') :
    (∃ c', Represents config isQueue db' c') ∧ (ChunksOwned db' ↔ KeepsChunks db op) := by
  obtain ⟨hop, out, hrun⟩ := hstep
  have howned' := (h.chunksOwned_iff hchunk).mp howned
  have hnames : ∀ o k, Holds db o k → IsChunkKey k ∧ k ∈ db.strings :=
    fun o k hk => (h.mem_of_holds hk).symm
  cases op with
  | set key value draws =>
    obtain ⟨-, hrep, refs, hplaced⟩ := h.set_ok hchunk hop.1 hop.2 hrun
    refine ⟨⟨_, hrep⟩, ?_⟩
    rw [hrep.chunksOwned_iff hchunk, owned_placed_iff hplaced (hnames _) howned' h.exclusive]
    exact (chunksOf_eq_nil_iff hop.2).symm
  | queuePut key value draws =>
    obtain ⟨-, hrep, refs, hplaced⟩ := h.queuePut_ok hchunk hop hrun
    refine ⟨⟨_, hrep⟩, iff_of_true ?_ trivial⟩
    rw [hrep.chunksOwned_iff hchunk, owned_placed_iff hplaced (hnames _) howned' h.exclusive]
    -- the place at the end of the queue is new
    intro k hk
    obtain ⟨b, hb, -⟩ := holds_item.mp hk
    rw [List.getElem?_eq_none (Nat.le_refl _)] at hb
    cases hb
  | get key delete =>
    cases delete with
    | true =>
      obtain ⟨db'', hget, hrep, hfreed, -⟩ := h.get_delete hchunk hop.1 hop.2
      rw [hget] at hrun
      obtain ⟨rfl, -⟩ := Prod.mk.inj (Option.some.inj hrun)
      exact ⟨⟨_, hrep⟩,
        iff_of_true ((hrep.chunksOwned_iff hchunk).mpr (owned_freed hfreed howned')) trivial⟩
    | false =>
      rw [h.get_keep hop.1 hop.2] at hrun
      obtain ⟨rfl, -⟩ := Prod.mk.inj (Option.some.inj hrun)
      exact ⟨⟨c, h⟩, iff_of_true howned trivial⟩
  | queueGet key =>
    obtain ⟨db'', hget, hrep, hfreed⟩ := h.queueGet_ok hchunk hop
    rw [hget] at hrun
    obtain ⟨rfl, -⟩ := Prod.mk.inj (Option.some.inj hrun)
    exact ⟨⟨_, hrep⟩,
      iff_of_true ((hrep.chunksOwned_iff hchunk).mpr (owned_freed hfreed howned')) trivial⟩

theorem RedisStep.unique {op : RedisOp V} {db₁ db₂ : RedisDb}
    (h₁ : RedisStep config isQueue db op db₁) (h₂ : RedisStep config isQueue db op db₂) :
    db₁ = db₂ := by
  obtain ⟨-, out₁, hrun₁⟩ := h₁
  obtain ⟨-, out₂, hrun₂⟩ := h₂
  exact (Prod.mk.inj (Option.some.inj (hrun₁.symm.trans hrun₂))).1

theorem chunksOwned_empty (hchunk : ∀ key, isQueue key → ¬ IsChunkKey key)
    (config : RedisConfig V) : ChunksOwned ⟨∅, ∅⟩ := by
  have hempty : Represents config isQueue ⟨∅, ∅⟩ ⟨fun _ => none, fun _ => []⟩ := represents_empty
  exact (hempty.chunksOwned_iff hchunk).mpr fun k _ hin => absurd hin (Dict.not_mem_empty k)

end Runs

/-- In a run from the empty database, chunks and owners agree in every state exactly if no `set`
of the run writes over a value that is stored in chunks. -/
theorem chunks_owned_iff {V : Type} {config : RedisConfig V} {isQueue : String → Prop}
    {ops : List (RedisOp V)} {db : RedisDb} (hchunk : ∀ key, isQueue key → ¬ IsChunkKey key)
    (hrun : Run (RedisStep config isQueue) ⟨∅, ∅⟩ ops db) :
    (∀ pre suf m, ops = pre ++ suf → Run (RedisStep config isQueue) ⟨∅, ∅⟩ pre m →
      ChunksOwned m) ↔
      Run (Restrict KeepsChunks (RedisStep config isQueue)) ⟨∅, ∅⟩ ops db := by
  have hrep : ∀ pre m, Run (RedisStep config isQueue) ⟨∅, ∅⟩ pre m →
      ∃ c, Represents config isQueue m c := by
    intro pre m hpre
    refine hpre.invariant (I := fun m => ∃ c, Represents config isQueue m c) ?_
      ⟨_, represents_empty⟩
    rintro _ op _ ⟨c, h⟩ ⟨hlegal, out, hout⟩
    exact ⟨_, (h.run hchunk hlegal hout).2⟩
  have hstep : ∀ (_ : List (RedisOp V)) m op m',
      (∃ c, Represents config isQueue m c) ∧ ChunksOwned m → RedisStep config isQueue m op m' →
      ((∃ c, Represents config isQueue m' c) ∧ ChunksOwned m' ↔ KeepsChunks m op) := by
    rintro _ m op m' ⟨⟨c, h⟩, howned⟩ hop
    obtain ⟨hrep', hkeeps⟩ := h.owned_step_iff hchunk howned hop
    exact (and_iff_right hrep').trans hkeeps
  have hdet : ∀ m op m₁ m₂, RedisStep config isQueue m op m₁ → RedisStep config isQueue m op m₂ →
      m₁ = m₂ := fun _ _ _ _ => RedisStep.unique
  have hiff := Run.forall_prefix_iff
    (fun _ m => (∃ c, Represents config isQueue m c) ∧ ChunksOwned m) [] hdet hstep
    ⟨⟨_, represents_empty⟩, chunksOwned_empty hchunk config⟩ hrun
  refine Iff.trans ⟨fun h pre suf m hops hpre => ?_, fun h pre suf m hops hpre => ?_⟩ hiff
  · exact ⟨hrep pre m hpre, h pre suf m hops hpre⟩
  · exact (h pre suf m hops hpre).2

/-! ## 3. Two runs -/

theorem analysisTask_notChunkKey (key : String) (h : key = "analysis_task") : ¬ IsChunkKey key :=
  fun hname => absurd hname.head (by rw [h]; decide)

theorem task_isValueKey : ¬ "task" = "analysis_task" ∧ ¬ IsChunkKey "task" :=
  ⟨by decide, fun hname => absurd hname.head (by decide)⟩

/-- `True` under one key, in two chunks. -/
def flagStored : RedisDb where
  strings := .ofList [("chunk_0", [0x80, 4].map Char.ofNat), ("chunk_1", [0x88, 46].map Char.ofNat),
    ("task", metaKey ["chunk_0", "chunk_1"])]
  lists := ∅

theorem flagStored_step : RedisStep flagConfig (· = "analysis_task") ⟨∅, ∅⟩
    (.set "task" (some true) [0, 1]) flagStored :=
  ⟨task_isValueKey, some none, rfl⟩

/-- A value that is read with `delete` leaves no chunks. -/
theorem read_flag_owned : ∃ db, Run (RedisStep flagConfig (· = "analysis_task")) ⟨∅, ∅⟩
    [.set "task" (some true) [0, 1], .get "task" true] db ∧ ChunksOwned db := by
  have hset : Restrict KeepsChunks (RedisStep flagConfig (· = "analysis_task")) ⟨∅, ∅⟩
      (.set "task" (some true) [0, 1]) flagStored := ⟨rfl, flagStored_step⟩
  have hget : Restrict KeepsChunks (RedisStep flagConfig (· = "analysis_task")) flagStored
      (.get "task" true) _ := ⟨trivial, task_isValueKey, _, rfl⟩
  have hrun := Run.cons hset (.cons hget (.nil _))
  exact ⟨_, hrun.of_restrict, (chunks_owned_iff analysisTask_notChunkKey hrun.of_restrict).mpr hrun
    _ [] _ (List.append_nil _).symm hrun.of_restrict⟩

/-- A value in two chunks is written over: its chunks stay. -/
theorem overwritten_chunks_leak :
    ¬ ∀ (V : Type) (config : RedisConfig V) (isQueue : String → Prop) (ops : List (RedisOp V))
        (db : RedisDb), (∀ key, isQueue key → ¬ IsChunkKey key) →
      Run (RedisStep config isQueue) ⟨∅, ∅⟩ ops db → ChunksOwned db := by
  intro h
  have hall := fun ops db => h (Option Bool) flagConfig (· = "analysis_task") ops db
    analysisTask_notChunkKey
  have hagain : RedisStep flagConfig (· = "analysis_task") flagStored
      (.set "task" (some false) [2, 3]) _ := ⟨task_isValueKey, _, rfl⟩
  obtain ⟨hlegal, out, hout⟩ := flagStored_step
  obtain ⟨-, hrep⟩ := represents_empty.run analysisTask_notChunkKey hlegal hout
  obtain ⟨-, hiff⟩ := hrep.owned_step_iff analysisTask_notChunkKey
    (hall _ _ (.cons flagStored_step (.nil _))) hagain
  have hchunks : chunksOf (flagStored.strings.get? "task") ≠ [] := by decide
  exact hchunks (hiff.mp (hall _ _ (.cons flagStored_step (.cons hagain (.nil _)))))

end FactCore
