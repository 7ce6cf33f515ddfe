import FactCore.Lib.Run
import FactCore.Storage.RedisInterface

/-!
# Requests to the backend

The front end puts a request into a queue of Redis and polls for the response under
the id of the request (`src/src/intercom/front_end_binding.py`). A responder of the
backend takes the request and stores its response there
(`src/src/intercom/common_redis_binding.py`). This is one call, from the request to the
return of the front end, in steps of Redis; other clients use Redis at the same time.

A poll deletes what it reads, and the loop goes on unless what it has read is true. So
a response that is false gets lost in the next poll, and one that is stored after the
last poll is never read.

Results:
1. `CallInv.step`: the call up to the response.
2. `PolledInv.step`: the polls after it.
3. `delivered_iff`: when the response is returned and nothing of it is left.
4. `empty_response_lost`: a call whose response is the empty string.
-/

namespace FactCore

/-! ## 1. A call -/

/-- A digit of a digest. -/
def isHexDigit (c : Char) : Bool := c.isDigit || (decide ('a' ≤ c) && decide (c ≤ 'f'))

/-- What `generate_task_id` makes: a SHA-256 digest and a time. -/
structure TaskId where
  digest : String
  time : String
  isHex : digest.toList.all isHexDigit = true
  length : digest.toList.length = 64

/-- The key of a request in Redis. -/
def TaskId.key (id : TaskId) : String := digest id ++ "_" ++ time id

/-- The loop of `_response_listener`, with its `output_data`. -/
inductive FrontEnd (V : Type)
  | polling (outputData : V)
  | returned (outputData : V)
  /-- An exception has left the call. -/
  | raised

/-- The responder, with its response and the chunks it still has to store. -/
inductive Responder (V : Type)
  | working
  | storing (response : V) (chunks : List Bytes)
  | stored (response : V)

/-- The state of a call. `chunkKeys` names the chunks of the response that are in Redis. -/
structure CallState (V : Type) where
  redis : Redis
  frontEnd : FrontEnd V
  responder : Responder V
  chunkKeys : List String

/-- A command of another client. -/
inductive RedisCommand
  | set (key : String) (value : Bytes)
  | delete (key : String)

def RedisCommand.key : RedisCommand → String
  | .set key _ => key
  | .delete key => key

def RedisCommand.run (redis : Redis) : RedisCommand → Redis
  | .set key value => redis.set key value
  | .delete key => redis.erase key

/-- What can happen during a call. -/
inductive CallEvent (V : Type)
  /-- One round of the loop. -/
  | poll
  /-- The time is up. -/
  | timeout
  /-- `get_response` is done. -/
  | respond (response : V)
  /-- The next chunk is stored, under the number that was drawn. -/
  | storeChunk (n : Nat)
  /-- The meta key is stored. -/
  | storeMeta
  | other (command : RedisCommand)

def CallEvent.isPoll {V : Type} : CallEvent V → Bool
  | .poll => true
  | _ => false

section Calls
variable {V : Type}

/-- One round of the loop. -/
def CallState.pollOnce (config : RedisConfig V) (id : TaskId) (s : CallState V) : CallState V :=
  let popped := s.redis.popValue config id.key
  { s with
    redis := popped.1
    frontEnd := match popped.2 with
      | none => .raised
      | some outputData =>
        if config.truthy outputData then .returned outputData else .polling outputData
    chunkKeys := s.chunkKeys.filter fun key => decide (key ∈ popped.1) }

/-- `RedisInterface.set`, up to the first chunk. -/
def CallState.startResponse (config : RedisConfig V) (id : TaskId) (s : CallState V) (response : V) :
    CallState V :=
  if (config.dumps response).length > config.chunkSize then
    let chunks := splitIntoChunks config.chunkSize (config.dumps response)
    { s with responder := .storing response chunks }
  else
    { s with
      redis := s.redis.set id.key (config.dumps response)
      responder := .stored response }

/-- The step relation. -/
inductive CallStep (config : RedisConfig V) (id : TaskId) :
    CallState V → CallEvent V → CallState V → Prop
  | poll {s : CallState V} {outputData : V} : s.frontEnd = .polling outputData →
      CallStep config id s .poll (s.pollOnce config id)
  | timeout {s : CallState V} {outputData : V} : s.frontEnd = .polling outputData →
      CallStep config id s .timeout { s with frontEnd := .returned outputData }
  | respond {s : CallState V} (response : V) : s.responder = .working →
      CallStep config id s (.respond response) (s.startResponse config id response)
  | storeChunk {s : CallState V} {response : V} {chunk : Bytes} {chunks : List Bytes} (n : Nat) :
      s.responder = .storing response (chunk :: chunks) → n ≤ 9999 → chunkKey n ∉ s.redis →
      CallStep config id s (.storeChunk n)
        { s with
          redis := s.redis.set (chunkKey n) chunk
          responder := .storing response chunks
          chunkKeys := s.chunkKeys ++ [chunkKey n] }
  | storeMeta {s : CallState V} {response : V} : s.responder = .storing response [] →
      CallStep config id s .storeMeta
        { s with
          redis := s.redis.set id.key (metaKey s.chunkKeys)
          responder := .stored response }
  | other {s : CallState V} (command : RedisCommand) :
      CallStep config id s (.other command) { s with redis := command.run s.redis }

/-- The request has been sent. -/
structure CallState.Sent (config : RedisConfig V) (id : TaskId) (s : CallState V) : Prop where
  noEntry : id.key ∉ s.redis
  polling : s.frontEnd = .polling config.pyNone
  working : s.responder = .working
  noChunks : s.chunkKeys = []

/-- The front end has returned the response, and no entry for the request is left. -/
structure Delivered (id : TaskId) (s : CallState V) (response : V) : Prop where
  returned : s.frontEnd = .returned response
  noEntry : id.key ∉ s.redis
  noChunks : s.chunkKeys = []

/-- The other clients keep away from the keys of the call. -/
def KeepsApart (id : TaskId) (s : CallState V) : CallEvent V → Prop
  | .other command => command.key ≠ id.key ∧ command.key ∉ s.chunkKeys
  | _ => True

/-! ## 2. Up to the response -/

/-- The front end has read nothing so far. -/
def CallState.ReadNothing (config : RedisConfig V) (s : CallState V) : Prop :=
  s.frontEnd = .polling config.pyNone ∨ s.frontEnd = .returned config.pyNone

/-- What the responder has stored. -/
def ResponderInv (config : RedisConfig V) (s : CallState V) : Responder V → Prop
  | .working => s.chunkKeys = []
  | .storing response chunks => ∃ done,
      List.Forall₂ (fun k chunk => s.redis.get? k = some chunk) s.chunkKeys done ∧
        (done ++ chunks).flatten = config.dumps response
  | .stored _ => False

/-- The invariant up to the response. -/
structure CallInv (config : RedisConfig V) (id : TaskId) (s : CallState V) : Prop where
  noEntry : id.key ∉ s.redis
  readNothing : s.ReadNothing config
  nodup : s.chunkKeys.Nodup
  names : ∀ k ∈ s.chunkKeys, ∃ n, k = chunkKey n
  responder : ResponderInv config s s.responder

theorem TaskId.key_ne_chunkKey (id : TaskId) (n : Nat) : id.key ≠ chunkKey n := by
  intro heq
  have hlist := congrArg String.toList heq
  unfold TaskId.key chunkKey at hlist
  rw [String.toList_append, String.toList_append, String.toList_append] at hlist
  have hlen := id.length
  have hhex := id.isHex
  revert hlist hlen hhex
  generalize id.digest.toList = digest
  intro hlist hlen hhex
  match digest, hlen with
  | c :: c' :: rest, _ =>
    -- the second character of a digest is no `h`
    have hchunk : "chunk_".toList = ['c', 'h', 'u', 'n', 'k', '_'] := by decide
    simp only [hchunk, List.cons_append, List.cons.injEq] at hlist
    have hdigit := List.all_eq_true.mp hhex c' (List.mem_cons_of_mem c List.mem_cons_self)
    rw [hlist.2.1] at hdigit
    revert hdigit
    decide

variable {config : RedisConfig V} {id : TaskId} {s s1 s2 s' : CallState V} {e : CallEvent V}
  {events : List (CallEvent V)} {response : V}

/-- A command of another client changes nothing but its key. -/
theorem get?_run_of_ne {redis : Redis} {command : RedisCommand} {k : String}
    (h : command.key ≠ k) : (command.run redis).get? k = redis.get? k := by
  cases command with
  | set key value => exact Dict.get?_set_of_ne _ (Ne.symm h)
  | delete key => exact (Dict.get?_erase _ _ _).trans (if_neg (Ne.symm h))

theorem mem_redis_of_chunks {keys : List String} {chunks : List Bytes} {redis : Redis}
    (h : List.Forall₂ (fun k chunk => redis.get? k = some chunk) keys chunks) :
    ∀ k ∈ keys, k ∈ redis := by
  induction h with
  | nil => exact fun k hk => absurd hk List.not_mem_nil
  | cons hkey _ ih =>
    intro k hk
    rcases List.mem_cons.mp hk with rfl | hk
    · exact Dict.mem_of_get? hkey
    · exact ih k hk

namespace CallInv

/-- The chunks are in Redis. -/
theorem mem_redis (h : CallInv config id s) : ∀ k ∈ s.chunkKeys, k ∈ s.redis := by
  have hresp := h.responder
  cases hr : s.responder with
  | working =>
    rw [hr] at hresp
    have hresp : s.chunkKeys = [] := hresp
    rw [hresp]
    exact fun k hk => absurd hk List.not_mem_nil
  | storing response chunks =>
    rw [hr] at hresp
    obtain ⟨done, hdone, -⟩ := hresp
    exact mem_redis_of_chunks hdone
  | stored response =>
    rw [hr] at hresp
    exact hresp.elim

/-- A store that agrees on the keys of the call. -/
theorem congr {redis : Redis} (h : CallInv config id s) (hkey : id.key ∉ redis)
    (hsame : ∀ k ∈ s.chunkKeys, redis.get? k = s.redis.get? k) {frontEnd : FrontEnd V}
    (hnothing : frontEnd = .polling config.pyNone ∨ frontEnd = .returned config.pyNone) :
    CallInv config id { s with redis := redis, frontEnd := frontEnd } where
  noEntry := hkey
  readNothing := hnothing
  nodup := h.nodup
  names := h.names
  responder := by
    have hresp := h.responder
    show ResponderInv config _ s.responder
    cases hr : s.responder with
    | working => rwa [hr] at hresp
    | storing response chunks =>
      rw [hr] at hresp
      obtain ⟨done, hdone, hjoined⟩ := hresp
      exact ⟨done, chunks_congr hdone hsame, hjoined⟩
    | stored response => rwa [hr] at hresp

/-- A poll before the response reads nothing. -/
theorem poll (h : CallInv config id s) : CallInv config id (s.pollOnce config id) := by
  obtain ⟨hnone, hsame⟩ := @popValue_of_not_mem V config s.redis id.key h.noEntry
  have hkept : s.chunkKeys.filter
      (fun key => decide (key ∈ (s.redis.popValue config id.key).1)) = s.chunkKeys := by
    refine List.filter_eq_self.mpr fun k hk => decide_eq_true ?_
    rw [Dict.mem_iff, hsame, ← Dict.mem_iff]
    exact h.mem_redis k hk
  have hno : id.key ∉ (s.redis.popValue config id.key).1 := by
    rw [Dict.mem_iff, hsame, ← Dict.mem_iff]
    exact h.noEntry
  have hfront : (s.pollOnce config id).frontEnd = .polling config.pyNone := by
    unfold CallState.pollOnce
    simp only [hnone, config.pyNone_falsy, Bool.false_eq_true, if_false]
  have hpolled := h.congr hno (fun k _ => hsame k) (.inl hfront)
  unfold CallState.pollOnce at hpolled ⊢
  simp only [hkept]
  exact hpolled

/-- The responder starts with its response: it stores it in one piece, or splits it. -/
theorem respond (h : CallInv config id s) (hwork : s.responder = .working) (response : V) :
    CallInv config id (s.startResponse config id response) ∨
      ((s.startResponse config id response).responder = .stored response ∧
        StoredUnder config (s.startResponse config id response).redis id.key response
          (s.startResponse config id response).chunkKeys) := by
  have hresp := h.responder
  rw [hwork] at hresp
  have hnone : s.chunkKeys = [] := hresp
  unfold CallState.startResponse
  split
  · refine .inl ⟨h.noEntry, h.readNothing, h.nodup, h.names, [], ?_, ?_⟩
    · show List.Forall₂ _ s.chunkKeys []
      rw [hnone]
      exact .nil
    · exact flatten_splitIntoChunks config.chunkSize_pos _
  · refine .inr ⟨rfl, ?_⟩
    show StoredUnder config _ id.key response s.chunkKeys
    rw [hnone]
    exact .whole (Dict.get?_set_self _ _ _)

/-- The next chunk is stored under a new key. -/
theorem storeChunk (h : CallInv config id s) {chunk : Bytes} {chunks : List Bytes} {n : Nat}
    (hstoring : s.responder = .storing response (chunk :: chunks)) (hnew : chunkKey n ∉ s.redis) :
    CallInv config id { s with
      redis := s.redis.set (chunkKey n) chunk
      responder := .storing response chunks
      chunkKeys := s.chunkKeys ++ [chunkKey n] } where
  noEntry hmem := (Dict.mem_set.mp hmem).elim (id.key_ne_chunkKey n) h.noEntry
  readNothing := h.readNothing
  nodup := by
    refine List.nodup_append.mpr ⟨h.nodup, List.nodup_singleton _, fun k hk k' hk' heq => ?_⟩
    rw [List.mem_singleton.mp hk'] at heq
    exact hnew (heq ▸ h.mem_redis k hk)
  names k hk := by
    rcases List.mem_append.mp hk with hk | hk
    · exact h.names k hk
    · exact ⟨n, List.mem_singleton.mp hk⟩
  responder := by
    have hresp := h.responder
    rw [hstoring] at hresp
    obtain ⟨done, hdone, hjoined⟩ := hresp
    refine ⟨done ++ [chunk], List.rel_append (chunks_congr hdone fun k hk => ?_)
      (.cons (Dict.get?_set_self _ _ _) .nil), ?_⟩
    · exact Dict.get?_set_of_ne _ fun heq => hnew (heq ▸ h.mem_redis k hk)
    · rw [List.append_assoc]
      exact hjoined

/-- The meta key is stored. -/
theorem storeMeta (h : CallInv config id s) (hstoring : s.responder = .storing response []) :
    StoredUnder config (s.redis.set id.key (metaKey s.chunkKeys)) id.key response s.chunkKeys := by
  have hresp := h.responder
  rw [hstoring] at hresp
  obtain ⟨done, hdone, hjoined⟩ := hresp
  rw [List.append_nil] at hjoined
  have hnot : id.key ∉ s.chunkKeys := fun hmem => h.noEntry (h.mem_redis _ hmem)
  exact .chunks (Dict.get?_set_self _ _ _) (chunks_congr hdone fun k hk =>
    Dict.get?_set_of_ne _ fun heq => hnot (heq ▸ hk)) hjoined h.nodup hnot h.names

/-- A step before the response is stored, or the one that stores it. -/
theorem step (h : CallInv config id s) (hst : CallStep config id s e s')
    (hapart : KeepsApart id s e) : CallInv config id s' ∨
      ∃ response, s'.responder = .stored response ∧
        StoredUnder config s'.redis id.key response s'.chunkKeys ∧ s'.frontEnd = s.frontEnd := by
  cases hst with
  | poll => exact .inl h.poll
  | @timeout outputData hpoll =>
    -- what was read last is `None`
    rcases h.readNothing with hnothing | hnothing
    · obtain rfl := FrontEnd.polling.inj (hpoll.symm.trans hnothing)
      exact .inl (h.congr h.noEntry (fun _ _ => rfl) (.inr rfl))
    · cases hpoll.symm.trans hnothing
  | respond response hwork =>
    refine (h.respond hwork response).imp_right fun ⟨hstored, hunder⟩ =>
      ⟨response, hstored, hunder, ?_⟩
    unfold CallState.startResponse
    split <;> rfl
  | storeChunk n hstoring _ hnew => exact .inl (h.storeChunk hstoring hnew)
  | @storeMeta response hstoring => exact .inr ⟨response, rfl, h.storeMeta hstoring, rfl⟩
  | other command =>
    obtain ⟨hkey, hchunks⟩ := hapart
    refine .inl (h.congr ?_ (fun k hk => get?_run_of_ne fun heq => hchunks (heq ▸ hk))
      h.readNothing)
    rw [Dict.mem_iff, get?_run_of_ne hkey, ← Dict.mem_iff]
    exact h.noEntry

end CallInv

/-! ## 3. The polls after the response -/

/-- What the polls since the response have done: the first one reads it, and if it is false, the
next one reads nothing again. -/
def PolledInv (config : RedisConfig V) (id : TaskId) (response : V) (s : CallState V) :
    Nat → Prop
  | 0 => StoredUnder config s.redis id.key response s.chunkKeys ∧ s.ReadNothing config
  | 1 => (id.key ∉ s.redis ∧ s.chunkKeys = []) ∧
      (s.frontEnd = .returned response ∨
        (config.truthy response = false ∧ s.frontEnd = .polling response))
  | _ + 2 => (id.key ∉ s.redis ∧ s.chunkKeys = []) ∧ config.truthy response = false ∧
      s.ReadNothing config

namespace PolledInv

variable {n : Nat}

theorem gone (h : PolledInv config id response s n) (hn : n ≠ 0) :
    id.key ∉ s.redis ∧ s.chunkKeys = [] := by
  match n, hn with
  | 1, _ => exact h.1
  | n + 2, _ => exact h.1

/-- The first poll reads the response and deletes it. -/
theorem firstPoll (h : PolledInv config id response s 0) :
    PolledInv config id response (s.pollOnce config id) 1 := by
  obtain ⟨hstored, -⟩ := h
  obtain ⟨hread, hgone⟩ := popValue_of_storedUnder hstored
  have hno : ∀ k, k = id.key ∨ k ∈ s.chunkKeys → k ∉ (s.redis.popValue config id.key).1 := by
    intro k hk
    rw [Dict.mem_iff, hgone, if_pos hk]
    rintro ⟨v, hv⟩
    cases hv
  refine ⟨⟨hno _ (.inl rfl), ?_⟩, ?_⟩
  · refine List.filter_eq_nil_iff.mpr fun k hk hin => ?_
    exact hno k (.inr hk) (of_decide_eq_true hin)
  · unfold CallState.pollOnce
    simp only [hread]
    cases config.truthy response with
    | true => exact .inl rfl
    | false => exact .inr ⟨rfl, rfl⟩

/-- A later poll reads nothing. -/
theorem laterPoll {outputData : V} (h : PolledInv config id response s (n + 1))
    (hpoll : s.frontEnd = .polling outputData) :
    PolledInv config id response (s.pollOnce config id) (n + 2) := by
  obtain ⟨hno, hchunks⟩ := h.gone (Nat.succ_ne_zero n)
  obtain ⟨hread, hsame⟩ := @popValue_of_not_mem V config s.redis id.key hno
  have hfalse : config.truthy response = false := by
    match n, h with
    | 0, h =>
      rcases h.2 with hreturned | ⟨hfalse, -⟩
      · cases hpoll.symm.trans hreturned
      · exact hfalse
    | n + 1, h => exact h.2.1
  refine ⟨⟨?_, ?_⟩, hfalse, .inl ?_⟩
  · show id.key ∉ (s.redis.popValue config id.key).1
    rw [Dict.mem_iff, hsame, ← Dict.mem_iff]
    exact hno
  · show s.chunkKeys.filter _ = []
    rw [hchunks]
    rfl
  · unfold CallState.pollOnce
    simp only [hread, config.pyNone_falsy, Bool.false_eq_true, if_false]

theorem timeout {outputData : V} (h : PolledInv config id response s n)
    (hpoll : s.frontEnd = .polling outputData) :
    PolledInv config id response { s with frontEnd := .returned outputData } n := by
  have hnothing : s.ReadNothing config → outputData = config.pyNone := by
    rintro (hnothing | hnothing)
    · exact FrontEnd.polling.inj (hpoll.symm.trans hnothing)
    · cases hpoll.symm.trans hnothing
  match n, h with
  | 0, h =>
    obtain rfl := hnothing h.2
    exact ⟨h.1, .inr rfl⟩
  | 1, h =>
    rcases h.2 with hreturned | ⟨-, hpolling⟩
    · cases hpoll.symm.trans hreturned
    · obtain rfl := FrontEnd.polling.inj (hpoll.symm.trans hpolling)
      exact ⟨h.1, .inl rfl⟩
  | n + 2, h =>
    obtain rfl := hnothing h.2.2
    exact ⟨h.1, h.2.1, .inr rfl⟩

theorem other {command : RedisCommand} (h : PolledInv config id response s n)
    (hkey : command.key ≠ id.key) (hchunks : command.key ∉ s.chunkKeys) :
    PolledInv config id response { s with redis := command.run s.redis } n := by
  have hgone : n ≠ 0 → id.key ∉ command.run s.redis ∧ s.chunkKeys = [] := by
    intro hn
    obtain ⟨hno, hnil⟩ := h.gone hn
    refine ⟨?_, hnil⟩
    rw [Dict.mem_iff, get?_run_of_ne hkey, ← Dict.mem_iff]
    exact hno
  match n, h with
  | 0, h =>
    exact ⟨h.1.congr (get?_run_of_ne hkey) fun k hk => get?_run_of_ne fun heq =>
      hchunks (heq ▸ hk), h.2⟩
  | 1, h => exact ⟨hgone (Nat.succ_ne_zero 0), h.2⟩
  | n + 2, h => exact ⟨hgone (Nat.succ_ne_zero _), h.2⟩

/-- A step after the response was stored. -/
theorem step (h : PolledInv config id response s n) (hstored : s.responder = .stored response)
    (hst : CallStep config id s e s') (hapart : KeepsApart id s e) :
    s'.responder = .stored response ∧
      PolledInv config id response s' (n + if e.isPoll then 1 else 0) := by
  cases hst with
  | poll hpoll =>
    refine ⟨hstored, ?_⟩
    show PolledInv config id response _ (n + 1)
    cases n with
    | zero => exact h.firstPoll
    | succ n => exact h.laterPoll hpoll
  | timeout hpoll => exact ⟨hstored, h.timeout hpoll⟩
  | respond response hwork => cases hstored.symm.trans hwork
  | storeChunk n hstoring => cases hstored.symm.trans hstoring
  | storeMeta hstoring => cases hstored.symm.trans hstoring
  | other command => exact ⟨hstored, h.other hapart.1 hapart.2⟩

/-- All steps after the response was stored. -/
theorem run (h : PolledInv config id response s n) (hstored : s.responder = .stored response)
    (hrun : Run (Restrict (KeepsApart id) (CallStep config id)) s events s') :
    PolledInv config id response s' (n + events.countP CallEvent.isPoll) := by
  induction hrun generalizing n with
  | nil => exact h
  | @cons s s1 _ e events hst _ ih =>
    obtain ⟨hstored', h'⟩ := h.step hstored hst.2 hst.1
    have hlast := ih h' hstored'
    rw [List.countP_cons, Nat.add_comm (List.countP _ _), ← Nat.add_assoc]
    exact hlast

end PolledInv

/-- A stored response stays stored. -/
theorem CallStep.stored (h : CallStep config id s e s') (hstored : s.responder = .stored response) :
    s'.responder = .stored response := by
  cases h with
  | poll => exact hstored
  | timeout => exact hstored
  | respond response hwork => cases hstored.symm.trans hwork
  | storeChunk n hstoring => cases hstored.symm.trans hstoring
  | storeMeta hstoring => cases hstored.symm.trans hstoring
  | other command => exact hstored

/-- All steps before the response is stored. -/
theorem CallInv.run (h : CallInv config id s)
    (hrun : Run (Restrict (KeepsApart id) (CallStep config id)) s events s')
    (hnotYet : ∀ v, s'.responder ≠ .stored v) : CallInv config id s' := by
  induction hrun with
  | nil => exact h
  | cons hst hrest ih =>
    rcases h.step hst.2 hst.1 with hnext | ⟨response, hstored, -⟩
    · exact ih hnext hnotYet
    · have hlast := hrest.invariant (I := fun t => t.responder = .stored response)
        (fun _ _ _ hs hst' => hst'.2.stored hs) hstored
      exact absurd hlast (hnotYet response)

/-- The request was sent and nothing is stored yet. -/
theorem CallState.Sent.callInv (h : s.Sent config id) : CallInv config id s := by
  refine ⟨h.noEntry, .inl h.polling, ?_, ?_, ?_⟩
  · rw [h.noChunks]
    exact List.nodup_nil
  · rw [h.noChunks]
    exact fun k hk => absurd hk List.not_mem_nil
  · rw [h.working]
    exact h.noChunks

/-- The step that stores the response, while the front end has read nothing. -/
theorem CallInv.polledInv (h : CallInv config id s)
    (hst : Restrict (KeepsApart id) (CallStep config id) s e s')
    (hstored : s'.responder = .stored response) : PolledInv config id response s' 0 := by
  rcases h.step hst.2 hst.1 with hnext | ⟨v, hv, hunder, hfront⟩
  · have hresp := hnext.responder
    rw [hstored] at hresp
    exact hresp.elim
  · obtain rfl := Responder.stored.inj (hstored.symm.trans hv)
    refine ⟨hunder, ?_⟩
    unfold CallState.ReadNothing
    rw [hfront]
    exact h.readNothing

end Calls

/-! ## 4. The whole call -/

/-- The responder stores its response while the front end still polls. Then the call returns it and
leaves nothing in Redis exactly if it is polled again before the time is up, and it is true, or
`None`, or polled only once. -/
theorem delivered_iff {V : Type} {config : RedisConfig V} {id : TaskId} {s s1 s2 s' : CallState V}
    {before after : List (CallEvent V)} {e : CallEvent V} {response : V}
    (hsent : s.Sent config id)
    (hbefore : Run (Restrict (KeepsApart id) (CallStep config id)) s before s1)
    (hnotYet : ∀ v, s1.responder ≠ .stored v)
    (hstore : Restrict (KeepsApart id) (CallStep config id) s1 e s2)
    (hstored : s2.responder = .stored response)
    (hafter : Run (Restrict (KeepsApart id) (CallStep config id)) s2 after s')
    (hended : ∀ v, s'.frontEnd ≠ .polling v) :
    Delivered id s' response ↔ 0 < after.countP CallEvent.isPoll ∧
      (config.truthy response = true ∨ response = config.pyNone ∨
        after.countP CallEvent.isPoll = 1) := by
  have hpolled : PolledInv config id response s2 0 :=
    (hsent.callInv.run hbefore hnotYet).polledInv hstore hstored
  have hlast := hpolled.run hstored hafter
  rw [Nat.zero_add] at hlast
  generalize after.countP CallEvent.isPoll = n at hlast ⊢
  match n, hlast with
  | 0, hlast =>
    -- the response is still there
    exact iff_of_false (fun hdelivered => hdelivered.noEntry hlast.1.mem)
      fun h => absurd h.1 (Nat.lt_irrefl 0)
  | 1, hlast =>
    obtain ⟨⟨hno, hnil⟩, hreturned⟩ := hlast
    refine iff_of_true ⟨?_, hno, hnil⟩ ⟨Nat.one_pos, .inr (.inr rfl)⟩
    rcases hreturned with hreturned | ⟨-, hpolling⟩
    · exact hreturned
    · exact absurd hpolling (hended response)
  | n + 2, hlast =>
    -- the value of the last poll is `None`
    obtain ⟨⟨hno, hnil⟩, hfalse, hnothing⟩ := hlast
    have hreturned : s'.frontEnd = .returned config.pyNone :=
      hnothing.resolve_left (hended config.pyNone)
    constructor
    · intro hdelivered
      exact ⟨Nat.succ_pos _, .inr (.inl (FrontEnd.returned.inj
        (hdelivered.returned.symm.trans hreturned)))⟩
    · rintro ⟨-, htrue | rfl | hone⟩
      · cases hfalse.symm.trans htrue
      · exact ⟨hreturned, hno, hnil⟩
      · omega

/-- Three responses: `None`, the empty string and the string `a`. -/
inductive Answer
  | none
  | empty
  | letter
  deriving DecidableEq

/-- Their pickles. -/
def Answer.dumps : Answer → Bytes
  | .none => [0x80, 4, 78, 46].map Char.ofNat
  | .empty => [0x80, 4, 0x95, 4, 0, 0, 0, 0, 0, 0, 0, 0x8c, 0, 0x94, 46].map Char.ofNat
  | .letter => [0x80, 4, 0x95, 5, 0, 0, 0, 0, 0, 0, 0, 0x8c, 1, 97, 0x94, 46].map Char.ofNat

def answerConfig : RedisConfig Answer where
  dumps := Answer.dumps
  loads value := [.none, .empty, .letter].find? fun answer => decide (answer.dumps = value)
  pyNone := .none
  truthy answer := decide (answer = .letter)
  chunkSize := 512000000
  loads_dumps v := by cases v <;> decide
  dumps_notMagic v := by cases v <;> decide
  pyNone_falsy := rfl
  chunkSize_pos := by decide

/-- A request for the difference of two files. -/
def diffRequest : TaskId where
  digest := "9f86d081884c7d659a2feaa0c55ad015a3bf4f1b2b0b822cd15d6c15b0f00a08"
  time := "1700000000.0"
  isHex := by decide
  length := by decide

/-- The call after the request was sent. -/
def diffCall : CallState Answer := ⟨∅, .polling .none, .working, []⟩

theorem sent_diffCall : diffCall.Sent answerConfig diffRequest :=
  ⟨Dict.not_mem_empty _, rfl, rfl, rfl⟩

/-- A string that is not empty is delivered by the next poll. -/
theorem letter_delivered : ∃ s', Run (Restrict (KeepsApart diffRequest)
    (CallStep answerConfig diffRequest)) diffCall [.poll, .respond .letter, .poll] s' ∧
      Delivered diffRequest s' .letter :=
  have hpoll : Restrict (KeepsApart diffRequest) (CallStep answerConfig diffRequest) diffCall
      .poll _ := ⟨trivial, .poll rfl⟩
  have hrespond : Restrict (KeepsApart diffRequest) (CallStep answerConfig diffRequest) _
      (.respond .letter) _ := ⟨trivial, .respond Answer.letter rfl⟩
  have hread : Restrict (KeepsApart diffRequest) (CallStep answerConfig diffRequest) _
      .poll _ := ⟨trivial, .poll rfl⟩
  ⟨_, .cons hpoll <| .cons hrespond <| .cons hread (.nil _),
    (delivered_iff sent_diffCall (.cons hpoll (.nil _)) (fun v hv => by cases hv) hrespond rfl
      (.cons hread (.nil _)) fun v hv => by cases hv).mpr ⟨by decide, .inl rfl⟩⟩

/-- The empty difference of two files with the same text is read by one poll and lost in the
next. -/
theorem empty_response_lost :
    ¬ ∀ (V : Type) (config : RedisConfig V) (id : TaskId) (s s1 s2 s' : CallState V)
        (before after : List (CallEvent V)) (e : CallEvent V) (outputData response : V),
      s.Sent config id →
      Run (Restrict (KeepsApart id) (CallStep config id)) s before s1 →
      s1.frontEnd = .polling outputData → (∀ v, s1.responder ≠ .stored v) →
      Restrict (KeepsApart id) (CallStep config id) s1 e s2 → s2.responder = .stored response →
      Run (Restrict (KeepsApart id) (CallStep config id)) s2 after s' →
      (∀ v, s'.frontEnd ≠ .polling v) → Delivered id s' response := by
  intro h
  have hrespond : Restrict (KeepsApart diffRequest) (CallStep answerConfig diffRequest) diffCall
      (.respond .empty) _ := ⟨trivial, .respond Answer.empty rfl⟩
  have hafter : Run (Restrict (KeepsApart diffRequest) (CallStep answerConfig diffRequest))
      (diffCall.startResponse answerConfig diffRequest .empty) [.poll, .poll, .timeout] _ :=
    .cons ⟨trivial, .poll rfl⟩ <| .cons ⟨trivial, .poll rfl⟩ <|
    .cons ⟨trivial, .timeout rfl⟩ (.nil _)
  have hdelivered := h Answer answerConfig diffRequest _ _ _ _ [] _ _ _ .empty sent_diffCall
    (.nil _) rfl (fun v hv => by cases hv) hrespond rfl hafter fun v hv => by cases hv
  cases hdelivered.returned

end FactCore
