import FactCore.Lib.Dict
import FactCore.Scheduler.Analysis

/-!
# Interesting URIs

The plugin `interesting_uris` filters the strings that `ip_and_uri_finder` has found
three times: IP addresses and strings with a blacklisted part are removed, then those
with a whitelisted part are kept. The first two filters remove elements in place, and
the list they work on is the one that is stored as the summary of `ip_and_uri_finder`.

So lists are modelled as objects: a result in `processed_analysis` refers to a list,
and several results may refer to the same one.

Results:
1. `removeWhere_eq`: the loop over a copy removes every occurrence.
2. `processUris_eq`: the lists after the plugin.
3. `interestingUris_frame_iff`: when the other results are left alone.
-/

namespace FactCore

/-! ## 1. The code -/

/-- `WHITELIST`. -/
def uriWhitelist : List String :=
  ["get", "set", "post", "send", "receive", "firmware", "router", "purenetworks.com",
    "tplinkwifi.net", "tplinklogin.net"]

/-- `BLACKLIST`. -/
def uriBlacklist : List String :=
  ["dict", "example", "lighttpd", "adobe", "netscape", "w3", "haxx.se", "any.org", "schemas",
    "openvpn", "gnu", "openssl", "support", "itunes", "github", "git", "google", "openwrt",
    "wikipedia", "wiki", "foo", "jquery.com", "showme.com", "blog", "forum", "documentation", "docs",
    "purl", "readme"]

/-- `set(l)`: its elements in the order in which a loop visits them. -/
structure SetIteration where
  elements : List String → List String
  nodup : ∀ l, (elements l).Nodup
  mem_elements : ∀ l x, x ∈ elements l ↔ x ∈ l

/-- What the plugin works with. -/
structure UriEnv where
  /-- `ip_address(ip)` raises no `ValueError`. -/
  isValidIpAddress : String → Bool
  /-- `str.lower`. -/
  lower : String → String
  set : SetIteration

/-- A value of a result: a list of strings is an object of its own. -/
inductive StoredValue
  | list (ref : Nat)
  | other (v : PyVal)

/-- The lists and the results that refer to them. -/
structure PluginState where
  lists : List (List String)
  processedAnalysis : Dict String (Dict String StoredValue)
  allocated : ∀ name result key ref, processedAnalysis.get? name = some result →
    result.get? key = some (.list ref) → ref < lists.length

namespace PluginState

/-- The elements of a list. -/
def content (s : PluginState) (ref : Nat) : List String := s.lists.getD ref []

/-- The list has other elements from now on. -/
def mutate (s : PluginState) (ref : Nat) (l : List String) : PluginState where
  lists := s.lists.set ref l
  processedAnalysis := s.processedAnalysis
  allocated := by simpa using s.allocated

/-- `ip_and_uri_list.remove(item)`. -/
def remove (s : PluginState) (ref : Nat) (item : String) : Except PyException PluginState :=
  if item ∈ s.content ref then .ok (s.mutate ref ((s.content ref).erase item))
  else .error (.valueError "list.remove(x): x not in list")

/-- The loop over a copy of the list that removes the items for which a test succeeds. -/
def removeWhere (s : PluginState) (test : String → Bool) (ref : Nat) :
    Except PyException PluginState :=
  (s.content ref).foldlM (fun s item => if test item then s.remove ref item else .ok s) s

end PluginState

/-- The test of `blacklist_ip_and_uris` and `whitelist_ip_and_uris`. -/
def containsAny (env : UriEnv) (substrings : List String) (ipUri : String) : Bool :=
  substringIsInList (env.lower ipUri) substrings

/-- `remove_ip_v4_v6_addresses`. It returns the list that it was given. -/
def removeIpV4V6Addresses (env : UriEnv) (s : PluginState) (ref : Nat) :
    Except PyException PluginState :=
  s.removeWhere env.isValidIpAddress ref

/-- `blacklist_ip_and_uris`. It returns the list that it was given. -/
def blacklistIpAndUris (env : UriEnv) (blacklist : List String) (s : PluginState) (ref : Nat) :
    Except PyException PluginState :=
  s.removeWhere (containsAny env blacklist) ref

/-- `whitelist_ip_and_uris`. It returns a new list. -/
def whitelistIpAndUris (env : UriEnv) (whitelist ipAndUriList : List String) : List String :=
  (env.set.elements ipAndUriList).filter (containsAny env whitelist)

/-- `processed_analysis['ip_and_uri_finder']['summary']`. -/
def foundSummary (s : PluginState) : Except PyException StoredValue :=
  match s.processedAnalysis.get? "ip_and_uri_finder" with
  | none => .error (.keyError "ip_and_uri_finder")
  | some result =>
    match result.get? "summary" with
    | none => .error (.keyError "summary")
    | some value => .ok value

/-- The result of the plugin, both of its entries being the new list. -/
def PluginState.enterWhitelisted (s : PluginState) (whitelisted : List String) : PluginState where
  lists := s.lists ++ [whitelisted]
  processedAnalysis := s.processedAnalysis.set "interesting_uris"
    (Dict.ofList [("whitelisted", .list s.lists.length), ("summary", .list s.lists.length)])
  allocated := by
    intro name result key ref hname hkey
    rw [List.length_append, List.length_singleton]
    rcases Dict.get?_set_eq_some.mp hname with ⟨-, rfl⟩ | ⟨-, hold⟩
    · have hmem := Dict.mem_of_get?_ofList hkey
      simp only [List.mem_cons, Prod.mk.injEq, StoredValue.list.injEq, List.not_mem_nil,
        or_false] at hmem
      rcases hmem with ⟨-, rfl⟩ | ⟨-, rfl⟩ <;> exact Nat.lt_succ_self _
    · exact Nat.lt_add_right 1 (s.allocated name result key ref hold hkey)

/-- `process_object`. -/
def processUris (env : UriEnv) (s : PluginState) : Except PyException PluginState := do
  match ← foundSummary s with
  | .other _ => .error (.typeError "object is not a list")
  | .list ref =>
    let s ← removeIpV4V6Addresses env s ref
    let s ← blacklistIpAndUris env uriBlacklist s ref
    return s.enterWhitelisted (whitelistIpAndUris env uriWhitelist (s.content ref))

/-! ## 2. What is observed -/

/-- A value with the elements of its list. -/
inductive ObservedValue
  | list (l : List String)
  | other (v : PyVal)

def PluginState.observeValue (s : PluginState) : StoredValue → ObservedValue
  | .list ref => .list (s.content ref)
  | .other v => .other v

/-- A result as it is read from `processed_analysis`. -/
def PluginState.observe (s : PluginState) (name : String) : Option (Dict String ObservedValue) :=
  (s.processedAnalysis.get? name).map fun result => result.mapValues fun _ v => s.observeValue v

/-- The string is kept by the first two filters. -/
def Kept (env : UriEnv) (ipUri : String) : Bool :=
  !env.isValidIpAddress ipUri && !containsAny env uriBlacklist ipUri

/-! ## 3. Removing in a loop -/

section Removing
variable {s : PluginState} {ref : Nat} {test : String → Bool} {l : List String}

theorem content_mutate (h : ref < s.lists.length) (l : List String) :
    (s.mutate ref l).content ref = l := by
  simp [PluginState.content, PluginState.mutate, List.getD_eq_getElem?_getD, h]

theorem mutate_mutate (s : PluginState) (ref : Nat) (l l' : List String) :
    (s.mutate ref l).mutate ref l' = s.mutate ref l' := by
  simp [PluginState.mutate]

theorem mutate_content (h : ref < s.lists.length) : s.mutate ref (s.content ref) = s := by
  simp [PluginState.mutate, PluginState.content, List.getD_eq_getElem?_getD, h]

theorem filter_erase_of_not {α : Type} [BEq α] [LawfulBEq α] {p : α → Bool} {x : α}
    (h : p x = false) (l : List α) : (l.erase x).filter p = l.filter p := by
  induction l with
  | nil => rfl
  | cons y l ih =>
    rw [List.erase_cons]
    split
    · next heq =>
      obtain rfl := beq_iff_eq.mp heq
      rw [List.filter_cons_of_neg (by simp [h])]
    · rw [List.filter_cons, List.filter_cons, ih]

/-- The rounds of the loop for the items `items`, when each item that passes the test stands in
the list as often as it is still to come. -/
theorem foldlM_remove (href : ref < s.lists.length) (items : List String) (l : List String)
    (hcount : ∀ x, test x = true → l.count x = items.count x) :
    items.foldlM (fun s item => if test item then s.remove ref item else .ok s) (s.mutate ref l) =
      (.ok (s.mutate ref (l.filter fun x => !test x)) : Except PyException PluginState) := by
  induction items generalizing l with
  | nil =>
    have hkeep : l.filter (fun x => !test x) = l := by
      refine List.filter_eq_self.mpr fun x hx => ?_
      by_contra htest
      have hzero := hcount x (by simpa using htest)
      rw [List.count_nil] at hzero
      exact List.count_eq_zero.mp hzero hx
    rw [hkeep]
    rfl
  | cons item items ih =>
    rw [List.foldlM_cons]
    cases htest : test item with
    | false =>
      have hnext : ∀ x, test x = true → l.count x = items.count x := by
        intro x hx
        have hne : item ≠ x := fun heq => by rw [heq, hx] at htest; cases htest
        rw [hcount x hx, List.count_cons_of_ne hne]
      exact ih l hnext
    | true =>
      have hmem : item ∈ l := by
        rw [← List.count_pos_iff, hcount item htest, List.count_cons_self]
        exact Nat.succ_pos _
      have hremove : (s.mutate ref l).remove ref item = .ok (s.mutate ref (l.erase item)) := by
        rw [PluginState.remove, content_mutate href, if_pos hmem, mutate_mutate]
      have hnext : ∀ x, test x = true → (l.erase item).count x = items.count x := by
        intro x hx
        rw [List.count_erase, hcount x hx, List.count_cons, Nat.add_sub_cancel]
      rw [if_pos rfl, hremove, ← filter_erase_of_not (x := item) (by simp [htest])]
      exact ih (l.erase item) hnext

/-- The loop over a copy removes every occurrence of what it looks for, and raises no error. -/
theorem removeWhere_eq (href : ref < s.lists.length) (test : String → Bool) :
    s.removeWhere test ref = .ok (s.mutate ref ((s.content ref).filter fun x => !test x)) := by
  have hloop := @foldlM_remove s ref test href (s.content ref) (s.content ref) fun _ _ => rfl
  rwa [mutate_content href] at hloop

end Removing

/-! ## 4. The plugin -/

section Plugin
variable {env : UriEnv} {s : PluginState} {ref : Nat}

theorem foundSummary_eq_ok {v : StoredValue} (h : foundSummary s = .ok v) :
    ∃ result, s.processedAnalysis.get? "ip_and_uri_finder" = some result ∧
      result.get? "summary" = some v := by
  unfold foundSummary at h
  split at h
  · cases h
  · next result hresult =>
    split at h
    · cases h
    · next value hvalue =>
      cases h
      exact ⟨result, hresult, hvalue⟩

theorem foundSummary_allocated (h : foundSummary s = .ok (.list ref)) : ref < s.lists.length := by
  obtain ⟨result, hresult, hsummary⟩ := foundSummary_eq_ok h
  exact s.allocated _ result _ ref hresult hsummary

/-- The list that is whitelisted. -/
def keptUris (env : UriEnv) (s : PluginState) (ref : Nat) : List String :=
  (s.content ref).filter (Kept env)

/-- The plugin leaves the strings that it keeps in the stored list, and enters a new one. -/
theorem processUris_eq (h : foundSummary s = .ok (.list ref)) :
    processUris env s = .ok ((s.mutate ref (keptUris env s ref)).enterWhitelisted
      (whitelistIpAndUris env uriWhitelist (keptUris env s ref))) := by
  have href := foundSummary_allocated h
  have href' : ∀ l, ref < (s.mutate ref l).lists.length := by
    intro l
    simpa [PluginState.mutate] using href
  have hkept : ((s.content ref).filter fun x => !env.isValidIpAddress x).filter
      (fun x => !containsAny env uriBlacklist x) = keptUris env s ref := by
    rw [List.filter_filter, keptUris]
    exact List.filter_congr fun x _ => Bool.and_comm _ _
  have hips := removeWhere_eq href env.isValidIpAddress
  have hblack := removeWhere_eq (href' ((s.content ref).filter fun x => !env.isValidIpAddress x))
    (containsAny env uriBlacklist)
  rw [content_mutate href, mutate_mutate, hkept] at hblack
  have hcontent := content_mutate href (keptUris env s ref)
  simp only [processUris, h, removeIpV4V6Addresses, blacklistIpAndUris, hips, hblack, bind,
    Except.bind, hcontent]
  rfl

theorem content_enterWhitelisted_of_lt (h : ref < s.lists.length) (l : List String) :
    (s.enterWhitelisted l).content ref = s.content ref := by
  simp [PluginState.content, PluginState.enterWhitelisted, List.getD_eq_getElem?_getD,
    List.getElem?_append_left h]

theorem content_enterWhitelisted_self (s : PluginState) (l : List String) :
    (s.enterWhitelisted l).content s.lists.length = l := by
  simp [PluginState.content, PluginState.enterWhitelisted, List.getD_eq_getElem?_getD]

/-- The new result. -/
theorem observe_enterWhitelisted_self (s : PluginState) (l : List String) :
    (s.enterWhitelisted l).observe "interesting_uris" =
      some (Dict.ofList [("whitelisted", .list l), ("summary", .list l)]) := by
  have hget : (s.enterWhitelisted l).processedAnalysis.get? "interesting_uris" = some
      (Dict.ofList [("whitelisted", .list s.lists.length), ("summary", .list s.lists.length)]) :=
    Dict.get?_set_self _ _ _
  rw [PluginState.observe, hget, Option.map_some]
  refine congrArg some (Dict.ext ?_)
  show [("whitelisted", ObservedValue.list ((s.enterWhitelisted l).content s.lists.length)),
    ("summary", .list ((s.enterWhitelisted l).content s.lists.length))] = _
  rw [content_enterWhitelisted_self]
  rfl

/-- A new result leaves the others alone. -/
theorem observe_enterWhitelisted_of_ne {name : String} (h : name ≠ "interesting_uris")
    (s : PluginState) (l : List String) :
    (s.enterWhitelisted l).observe name = s.observe name := by
  have hget : (s.enterWhitelisted l).processedAnalysis.get? name = s.processedAnalysis.get? name :=
    Dict.get?_set_of_ne _ h
  rw [PluginState.observe, PluginState.observe, hget]
  cases hresult : s.processedAnalysis.get? name with
  | none => rfl
  | some result =>
    refine congrArg some (Dict.ext (List.map_congr_left fun e he => ?_))
    cases hvalue : e.2 with
    | other v => rfl
    | list ref =>
      have hkey : result.get? e.1 = some (.list ref) := Dict.mem_entries_iff.mp (hvalue ▸ he)
      have href := s.allocated name result e.1 ref hresult hkey
      simp only [PluginState.observeValue, content_enterWhitelisted_of_lt href]

/-- The strings that `whitelist_ip_and_uris` gives. -/
theorem mem_whitelisted {x : String} :
    x ∈ whitelistIpAndUris env uriWhitelist (keptUris env s ref) ↔
      x ∈ s.content ref ∧ env.isValidIpAddress x = false ∧
        containsAny env uriBlacklist x = false ∧ containsAny env uriWhitelist x = true := by
  simp [whitelistIpAndUris, env.set.mem_elements, keptUris, Kept, and_assoc]

/-- The result holds each interesting string of the list once. The other results stay as they were
if and only if the list has neither IP addresses nor blacklisted strings. -/
theorem interestingUris_frame_iff (env : UriEnv) (s : PluginState) (ref : Nat)
    (h : foundSummary s = .ok (.list ref)) :
    ∃ s' whitelisted, processUris env s = .ok s' ∧
      s'.observe "interesting_uris" =
        some (Dict.ofList [("whitelisted", .list whitelisted), ("summary", .list whitelisted)]) ∧
      whitelisted.Nodup ∧
      (∀ x, x ∈ whitelisted ↔ x ∈ s.content ref ∧ env.isValidIpAddress x = false ∧
        containsAny env uriBlacklist x = false ∧ containsAny env uriWhitelist x = true) ∧
      ((∀ name, name ≠ "interesting_uris" → s'.observe name = s.observe name) ↔
        ∀ x ∈ s.content ref, env.isValidIpAddress x = false ∧
          containsAny env uriBlacklist x = false) := by
  have href := foundSummary_allocated h
  refine ⟨_, _, processUris_eq h, observe_enterWhitelisted_self _ _,
    (env.set.nodup _).filter _, fun x => mem_whitelisted, ?_⟩
  have hkept : (∀ x ∈ s.content ref, env.isValidIpAddress x = false ∧
      containsAny env uriBlacklist x = false) ↔ keptUris env s ref = s.content ref := by
    simp [keptUris, Kept, List.filter_eq_self]
  rw [hkept]
  constructor
  · intro hframe
    have hfinder := hframe "ip_and_uri_finder" (by decide)
    obtain ⟨result, hresult, hsummary⟩ := foundSummary_eq_ok h
    rw [observe_enterWhitelisted_of_ne (by decide)] at hfinder
    have hmutate : (s.mutate ref (keptUris env s ref)).processedAnalysis.get? "ip_and_uri_finder" =
        some result := hresult
    rw [PluginState.observe, PluginState.observe, hmutate, hresult, Option.map_some,
      Option.map_some, Option.some.injEq] at hfinder
    have hvalue := congrArg (Dict.get? · "summary") hfinder
    simp only [Dict.get?_mapValues, hsummary, Option.map_some, PluginState.observeValue,
      content_mutate href, Option.some.injEq, ObservedValue.list.injEq] at hvalue
    exact hvalue
  · intro hsame name hname
    rw [observe_enterWhitelisted_of_ne hname, hsame, mutate_content href]

end Plugin

/-- The addresses of two hosts, and a URL of the firmware's vendor. -/
def finderState : PluginState where
  lists := [["192.168.0.1", "http://firmware.example.org", "http://tplinkwifi.net/get"]]
  processedAnalysis := Dict.ofList [("ip_and_uri_finder", Dict.ofList [("summary", .list 0)])]
  allocated := by
    intro name result key ref hname hkey
    have hresult := Dict.mem_of_get?_ofList hname
    simp only [List.mem_singleton, Prod.mk.injEq] at hresult
    obtain ⟨-, rfl⟩ := hresult
    have hvalue := Dict.mem_of_get?_ofList hkey
    simp only [List.mem_singleton, Prod.mk.injEq, StoredValue.list.injEq] at hvalue
    obtain ⟨-, rfl⟩ := hvalue
    exact Nat.zero_lt_one

/-- Strings that begin with a digit are addresses. -/
def exampleUriEnv : UriEnv where
  isValidIpAddress ip := ip.toList.head?.any Char.isDigit
  lower s := String.ofList (s.toList.map Char.toLower)
  set := ⟨List.dedup, List.nodup_dedup, fun _ _ => List.mem_dedup⟩

/-- The result of the plugin for three strings. -/
theorem interestingUris_finderState :
    ∃ s' whitelisted, processUris exampleUriEnv finderState = .ok s' ∧
      "http://tplinkwifi.net/get" ∈ whitelisted ∧
      s'.observe "interesting_uris" =
        some (Dict.ofList [("whitelisted", .list whitelisted), ("summary", .list whitelisted)]) := by
  obtain ⟨s', whitelisted, hok, hobserve, -, hmem, -⟩ :=
    interestingUris_frame_iff exampleUriEnv finderState 0 rfl
  exact ⟨s', whitelisted, hok, (hmem _).mpr (by decide +kernel), hobserve⟩

/-- The strings that `ip_and_uri_finder` reports. -/
def PluginState.foundStrings (s : PluginState) : Option (List String) :=
  match (s.observe "ip_and_uri_finder").bind (·.get? "summary") with
  | some (.list l) => some l
  | _ => none

/-- The address is gone from the summary of `ip_and_uri_finder`. -/
theorem finderSummary_changed : ¬ ∀ (env : UriEnv) (s : PluginState) (ref : Nat),
    foundSummary s = .ok (.list ref) →
    ∃ s', processUris env s = .ok s' ∧
      ∀ name, name ≠ "interesting_uris" → s'.observe name = s.observe name := by
  intro hclaim
  obtain ⟨s', hok, hframe⟩ := hclaim exampleUriEnv finderState 0 rfl
  have hafter : (processUris exampleUriEnv finderState).map PluginState.foundStrings =
      .ok (some ["http://tplinkwifi.net/get"]) := by decide +kernel
  have hbefore : finderState.foundStrings =
      some ["192.168.0.1", "http://firmware.example.org", "http://tplinkwifi.net/get"] := by decide
  rw [hok, Except.map, Except.ok.injEq, PluginState.foundStrings,
    hframe "ip_and_uri_finder" (by decide)] at hafter
  exact absurd (hbefore.symm.trans hafter) (by decide)

end FactCore
