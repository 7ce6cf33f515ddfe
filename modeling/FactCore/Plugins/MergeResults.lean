import FactCore.Lib.Dict
import FactCore.Lib.Itertools
import FactCore.Lib.Separator
import Mathlib.Data.List.Pairwise

/-!
# Merging identical QEMU results

`merge_identical_results` joins the names of parameters that gave the same result
into one key, as `-h, --help`. It looks for the first pair of equal results,
replaces both entries by one and starts again, until there is no such pair left.

Keys are taken apart at `, ` again. What a merge does to the parts of the keys does
not depend on what the parameters are called, so the parts of all keys are always
the names at the start.

Results:
1. `Coarser.merge`: one merge keeps the names and their results.
2. `mergeIdenticalResults_classes`: the keys are the classes of parameters with
   equal results.
-/

namespace FactCore

/-! ## 1. The loop -/

/-- `key.split(', ')`. -/
def splitKey (key : String) : List String :=
  (splitAtPair ',' ' ' key.toList).map String.ofList

section Merge
variable {β : Type} [BEq β]

/-- `results[parameter_1] == results[parameter_2]`. -/
def sameResult (results : Dict String β) (parameter1 parameter2 : String) : Bool :=
  match results.get? parameter1, results.get? parameter2 with
  | some result1, some result2 => result1 == result2
  | _, _ => false

/-- The pair at which the loop over the combinations stops. -/
def firstIdentical (results : Dict String β) : Option (String × String) :=
  (combinationsTwo results.keys).find? fun pair => sameResult results pair.1 pair.2

/-- `f'{parameter_1}, {parameter_2}'`. -/
def combinedKey (parameter1 parameter2 : String) : String := parameter1 ++ ", " ++ parameter2

/-- The body of the loop for a pair with the same result. -/
def mergePair (results : Dict String β) (parameter1 parameter2 : String) : Dict String β :=
  match results.get? parameter1 with
  | some result =>
    ((results.set (combinedKey parameter1 parameter2) result).erase parameter1).erase parameter2
  | none => results

variable {original results : Dict String β} {p₁ p₂ : String} {v : β}

theorem sameResult_eq_true : sameResult results p₁ p₂ = true ↔
    ∃ v w, results.get? p₁ = some v ∧ results.get? p₂ = some w ∧ (v == w) = true := by
  unfold sameResult
  cases results.get? p₁ <;> cases results.get? p₂ <;> simp

/-- The loop stops at two different keys with the same result. -/
theorem firstIdentical_eq_some (h : firstIdentical results = some (p₁, p₂)) :
    p₁ ≠ p₂ ∧ ∃ v w, results.get? p₁ = some v ∧ results.get? p₂ = some w ∧ (v == w) = true := by
  have hmem := List.mem_of_find?_eq_some h
  have hsame := List.find?_some h
  refine ⟨?_, sameResult_eq_true.mp hsame⟩
  exact forall_combinationsTwo_iff.mpr results.keys_nodup (p₁, p₂) hmem

/-- A merge replaces two keys by at most one. -/
theorem length_keys_mergePair_lt (h : firstIdentical results = some (p₁, p₂)) :
    (mergePair results p₁ p₂).keys.length < results.keys.length := by
  obtain ⟨hne, v, w, hv, hw, -⟩ := firstIdentical_eq_some h
  have h₁ : p₁ ∈ results.keys := Dict.mem_of_get? hv
  have h₂ : p₂ ∈ results.keys := Dict.mem_of_get? hw
  have hlength : (results.set (combinedKey p₁ p₂) v).keys.length ≤ results.keys.length + 1 := by
    rw [Dict.keys_set]
    split <;> simp
  have h₁' : p₁ ∈ (results.set (combinedKey p₁ p₂) v).keys := Dict.mem_set.mpr (.inr h₁)
  have h₂' : p₂ ∈ (results.set (combinedKey p₁ p₂) v).keys.erase p₁ :=
    (List.mem_erase_of_ne hne.symm).mpr (Dict.mem_set.mpr (.inr h₂))
  have hpos := List.length_pos_of_mem h₁
  have hpos' := List.length_pos_of_mem h₁'
  have hpos'' := List.length_pos_of_mem h₂'
  have herase := List.length_erase_of_mem h₁'
  simp only [mergePair, hv, Dict.keys_erase]
  rw [List.length_erase_of_mem h₂', herase]
  omega

/-- `merge_identical_results`. -/
def mergeIdenticalResults (results : Dict String β) : Dict String β :=
  match _h : firstIdentical results with
  | some (parameter1, parameter2) => mergeIdenticalResults (mergePair results parameter1 parameter2)
  | none => results
termination_by results.keys.length
decreasing_by exact length_keys_mergePair_lt _h

/-! ## 2. One merge -/

theorem splitKey_ne_nil (key : String) : splitKey key ≠ [] := by
  simp [splitKey, splitAtPair_ne_nil]

theorem splitKey_combinedKey (p₁ p₂ : String) :
    splitKey (combinedKey p₁ p₂) = splitKey p₁ ++ splitKey p₂ := by
  have hchars : (combinedKey p₁ p₂).toList = p₁.toList ++ ',' :: ' ' :: p₂.toList := by
    simp [combinedKey]
  rw [splitKey, hchars, splitAtPair_append (by decide), List.map_append]
  rfl

theorem splitKey_eq_singleton {name : String} (h : ¬ [',', ' '] <:+: name.toList) :
    splitKey name = [name] := by
  rw [splitKey, splitAtPair_eq_singleton h, List.map_singleton, String.ofList_toList]

theorem combinedKey_ne_left (p₁ p₂ : String) : combinedKey p₁ p₂ ≠ p₁ := by
  intro h
  have hlength := congrArg (fun s : String => s.toList.length) h
  simp [combinedKey] at hlength

/-- The keys of `results` are made of the names of `original`, and their results are the ones of
these names. -/
structure Coarser (original results : Dict String β) : Prop where
  names : (results.keys.flatMap splitKey).Perm original.keys
  result : ∀ key w, results.get? key = some w → ∀ name ∈ splitKey key,
    ∃ v, original.get? name = some v ∧ (w == v) = true

theorem Coarser.refl [EquivBEq β] (h : ∀ name ∈ original, ¬ [',', ' '] <:+: name.toList) :
    Coarser original original := by
  constructor
  · have hsplit : original.keys.flatMap splitKey = original.keys.flatMap fun name => [name] :=
      List.flatMap_congr fun name hname => splitKey_eq_singleton (h name hname)
    rw [hsplit, List.flatMap_singleton']
  · intro key w hkey name hname
    rw [splitKey_eq_singleton (h key (Dict.mem_of_get? hkey)), List.mem_singleton] at hname
    exact ⟨w, hname ▸ hkey, BEq.rfl⟩

theorem Coarser.nodup (h : Coarser original results) :
    (results.keys.flatMap splitKey).Nodup :=
  h.names.nodup_iff.mpr original.keys_nodup

/-- A name stands in one key only. -/
theorem Coarser.key_unique (h : Coarser original results) {key key' name : String}
    (hkey : key ∈ results) (hkey' : key' ∈ results) (hname : name ∈ splitKey key)
    (hname' : name ∈ splitKey key') : key = key' := by
  by_contra hne
  have hapart := (List.nodup_flatMap.mp h.nodup).2
  have hsymm : Std.Symm (Function.onFun List.Disjoint splitKey) := ⟨fun _ _ hd _ h h' => hd h' h⟩
  exact hapart.forall hkey hkey' hne hname hname'

/-- A merge does not overwrite another entry. -/
theorem Coarser.combinedKey_not_mem (h : Coarser original results) (h₁ : p₁ ∈ results) :
    combinedKey p₁ p₂ ∉ results := by
  intro hmem
  obtain ⟨name, hname⟩ := List.exists_mem_of_ne_nil _ (splitKey_ne_nil p₁)
  have hin : name ∈ splitKey (combinedKey p₁ p₂) := by
    rw [splitKey_combinedKey]
    exact List.mem_append_left _ hname
  exact combinedKey_ne_left p₁ p₂ (h.key_unique hmem h₁ hin hname)

/-- A merge keeps the names and their results. -/
theorem Coarser.merge [EquivBEq β] (h : Coarser original results)
    (hfirst : firstIdentical results = some (p₁, p₂)) :
    Coarser original (mergePair results p₁ p₂) := by
  obtain ⟨hne, v, w, hv, hw, heq⟩ := firstIdentical_eq_some hfirst
  have h₁ : p₁ ∈ results.keys := Dict.mem_of_get? hv
  have h₂ : p₂ ∈ results.keys.erase p₁ :=
    (List.mem_erase_of_ne hne.symm).mpr (Dict.mem_of_get? hw)
  have hnew : combinedKey p₁ p₂ ∉ results := h.combinedKey_not_mem (Dict.mem_of_get? hv)
  constructor
  · have hkeys : (mergePair results p₁ p₂).keys =
        (results.keys.erase p₁).erase p₂ ++ [combinedKey p₁ p₂] := by
      simp only [mergePair, hv, Dict.keys_erase, Dict.keys_set, if_neg hnew]
      rw [List.erase_append_left _ h₁, List.erase_append_left _ h₂]
    have hperm : results.keys.Perm (p₁ :: p₂ :: (results.keys.erase p₁).erase p₂) :=
      (List.perm_cons_erase h₁).trans ((List.perm_cons_erase h₂).cons p₁)
    refine List.Perm.trans ?_ ((hperm.flatMap_right splitKey).symm.trans h.names)
    simp only [hkeys, List.flatMap_append, List.flatMap_cons, List.flatMap_nil,
      splitKey_combinedKey, List.append_nil]
    rw [← List.append_assoc (splitKey p₁)]
    exact List.perm_append_comm
  · intro key r hkey name hname
    simp only [mergePair, hv, Dict.get?_erase, Dict.get?_set] at hkey
    split at hkey
    · cases hkey
    · split at hkey
      · cases hkey
      · split at hkey
        · next hcomb =>
          obtain rfl := Option.some.inj hkey
          rw [hcomb, splitKey_combinedKey, List.mem_append] at hname
          rcases hname with hname | hname
          · exact h.result p₁ v hv name hname
          · obtain ⟨u, hu, hwu⟩ := h.result p₂ w hw name hname
            exact ⟨u, hu, BEq.trans heq hwu⟩
        · exact h.result key r hkey name hname

theorem Coarser.mergeAll [EquivBEq β] (h : Coarser original results) :
    Coarser original (mergeIdenticalResults results) := by
  fun_induction mergeIdenticalResults results with
  | case1 results p₁ p₂ hfirst ih => exact ih (h.merge hfirst)
  | case2 results hfirst => exact h

/-! ## 3. The classes -/

/-- At the end no two keys have the same result. -/
theorem mergeIdenticalResults_apart (results : Dict String β) :
    (mergeIdenticalResults results).keys.Pairwise fun key key' =>
      ¬ sameResult (mergeIdenticalResults results) key key' = true := by
  fun_induction mergeIdenticalResults results with
  | case1 results p₁ p₂ hfirst ih => exact ih
  | case2 results hfirst =>
    exact forall_combinationsTwo_iff.mp fun p hp => List.find?_eq_none.mp hfirst p hp

theorem values_pairwise_of_keys (h : results.keys.Pairwise fun key key' =>
    ¬ sameResult results key key' = true) :
    results.values.Pairwise fun v w => ¬ (v == w) = true := by
  rw [Dict.keys, List.pairwise_map] at h
  rw [Dict.values, List.pairwise_map]
  refine h.imp_of_mem fun {e e'} he he' hne heq => hne (sameResult_eq_true.mpr ?_)
  exact ⟨e.2, e'.2, Dict.mem_entries_iff.mp he, Dict.mem_entries_iff.mp he', heq⟩

/-- Keys with the same result are one key. -/
theorem key_eq_of_keys_pairwise [EquivBEq β] (h : results.keys.Pairwise fun key key' =>
    ¬ sameResult results key key' = true) {key key' : String} {v w : β}
    (hv : results.get? key = some v) (hw : results.get? key' = some w) (heq : (v == w) = true) :
    key = key' := by
  by_contra hne
  have hsymm : Std.Symm fun key key' => ¬ sameResult results key key' = true := by
    refine ⟨fun a b hab hba => hab ?_⟩
    obtain ⟨x, y, hx, hy, hxy⟩ := sameResult_eq_true.mp hba
    exact sameResult_eq_true.mpr ⟨y, x, hy, hx, BEq.symm hxy⟩
  exact h.forall (Dict.mem_of_get? hv) (Dict.mem_of_get? hw) hne
    (sameResult_eq_true.mpr ⟨v, w, hv, hw, heq⟩)

/-- `merge_identical_results` ends, with pairwise different results. The parts of its keys are the
names of the parameters, each one once; two names stand in the same key if and only if their
results were equal, and the key has this result. -/
theorem mergeIdenticalResults_classes [EquivBEq β] (results : Dict String β)
    (hnames : ∀ name ∈ results, ¬ [',', ' '] <:+: name.toList) :
    ((mergeIdenticalResults results).values.Pairwise fun v w => ¬ (v == w) = true) ∧
    ((mergeIdenticalResults results).keys.flatMap splitKey).Perm results.keys ∧
    (∀ name name' v v', results.get? name = some v → results.get? name' = some v' →
      ((∃ key ∈ mergeIdenticalResults results, name ∈ splitKey key ∧ name' ∈ splitKey key) ↔
        (v == v') = true)) ∧
    (∀ key w, (mergeIdenticalResults results).get? key = some w → ∀ name ∈ splitKey key,
      ∃ v, results.get? name = some v ∧ (w == v) = true) := by
  have hcoarser := (Coarser.refl hnames).mergeAll
  have hapart := mergeIdenticalResults_apart results
  refine ⟨values_pairwise_of_keys hapart, hcoarser.names, fun name name' v v' hv hv' => ?_,
    hcoarser.result⟩
  -- the result of a key is the one of each of its names
  have hresult : ∀ {key w name v}, (mergeIdenticalResults results).get? key = some w →
      name ∈ splitKey key → results.get? name = some v → (w == v) = true := by
    intro key w name v hkey hname hget
    obtain ⟨u, hu, hwu⟩ := hcoarser.result key w hkey name hname
    obtain rfl := Option.some.inj (hu.symm.trans hget)
    exact hwu
  constructor
  · intro h
    obtain ⟨key, hkey, hname, hname'⟩ := h
    obtain ⟨w, hw⟩ := Dict.mem_iff.mp hkey
    exact BEq.trans (BEq.symm (hresult hw hname hv)) (hresult hw hname' hv')
  · intro heq
    have hkey : ∀ {name v}, results.get? name = some v →
        ∃ key ∈ mergeIdenticalResults results, name ∈ splitKey key :=
      fun hget => List.mem_flatMap.mp (hcoarser.names.mem_iff.mpr (Dict.mem_of_get? hget))
    obtain ⟨key, hin, hname⟩ := hkey hv
    obtain ⟨key', hin', hname'⟩ := hkey hv'
    obtain ⟨w, hw⟩ := Dict.mem_iff.mp hin
    obtain ⟨w', hw'⟩ := Dict.mem_iff.mp hin'
    have hww' : (w == w') = true :=
      BEq.trans (BEq.trans (hresult hw hname hv) heq) (BEq.symm (hresult hw' hname' hv'))
    obtain rfl := key_eq_of_keys_pairwise hapart hw hw' hww'
    exact ⟨key, hin, hname, hname'⟩

end Merge

/-- `-h` and `--help` print the same text. -/
theorem mergeIdenticalResults_help :
    ∃ key ∈ mergeIdenticalResults (Dict.ofList [("-h", "usage"), (" ", ""), ("--help", "usage")]),
      "-h" ∈ splitKey key ∧ "--help" ∈ splitKey key := by
  have hclasses := mergeIdenticalResults_classes
    (Dict.ofList [("-h", "usage"), (" ", ""), ("--help", "usage")]) (by decide +kernel)
  exact (hclasses.2.2.1 "-h" "--help" "usage" "usage" rfl rfl).mpr rfl

end FactCore
