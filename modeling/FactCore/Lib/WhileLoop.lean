/-!
# Loops

A loop body either goes on with a new state, ends the loop with a result, or
raises an exception. `whileLoop` runs at most `fuel` rounds; `none` means that
the rounds did not suffice, so a statement that the loop ends shows a bound on
the rounds.

A loop over a list of keys is a monadic fold. When the round for a key changes
nothing but what stands under this key, the rounds are independent of each other.

Results:
1. `whileLoop_mono`: more fuel does not change the outcome.
2. `whileLoop_total`: the rule for total correctness, from an invariant and a
   variant.
3. `foldlM_pointwise`: a loop over distinct keys whose rounds are independent.
-/

/-- What one round of a loop leads to. -/
inductive Round (σ ρ : Type)
  /-- The next round starts in `s`. -/
  | next (s : σ)
  /-- The loop is left with the result `r`. -/
  | done (r : ρ)

variable {σ ρ ε : Type}

/-- At most `fuel` rounds of the loop with the given body. -/
def whileLoop (body : σ → Except ε (Round σ ρ)) : Nat → σ → Option (Except ε ρ)
  | 0, _ => none
  | fuel + 1, s =>
    match body s with
    | .error e => some (.error e)
    | .ok (.done r) => some (.ok r)
    | .ok (.next s') => whileLoop body fuel s'

namespace WhileLoop

variable {body : σ → Except ε (Round σ ρ)}

/-- More fuel does not change the outcome. -/
theorem whileLoop_mono {fuel fuel' : Nat} {s : σ} {r : Except ε ρ}
    (h : whileLoop body fuel s = some r) (hle : fuel ≤ fuel') :
    whileLoop body fuel' s = some r := by
  induction fuel generalizing s fuel' with
  | zero => cases h
  | succ fuel ih =>
    obtain ⟨k, rfl⟩ : ∃ k, fuel' = k + 1 := ⟨fuel' - 1, by omega⟩
    unfold whileLoop at h ⊢
    split at h
    · exact h
    · exact h
    · exact ih h (by omega)

/-- If every round from a state with the invariant `I` raises nothing, and either ends with a
result in `Q` or keeps `I` and decreases the variant, then the loop ends with a result in `Q`. -/
theorem whileLoop_total {I : σ → Prop} {Q : ρ → Prop} (variant : σ → Nat)
    (hbody : ∀ s, I s → (∃ s', body s = .ok (.next s') ∧ I s' ∧ variant s' < variant s) ∨
      ∃ r, body s = .ok (.done r) ∧ Q r)
    {s : σ} (hs : I s) {fuel : Nat} (hfuel : variant s < fuel) :
    ∃ r, whileLoop body fuel s = some (.ok r) ∧ Q r := by
  induction fuel generalizing s with
  | zero => exact absurd hfuel (Nat.not_lt_zero _)
  | succ fuel ih =>
    unfold whileLoop
    rcases hbody s hs with ⟨s', hnext, hs', hless⟩ | ⟨r, hdone, hr⟩
    · rw [hnext]
      exact ih hs' (by omega)
    · rw [hdone]
      exact ⟨r, rfl, hr⟩

/-- A loop over distinct keys. `view s k` is what stands under the key `k`; the round for a key that
is `ready` raises nothing, and changes what stands under it and nothing else. -/
theorem foldlM_pointwise {κ ν : Type} [DecidableEq κ] {round : σ → κ → Except ε σ}
    (view : σ → κ → ν) (ready : κ → ν → Prop) (change : κ → ν → ν)
    (hround : ∀ s k, ready k (view s k) → ∃ s', round s k = .ok s' ∧
      ∀ j, view s' j = if j = k then change j (view s j) else view s j)
    {keys : List κ} (hn : keys.Nodup) {s : σ} (hready : ∀ k ∈ keys, ready k (view s k)) :
    ∃ s', keys.foldlM round s = .ok s' ∧
      ∀ j, view s' j = if j ∈ keys then change j (view s j) else view s j := by
  induction keys generalizing s with
  | nil => exact ⟨s, rfl, fun j => (if_neg List.not_mem_nil).symm⟩
  | cons k keys ih =>
    obtain ⟨hk, hn⟩ := List.nodup_cons.mp hn
    obtain ⟨s1, h1, hview1⟩ := hround s k (hready k List.mem_cons_self)
    have hother : ∀ j, j ∈ keys → view s1 j = view s j := fun j hj => by
      rw [hview1, if_neg (ne_of_mem_of_not_mem hj hk)]
    obtain ⟨s2, h2, hview2⟩ := ih hn (s := s1) fun j hj => by
      rw [hother j hj]
      exact hready j (List.mem_cons_of_mem _ hj)
    refine ⟨s2, ?_, fun j => ?_⟩
    · rw [List.foldlM_cons, h1]
      exact h2
    · rw [hview2, hview1]
      rcases Decidable.em (j = k) with rfl | hjk
      · rw [if_neg hk, if_pos rfl, if_pos List.mem_cons_self]
      · simp only [List.mem_cons, hjk, false_or, if_false]

end WhileLoop
