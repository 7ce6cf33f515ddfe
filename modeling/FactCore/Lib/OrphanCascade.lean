import Mathlib.Data.List.Nodup
import Mathlib.Data.List.Perm.Subperm
import Mathlib.Logic.Relation
import Mathlib.Tactic.ByContra

/-!
# The orphan cascade

Nodes include other nodes, with any sharing. When the node `x` is deleted, a cascade
deletes round by round every node that is not pinned and whose parents are all deleted
(`Gone`). A second criterion marks nodes as shared and keeps the nodes below `x` that
are.

Results:
1. `exists_steps_le_iff`: over finitely many nodes the chains from a node are bounded
   exactly if no cycle is reached.
2. `Gone.of_stable`, `Gone.steps_le`: when the cascade ends, and how many rounds it
   takes.
3. `gone_iff_not_shared_iff`: when the two criteria agree on every node below `x`.
-/

open Relation

variable {α : Type}

/-! ## 1. Chains -/

/-- `v` is reached from `u` in `n` steps. -/
inductive Steps (r : α → α → Prop) (u : α) : Nat → α → Prop
  | refl : Steps r u 0 u
  | tail {n : Nat} {v w : α} : Steps r u n v → r v w → Steps r u (n + 1) w

section Chains
variable {r : α → α → Prop} {u v w : α} {m n k : Nat}

theorem Steps.trans (h : Steps r u m v) (h' : Steps r v n w) : Steps r u (m + n) w := by
  induction h' with
  | refl => exact h
  | tail _ hr ih => exact .tail ih hr

theorem Steps.head (hr : r u v) (h : Steps r v n w) : Steps r u (n + 1) w :=
  Nat.add_comm n 1 ▸ (Steps.tail .refl hr).trans h

theorem steps_succ_iff : Steps r u (n + 1) w ↔ ∃ v, r u v ∧ Steps r v n w := by
  constructor
  · intro h
    induction n generalizing w with
    | zero =>
      cases h with
      | tail h hr =>
        cases h
        exact ⟨w, hr, .refl⟩
    | succ n ih =>
      cases h with
      | tail h hr =>
        obtain ⟨v, huv, hv⟩ := ih h
        exact ⟨v, huv, .tail hv hr⟩
  · rintro ⟨v, hr, h⟩
    exact .head hr h

theorem reflTransGen_iff_steps : ReflTransGen r u v ↔ ∃ n, Steps r u n v := by
  constructor
  · intro h
    induction h with
    | refl => exact ⟨0, .refl⟩
    | tail _ hr ih =>
      obtain ⟨n, hn⟩ := ih
      exact ⟨n + 1, .tail hn hr⟩
  · rintro ⟨n, h⟩
    induction h with
    | refl => exact .refl
    | tail _ hr ih => exact .tail ih hr

theorem transGen_iff_steps : TransGen r u v ↔ ∃ n, Steps r u (n + 1) v := by
  constructor
  · intro h
    obtain ⟨w, huw, hr⟩ := TransGen.tail'_iff.mp h
    obtain ⟨n, hn⟩ := reflTransGen_iff_steps.mp huw
    exact ⟨n, .tail hn hr⟩
  · rintro ⟨n, h⟩
    cases h with
    | tail h hr => exact .tail' (reflTransGen_iff_steps.mpr ⟨n, h⟩) hr

/-- Going round a cycle reaches every length. -/
theorem not_transGen_self (hbound : ∀ n v, Steps r u n v → n ≤ k) (hv : ReflTransGen r u v) :
    ¬ TransGen r v v := by
  intro hcycle
  obtain ⟨m, hm⟩ := transGen_iff_steps.mp hcycle
  have hall : ∀ j, ∃ n, j ≤ n ∧ Steps r u n v := by
    intro j
    induction j with
    | zero =>
      obtain ⟨n, hn⟩ := reflTransGen_iff_steps.mp hv
      exact ⟨n, Nat.zero_le n, hn⟩
    | succ j ih =>
      -- once more round the cycle
      obtain ⟨n, hjn, hn⟩ := ih
      exact ⟨n + (m + 1), by omega, hn.trans hm⟩
  obtain ⟨n, hkn, hn⟩ := hall (k + 1)
  exact absurd (hbound n v hn) (by omega)

/-- The nodes of a chain are distinct if no cycle is reached. -/
theorem exists_nodup_of_steps (hacyclic : ∀ v, ReflTransGen r u v → ¬ TransGen r v v)
    {nodes : List α} (hnodes : ∀ v w, r v w → w ∈ nodes) (h : Steps r u n v) :
    ∃ chain : List α, chain.length = n + 1 ∧ chain.Nodup ∧
      ∀ w ∈ chain, ReflTransGen r w v ∧ (w = u ∨ w ∈ nodes) := by
  induction h with
  | refl => exact ⟨[u], rfl, List.nodup_singleton u, by simp [ReflTransGen.refl]⟩
  | @tail n v w hsteps hr ih =>
    obtain ⟨chain, hlength, hnodup, hchain⟩ := ih
    have hw : w ∉ chain := fun hmem =>
      hacyclic w (.tail (reflTransGen_iff_steps.mpr ⟨n, hsteps⟩) hr) (.tail' (hchain w hmem).1 hr)
    refine ⟨w :: chain, by rw [List.length_cons, hlength], List.nodup_cons.mpr ⟨hw, hnodup⟩, ?_⟩
    refine List.forall_mem_cons.mpr ⟨⟨.refl, .inr (hnodes v w hr)⟩, fun x hx => ?_⟩
    exact ⟨.tail (hchain x hx).1 hr, (hchain x hx).2⟩

theorem exists_steps_le_iff (nodes : List α) (hnodes : ∀ v w, r v w → w ∈ nodes) :
    (∃ k, ∀ n v, Steps r u n v → n ≤ k) ↔ ∀ v, ReflTransGen r u v → ¬ TransGen r v v := by
  constructor
  · rintro ⟨k, hbound⟩ v hv
    exact not_transGen_self hbound hv
  · intro hacyclic
    refine ⟨nodes.length, fun n v h => ?_⟩
    obtain ⟨chain, hlength, hnodup, hchain⟩ := exists_nodup_of_steps hacyclic hnodes h
    have hsub : chain ⊆ u :: nodes := fun w hw => List.mem_cons.mpr (hchain w hw).2
    have hle := (List.subperm_of_subset hnodup hsub).length_le
    rw [List.length_cons] at hle
    omega

end Chains

/-! ## 2. The cascade -/

/-- The nodes that are gone `n` rounds after `x`. -/
def Gone (includes : α → α → Prop) (pinned : α → Prop) (x : α) : Nat → α → Prop
  | 0, u => u = x
  | n + 1, u => Gone includes pinned x n u ∨
      (¬ pinned u ∧ (∃ p, includes p u) ∧ ∀ p, includes p u → Gone includes pinned x n p)

section Cascade
variable {includes : α → α → Prop} {pinned shared : α → Prop} {x u : α} {m n k : Nat}

theorem Gone.self (n : Nat) : Gone includes pinned x n x := by
  induction n with
  | zero => rfl
  | succ n ih => exact .inl ih

theorem Gone.mono (h : Gone includes pinned x m u) (hmn : m ≤ n) : Gone includes pinned x n u := by
  induction hmn with
  | refl => exact h
  | step _ ih => exact .inl ih

/-- A round that deletes nothing is the last one. -/
theorem Gone.of_stable (hstable : ∀ u, Gone includes pinned x (m + 1) u → Gone includes pinned x m u)
    (h : Gone includes pinned x n u) : Gone includes pinned x m u := by
  induction n generalizing u with
  | zero => exact Gone.mono h (Nat.zero_le m)
  | succ n ih =>
    rcases h with h | ⟨hpin, hparent, hall⟩
    · exact ih h
    · exact hstable u (.inr ⟨hpin, hparent, fun p hp => ih (hall p hp)⟩)

theorem Gone.cases (h : Gone includes pinned x n u) :
    u = x ∨ (¬ pinned u ∧ (∃ p, includes p u) ∧
      ∀ p, includes p u → ∃ m, m < n ∧ Gone includes pinned x m p) := by
  induction n with
  | zero => exact .inl h
  | succ n ih =>
    rcases h with h | ⟨hpin, hparent, hall⟩
    · refine (ih h).imp_right fun ⟨hpin, hparent, hall⟩ => ⟨hpin, hparent, fun p hp => ?_⟩
      obtain ⟨m, hm, hgone⟩ := hall p hp
      exact ⟨m, Nat.lt_succ_of_lt hm, hgone⟩
    · exact .inr ⟨hpin, hparent, fun p hp => ⟨n, Nat.lt_succ_self n, hall p hp⟩⟩

theorem Gone.below (h : Gone includes pinned x n u) : ReflTransGen includes x u := by
  induction n using Nat.strongRecOn generalizing u with
  | ind n ih =>
    rcases h.cases with rfl | ⟨-, ⟨p, hp⟩, hall⟩
    · exact .refl
    · obtain ⟨m, hm, hgone⟩ := hall p hp
      exact .tail (ih m hm hgone) hp

/-- A node is gone no earlier than its longest chain says. -/
theorem Gone.steps_le (hacyclic : ¬ TransGen includes x x) (h : Gone includes pinned x n u)
    (hsteps : Steps includes x k u) : k ≤ n := by
  induction n using Nat.strongRecOn generalizing u k with
  | ind n ih =>
    cases hsteps with
    | refl => exact Nat.zero_le n
    | @tail k p _ hp hpu =>
      rcases h.cases with rfl | ⟨-, -, hall⟩
      · exact absurd (transGen_iff_steps.mpr ⟨k, .tail hp hpu⟩) hacyclic
      · obtain ⟨m, hm, hgone⟩ := hall p hpu
        exact Nat.lt_of_le_of_lt (ih m hm hgone hp) hm

/-! ## 3. Two criteria -/

/-- Every shared node below `x` is pinned or has a shared parent besides `x`. -/
def SharedStays (includes : α → α → Prop) (pinned shared : α → Prop) (x : α) : Prop :=
  ∀ u, TransGen includes x u → shared u → pinned u ∨ ∃ p, p ≠ x ∧ includes p u ∧ shared p

/-- What a shared node below `x` includes is shared. -/
def SharedDown (includes : α → α → Prop) (shared : α → Prop) (x : α) : Prop :=
  ∀ p u, TransGen includes x p → includes p u → shared p → shared u

theorem Gone.not_shared (hstays : SharedStays includes pinned shared x)
    (h : Gone includes pinned x n u) (hne : u ≠ x) : ¬ shared u := by
  induction n using Nat.strongRecOn generalizing u with
  | ind n ih =>
    intro hshared
    obtain ⟨hpin, -, hall⟩ := h.cases.resolve_left hne
    have hbelow : TransGen includes x u :=
      (reflTransGen_iff_eq_or_transGen.mp h.below).resolve_left hne
    rcases hstays u hbelow hshared with hp | ⟨p, hpx, hpu, hpshared⟩
    · exact hpin hp
    · obtain ⟨m, hm, hgone⟩ := hall p hpu
      exact ih m hm hgone hpx hpshared

/-- A node that is not shared is gone after as many rounds as its longest chain has steps. The
induction is on this bound. -/
theorem gone_of_steps_le (hdown : SharedDown includes shared x)
    (hpinned : ∀ u, u ≠ x → pinned u → shared u)
    (houtside : ∀ p u, includes p u → ¬ ReflTransGen includes x p → shared u)
    (hbelow : TransGen includes x u) (hshared : ¬ shared u) (hne : u ≠ x)
    (hbound : ∀ k, Steps includes x k u → k ≤ n) : Gone includes pinned x n u := by
  induction n generalizing u with
  | zero =>
    obtain ⟨k, hk⟩ := transGen_iff_steps.mp hbelow
    exact absurd (hbound (k + 1) hk) (by omega)
  | succ n ih =>
    obtain ⟨q, -, hq⟩ := TransGen.tail'_iff.mp hbelow
    refine .inr ⟨fun hpin => hshared (hpinned u hne hpin), ⟨q, hq⟩, fun p hp => ?_⟩
    have hxp : ReflTransGen includes x p := by
      by_contra hout
      exact hshared (houtside p u hp hout)
    rcases Classical.em (p = x) with rfl | hpx
    · exact .self n
    · have hbelowp : TransGen includes x p :=
        (reflTransGen_iff_eq_or_transGen.mp hxp).resolve_left hpx
      refine ih hbelowp (fun h => hshared (hdown p u hbelowp hp h)) hpx fun k hk => ?_
      exact Nat.le_of_succ_le_succ (hbound (k + 1) (.tail hk hp))

/-- The cascade, which has ended after `m` rounds, deletes exactly the nodes below `x` that are
not shared, if and only if sharing goes down and keeps nodes alive. -/
theorem gone_iff_not_shared_iff (hbound : ∀ n u, Steps includes x n u → n ≤ k)
    (hstable : ∀ u, Gone includes pinned x (m + 1) u → Gone includes pinned x m u)
    (hpinned : ∀ u, u ≠ x → pinned u → shared u)
    (houtside : ∀ p u, includes p u → ¬ ReflTransGen includes x p → shared p ∧ shared u) :
    (∀ u, TransGen includes x u → (Gone includes pinned x m u ↔ ¬ shared u)) ↔
      SharedStays includes pinned shared x ∧ SharedDown includes shared x := by
  have hne : ∀ u, TransGen includes x u → u ≠ x := by
    rintro u hu rfl
    exact not_transGen_self hbound .refl hu
  constructor
  · intro hagree
    constructor
    · intro u hu hshared
      by_contra hcon
      rw [not_or] at hcon
      -- otherwise all parents of `u` are gone, and `u` with them
      refine absurd hshared ((hagree u hu).mp (hstable u (.inr ⟨hcon.1, ?_, fun p hp => ?_⟩)))
      · obtain ⟨q, -, hq⟩ := TransGen.tail'_iff.mp hu
        exact ⟨q, hq⟩
      · rcases Classical.em (p = x) with rfl | hpx
        · exact .self m
        · have hpshared : ¬ shared p := fun h => hcon.2 ⟨p, hpx, hp, h⟩
          have hxp : ReflTransGen includes x p := by
            by_contra hout
            exact hpshared (houtside p u hp hout).1
          exact (hagree p ((reflTransGen_iff_eq_or_transGen.mp hxp).resolve_left hpx)).mpr hpshared
    · intro p u hp hpu hpshared
      by_contra hshared
      have hu : TransGen includes x u := .tail hp hpu
      obtain ⟨-, -, hall⟩ := ((hagree u hu).mpr hshared).cases.resolve_left (hne u hu)
      obtain ⟨j, hj, hgone⟩ := hall p hpu
      exact (hagree p hp).mp (hgone.mono (Nat.le_of_lt hj)) hpshared
  · rintro ⟨hstays, hdown⟩ u hu
    refine ⟨fun hgone => hgone.not_shared hstays (hne u hu), fun hshared => ?_⟩
    have hk : Gone includes pinned x k u :=
      gone_of_steps_le hdown hpinned (fun p v hp hout => (houtside p v hp hout).2) hu hshared
        (hne u hu) fun j hj => hbound j u hj
    exact hk.of_stable hstable

end Cascade
