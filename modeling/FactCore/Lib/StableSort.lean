import Mathlib.Data.List.Sort

/-!
# Stable sorting by a key

Elements with equal keys keep their order, so the sorted list is determined: it is the only
sorted list that has the same elements in the same order for each key.
-/

variable {α K : Type} [LinearOrder K] {key : α → K} {l l' : List α} {a r : α} {k : K}

/-- The list, sorted by `key`; ties stay in the order of the list. -/
def sortByKey (key : α → K) (l : List α) : List α := l.insertionSort fun a b => key a ≤ key b

theorem sortByKey_perm (key : α → K) (l : List α) : (sortByKey key l).Perm l :=
  List.perm_insertionSort _ l

theorem mem_sortByKey (key : α → K) : a ∈ sortByKey key l ↔ a ∈ l := List.mem_insertionSort _

theorem pairwise_sortByKey (key : α → K) (l : List α) :
    (sortByKey key l).Pairwise fun a b => key a ≤ key b :=
  have : Std.Total fun a b : α => key a ≤ key b := ⟨fun a b => le_total (key a) (key b)⟩
  have : IsTrans α fun a b => key a ≤ key b := ⟨fun _ _ _ => le_trans⟩
  List.pairwise_insertionSort _ l

theorem filter_sortByKey (key : α → K) (l : List α) (k : K) :
    (sortByKey key l).filter (fun a => key a = k) = l.filter fun a => key a = k := by
  have : Std.Total fun a b : α => key a ≤ key b := ⟨fun a b => le_total (key a) (key b)⟩
  have : IsTrans α fun a b => key a ≤ key b := ⟨fun _ _ _ => le_trans⟩
  have hkey : ∀ a ∈ l.filter fun a => key a = k, key a = k := by
    intro a ha
    exact of_decide_eq_true (List.mem_filter.mp ha).2
  -- the elements with key `k` are sorted already, so sorting keeps them as a sublist
  have hties : (l.filter fun a => key a = k).Pairwise fun a b => key a ≤ key b := by
    refine List.pairwise_of_forall_mem_list fun a ha b hb => ?_
    rw [hkey a ha, hkey b hb]
  have hsub := (List.sublist_insertionSort hties List.filter_sublist).filter
    fun a => decide (key a = k)
  rw [List.filter_filter, List.filter_congr fun a _ => Bool.and_self _] at hsub
  exact (hsub.eq_of_length ((sortByKey_perm key l).filter _).length_eq.symm).symm

/-- A sorted list is determined by its elements of each key. -/
theorem eq_of_pairwise_of_filter_eq (hl : l.Pairwise fun a b => key a ≤ key b)
    (hl' : l'.Pairwise fun a b => key a ≤ key b)
    (h : ∀ k, l.filter (fun a => key a = k) = l'.filter fun a => key a = k) : l = l' := by
  have hmem : ∀ {l₁ l₂ : List α},
      (∀ k, l₁.filter (fun a => key a = k) = l₂.filter fun a => key a = k) →
        ∀ a ∈ l₁, a ∈ l₂ := by
    intro l₁ l₂ h a ha
    have hfilter : a ∈ l₁.filter fun b => key b = key a := List.mem_filter.mpr ⟨ha, by simp⟩
    rw [h] at hfilter
    exact (List.mem_filter.mp hfilter).1
  induction l generalizing l' with
  | nil =>
    cases l' with
    | nil => rfl
    | cons b l' => exact absurd (hmem (fun k => (h k).symm) b List.mem_cons_self) List.not_mem_nil
  | cons a l ih =>
    cases l' with
    | nil => exact absurd (hmem h a List.mem_cons_self) List.not_mem_nil
    | cons b l' =>
      obtain ⟨ha, htail⟩ := List.pairwise_cons.mp hl
      obtain ⟨hb, htail'⟩ := List.pairwise_cons.mp hl'
      have hkey : key a = key b := by
        have hab : key a ≤ key b := by
          rcases List.mem_cons.mp (hmem (fun k => (h k).symm) b List.mem_cons_self) with heq | hin
          · rw [heq]
          · exact ha b hin
        have hba : key b ≤ key a := by
          rcases List.mem_cons.mp (hmem h a List.mem_cons_self) with heq | hin
          · rw [heq]
          · exact hb a hin
        exact le_antisymm hab hba
      have hhead := h (key b)
      rw [List.filter_cons_of_pos (by simp [hkey]), List.filter_cons_of_pos (by simp)] at hhead
      obtain rfl := (List.cons.inj hhead).1
      refine congrArg (a :: ·) (ih htail htail' fun k => ?_)
      have hk := h k
      rw [List.filter_cons, List.filter_cons] at hk
      split at hk
      · exact (List.cons.inj hk).2
      · exact hk

theorem sortByKey_eq (hl' : l'.Pairwise fun a b => key a ≤ key b)
    (h : ∀ k, l'.filter (fun a => key a = k) = l.filter fun a => key a = k) :
    sortByKey key l = l' := by
  refine eq_of_pairwise_of_filter_eq (pairwise_sortByKey key l) hl' fun k => ?_
  rw [filter_sortByKey, h]

/-- A condition that the key decides keeps all elements with that key, or none. -/
theorem filter_key_and {p : α → Bool} {keep : Bool} (h : ∀ a, key a = k → p a = keep) :
    (l.filter fun a => decide (key a = k) && p a) =
      if keep then l.filter fun a => key a = k else [] := by
  have hand : ∀ a ∈ l, (decide (key a = k) && p a) = (decide (key a = k) && keep) := by
    intro a _
    rcases Decidable.em (key a = k) with hk | hk
    · rw [h a hk]
    · simp [hk]
  rw [List.filter_congr hand]
  cases keep with
  | false => simp
  | true => simp

/-- What is added at the end comes behind its ties. -/
theorem sortByKey_concat (key : α → K) (l : List α) (r : α) :
    sortByKey key (l ++ [r]) = sortByKey key (l.filter fun a => key a ≤ key r) ++
      r :: sortByKey key (l.filter fun a => key r < key a) := by
  have hlow : ∀ a ∈ sortByKey key (l.filter fun a => key a ≤ key r), key a ≤ key r := by
    intro a ha
    exact of_decide_eq_true (List.mem_filter.mp ((mem_sortByKey _).mp ha)).2
  have hhigh : ∀ a ∈ sortByKey key (l.filter fun a => key r < key a), key r < key a := by
    intro a ha
    exact of_decide_eq_true (List.mem_filter.mp ((mem_sortByKey _).mp ha)).2
  refine sortByKey_eq ?_ fun k => ?_
  · refine List.pairwise_append.mpr ⟨pairwise_sortByKey key _, ?_, ?_⟩
    · exact List.pairwise_cons.mpr ⟨fun a ha => (hhigh a ha).le, pairwise_sortByKey key _⟩
    · intro a ha b hb
      rcases List.mem_cons.mp hb with rfl | hb
      · exact hlow a ha
      · exact (hlow a ha).trans (hhigh b hb).le
  · have hle : ∀ a, key a = k → decide (key a ≤ key r) = decide (k ≤ key r) := by
      rintro a rfl
      rfl
    have hlt : ∀ a, key a = k → decide (key r < key a) = decide (key r < k) := by
      rintro a rfl
      rfl
    rw [List.filter_append, List.filter_append, List.filter_cons, filter_sortByKey,
      filter_sortByKey, List.filter_filter, List.filter_filter, filter_key_and hle,
      filter_key_and hlt]
    rcases lt_or_ge (key r) k with hk | hk
    · simp [hk, hk.ne, not_le.mpr hk]
    · simp [hk, not_lt.mpr hk, List.filter_cons]

/-- A first element with a least key stays in front. -/
theorem sortByKey_cons_of_le (h : ∀ b ∈ l, key a ≤ key b) :
    sortByKey key (a :: l) = a :: sortByKey key l :=
  List.insertionSort_cons_of_forall_rel _ h

/-- A last element with a greatest key stays at the end. -/
theorem sortByKey_concat_of_ge (h : ∀ b ∈ l, key b ≤ key a) :
    sortByKey key (l ++ [a]) = sortByKey key l ++ [a] := by
  have hlow : (l.filter fun b => decide (key b ≤ key a)) = l :=
    List.filter_eq_self.mpr fun b hb => decide_eq_true (h b hb)
  have hhigh : (l.filter fun b => decide (key a < key b)) = [] :=
    List.filter_eq_nil_iff.mpr fun b hb => by simpa using h b hb
  rw [sortByKey_concat, hlow, hhigh]
  rfl

/-! ## The neighbour of an element -/

/-- What stands next to `r` when it is added to the list at the end and the list is sorted: the
element before it, or the one behind it if `r` is the first. -/
def neighbour (key : α → K) (l : List α) (r : α) : Option α :=
  (sortByKey key (l.filter fun a => key a ≤ key r)).getLast?.or
    (sortByKey key (l.filter fun a => key r < key a)).head?

/-- The key of `a` is the greatest one up to that of `r`, or the least one of all and greater. -/
def NearestByKey (key : α → K) (l : List α) (r a : α) : Prop :=
  a ∈ l ∧ ((key a ≤ key r ∧ ∀ b ∈ l, key b ≤ key r → key b ≤ key a) ∨
    (key r < key a ∧ ∀ b ∈ l, key a ≤ key b))

theorem neighbour_eq_none_iff : neighbour key l r = none ↔ l = [] := by
  unfold neighbour
  rw [Option.or_eq_none_iff, List.getLast?_eq_none_iff, List.head?_eq_none_iff]
  constructor
  · rintro ⟨hlow, hhigh⟩
    refine List.eq_nil_iff_forall_not_mem.mpr fun a ha => ?_
    rcases le_or_gt (key a) (key r) with hle | hlt
    · have hmem : a ∈ sortByKey key (l.filter fun a => key a ≤ key r) :=
        (mem_sortByKey _).mpr (List.mem_filter.mpr ⟨ha, decide_eq_true hle⟩)
      rw [hlow] at hmem
      cases hmem
    · have hmem : a ∈ sortByKey key (l.filter fun a => key r < key a) :=
        (mem_sortByKey _).mpr (List.mem_filter.mpr ⟨ha, decide_eq_true hlt⟩)
      rw [hhigh] at hmem
      cases hmem
  · rintro rfl
    exact ⟨rfl, rfl⟩

theorem nearest_of_neighbour (h : neighbour key l r = some a) : NearestByKey key l r a := by
  unfold neighbour at h
  rcases Option.or_eq_some_iff.mp h with hlast | ⟨hnone, hhead⟩
  · obtain ⟨front, hfront⟩ := List.getLast?_eq_some_iff.mp hlast
    have hmem : a ∈ l.filter fun a => key a ≤ key r := by
      rw [← mem_sortByKey key, hfront]
      exact List.mem_append_right _ List.mem_cons_self
    obtain ⟨hal, hle⟩ := List.mem_filter.mp hmem
    refine ⟨hal, .inl ⟨of_decide_eq_true hle, fun b hb hbr => ?_⟩⟩
    have hsorted := pairwise_sortByKey key (l.filter fun a => key a ≤ key r)
    have hb' : b ∈ sortByKey key (l.filter fun a => key a ≤ key r) :=
      (mem_sortByKey _).mpr (List.mem_filter.mpr ⟨hb, decide_eq_true hbr⟩)
    rw [hfront] at hsorted hb'
    rcases List.mem_append.mp hb' with hin | heq
    · exact (List.pairwise_append.mp hsorted).2.2 b hin a List.mem_cons_self
    · rw [List.mem_singleton.mp heq]
  · obtain ⟨back, hback⟩ := List.head?_eq_some_iff.mp hhead
    have hmem : a ∈ l.filter fun a => key r < key a := by
      rw [← mem_sortByKey key, hback]
      exact List.mem_cons_self
    obtain ⟨hal, hlt⟩ := List.mem_filter.mp hmem
    have hlow : ∀ b ∈ l, key r < key b := by
      intro b hb
      refine lt_of_not_ge fun hle => ?_
      have hin : b ∈ sortByKey key (l.filter fun a => key a ≤ key r) :=
        (mem_sortByKey _).mpr (List.mem_filter.mpr ⟨hb, decide_eq_true hle⟩)
      rw [List.getLast?_eq_none_iff.mp hnone] at hin
      cases hin
    refine ⟨hal, .inr ⟨of_decide_eq_true hlt, fun b hb => ?_⟩⟩
    have hsorted := pairwise_sortByKey key (l.filter fun a => key r < key a)
    have hb' : b ∈ sortByKey key (l.filter fun a => key r < key a) :=
      (mem_sortByKey _).mpr (List.mem_filter.mpr ⟨hb, decide_eq_true (hlow b hb)⟩)
    rw [hback] at hsorted hb'
    rcases List.mem_cons.mp hb' with heq | hin
    · rw [heq]
    · exact (List.pairwise_cons.mp hsorted).1 b hin

/-- The last one of the elements with the greatest key up to that of `r` is its neighbour. -/
theorem neighbour_concat (hle : key a ≤ key r) (h : ∀ b ∈ l, key b ≤ key r → key b ≤ key a) :
    neighbour key (l ++ [a]) r = some a := by
  have hge : ∀ b ∈ l.filter fun b => key b ≤ key r, key b ≤ key a := by
    intro b hb
    obtain ⟨hbl, hbr⟩ := List.mem_filter.mp hb
    exact h b hbl (of_decide_eq_true hbr)
  unfold neighbour
  rw [List.filter_append, List.filter_cons_of_pos (by simpa using hle), List.filter_nil,
    sortByKey_concat_of_ge hge, List.getLast?_concat, Option.some_or]

/-- If all keys are greater than that of `r`, it is the first element with the least one. -/
theorem neighbour_cons (hlt : key r < key a) (h : ∀ b ∈ l, key a ≤ key b) :
    neighbour key (a :: l) r = some a := by
  have hlow : ((a :: l).filter fun b => decide (key b ≤ key r)) = [] := by
    refine List.filter_eq_nil_iff.mpr fun b hb => ?_
    rcases List.mem_cons.mp hb with rfl | hb
    · simpa using hlt
    · simpa using hlt.trans_le (h b hb)
  have hhigh : ((a :: l).filter fun b => decide (key r < key b)) = a :: l := by
    refine List.filter_eq_self.mpr fun b hb => ?_
    rcases List.mem_cons.mp hb with rfl | hb
    · exact decide_eq_true hlt
    · exact decide_eq_true (hlt.trans_le (h b hb))
  unfold neighbour
  rw [hlow, hhigh, sortByKey_cons_of_le h]
  rfl
