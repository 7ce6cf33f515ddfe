import Mathlib.Data.List.Forall2

/-!
# Lists mapped with failure

A list is mapped by a function that may fail. The whole fails as soon as one element
does.

Results:
1. `except_bind_eq_ok`, `except_map_eq_ok`: the parts of a computation that succeeds.
2. `exists_mapM_ok_iff`, `option_mapM_isSome_iff`: when the map of a list succeeds.
3. `exists_mapM_map_iff`: the same list, mapped to itself before.
4. `forall₂_mem_left`: related lists, element by element.
-/

variable {α β ε : Type}

theorem except_bind_eq_ok {x : Except ε α} {f : α → Except ε β} {b : β}
    (h : x >>= f = .ok b) : ∃ a, x = .ok a ∧ f a = .ok b := by
  cases x with
  | error err => cases h
  | ok a => exact ⟨a, rfl, h⟩

theorem except_map_eq_ok {x : Except ε α} {f : α → β} {b : β} (h : x.map f = .ok b) :
    ∃ a, x = .ok a ∧ f a = b := by
  cases x with
  | error err => cases h
  | ok a => exact ⟨a, rfl, Except.ok.inj h⟩

theorem forM_eq_ok_iff {f : α → Except ε PUnit} {l : List α} :
    l.forM f = .ok ⟨⟩ ↔ ∀ x ∈ l, f x = .ok ⟨⟩ := by
  induction l with
  | nil => simp [pure, Except.pure]
  | cons x l ih =>
    rw [List.forall_mem_cons, ← ih]
    show (f x >>= fun _ => l.forM f) = .ok ⟨⟩ ↔ _
    cases f x <;> simp [bind, Except.bind]

/-- A list maps to results with property `P` exactly if each of its elements does. -/
theorem exists_mapM_ok_iff {f : α → Except ε β} {P : β → Prop} {l : List α} :
    (∃ ys, l.mapM f = .ok ys ∧ ∀ y ∈ ys, P y) ↔ ∀ x ∈ l, ∃ y, f x = .ok y ∧ P y := by
  induction l with
  | nil => simp [pure, Except.pure]
  | cons x xs ih =>
    rw [List.forall_mem_cons, ← ih, List.mapM_cons]
    cases hx : f x with
    | error e => simp [bind, Except.bind]
    | ok y =>
      cases hxs : xs.mapM f with
      | error e => simp [bind, Except.bind]
      | ok ys => simp [bind, Except.bind, pure, Except.pure]

/-- The elements are changed before, and still map to results. The results are related to those
without the change exactly if each element has property `P`. -/
theorem exists_mapM_map_iff {f : α → Except ε β} {g : α → α} {R : β → β → Prop} {P : α → Prop}
    {l : List α} {ys : List β}
    (hstep : ∀ x ∈ l, ∀ y, f x = .ok y → ∃ y', f (g x) = .ok y' ∧ (R y y' ↔ P x))
    (h : l.mapM f = .ok ys) :
    ∃ ys', (l.map g).mapM f = .ok ys' ∧ (List.Forall₂ R ys ys' ↔ ∀ x ∈ l, P x) := by
  induction l generalizing ys with
  | nil =>
    cases h
    exact ⟨[], rfl, by simp⟩
  | cons x xs ih =>
    obtain ⟨hx, hxs⟩ := List.forall_mem_cons.mp hstep
    rw [List.mapM_cons] at h
    obtain ⟨y, hy, h⟩ := except_bind_eq_ok h
    obtain ⟨zs, hzs, h⟩ := except_bind_eq_ok h
    cases h
    obtain ⟨y', hy', hiff⟩ := hx y hy
    obtain ⟨zs', hzs', hiffs⟩ := ih hxs hzs
    refine ⟨y' :: zs', ?_, ?_⟩
    · rw [List.map_cons, List.mapM_cons, hy', hzs']
      rfl
    · rw [List.forall₂_cons, List.forall_mem_cons, hiff, hiffs]

theorem forall₂_of_mapM_eq_ok {f : α → Except ε β} {l : List α} {ys : List β}
    (h : l.mapM f = .ok ys) : List.Forall₂ (fun x y => f x = .ok y) l ys := by
  induction l generalizing ys with
  | nil =>
    cases h
    exact .nil
  | cons x l ih =>
    rw [List.mapM_cons] at h
    obtain ⟨y, hy, h⟩ := except_bind_eq_ok h
    obtain ⟨rest, hrest, h⟩ := except_bind_eq_ok h
    cases h
    exact .cons hy (ih hrest)

theorem mapM_eq_map {f : α → Except ε β} {g : α → β} {l : List α}
    (h : ∀ x ∈ l, f x = .ok (g x)) : l.mapM f = .ok (l.map g) := by
  induction l with
  | nil => rfl
  | cons x l ih =>
    obtain ⟨hx, hl⟩ := List.forall_mem_cons.mp h
    rw [List.mapM_cons, hx, ih hl]
    rfl

/-- The map fails if an element does, and all failures are the same. -/
theorem mapM_eq_error {f : α → Except ε β} {e : ε} {l : List α}
    (h : ∀ x ∈ l, ∀ e', f x = .error e' → e' = e) (hex : ∃ x ∈ l, f x = .error e) :
    l.mapM f = .error e := by
  induction l with
  | nil => simp at hex
  | cons x l ih =>
    obtain ⟨hx, hl⟩ := List.forall_mem_cons.mp h
    rw [List.mapM_cons]
    cases hfx : f x with
    | error e' =>
      rw [hx e' hfx]
      rfl
    | ok y =>
      obtain ⟨z, hz, hfz⟩ := hex
      have hmem : z ∈ l := by
        refine (List.mem_cons.mp hz).resolve_left fun heq => ?_
        rw [heq, hfx] at hfz
        cases hfz
      rw [ih hl ⟨z, hmem, hfz⟩]
      rfl

theorem exists_of_mapM_isSome {f : α → Option β} {l : List α} (h : (l.mapM f).isSome) :
    ∀ x ∈ l, ∃ y, f x = some y := by
  induction l with
  | nil => exact fun x hx => absurd hx List.not_mem_nil
  | cons x l ih =>
    rw [List.mapM_cons] at h
    cases hx : f x with
    | none => rw [hx] at h; cases h
    | some y =>
      have hrest : (l.mapM f).isSome := by
        rw [hx] at h
        cases hl : l.mapM f with
        | none => rw [hl] at h; cases h
        | some ys => rfl
      exact List.forall_mem_cons.mpr ⟨⟨y, hx⟩, ih hrest⟩

theorem option_mapM_eq_map {f : α → Option β} {g : α → β} {l : List α}
    (h : ∀ x ∈ l, f x = some (g x)) : l.mapM f = some (l.map g) := by
  induction l with
  | nil => rfl
  | cons x l ih =>
    obtain ⟨hx, hl⟩ := List.forall_mem_cons.mp h
    rw [List.mapM_cons, hx, ih hl]
    rfl

theorem option_mapM_isSome_iff {f : α → Option β} {l : List α} :
    (l.mapM f).isSome ↔ ∀ x ∈ l, (f x).isSome := by
  refine ⟨fun h x hx => Option.isSome_iff_exists.mpr (exists_of_mapM_isSome h x hx), fun h => ?_⟩
  induction l with
  | nil => rfl
  | cons x l ih =>
    obtain ⟨hx, hl⟩ := List.forall_mem_cons.mp h
    obtain ⟨y, hy⟩ := Option.isSome_iff_exists.mp hx
    obtain ⟨ys, hys⟩ := Option.isSome_iff_exists.mp (ih hl)
    rw [List.mapM_cons, hy, hys]
    rfl

/-- A fold whose steps succeed is a fold of their results. -/
theorem option_foldlM_eq_foldl {f : β → α → Option β} {g : β → α → β} {l : List α}
    (h : ∀ x ∈ l, ∀ b, f b x = some (g b x)) (b : β) : l.foldlM f b = some (l.foldl g b) := by
  induction l generalizing b with
  | nil => rfl
  | cons x l ih =>
    obtain ⟨hx, hl⟩ := List.forall_mem_cons.mp h
    rw [List.foldlM_cons, hx b]
    exact ih hl (g b x)

theorem forall₂_mem_left {r : α → β → Prop} {l : List α} {l' : List β} (h : List.Forall₂ r l l')
    {x : α} (hx : x ∈ l) : ∃ y ∈ l', r x y := by
  induction h with
  | nil => cases hx
  | cons hr _ ih =>
    rcases List.mem_cons.mp hx with rfl | hx
    · exact ⟨_, List.mem_cons_self, hr⟩
    · obtain ⟨y, hy, hxy⟩ := ih hx
      exact ⟨y, List.mem_cons_of_mem _ hy, hxy⟩

/-- Each element has a related one. -/
theorem exists_forall₂ {r : α → β → Prop} {l : List α} (h : ∀ x ∈ l, ∃ y, r x y) :
    ∃ l', List.Forall₂ r l l' := by
  induction l with
  | nil => exact ⟨[], .nil⟩
  | cons x l ih =>
    obtain ⟨⟨y, hxy⟩, hrest⟩ := List.forall_mem_cons.mp h
    obtain ⟨l', hl⟩ := ih hrest
    exact ⟨y :: l', .cons hxy hl⟩
