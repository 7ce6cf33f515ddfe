import Mathlib.Data.List.Infix

/-!
# Patterns with backtracking

A regular expression of a backtracking engine reads a text from its front. It may be able to
read it in several ways; `Pattern.rests` lists what each way leaves over, the preferred way
first, and the match is the first one. Repetitions and options prefer to read more.
-/

/-- A regular expression without groups. -/
inductive Pattern where
  | empty
  | char (accepts : Char → Bool)
  | seq (first second : Pattern)
  | alt (preferred other : Pattern)
  | many (p : Pattern)
  /-- `$`: the end, or a line break at the end. -/
  | atEnd

namespace Pattern

/-- Repeats `step`, as often as possible first; a round that reads nothing is not repeated. -/
def repeated (step : List Char → List (List Char)) : ℕ → List Char → List (List Char)
  | 0, s => [s]
  | fuel + 1, s =>
    ((step s).filter fun r => decide (r.length < s.length)).flatMap (repeated step fuel) ++ [s]

/-- What a reading of the front of the text leaves over, the preferred reading first. -/
def rests : Pattern → List Char → List (List Char)
  | empty, s => [s]
  | char _, [] => []
  | char accepts, c :: s => if accepts c then [s] else []
  | seq first second, s => (first.rests s).flatMap second.rests
  | alt preferred other, s => preferred.rests s ++ other.rests s
  | many p, s => repeated p.rests s.length s
  | atEnd, s => if s = [] ∨ s = ['\n'] then [s] else []

/-- `re.match`: what the match leaves over. -/
def matchRest (p : Pattern) (s : List Char) : Option (List Char) := (p.rests s).head?

/-! ## Patterns made of others -/

def lit (c : Char) : Pattern := char fun d => decide (d = c)

def opt (p : Pattern) : Pattern := alt p empty

/-- One round or more. -/
def plus (p : Pattern) : Pattern := seq p (many p)

def all (ps : List Pattern) : Pattern := ps.foldr seq empty

/-- One of the patterns, the earlier ones first. -/
def any (ps : List Pattern) : Pattern := ps.foldr alt (char fun _ => false)

def word (s : String) : Pattern := all (s.toList.map lit)

/-! ## Readings -/

variable {p q : Pattern} {s r r' : List Char} {c : Char} {accepts : Char → Bool}

theorem repeated_suffix {step : List Char → List (List Char)}
    (hstep : ∀ s, ∀ r ∈ step s, r <:+ s) (fuel : ℕ) : ∀ s, ∀ r ∈ repeated step fuel s, r <:+ s := by
  induction fuel with
  | zero =>
    intro s r hr
    rw [List.mem_singleton.mp hr]
  | succ fuel ih =>
    intro s r hr
    rcases List.mem_append.mp hr with hmore | hstop
    · obtain ⟨r', hr', hrest⟩ := List.mem_flatMap.mp hmore
      exact (ih r' r hrest).trans (hstep s r' (List.mem_filter.mp hr').1)
    · rw [List.mem_singleton.mp hstop]

/-- A reading takes a prefix of the text. -/
theorem rests_suffix (p : Pattern) : ∀ s, ∀ r ∈ p.rests s, r <:+ s := by
  induction p with
  | empty =>
    intro s r hr
    rw [List.mem_singleton.mp hr]
  | char accepts =>
    intro s r hr
    cases s with
    | nil => cases hr
    | cons c s =>
      unfold rests at hr
      split at hr
      · rw [List.mem_singleton.mp hr]
        exact List.suffix_cons c s
      · cases hr
  | seq first second ihfirst ihsecond =>
    intro s r hr
    obtain ⟨r', hr', hrest⟩ := List.mem_flatMap.mp hr
    exact (ihsecond r' r hrest).trans (ihfirst s r' hr')
  | alt preferred other ihpreferred ihother =>
    intro s r hr
    rcases List.mem_append.mp hr with hr | hr
    · exact ihpreferred s r hr
    · exact ihother s r hr
  | many p ih => exact fun s => repeated_suffix ih s.length s
  | atEnd =>
    intro s r hr
    unfold rests at hr
    split at hr
    · rw [List.mem_singleton.mp hr]
    · cases hr

theorem rests_char_of_not (h : accepts c = false) : (char accepts).rests (c :: s) = [] := by
  simp [rests, h]

/-- A pattern that has to read a certain character somewhere fails on a text without it. -/
theorem rests_seq_char_eq_nil (h : ∀ d ∈ s, accepts d = false) :
    (seq p (char accepts)).rests s = [] := by
  refine List.flatMap_eq_nil_iff.mpr fun r hr => ?_
  cases r with
  | nil => rfl
  | cons d r => exact rests_char_of_not (h d ((rests_suffix p s _ hr).subset List.mem_cons_self))

theorem rests_seq_of_nil (h : p.rests s = []) : (seq p q).rests s = [] := by
  rw [rests, h]
  rfl

theorem rests_seq_eq_nil (h : ∀ r, r <:+ s → q.rests r = []) : (seq p q).rests s = [] :=
  List.flatMap_eq_nil_iff.mpr fun r hr => h r (rests_suffix p s r hr)

theorem rests_plus_char_eq_nil (h : ∀ d ∈ s, accepts d = false) :
    (plus (char accepts)).rests s = [] := by
  cases s with
  | nil => rfl
  | cons d s => exact rests_seq_of_nil (rests_char_of_not (h d List.mem_cons_self))

theorem repeated_nil (step : List Char → List (List Char)) (n : ℕ) : repeated step n [] = [[]] := by
  cases n with
  | zero => rfl
  | succ n =>
    have hnone : ((step []).filter fun r => decide (r.length < List.length ([] : List Char))) = [] :=
      List.filter_eq_nil_iff.mpr fun r _ => by simp
    rw [repeated, hnone]
    rfl

/-- The rounds that a text allows are enough. -/
theorem repeated_congr {step : List Char → List (List Char)} {n m : ℕ} (hn : s.length ≤ n)
    (hm : s.length ≤ m) : repeated step n s = repeated step m s := by
  induction n generalizing m s with
  | zero => rw [List.length_eq_zero_iff.mp (Nat.le_zero.mp hn), repeated_nil, repeated_nil]
  | succ n ih =>
    cases m with
    | zero => rw [List.length_eq_zero_iff.mp (Nat.le_zero.mp hm), repeated_nil, repeated_nil]
    | succ m =>
      rw [repeated, repeated]
      refine congrArg (· ++ [s]) (List.flatMap_congr fun r hr => ?_)
      have hlt := of_decide_eq_true (List.mem_filter.mp hr).2
      exact ih (by omega) (by omega)

/-! ## The preferred reading -/

theorem matchRest_seq (hp : p.matchRest s = some r) (hq : q.matchRest r = some r') :
    (seq p q).matchRest s = some r' := by
  obtain ⟨others, hothers⟩ := List.head?_eq_some_iff.mp hp
  obtain ⟨others', hothers'⟩ := List.head?_eq_some_iff.mp hq
  simp [matchRest, rests, hothers, hothers']

theorem matchRest_opt_of_nil (hp : p.rests s = []) : (opt p).matchRest s = some s := by
  simp [matchRest, opt, rests, hp]

/-- A round that reads something is followed by more rounds. -/
theorem matchRest_many_step (hp : p.matchRest s = some r) (hlen : r.length < s.length)
    (hmany : (many p).matchRest r = some r') : (many p).matchRest s = some r' := by
  obtain ⟨others, hothers⟩ := List.head?_eq_some_iff.mp hp
  obtain ⟨n, hn⟩ := Nat.exists_eq_succ_of_ne_zero (Nat.ne_zero_of_lt hlen)
  have hr : (repeated p.rests n r).head? = some r' := by
    rw [repeated_congr (m := r.length) (by omega) le_rfl]
    exact hmany
  obtain ⟨others', hothers'⟩ := List.head?_eq_some_iff.mp hr
  rw [matchRest, rests, hn, repeated, hothers, List.filter_cons, if_pos (by simpa using hlen),
    List.flatMap_cons, hothers']
  rfl

theorem matchRest_many_stop (hp : p.rests s = []) : (many p).matchRest s = some s := by
  rw [matchRest, rests]
  cases s.length with
  | zero => rfl
  | succ n =>
    rw [repeated, hp]
    rfl

theorem matchRest_char (h : accepts c = true) : (char accepts).matchRest (c :: s) = some s := by
  simp [matchRest, rests, h]

theorem matchRest_empty : empty.matchRest s = some s := rfl

/-- A run of accepted characters is read to its end. -/
theorem matchRest_many_char {run : List Char} (hrun : ∀ d ∈ run, accepts d = true)
    (hs : ∀ d ∈ s.head?, accepts d = false) :
    (many (char accepts)).matchRest (run ++ s) = some s := by
  induction run with
  | nil =>
    refine matchRest_many_stop ?_
    cases s with
    | nil => rfl
    | cons d s => exact rests_char_of_not (hs d rfl)
  | cons d run ih =>
    refine matchRest_many_step (matchRest_char (hrun d List.mem_cons_self)) (Nat.lt_succ_self _) ?_
    exact ih fun e he => hrun e (List.mem_cons_of_mem d he)

theorem matchRest_plus_char {run : List Char} (hne : run ≠ []) (hrun : ∀ d ∈ run, accepts d = true)
    (hs : ∀ d ∈ s.head?, accepts d = false) :
    (plus (char accepts)).matchRest (run ++ s) = some s := by
  obtain ⟨d, run, rfl⟩ := List.exists_cons_of_ne_nil hne
  exact matchRest_seq (matchRest_char (hrun d List.mem_cons_self))
    (matchRest_many_char (fun e he => hrun e (List.mem_cons_of_mem d he)) hs)

end Pattern
