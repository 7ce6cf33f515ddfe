import FactCore.Lib.Pattern

/-!
# All matches of a pattern

A regular expression with groups is a list of patterns that are read one after the other,
and a group is what one of them reads. `findAll` and `splitAll` look for the matches of
such an expression from left to right. They are for expressions that match no empty text.

Results:
1. `readings_ne_nil_iff`, `rests_many_char_cons`: whether there is a match, and the
   preferred one of a repetition.
2. `Confined`: a match in a line stays in this line.
3. `findAll_append`, `findAll_eq_nil_iff`: the matches in a part of a text.
-/

namespace Pattern

variable {α : Type}

/-- The ways to read patterns one after the other, the preferred one first: what each of them reads,
and what is left over. -/
def readings : List Pattern → List Char → List (List (List Char) × List Char)
  | [], s => [([], s)]
  | p :: ps, s =>
    (p.rests s).flatMap fun r =>
      (readings ps r).map fun e => (s.take (s.length - r.length) :: e.1, e.2)

/-- One round or more, with the groups of the last one. -/
def rounds (ps : List Pattern) : ℕ → List Char → List (List (List Char) × List Char)
  | 0, _ => []
  | fuel + 1, s =>
    (readings ps s).flatMap fun e =>
      (if e.2.length < s.length then rounds ps fuel e.2 else []) ++ [e]

/-- The matches in a text and the characters between them. The first `covered` characters belong to
a match. -/
def scan (m : List Char → Option (α × List Char)) : ℕ → List Char → List (Char ⊕ α)
  | _, [] => []
  | covered + 1, _ :: s => scan m covered s
  | 0, c :: s =>
    match m (c :: s) with
    | some (x, r) => .inr x :: scan m (s.length - r.length) s
    | none => .inl c :: scan m 0 s

/-- `re.findall`. -/
def findAll (m : List Char → Option (α × List Char)) (s : List Char) : List α :=
  (scan m 0 s).filterMap Sum.getRight?

/-- The characters between the matches. -/
def pieces : List (Char ⊕ α) → List (List Char)
  | [] => [[]]
  | .inl c :: tokens => (pieces tokens).modifyHead (c :: ·)
  | .inr _ :: tokens => [] :: pieces tokens

/-- `re.split`. -/
def splitAll (m : List Char → Option (α × List Char)) (s : List Char) : List (List Char) :=
  pieces (scan m 0 s)

/-! ## 1. Readings -/

section Readings
variable {p q : Pattern} {ps qs : List Pattern} {s r : List Char} {c : Char} {accepts : Char → Bool}

theorem rests_many_char_nil : (many (char accepts)).rests [] = [[]] := rfl

/-- A repetition prefers to read more. -/
theorem rests_many_char_cons (c : Char) (s : List Char) :
    (many (char accepts)).rests (c :: s) =
      if accepts c then (many (char accepts)).rests s ++ [c :: s] else [c :: s] := by
  rw [rests, List.length_cons, repeated, rests]
  cases accepts c with
  | false => rfl
  | true => simp [rests]

theorem exists_rests_char {P : List Char → Prop} :
    (∃ r ∈ (char accepts).rests s, P r) ↔ ∃ c r, s = c :: r ∧ accepts c = true ∧ P r := by
  cases s with
  | nil => simp [rests]
  | cons d s => cases h : accepts d <;> simp [rests, h]

theorem exists_rests_lit {P : List Char → Prop} :
    (∃ r ∈ (lit c).rests s, P r) ↔ ∃ r, s = c :: r ∧ P r := by
  rw [lit, exists_rests_char]
  simp

theorem exists_rests_seq {P : List Char → Prop} :
    (∃ r ∈ (seq p q).rests s, P r) ↔ ∃ r' ∈ p.rests s, ∃ r ∈ q.rests r', P r := by
  rw [rests]
  constructor
  · intro h
    obtain ⟨r, hr, hP⟩ := h
    obtain ⟨r', hr', hr⟩ := List.mem_flatMap.mp hr
    exact ⟨r', hr', r, hr, hP⟩
  · intro h
    obtain ⟨r', hr', r, hr, hP⟩ := h
    exact ⟨r, List.mem_flatMap.mpr ⟨r', hr', hr⟩, hP⟩

theorem exists_rests_opt {P : List Char → Prop} :
    (∃ r ∈ (opt p).rests s, P r) ↔ (∃ r ∈ p.rests s, P r) ∨ P s := by
  simp [opt, rests, or_and_right, exists_or]

theorem exists_rests_many_char {P : List Char → Prop} :
    (∃ r ∈ (many (char accepts)).rests s, P r) ↔
      ∃ run r, s = run ++ r ∧ (∀ d ∈ run, accepts d = true) ∧ P r := by
  induction s with
  | nil => simp [rests_many_char_nil]
  | cons c s ih =>
    rw [rests_many_char_cons]
    constructor
    · intro h
      obtain ⟨r, hr, hP⟩ := h
      split at hr
      · next hc =>
        rcases List.mem_append.mp hr with hr | hr
        · obtain ⟨run, r', hs, hrun, hP'⟩ := ih.mp ⟨r, hr, hP⟩
          exact ⟨c :: run, r', by rw [hs, List.cons_append],
            List.forall_mem_cons.mpr ⟨hc, hrun⟩, hP'⟩
        · exact ⟨[], c :: s, rfl, by simp, List.mem_singleton.mp hr ▸ hP⟩
      · exact ⟨[], c :: s, rfl, by simp, List.mem_singleton.mp hr ▸ hP⟩
    · intro h
      obtain ⟨run, r, hs, hrun, hP⟩ := h
      cases run with
      | nil =>
        rw [List.nil_append] at hs
        refine ⟨c :: s, ?_, hs ▸ hP⟩
        split <;> simp
      | cons d run =>
        rw [List.cons_append, List.cons.injEq] at hs
        obtain ⟨rfl, rfl⟩ := hs
        rw [List.forall_mem_cons] at hrun
        obtain ⟨r', hr', hP'⟩ := ih.mpr ⟨run, r, rfl, hrun.2, hP⟩
        rw [if_pos hrun.1]
        exact ⟨r', List.mem_append_left _ hr', hP'⟩

theorem exists_rests_plus_char {P : List Char → Prop} :
    (∃ r ∈ (plus (char accepts)).rests s, P r) ↔
      ∃ run r, s = run ++ r ∧ run ≠ [] ∧ (∀ d ∈ run, accepts d = true) ∧ P r := by
  rw [plus, exists_rests_seq, exists_rests_char]
  simp only [exists_rests_many_char]
  constructor
  · intro h
    obtain ⟨c, _, rfl, hc, run, r, rfl, hrun, hP⟩ := h
    exact ⟨c :: run, r, rfl, List.cons_ne_nil c run, List.forall_mem_cons.mpr ⟨hc, hrun⟩, hP⟩
  · intro h
    obtain ⟨run, r, rfl, hne, hrun, hP⟩ := h
    obtain ⟨c, run, rfl⟩ := List.exists_cons_of_ne_nil hne
    rw [List.forall_mem_cons] at hrun
    exact ⟨c, run ++ r, rfl, hrun.1, run, r, rfl, hrun.2, hP⟩

theorem readings_ne_nil_iff :
    readings (p :: ps) s ≠ [] ↔ ∃ r ∈ p.rests s, readings ps r ≠ [] := by
  simp [readings, List.flatMap_eq_nil_iff]

theorem readings_append (ps qs : List Pattern) (s : List Char) :
    readings (ps ++ qs) s =
      (readings ps s).flatMap fun e =>
        (readings qs e.2).map fun e' => (e.1 ++ e'.1, e'.2) := by
  induction ps generalizing s with
  | nil => simp [readings]
  | cons p ps ih =>
    simp only [List.cons_append, readings, ih, List.flatMap_assoc, List.map_flatMap, List.map_map,
      List.flatMap_map]
    rfl

theorem suffix_of_mem_readings {e : List (List Char) × List Char} (h : e ∈ readings ps s) :
    e.2 <:+ s := by
  induction ps generalizing s e with
  | nil => rw [List.mem_singleton.mp h]
  | cons p ps ih =>
    obtain ⟨r, hr, he⟩ := List.mem_flatMap.mp h
    obtain ⟨e', he', rfl⟩ := List.mem_map.mp he
    exact (ih he').trans (rests_suffix p s r hr)

theorem head?_readings_nil (s : List Char) : (readings [] s).head? = some ([], s) := rfl

/-- The preferred reading of each pattern, if what follows can be read then. -/
theorem head?_readings_cons {e : List (List Char) × List Char} (hp : p.matchRest s = some r)
    (hps : (readings ps r).head? = some e) :
    (readings (p :: ps) s).head? = some (s.take (s.length - r.length) :: e.1, e.2) := by
  obtain ⟨others, hothers⟩ := List.head?_eq_some_iff.mp hp
  obtain ⟨others', hothers'⟩ := List.head?_eq_some_iff.mp hps
  simp [readings, hothers, hothers']

/-- The texts that a repetition reads, the longest first. -/
theorem readings_many_char_cons (c : Char) (s : List Char) :
    readings (many (char accepts) :: ps) (c :: s) =
      (if accepts c then (readings (many (char accepts) :: ps) s).map fun e =>
          (e.1.modifyHead (c :: ·), e.2)
        else []) ++ (readings ps (c :: s)).map fun e => ([] :: e.1, e.2) := by
  have hself : ((readings ps (c :: s)).map fun e =>
      ((c :: s).take ((c :: s).length - (c :: s).length) :: e.1, e.2)) =
        (readings ps (c :: s)).map fun e => ([] :: e.1, e.2) := by
    rw [Nat.sub_self]
    rfl
  rw [readings, rests_many_char_cons]
  cases accepts c with
  | false =>
    rw [if_neg Bool.false_ne_true, if_neg Bool.false_ne_true, List.flatMap_singleton, hself]
    rfl
  | true =>
    rw [if_pos rfl, if_pos rfl, List.flatMap_append, List.flatMap_singleton, hself, readings,
      List.map_flatMap]
    refine congrArg (· ++ _) (List.flatMap_congr fun r hr => ?_)
    have hle := (rests_suffix _ s r hr).length_le
    rw [List.map_map, List.length_cons, Nat.succ_sub hle]
    rfl

/-- One round, if what is left over cannot be read. -/
theorem head?_rounds {e : List (List Char) × List Char} (h : (readings ps s).head? = some e)
    (hstop : ∀ fuel, rounds ps fuel e.2 = []) (fuel : ℕ) :
    (rounds ps (fuel + 1) s).head? = some e := by
  obtain ⟨others, hreadings⟩ := List.head?_eq_some_iff.mp h
  rw [rounds, hreadings, List.flatMap_cons, hstop, ite_self]
  rfl

theorem readings_cons_of_nil (h : p.rests s = []) : readings (p :: ps) s = [] := by
  rw [readings, h]
  rfl

theorem head?_flatMap {β : Type} {l : List α} {f : α → List β} {P : β → Prop}
    (h : ∀ x ∈ l, ∀ y, (f x).head? = some y → P y) {y : β} (hy : (l.flatMap f).head? = some y) :
    P y := by
  induction l with
  | nil => cases hy
  | cons x l ih =>
    rw [List.forall_mem_cons] at h
    rw [List.flatMap_cons, List.head?_append] at hy
    cases hx : (f x).head? with
    | some z =>
      rw [hx] at hy
      cases hy
      exact h.1 _ hx
    | none =>
      rw [hx] at hy
      exact ih h.2 hy

/-- A repetition at the end reads all that it accepts. -/
theorem rest_of_head?_readings (ps : List Pattern) {e : List (List Char) × List Char}
    (hs : ∀ d ∈ s, accepts d = true)
    (h : (readings (ps ++ [plus (char accepts)]) s).head? = some e) : e.2 = [] := by
  rw [readings_append] at h
  refine head?_flatMap (P := fun e => e.2 = []) (fun e₁ he₁ e₂ he₂ => ?_) h
  have hsub : ∀ d ∈ e₁.2, accepts d = true :=
    fun d hd => hs d ((suffix_of_mem_readings he₁).subset hd)
  rcases eq_or_ne e₁.2 [] with hnil | hne
  · rw [hnil] at he₂
    cases he₂
  · have hrest := matchRest_plus_char (s := []) hne hsub (by simp)
    rw [List.append_nil] at hrest
    have hhead := head?_readings_cons hrest (head?_readings_nil [])
    rw [List.head?_map, hhead] at he₂
    cases he₂
    rfl

end Readings

/-! ## 2. Lines -/

/-- In a line before `tail` the pattern reads what it would read without `tail`. -/
def RestsConfined (b : Char) (p : Pattern) (tail : List Char) : Prop :=
  ∀ t, b ∉ t → p.rests (t ++ tail) = (p.rests t).map (· ++ tail)

def Confined (b : Char) (ps : List Pattern) (tail : List Char) : Prop :=
  ∀ t, b ∉ t → readings ps (t ++ tail) = (readings ps t).map fun e => (e.1, e.2 ++ tail)

section Lines
variable {b : Char} {p q : Pattern} {ps : List Pattern} {tail more : List Char}
  {accepts : Char → Bool}

theorem not_mem_of_mem_rests {t r : List Char} (ht : b ∉ t) (hr : r ∈ p.rests t) : b ∉ r :=
  fun h => ht ((rests_suffix p t r hr).subset h)

theorem RestsConfined.seq (hp : RestsConfined b p tail) (hq : RestsConfined b q tail) :
    RestsConfined b (seq p q) tail := by
  intro t ht
  rw [rests, rests, hp t ht, List.flatMap_map, List.map_flatMap]
  exact List.flatMap_congr fun r hr => hq r (not_mem_of_mem_rests ht hr)

theorem RestsConfined.alt (hp : RestsConfined b p tail) (hq : RestsConfined b q tail) :
    RestsConfined b (alt p q) tail := by
  intro t ht
  rw [rests, rests, hp t ht, hq t ht, List.map_append]

theorem RestsConfined.empty : RestsConfined b empty tail := fun _ _ => rfl

/-- A character that is not the line break. -/
theorem RestsConfined.char (h : accepts b = false) :
    RestsConfined b (Pattern.char accepts) (b :: more) := by
  intro t _
  cases t with
  | nil => exact rests_char_of_not h
  | cons c t =>
    rw [List.cons_append, rests, rests]
    cases accepts c <;> rfl

theorem RestsConfined.many_char (h : accepts b = false) :
    RestsConfined b (many (Pattern.char accepts)) (b :: more) := by
  intro t ht
  induction t with
  | nil =>
    rw [List.nil_append, rests_many_char_cons, if_neg (by simp [h])]
    rfl
  | cons c t ih =>
    rw [List.mem_cons, not_or] at ht
    rw [List.cons_append, rests_many_char_cons, rests_many_char_cons, ih ht.2]
    cases accepts c with
    | false => rfl
    | true => simp

theorem RestsConfined.plus_char (h : accepts b = false) :
    RestsConfined b (plus (Pattern.char accepts)) (b :: more) :=
  (RestsConfined.char h).seq (RestsConfined.many_char h)

theorem Confined.nil : Confined b [] tail := fun _ _ => rfl

theorem take_append_length (t r tail : List Char) :
    (t ++ tail).take ((t ++ tail).length - (r ++ tail).length) = t.take (t.length - r.length) := by
  rw [List.length_append, List.length_append, Nat.add_sub_add_right,
    List.take_append_of_le_length (Nat.sub_le _ _)]

theorem Confined.cons (hp : RestsConfined b p tail) (hps : Confined b ps tail) :
    Confined b (p :: ps) tail := by
  intro t ht
  rw [readings, readings, hp t ht, List.flatMap_map, List.map_flatMap]
  refine List.flatMap_congr fun r hr => ?_
  rw [hps r (not_mem_of_mem_rests ht hr), List.map_map, List.map_map,
    take_append_length]
  rfl

/-- A character that may be the line break, if the next line cannot be read on. -/
theorem Confined.cons_char (hps : Confined b ps (b :: more)) (hmore : readings ps more = []) :
    Confined b (Pattern.char accepts :: ps) (b :: more) := by
  intro t ht
  cases t with
  | nil =>
    refine List.flatMap_eq_nil_iff.mpr fun r hr => ?_
    have hr : r = more := by
      rw [List.nil_append, rests] at hr
      split at hr
      · exact List.mem_singleton.mp hr
      · cases hr
    rw [hr, hmore]
    rfl
  | cons c t =>
    rw [List.cons_append, readings, readings, rests, rests]
    cases accepts c with
    | false => rfl
    | true =>
      have hrest := hps t fun h => ht (List.mem_cons_of_mem c h)
      show (readings ps (t ++ b :: more)).map _ ++ [] = ((readings ps t).map _ ++ []).map _
      rw [hrest, List.append_nil, List.append_nil, List.map_map, List.map_map]
      have htake := take_append_length (c :: t) t (b :: more)
      rw [List.cons_append] at htake
      simp only [Function.comp_def, htake]

end Lines

/-! ## 3. The matches in a text -/

section Scan
variable {m : List Char → Option (α × List Char)} {t s tail : List Char}

theorem scan_length_append (t tail : List Char) : scan m t.length (t ++ tail) = scan m 0 tail := by
  induction t with
  | nil => rfl
  | cons c t ih => exact ih

/-- A text is searched before what follows, if its matches do not read on there. -/
theorem scan_append
    (h : ∀ u, u <:+ t → u ≠ [] → m (u ++ tail) = (m u).map fun e => (e.1, e.2 ++ tail))
    {covered : ℕ} (hcovered : covered ≤ t.length) :
    scan m covered (t ++ tail) = scan m covered t ++ scan m 0 tail := by
  induction t generalizing covered with
  | nil =>
    rw [Nat.le_zero.mp hcovered]
    rfl
  | cons c t ih =>
    have ih := @ih fun u hu => h u (hu.trans (List.suffix_cons c t))
    cases covered with
    | succ covered => exact ih (Nat.le_of_succ_le_succ hcovered)
    | zero =>
      have hc := h (c :: t) (List.suffix_refl _) (List.cons_ne_nil c t)
      rw [List.cons_append] at hc ⊢
      rw [scan, scan, hc]
      cases hm : m (c :: t) with
      | none =>
        show Sum.inl c :: scan m 0 (t ++ tail) = _
        rw [ih (Nat.zero_le _)]
        rfl
      | some e =>
        show Sum.inr e.1 :: scan m ((t ++ tail).length - (e.2 ++ tail).length) (t ++ tail) =
          Sum.inr e.1 :: scan m (t.length - e.2.length) t ++ scan m 0 tail
        rw [List.length_append, List.length_append, Nat.add_sub_add_right, ih (Nat.sub_le _ _)]
        rfl

theorem findAll_append
    (h : ∀ u, u <:+ t → u ≠ [] → m (u ++ tail) = (m u).map fun e => (e.1, e.2 ++ tail)) :
    findAll m (t ++ tail) = findAll m t ++ findAll m tail := by
  rw [findAll, scan_append h (Nat.zero_le _), List.filterMap_append]
  rfl

/-- A match that begins a text. -/
theorem scan_of_match {x : α} (hne : t ≠ []) (h : m (t ++ tail) = some (x, tail)) :
    scan m 0 (t ++ tail) = .inr x :: scan m 0 tail := by
  obtain ⟨c, t, rfl⟩ := List.exists_cons_of_ne_nil hne
  rw [List.cons_append] at h ⊢
  rw [scan, h]
  show Sum.inr x :: scan m ((t ++ tail).length - tail.length) (t ++ tail) = _
  rw [List.length_append, Nat.add_sub_cancel, scan_length_append]

/-- Characters at which no match begins. -/
theorem scan_of_none (h : ∀ u, u <:+ t → u ≠ [] → m (u ++ tail) = none) :
    scan m 0 (t ++ tail) = t.map Sum.inl ++ scan m 0 tail := by
  induction t with
  | nil => rfl
  | cons c t ih =>
    have hc := h (c :: t) (List.suffix_refl _) (List.cons_ne_nil c t)
    rw [List.cons_append] at hc ⊢
    rw [scan, hc]
    show Sum.inl c :: scan m 0 (t ++ tail) = _
    rw [ih fun u hu => h u (hu.trans (List.suffix_cons c t))]
    rfl

theorem findAll_of_match {x : α} (hne : t ≠ []) (h : m (t ++ tail) = some (x, tail)) :
    findAll m (t ++ tail) = x :: findAll m tail := by
  rw [findAll, scan_of_match hne h]
  rfl

theorem splitAll_of_match {x : α} (hne : t ≠ []) (h : m (t ++ tail) = some (x, tail)) :
    splitAll m (t ++ tail) = [] :: splitAll m tail := by
  rw [splitAll, scan_of_match hne h]
  rfl

theorem pieces_map_inl_append (t : List Char) (tokens : List (Char ⊕ α)) :
    pieces (t.map Sum.inl ++ tokens) = (pieces tokens).modifyHead (t ++ ·) := by
  induction t with
  | nil =>
    show pieces tokens = _
    cases pieces tokens <;> rfl
  | cons c t ih =>
    rw [List.map_cons, List.cons_append, pieces, ih, List.modifyHead_modifyHead]
    rfl

theorem splitAll_of_none (h : ∀ u, u <:+ t → u ≠ [] → m (u ++ tail) = none) :
    splitAll m (t ++ tail) = (splitAll m tail).modifyHead (t ++ ·) := by
  rw [splitAll, scan_of_none h, pieces_map_inl_append]
  rfl

theorem findAll_cons_of_none {c : Char} (h : m (c :: s) = none) :
    findAll m (c :: s) = findAll m s := by
  rw [findAll, scan, h]
  rfl

theorem findAll_eq_nil_iff : findAll m s = [] ↔ ∀ u, u <:+ s → u ≠ [] → m u = none := by
  induction s with
  | nil =>
    refine iff_of_true rfl fun u hu hne => absurd (List.suffix_nil.mp hu) hne
  | cons c s ih =>
    cases hm : m (c :: s) with
    | none =>
      rw [findAll_cons_of_none hm, ih]
      constructor
      · intro h u hu hne
        rcases List.suffix_cons_iff.mp hu with rfl | hu
        · exact hm
        · exact h u hu hne
      · exact fun h u hu => h u (hu.trans (List.suffix_cons c s))
    | some e =>
      refine iff_of_false (fun h => ?_) fun h => ?_
      · rw [findAll, scan, hm] at h
        cases h
      · rw [h (c :: s) (List.suffix_refl _) (List.cons_ne_nil c s)] at hm
        cases hm

end Scan

end Pattern
