import FactCore.Scheduler.AnalysisStep

/-!
# The analysis of a new object

What becomes of an object that enters the scheduler for the first time. Each step
advances the analysis exactly if the condition on it is met, and otherwise ends in an
exception that leaves the process.

Results:
1. `analysisStep_cases`: one step from a state of such an analysis.
2. `SafeRun.completesCleanly`, `stepMeets_of_noException`: whole runs.
3. `completesCleanly_iff`: exactly when the object is analysed to the end.
4. `failed_file_type_crashes`: a failed file type analysis ends the scheduler.
-/

namespace FactCore

/-! ## 1. What is shown -/

/-- From `s` on no exception leaves a process, the schedule shrinks with every round, the analysis
completes, and the object is removed from the current analyses once. -/
structure CompletesCleanly (env : AnalysisEnv) (s : AnalysisState) (uid : Uid) : Prop where
  noException : ∀ n e, (analysisRun env s n).place ≠ .crashed e
  shrinks : ∀ m n fo fo', m < n → (analysisRun env s m).place = .processQueue fo →
    (analysisRun env s n).place = .processQueue fo' →
    fo'.scheduledAnalysis.Sublist fo.scheduledAnalysis ∧
      fo'.scheduledAnalysis.length < fo.scheduledAnalysis.length
  completes : ∃ n fo, (analysisRun env s n).place = .completed fo ∧ fo.uid = uid ∧
    fo.scheduledAnalysis = []
  removedOnce : ∃ n, ∀ k, n ≤ k → (analysisRun env s k).removals = [uid]

/-- A new object: it has no results yet, neither in its row nor with it, and it can be added to
the database, and again once it is stored. The plugin table is closed under dependencies. -/
structure NewAnalysis (env : AnalysisEnv) (s : AnalysisState) (fo : FileObject) : Prop where
  closed : ∀ p d, env.plugins.DependsOn p d → d ∈ env.plugins
  unprocessed : ∀ p ∈ env.plugins, p ∉ fo.processedAnalysis
  noResults : ∀ p, (fo.uid, p) ∉ s.db.analyses
  noFailure : fo.analysisException = none
  binary : fo.sha256 ≠ none
  addable : (addObject env.driver s.db fo).raised = none
  references : ¬ RefsMissing s.db fo
  readable : ReadsDate env.driver fo
  notRemoved : s.removals = []

section Runs
variable {env : AnalysisEnv} {fo0 fo : FileObject} {s : AnalysisState}

/-! ## 2. Whole runs -/

/-- A step from a state of the analysis completes nothing further, advances, or ends in an
exception, exactly as the condition on it says. -/
theorem analysisStep_cases (h : AnalysisInv env fo0 s) (hbinary : fo0.sha256 ≠ none) :
    ((∃ fo, s.place = .completed fo) ∧ analysisStep env s = s ∧ StepMeets env s) ∨
      ((StepMeets env s → Advanced env fo0 s.place.schedule s.place.rank (analysisStep env s)) ∧
        (¬ StepMeets env s → (analysisStep env s).Crashed)) := by
  unfold AnalysisInv at h
  unfold analysisStep StepMeets
  cases hplace : s.place with
  | processQueue fo =>
    rw [hplace] at h
    obtain ⟨rest, name, plugin, hsched, hplugin, hok, hcrash⟩ := processNextAnalysisTask_cases
      (s := { s with tick := s.tick + 1 }) h.1 hbinary h.2
    have hlast : fo.scheduledAnalysis.getLast? = some name := by rw [hsched, List.getLast?_concat]
    refine .inr ⟨fun hmeets => hok (hmeets name plugin hlast hplugin), fun hnot => hcrash ?_⟩
    intro hmeets
    refine hnot fun name' plugin' hlast' hplugin' => ?_
    obtain rfl := Option.some.inj (hlast.symm.trans hlast')
    obtain rfl := Option.some.inj (hplugin.symm.trans hplugin')
    exact hmeets
  | inQueue name fo =>
    rw [hplace] at h
    obtain ⟨htaken, hrem⟩ := h
    obtain ⟨plugin, hplugin⟩ := Dict.mem_iff.mp htaken.isPlugin
    obtain ⟨hdone, hsched⟩ := runPlugin_done htaken plugin (env.time (s.tick + 1))
    simp only [hplugin]
    -- a worker catches what its plugin raises: nothing is required of the step
    refine .inr ⟨fun _ => ⟨⟨hdone, hrem⟩, ?_, ?_⟩, fun hnot => absurd trivial hnot⟩
    · show (runPlugin _ _ _ _ _).scheduledAnalysis.Sublist fo.scheduledAnalysis
      rw [hsched]
    · show 3 * (runPlugin _ _ _ _ _).scheduledAnalysis.length + 2 < _
      rw [hsched]
      exact Nat.lt_succ_self _
  | outQueue name fo =>
    rw [hplace] at h
    exact .inr (collectResult_cases (s := { s with tick := s.tick + 1 }) h.1 h.2)
  | completed fo => exact .inl ⟨⟨fo, rfl⟩, rfl, trivial⟩
  | dropped fo =>
    rw [hplace] at h
    exact absurd h id
  | crashed e =>
    rw [hplace] at h
    exact absurd h id

theorem analysisRun_succ (n : Nat) :
    analysisRun env s (n + 1) = analysisStep env (analysisRun env s n) :=
  Function.iterate_succ_apply' _ _ _

theorem analysisRun_step (n : Nat) :
    analysisRun env (analysisStep env s) n = analysisRun env s (n + 1) :=
  (Function.iterate_succ_apply _ _ _).symm

theorem analysisRun_add (m n : Nat) :
    analysisRun env s (m + n) = analysisRun env (analysisRun env s n) m :=
  Function.iterate_add_apply _ _ _ _

/-- A state of the analysis from which every step meets its condition. -/
structure SafeRun (env : AnalysisEnv) (fo0 : FileObject) (s : AnalysisState) : Prop where
  inv : AnalysisInv env fo0 s
  meets : ∀ n, StepMeets env (analysisRun env s n)

/-- The analysis is complete, or the next state is as safe and nearer to the end. -/
theorem SafeRun.step (h : SafeRun env fo0 s) (hbinary : fo0.sha256 ≠ none) :
    ((∃ fo, s.place = .completed fo) ∧ analysisStep env s = s) ∨
      (SafeRun env fo0 (analysisStep env s) ∧
        Advanced env fo0 s.place.schedule s.place.rank (analysisStep env s)) := by
  rcases analysisStep_cases h.inv hbinary with ⟨hdone, hsame, -⟩ | ⟨hadv, -⟩
  · exact .inl ⟨hdone, hsame⟩
  · have hnext := hadv (h.meets 0)
    exact .inr ⟨⟨hnext.inv, fun n => analysisRun_step n ▸ h.meets (n + 1)⟩, hnext⟩

/-- A safe run stays safe, and nothing is ever added to the schedule. -/
theorem SafeRun.run (h : SafeRun env fo0 s) (hbinary : fo0.sha256 ≠ none) (n : Nat) :
    SafeRun env fo0 (analysisRun env s n) ∧
      (analysisRun env s n).place.schedule.Sublist s.place.schedule ∧
      (analysisRun env s n).place.rank ≤ s.place.rank := by
  induction n with
  | zero => exact ⟨h, .refl _, Nat.le_refl _⟩
  | succ n ih =>
    obtain ⟨hsafe, hsub, hrank⟩ := ih
    rw [analysisRun_succ]
    rcases hsafe.step hbinary with ⟨-, hsame⟩ | ⟨hnext, hadv⟩
    · rw [hsame]
      exact ⟨hsafe, hsub, hrank⟩
    · exact ⟨hnext, hadv.schedule.trans hsub, Nat.le_trans (Nat.le_of_lt hadv.rank) hrank⟩

/-- A safe run reaches the end of the analysis. -/
theorem SafeRun.completes (h : SafeRun env fo0 s) (hbinary : fo0.sha256 ≠ none) :
    ∃ n fo, (analysisRun env s n).place = .completed fo := by
  induction hrank : s.place.rank using Nat.strong_induction_on generalizing s with
  | _ rank ih =>
    -- by induction on the rank, which every step before the end lowers
    rcases h.step hbinary with ⟨⟨fo, hplace⟩, -⟩ | ⟨hnext, hadv⟩
    · exact ⟨0, fo, hplace⟩
    · obtain ⟨n, fo, hplace⟩ := ih _ (hrank ▸ hadv.rank) hnext rfl
      exact ⟨n + 1, fo, analysisRun_step n ▸ hplace⟩

theorem analysisStep_of_rank (hrank : s.place.rank = 0) : analysisStep env s = s := by
  unfold analysisStep
  cases hplace : s.place with
  | processQueue fo | inQueue name fo | outQueue name fo =>
    rw [hplace] at hrank
    cases hrank
  | completed fo | dropped fo | crashed e => rfl

theorem analysisRun_completed (hplace : s.place = .completed fo) (n : Nat) :
    analysisRun env s n = s := by
  refine Function.iterate_fixed ?_ n
  unfold analysisStep
  rw [hplace]

/-- A safe run completes without an exception. -/
theorem SafeRun.completesCleanly (h : SafeRun env fo0 s) (hbinary : fo0.sha256 ≠ none) :
    CompletesCleanly env s fo0.uid := by
  obtain ⟨n, fo, hplace⟩ := h.completes hbinary
  have hinv := (h.run hbinary n).1.inv
  unfold AnalysisInv at hinv
  rw [hplace] at hinv
  obtain ⟨huid, hsched, hrem⟩ := hinv
  refine ⟨fun k e hcrash => ?_, fun m k fo fo' hlt hm hk => ?_, ⟨n, fo, hplace, huid, hsched⟩, n,
    fun k hk => ?_⟩
  · -- the invariant excludes a crash
    have hinv := (h.run hbinary k).1.inv
    unfold AnalysisInv at hinv
    rw [hcrash] at hinv
    exact hinv
  · -- the step that leaves the process queue lowers the rank for good
    obtain ⟨d, rfl⟩ : ∃ d, k = d + 1 + m := ⟨k - m - 1, by omega⟩
    rw [analysisRun_add, ← analysisRun_step] at hk
    rcases (h.run hbinary m).1.step hbinary with ⟨⟨fo'', hdone⟩, -⟩ | ⟨hnext, hadv⟩
    · rw [hm] at hdone
      cases hdone
    · obtain ⟨-, hsub, hrank⟩ := hnext.run hbinary d
      have hlt := Nat.lt_of_le_of_lt hrank hadv.rank
      have hsub := hsub.trans hadv.schedule
      rw [hm, hk] at hlt hsub
      refine ⟨hsub, ?_⟩
      simp only [Place.rank] at hlt
      omega
  · -- nothing happens after the end
    obtain ⟨d, rfl⟩ : ∃ d, k = d + n := ⟨k - n, by omega⟩
    rw [analysisRun_add, analysisRun_completed hplace, hrem]

/-- If no exception ever leaves a process, every step meets its condition. -/
theorem stepMeets_of_noException (h : AnalysisInv env fo0 s) (hbinary : fo0.sha256 ≠ none)
    (hok : ∀ n e, (analysisRun env s n).place ≠ .crashed e) (n : Nat) :
    AnalysisInv env fo0 (analysisRun env s n) ∧ StepMeets env (analysisRun env s n) := by
  have hmeets : ∀ k, AnalysisInv env fo0 (analysisRun env s k) →
      StepMeets env (analysisRun env s k) := by
    intro k hk
    rcases analysisStep_cases hk hbinary with ⟨-, -, hmeets⟩ | ⟨-, hcrash⟩
    · exact hmeets
    · by_contra hnot
      obtain ⟨e, he⟩ := hcrash hnot
      exact hok (k + 1) e (analysisRun_succ k ▸ he)
  have hinv : AnalysisInv env fo0 (analysisRun env s n) := by
    induction n with
    | zero => exact h
    | succ n ih =>
      rw [analysisRun_succ]
      rcases analysisStep_cases ih hbinary with ⟨-, hsame, -⟩ | ⟨hadv, -⟩
      · rwa [hsame]
      · exact (hadv (hmeets n ih)).inv
  exact ⟨hinv, hmeets n hinv⟩

/-! ## 3. From the start -/

/-- The start of a new analysis whose plugins are registered. -/
theorem startAnalysisOfObject_inv (h : NewAnalysis env s fo)
    (hreg : ∀ p ∈ shuffledList fo.scheduledAnalysis true, p ∈ env.plugins) :
    ∃ n s0, (∀ fuel, n ≤ fuel → startAnalysisOfObject fuel env s fo = some s0) ∧
      AnalysisInv env fo s0 := by
  obtain ⟨tables, htables⟩ := (@Section.run_ok_iff s.status (.addToCurrent fo)
    (env.time s.tick)).mpr trivial
  have hreq : ∀ p ∈ fo.scheduledAnalysis, p ∈ env.plugins :=
    fun p hp => hreg p (mem_shuffledList.mpr (.inl hp))
  obtain ⟨n, schedule, hn, hmem, hschedule⟩ := scheduleAnalysisTasks_total h.closed env.shuffle fo
    true hreq fun _ p hp => hreg p (mem_shuffledList.mpr (.inr ⟨rfl, hp⟩))
  have hunder : UnderWay env fo s.db { fo with scheduledAnalysis := schedule } :=
    ⟨rfl, hn, hmem, fun p hp => h.unprocessed p (hmem p hp), fun p hp => absurd hp (h.noResults p)⟩
  refine ⟨n, _, fun fuel hfuel => ?_, (checkFurtherProcessOrComplete_advanced
    (s := { s with status := tables }) hunder h.noFailure h.addable h.references h.readable
      h.notRemoved).inv⟩
  unfold startAnalysisOfObject
  simp only [htables, hschedule fuel hfuel, Option.map_some]

/-- The start of an analysis with a plugin that is not registered. -/
theorem startAnalysisOfObject_raises (h : NewAnalysis env s fo) {p : String}
    (hp : p ∈ shuffledList fo.scheduledAnalysis true) (hno : p ∉ env.plugins) :
    ∃ n s0, (∀ fuel, n ≤ fuel → startAnalysisOfObject fuel env s fo = some s0) ∧ s0.Crashed := by
  obtain ⟨tables, htables⟩ := (@Section.run_ok_iff s.status (.addToCurrent fo)
    (env.time s.tick)).mpr trivial
  obtain ⟨n, e, hraise⟩ := scheduleAnalysisTasks_raises h.closed env.shuffle.run fo hp hno
  refine ⟨n, { s with status := tables, place := .crashed e }, fun fuel hfuel => ?_, e, rfl⟩
  unfold startAnalysisOfObject
  simp only [htables, hraise fuel hfuel, Option.map_some]
  rfl

/-- More rounds for the scheduling do not change the start. -/
theorem startAnalysisOfObject_mono {s0 : AnalysisState} {fuel fuel' : Nat}
    (h : startAnalysisOfObject fuel env s fo = some s0) (hle : fuel ≤ fuel') :
    startAnalysisOfObject fuel' env s fo = some s0 := by
  unfold startAnalysisOfObject at h ⊢
  split at h
  · exact h
  · obtain ⟨r, hr, hs0⟩ := Option.map_eq_some_iff.mp h
    exact Option.map_eq_some_iff.mpr ⟨r, scheduleAnalysisTasks_mono hr hle, hs0⟩

end Runs

/-- Exactly when a new object is analysed to the end: its plugins are registered, and every step
meets its condition. -/
theorem completesCleanly_iff {env : AnalysisEnv} {s : AnalysisState} {fo : FileObject}
    (h : NewAnalysis env s fo) :
    ∃ n s0, (∀ fuel, n ≤ fuel → startAnalysisOfObject fuel env s fo = some s0) ∧
      (CompletesCleanly env s0 fo.uid ↔
        (∀ p ∈ fo.scheduledAnalysis ++ mandatoryPlugins, p ∈ env.plugins) ∧
          ∀ k, StepMeets env (analysisRun env s0 k)) := by
  rcases Decidable.em (∀ p ∈ fo.scheduledAnalysis ++ mandatoryPlugins, p ∈ env.plugins) with
    hreg | hreg
  · obtain ⟨n, s0, hstart, hinv⟩ := startAnalysisOfObject_inv h hreg
    refine ⟨n, s0, hstart, fun hclean => ⟨hreg, fun k => ?_⟩, fun hmeets => ?_⟩
    · exact (stepMeets_of_noException hinv h.binary hclean.noException k).2
    · exact SafeRun.completesCleanly ⟨hinv, hmeets.2⟩ h.binary
  · obtain ⟨p, hp, hno⟩ : ∃ p ∈ fo.scheduledAnalysis ++ mandatoryPlugins, p ∉ env.plugins := by
      simpa using hreg
    obtain ⟨n, s0, hstart, e, hcrash⟩ := startAnalysisOfObject_raises h hp hno
    refine ⟨n, s0, hstart, iff_of_false (fun hclean => ?_) fun hmeets => hreg hmeets.1⟩
    exact hclean.noException 0 e hcrash

/-! ## 4. A failed file type analysis -/

/-- The exception that has left a process. -/
def Place.exception : Place → Option PyException
  | .crashed e => some e
  | _ => none

/-- An environment in which the printable strings of images are not looked for, and the file type
analysis raises an exception. -/
def failingFileType : AnalysisEnv where
  plugins := examplePlugins
  shuffle := ⟨fun _ l => l, fun _ l => .refl l⟩
  mimeConfig name := if name = "printable_strings" then (["image/"], []) else ([], [])
  outcome name := if name = "file_type" then .exception else .success []
  driver := acceptAll
  versionNewer
    | .str a, .str b => .ok (decide (b < a))
    | _, _ => .error (.typeError "expected string or bytes-like object")
  lower := String.toLower
  time n := n

/-- An image whose printable strings are requested. -/
def stringsImage : FileObject :=
  newFirmware ⟨"outer", "aa", "outer.bin", 2⟩ routerMeta ["printable_strings"]

/-- The backend before the analysis. -/
def idleBackend : AnalysisState where
  db := Db.empty
  files := Dict.ofList [("outer", "aa")]
  unpackingLocks := ∅
  status := ⟨∅, ∅⟩
  removals := []
  tick := 0
  place := .completed stringsImage

theorem newAnalysis_stringsImage (outcome : String → PluginOutcome) :
    NewAnalysis { failingFileType with outcome := outcome } idleBackend stringsImage where
  closed := wellFormed_examplePlugins.closed
  unprocessed _ _ := Dict.not_mem_empty _
  noResults _ := Dict.not_mem_empty _
  noFailure := rfl
  binary := by decide
  addable := by
    show (addObject acceptAll Db.empty stringsImage).raised = none
    decide
  references := by decide
  readable fw hfw := by
    obtain rfl := Option.some.inj hfw
    exact ⟨_, rfl⟩
  notRemoved := rfl

/-- The file type analysis finds an image. -/
def findingImages : AnalysisEnv :=
  { failingFileType with outcome := fun _ => .success [("mime", .str "image/png")] }

/-- Whether the file type is known when the printable strings come next. -/
def typeKnown (s : AnalysisState) : Bool :=
  match s.place with
  | .processQueue fo => fo.scheduledAnalysis.getLast? != some "printable_strings" ||
    match (fo.processedAnalysis.get? "file_type").bind fun result => result.get? "mime" with
    | some (.str _) => true
    | _ => false
  | _ => true

theorem stepMeets_findingImages {s : AnalysisState} (h : typeKnown s = true) :
    StepMeets findingImages s := by
  have hstored : ∀ uid name result, Storable findingImages.driver uid name result :=
    fun _ _ _ e he => (by cases he)
  unfold StepMeets
  unfold typeKnown at h
  split
  · next fo hplace =>
    rintro name plugin hlast hplugin ⟨-, hlists⟩
    have hdefaults : ∀ e ∈ examplePlugins.entries, e.2.mimeBlacklist = [] ∧ e.2.mimeWhitelist = [] := by
      decide
    obtain ⟨hblack, hwhite⟩ := hdefaults _ (Dict.mem_entries_iff.mpr hplugin)
    rcases Decidable.em (name = "printable_strings") with rfl | hother
    · simp only [hplace, hlast, bne_self_eq_false, Bool.false_or] at h
      split at h
      · next mime hmime =>
        obtain ⟨result, hresult, hmime⟩ := Option.bind_eq_some_iff.mp hmime
        exact ⟨mime, ⟨result, hresult, hmime⟩, fun _ => hstored _ _ _⟩
      · cases h
    · -- no other plugin has a list
      have hconfig : findingImages.mimeConfig name = ([], []) := if_neg hother
      rw [getBlacklistAndWhitelist, hconfig] at hlists
      dsimp only at hblack hwhite
      simp [hblack, hwhite] at hlists
  · next name fo hplace =>
    unfold CollectMeets
    split <;> exact fun _ _ => hstored _ _ _
  · trivial

/-- The strings of the image are skipped, and its analysis completes. -/
theorem stringsImage_completes : ∃ n s0, (∀ fuel, n ≤ fuel →
      startAnalysisOfObject fuel findingImages idleBackend stringsImage = some s0) ∧
    CompletesCleanly findingImages s0 "outer" := by
  have hnew : NewAnalysis findingImages idleBackend stringsImage := newAnalysis_stringsImage _
  obtain ⟨n, s0, hstart, hiff⟩ := completesCleanly_iff hnew
  refine ⟨n, s0, hstart, hiff.mpr ⟨by decide, fun k => ?_⟩⟩
  have hknown : (startAnalysisOfObject 10 findingImages idleBackend stringsImage).map
      (fun s => ((List.range 8).all fun k => typeKnown (analysisRun findingImages s k),
        (analysisRun findingImages s 7).place.rank)) = some (true, 0) := by decide +kernel
  obtain ⟨s1, hs1, heq⟩ := Option.map_eq_some_iff.mp hknown
  obtain ⟨hall, hrank⟩ := Prod.mk.inj heq
  obtain rfl : s0 = s1 := Option.some.inj ((hstart _ (Nat.le_max_left n 10)).symm.trans
    (startAnalysisOfObject_mono hs1 (Nat.le_max_right n 10)))
  refine stepMeets_findingImages ?_
  rcases Nat.lt_or_ge k 8 with hk | hk
  · exact List.all_eq_true.mp hall k (List.mem_range.mpr hk)
  · -- the analysis has come to its end
    have hend : analysisRun findingImages s0 k = analysisRun findingImages s0 7 := by
      rw [← Nat.sub_add_cancel (Nat.le_of_lt hk), analysisRun_add]
      exact Function.iterate_fixed (analysisStep_of_rank hrank) _
    rw [hend]
    exact List.all_eq_true.mp hall 7 (by decide)

/-- After a failed file type analysis, looking up the MIME type for a blacklist ends the scheduler
with an exception. -/
theorem failed_file_type_crashes :
    ¬ ∀ (env : AnalysisEnv) (s : AnalysisState) (fo : FileObject), env.plugins.WellFormed →
      (∀ p ∈ fo.scheduledAnalysis ++ mandatoryPlugins, p ∈ env.plugins) → NewAnalysis env s fo →
      ∃ n s0, (∀ fuel, n ≤ fuel → startAnalysisOfObject fuel env s fo = some s0) ∧
        CompletesCleanly env s0 fo.uid := by
  intro h
  obtain ⟨n, s0, hstart, hclean⟩ := h failingFileType idleBackend stringsImage
    wellFormed_examplePlugins (by decide) (newAnalysis_stringsImage failingFileType.outcome)
  have hcrash : (startAnalysisOfObject 10 failingFileType idleBackend stringsImage).map
      (fun s => (analysisRun failingFileType s 4).place.exception) =
        some (some (.keyError "mime")) := by decide
  obtain ⟨s1, hs1, he⟩ := Option.map_eq_some_iff.mp hcrash
  have hmax : startAnalysisOfObject (max n 10) failingFileType idleBackend stringsImage = some s1 :=
    startAnalysisOfObject_mono hs1 (Nat.le_max_right n 10)
  obtain rfl := Option.some.inj ((hstart _ (Nat.le_max_left n 10)).symm.trans hmax)
  cases hplace : (analysisRun failingFileType s0 4).place with
  | crashed e => exact hclean.noException 4 e hplace
  | _ =>
    rw [hplace] at he
    cases he

end FactCore
