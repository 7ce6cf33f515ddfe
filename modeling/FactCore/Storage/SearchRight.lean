import FactCore.Storage.SearchRead
import FactCore.Storage.SearchSelect

/-!
# When a search is right

A query should select the objects for which each condition holds, and one of those
below `$or`. The conversion joins one row of `analysis` only, so two conditions that
name different plugins are never met together, and it forgets everything next to `$or`.

Results:
1. `right_plain`, `right_or`: the two forms of a query.
2. `search_selects_iff`: when a search finds what it should.
-/

namespace FactCore

/-! ## 1. When the search is right -/

/-- All conditions on analyses name the same plugin. -/
def OnePlugin (cs : List SearchCondition) : Prop :=
  ∀ c ∈ cs, ∀ c' ∈ cs, ∀ plugin plugin', c.field.plugin = some plugin →
    c'.field.plugin = some plugin' → plugin = plugin'

/-- The object has an analysis entry, if one of the conditions is about analyses. -/
def Analysed {C : Type} (ds : List SearchCondition) (db : SearchDb C) (uid : String) : Prop :=
  ∀ d ∈ ds, ∀ plugin, d.field.plugin = some plugin → ∃ plugin', (uid, plugin') ∈ db.analyses

/-- The object has no row in `firmware`, and one of the conditions looks for NULL there. -/
def FoundAsNull {C : Type} (fwOnly : Bool) (ds : List SearchCondition) (db : SearchDb C)
    (uid : String) : Prop :=
  fwOnly = false ∧ uid ∉ db.firmware ∧ ∃ d ∈ ds, d.LooksForNull

/-- When the search is right. Without `$or`:
- all conditions on analyses name one plugin, or no object meets all conditions,
- in the first case, no object meets them as they are read only or as they are meant only.

With `$or`:
- there is a condition below it, or nothing to search,
- an object that meets one of them meets all conditions next to `$or` exactly if it has an analysis
  entry or no condition below is about analyses, and meets one below as it is read,
- no other object is found, because a condition is misread or because it has no row in `firmware`.

And no relation is compared with a value. -/
def SearchRight {C : Type} (env : QueryEnv) (engine : SqlEngine C) (db : SearchDb C) (fwOnly : Bool)
    (cs : List SearchCondition) : Option (List SearchCondition) → Prop
  | none => (∀ c ∈ cs, ¬ c.Raises) ∧
      (OnePlugin cs ∨ ∀ uid ∈ SqlSelect.searched fwOnly db,
        ¬ ∀ c ∈ cs, c.Holds env.dumps engine db uid) ∧
      (OnePlugin cs → ∀ uid ∈ SqlSelect.searched fwOnly db,
        ((∀ c ∈ cs, c.Reads env engine db uid) ↔ ∀ c ∈ cs, c.Holds env.dumps engine db uid))
  | some ds => (∀ d ∈ ds, ¬ d.Raises) ∧ (ds = [] → SqlSelect.searched fwOnly db = []) ∧
      ∀ uid ∈ SqlSelect.searched fwOnly db,
        ((∃ d ∈ ds, d.Holds env.dumps engine db uid) →
          (Analysed ds db uid ∧
            ((∃ d ∈ ds, d.Reads env engine db uid) ∨ FoundAsNull fwOnly ds db uid) ↔
              ∀ c ∈ cs, c.Holds env.dumps engine db uid)) ∧
        ((∀ d ∈ ds, ¬ d.Holds env.dumps engine db uid) → Analysed ds db uid →
          (∀ d ∈ ds, ¬ d.Reads env engine db uid) ∧ ¬ FoundAsNull fwOnly ds db uid)

/-! ## 2. The filters of the conditions -/

section Filters
variable {env : QueryEnv} {cs : List SearchCondition} {fs : List RowFilter} {C : Type}
  {engine : SqlEngine C} {db : SearchDb C} {uid : String} {fields : Dict String PyVal}

/-- The filters that the conversion makes of the conditions. -/
def FiltersFor (env : QueryEnv) (cs : List SearchCondition) (fs : List RowFilter) : Prop :=
  List.Forall₂ (fun c f => ∃ atom, c.field.convert env c.value.toPy = .ok atom ∧
    f = c.field.filter atom) cs fs

theorem exists_filtersFor (hvalid : ∀ c ∈ cs, c.Valid env.dumps) (hraise : ∀ c ∈ cs, ¬ c.Raises) :
    ∃ fs, FiltersFor env cs fs := by
  refine exists_forall₂ fun c hc => ?_
  obtain ⟨atom, hatom⟩ := (SearchCondition.convert_ok_iff (hvalid c hc)).mpr (hraise c hc)
  exact ⟨_, atom, hatom, rfl⟩

theorem FiltersFor.converted (h : FiltersFor env cs fs) (hvalid : ∀ c ∈ cs, c.Valid env.dumps) :
    Converted env (cs.map SearchCondition.entry) fs := by
  induction h with
  | nil => exact .nil
  | cons hcf _ ih =>
    obtain ⟨hc, hcs⟩ := List.forall_mem_cons.mp hvalid
    obtain ⟨atom, hatom, rfl⟩ := hcf
    exact .cons (SearchCondition.rowFilterOf_eq hc hatom) (ih hcs)

/-- What holds of the filters holds of the conditions, as they are read. -/
theorem FiltersFor.forall_iff (h : FiltersFor env cs fs) (hvalid : ∀ c ∈ cs, c.Valid env.dumps) :
    (∀ f ∈ fs, f.Holds engine db uid) ↔ ∀ c ∈ cs, c.Reads env engine db uid := by
  induction h with
  | nil => exact iff_of_true (List.forall_mem_nil _) (List.forall_mem_nil _)
  | cons hcf _ ih =>
    obtain ⟨hc, hcs⟩ := List.forall_mem_cons.mp hvalid
    obtain ⟨atom, hatom, rfl⟩ := hcf
    rw [List.forall_mem_cons, List.forall_mem_cons, ih hcs, filter_holds,
      SearchCondition.reads_iff hc hatom]

theorem FiltersFor.exists_iff (h : FiltersFor env cs fs) (hvalid : ∀ c ∈ cs, c.Valid env.dumps) :
    (∃ f ∈ fs, f.Holds engine db uid) ↔ ∃ c ∈ cs, c.Reads env engine db uid := by
  induction h with
  | nil => exact iff_of_false (fun ⟨_, hf, _⟩ => nomatch hf) fun ⟨_, hc, _⟩ => nomatch hc
  | cons hcf _ ih =>
    obtain ⟨hc, hcs⟩ := List.forall_mem_cons.mp hvalid
    obtain ⟨atom, hatom, rfl⟩ := hcf
    rw [List.exists_mem_cons_iff, List.exists_mem_cons_iff, ih hcs, filter_holds,
      SearchCondition.reads_iff hc hatom]

/-- The plugins of the filters are those of the conditions. -/
theorem FiltersFor.plugin_iff (h : FiltersFor env cs fs) {plugin : String} :
    (∃ atom, .analysis plugin atom ∈ fs) ↔ ∃ c ∈ cs, c.field.plugin = some plugin := by
  constructor
  · rintro ⟨atom, hf⟩
    obtain ⟨c, hc, atom', -, heq⟩ := forall₂_mem_left h.flip hf
    refine ⟨c, hc, ?_⟩
    cases hfield : c.field with
    | analysis plugin' path =>
      rw [hfield] at heq
      cases heq
      rfl
    | _ => rw [hfield] at heq; cases heq
  · rintro ⟨c, hc, hplugin⟩
    obtain ⟨f, hf, atom, -, rfl⟩ := forall₂_mem_left h hc
    cases hfield : c.field with
    | analysis plugin' path =>
      rw [hfield] at hplugin hf
      cases hplugin
      exact ⟨atom, hf⟩
    | _ => rw [hfield] at hplugin; cases hplugin

theorem FiltersFor.samePlugin_iff (h : FiltersFor env cs fs) : SamePlugin fs ↔ OnePlugin cs := by
  constructor
  · intro hsame c hc c' hc' plugin plugin' hplugin hplugin'
    obtain ⟨atom, hf⟩ := h.plugin_iff.mpr ⟨c, hc, hplugin⟩
    obtain ⟨atom', hf'⟩ := h.plugin_iff.mpr ⟨c', hc', hplugin'⟩
    exact hsame plugin atom plugin' atom' hf hf'
  · intro hone plugin atom plugin' atom' hf hf'
    obtain ⟨c, hc, hplugin⟩ := h.plugin_iff.mp ⟨atom, hf⟩
    obtain ⟨c', hc', hplugin'⟩ := h.plugin_iff.mp ⟨atom', hf'⟩
    exact hone c hc c' hc' plugin plugin' hplugin hplugin'

theorem FiltersFor.analysisRow_iff (h : FiltersFor env cs fs) :
    HasAnalysisRow fs db uid ↔ Analysed cs db uid := by
  unfold HasAnalysisRow Analysed
  simp only [h.plugin_iff]
  exact ⟨fun hrow c hc plugin hplugin => hrow ⟨plugin, c, hc, hplugin⟩,
    fun hanalysed ⟨plugin, c, hc, hplugin⟩ => hanalysed c hc plugin hplugin⟩

theorem FiltersFor.null_iff (h : FiltersFor env cs fs) (hvalid : ∀ c ∈ cs, c.Valid env.dumps)
    {fwOnly : Bool} : HasNullFirmware fwOnly fs db uid ↔ FoundAsNull fwOnly cs db uid := by
  refine and_congr_right fun _ => and_congr_right fun _ => ?_
  constructor
  · rintro ⟨col, hf⟩
    obtain ⟨c, hc, atom, hatom, heq⟩ := forall₂_mem_left h.flip hf
    cases hfield : c.field with
    | firmware column =>
      rw [hfield] at heq
      cases heq
      exact ⟨c, hc, (SearchCondition.isNull_iff (hvalid c hc) hfield hatom).mp rfl⟩
    | _ => rw [hfield] at heq; cases heq
  · rintro ⟨c, hc, hnull⟩
    obtain ⟨column, hfield, htags, hvalue⟩ := id hnull
    obtain ⟨f, hf, atom, hatom, rfl⟩ := forall₂_mem_left h hc
    rw [hfield] at hf
    obtain ⟨col, comparison, rfl, -⟩ := firmwareCondition_eq
      (show firmwareCondition (column, c.value.toPy) = .ok atom by rw [hfield] at hatom; exact hatom)
    have hcomparison := (SearchCondition.isNull_iff (hvalid c hc) hfield hatom).mpr hnull
    subst hcomparison
    exact ⟨col, hf⟩

theorem key_ne_id {f : SearchField} (hvalid : f.Valid) : f.key ≠ "_id" := by
  have hcolumns : "_id" ∉ fileObjectColumns ∧ "_id" ∉ firmwareColumns := by decide
  cases f with
  | fileObject column => exact fun heq => hcolumns.1 (heq ▸ hvalid)
  | firmware column => exact fun heq => hcolumns.2 (heq ▸ hvalid.1)
  | analysis plugin path =>
    intro heq
    have hkey := isAnalysisKey_key plugin hvalid.1
    rw [heq] at hkey
    exact absurd hkey (by decide)

theorem Conditions.not_mem_id (h : Conditions env.dumps fields cs) : "_id" ∉ fields := by
  intro hin
  obtain ⟨value, hvalue⟩ := Dict.mem_iff.mp hin
  have hentry := Dict.mem_entries_iff.mpr hvalue
  rw [h.entries] at hentry
  obtain ⟨c, hc, heq⟩ := List.mem_map.mp hentry
  exact key_ne_id (h.valid c hc).field (congrArg Prod.fst heq)

/-- A query with a comparison that raises an exception is not converted. -/
theorem Conditions.error (h : Conditions env.dumps fields cs) {c : SearchCondition} (hc : c ∈ cs)
    (hraise : c.Raises) {fwOnly orQuery : Bool} {select : SqlSelect} :
    buildQueryFromDict env fwOnly orQuery (.plain fields) ≠ .ok select := by
  have hvalid := h.valid c hc
  have hentry : c.entry ∈ fields.entries := by
    rw [h.entries]
    exact List.mem_map_of_mem hc
  obtain ⟨⟨plugin, hfield⟩, -⟩ := id hraise
  have hfieldValid := hfield ▸ hvalid.field
  refine buildQuery_error h.not_mem_id hentry ?_ fun r hr => ?_
  · rw [SearchCondition.entry, hfield]
    exact isAnalysisKey_key plugin hfieldValid.1
  · rw [SearchCondition.entry, hfield, analysisCondition_key hfieldValid, ← hfield] at hr
    obtain ⟨atom, hatom, -⟩ := except_map_eq_ok hr
    exact (SearchCondition.convert_ok_iff hvalid).mp ⟨atom, hatom⟩ hraise

/-- A query without such a comparison is converted to filters. -/
theorem Conditions.built (h : Conditions env.dumps fields cs) (hraise : ∀ c ∈ cs, ¬ c.Raises)
    (fwOnly orQuery : Bool) : ∃ select fs,
      buildQueryFromDict env fwOnly orQuery (.plain fields) = .ok select ∧
        Built select fwOnly orQuery fs ∧ FiltersFor env cs fs := by
  obtain ⟨fs, hfs⟩ := exists_filtersFor h.valid hraise
  have hconverted : Converted env fields.entries fs := by
    rw [h.entries]
    exact hfs.converted h.valid
  obtain ⟨select, hbuild, hb⟩ := buildQuery_plain hconverted fwOnly orQuery
  exact ⟨select, fs, hbuild, hb, hfs⟩

end Filters

/-! ## 3. The search -/

section Right
variable {env : QueryEnv} {C : Type} {engine : SqlEngine C} {db : SearchDb C} {select : SqlSelect}
  {fwOnly : Bool} {cs ds : List SearchCondition} {fs : List RowFilter}

theorem right_plain (hb : Built select fwOnly false fs) (hfs : FiltersFor env cs fs)
    (hvalid : ∀ c ∈ cs, c.Valid env.dumps) (hraise : ∀ c ∈ cs, ¬ c.Raises) :
    (∀ uid, uid ∈ select.run engine db ↔
      uid ∈ SqlSelect.searched fwOnly db ∧ MeetsQuery env.dumps engine db uid cs none) ↔
      SearchRight env engine db fwOnly cs none := by
  have hmeets : ∀ uid, MeetsQuery env.dumps engine db uid cs none ↔
      ∀ c ∈ cs, c.Holds env.dumps engine db uid := fun uid => and_iff_left nofun
  simp only [mem_run_plain hb, hmeets, hfs.forall_iff hvalid, hfs.samePlugin_iff, and_congr_right_iff]
  constructor
  · intro hall
    refine ⟨hraise, ?_, fun hone uid huid => ?_⟩
    · by_cases hone : OnePlugin cs
      · exact .inl hone
      · exact .inr fun uid huid hhold => hone ((hall uid huid).mpr hhold).2
    · rw [← hall uid huid]
      exact (and_iff_left hone).symm
  · rintro ⟨-, hright, hread⟩ uid huid
    by_cases hone : OnePlugin cs
    · rw [and_iff_left hone]
      exact hread hone uid huid
    · exact iff_of_false (fun h => hone h.2) (hright.resolve_left hone uid huid)

theorem right_or (hb : Built select fwOnly true fs) (hfs : FiltersFor env ds fs)
    (hvalid : ∀ d ∈ ds, d.Valid env.dumps) (hraise : ∀ d ∈ ds, ¬ d.Raises) :
    (∀ uid, uid ∈ select.run engine db ↔
      uid ∈ SqlSelect.searched fwOnly db ∧ MeetsQuery env.dumps engine db uid cs (some ds)) ↔
      SearchRight env engine db fwOnly cs (some ds) := by
  have hmeets : ∀ uid, MeetsQuery env.dumps engine db uid cs (some ds) ↔
      (∀ c ∈ cs, c.Holds env.dumps engine db uid) ∧ ∃ d ∈ ds, d.Holds env.dumps engine db uid :=
    fun uid => and_congr_right fun _ => ⟨fun h => h ds rfl, fun h _ heq => Option.some.inj heq ▸ h⟩
  have hnil : fs = [] ↔ ds = [] := by
    rw [← List.length_eq_zero_iff, ← List.length_eq_zero_iff, hfs.length_eq]
  simp only [mem_run_or hb, hmeets, hfs.exists_iff hvalid, hfs.analysisRow_iff,
    hfs.null_iff hvalid, ne_eq, hnil, and_congr_right_iff]
  constructor
  · intro hall
    refine ⟨hraise, fun hempty => List.eq_nil_iff_forall_not_mem.mpr fun uid huid => ?_,
      fun uid huid => ⟨fun hbelow => ?_, fun hno hanalysed => ?_⟩⟩
    · -- everything is selected, and nothing meets a condition of the empty dict
      obtain ⟨-, d, hd, -⟩ := (hall uid huid).mp fun hne => absurd hempty hne
      rw [hempty] at hd
      cases hd
    · obtain ⟨d, hd, -⟩ := id hbelow
      rw [← and_iff_left hbelow (a := ∀ c ∈ cs, c.Holds env.dumps engine db uid), ← hall uid huid,
        forall_prop_of_true (List.ne_nil_of_mem hd)]
    · have hnot : ¬ ((∃ d ∈ ds, d.Reads env engine db uid) ∨ FoundAsNull fwOnly ds db uid) := by
        intro hfound
        obtain ⟨-, d, hd, hhold⟩ := (hall uid huid).mp fun _ => ⟨hanalysed, hfound⟩
        exact hno d hd hhold
      exact ⟨fun d hd hread => hnot (.inl ⟨d, hd, hread⟩), fun hnull => hnot (.inr hnull)⟩
  · rintro ⟨-, hempty, hright⟩ uid huid
    obtain ⟨hsome, hnone⟩ := hright uid huid
    have hne : ds ≠ [] := by
      intro hnil
      rw [hempty hnil] at huid
      cases huid
    rw [forall_prop_of_true hne]
    by_cases hbelow : ∃ d ∈ ds, d.Holds env.dumps engine db uid
    · rw [hsome hbelow, and_iff_left hbelow]
    · have hno : ∀ d ∈ ds, ¬ d.Holds env.dumps engine db uid := fun d hd hhold =>
        hbelow ⟨d, hd, hhold⟩
      refine iff_of_false ?_ fun h => hbelow h.2
      rintro ⟨hanalysed, hfound⟩
      obtain ⟨hnoRead, hnoNull⟩ := hnone hno hanalysed
      rcases hfound with ⟨d, hd, hread⟩ | hnull
      · exact hnoRead d hd hread
      · exact hnoNull hnull

/-- For conditions that are read as they are meant. -/
theorem searchRight_plain_iff (hvalid : ∀ c ∈ cs, c.Valid env.dumps)
    (hread : ∀ c ∈ cs, ¬ c.Misread env) :
    SearchRight env engine db fwOnly cs none ↔ OnePlugin cs ∨
      ∀ uid ∈ SqlSelect.searched fwOnly db, ¬ ∀ c ∈ cs, c.Holds env.dumps engine db uid := by
  have hraise : ∀ c ∈ cs, ¬ c.Raises := fun c hc hraise =>
    hread c hc (.inl (SearchCondition.Raises.isAttribute hraise))
  have hsame : OnePlugin cs → ∀ uid ∈ SqlSelect.searched fwOnly db,
      ((∀ c ∈ cs, c.Reads env engine db uid) ↔ ∀ c ∈ cs, c.Holds env.dumps engine db uid) :=
    fun _ uid _ => forall₂_congr fun c hc =>
      SearchCondition.reads_iff_holds (hvalid c hc) (hread c hc)
  rw [SearchRight, and_iff_right hraise, and_iff_left hsame]

theorem searchRight_or_iff (hvalid : ∀ d ∈ ds, d.Valid env.dumps)
    (hread : ∀ d ∈ ds, ¬ d.Misread env) :
    SearchRight env engine db fwOnly cs (some ds) ↔
      (ds = [] → SqlSelect.searched fwOnly db = []) ∧ ∀ uid ∈ SqlSelect.searched fwOnly db,
        ((∃ d ∈ ds, d.Holds env.dumps engine db uid) →
          (Analysed ds db uid ↔ ∀ c ∈ cs, c.Holds env.dumps engine db uid)) ∧
        ((∀ d ∈ ds, ¬ d.Holds env.dumps engine db uid) → Analysed ds db uid →
          ¬ FoundAsNull fwOnly ds db uid) := by
  have hraise : ∀ d ∈ ds, ¬ d.Raises := fun d hd hraise =>
    hread d hd (.inl (SearchCondition.Raises.isAttribute hraise))
  have hsame : ∀ d ∈ ds, ∀ uid, d.Reads env engine db uid ↔ d.Holds env.dumps engine db uid :=
    fun d hd uid => SearchCondition.reads_iff_holds (hvalid d hd) (hread d hd)
  have hexists : ∀ uid, (∃ d ∈ ds, d.Reads env engine db uid) ↔
      ∃ d ∈ ds, d.Holds env.dumps engine db uid := fun uid =>
    exists_congr fun d => and_congr_right fun hd => hsame d hd uid
  have hforall : ∀ uid, (∀ d ∈ ds, ¬ d.Reads env engine db uid) ↔
      ∀ d ∈ ds, ¬ d.Holds env.dumps engine db uid := fun uid =>
    forall₂_congr fun d hd => not_congr (hsame d hd uid)
  rw [SearchRight, and_iff_right hraise]
  refine and_congr_right fun _ => forall₂_congr fun uid _ => and_congr ?_ ?_
  · refine imp_congr_right fun hbelow => ?_
    rw [hexists, and_iff_left (.inl hbelow)]
  · refine imp_congr_right fun hno => imp_congr_right fun _ => ?_
    rw [hforall, and_iff_right hno]

/-- A search is right if the conversion raises no exception and the SELECT is right. -/
theorem converts_iff {fields : Dict String PyVal} (h : Conditions env.dumps fields cs)
    (orQuery : Bool) {good : SqlSelect → Prop} {right : Prop}
    (hright : ∀ select fs, Built select fwOnly orQuery fs → FiltersFor env cs fs →
      (∀ c ∈ cs, ¬ c.Raises) → (good select ↔ right))
    (hraise : right → ∀ c ∈ cs, ¬ c.Raises) :
    (∃ select, buildQueryFromDict env fwOnly orQuery (.plain fields) = .ok select ∧ good select) ↔
      right := by
  constructor
  · rintro ⟨select, hbuild, hgood⟩
    have hno : ∀ c ∈ cs, ¬ c.Raises := fun c hc hc' => h.error hc hc' hbuild
    obtain ⟨select', fs, hbuild', hb, hfs⟩ := h.built hno fwOnly orQuery
    obtain rfl := Except.ok.inj (hbuild'.symm.trans hbuild)
    exact (hright _ fs hb hfs hno).mp hgood
  · intro hr
    obtain ⟨select, fs, hbuild, hb, hfs⟩ := h.built (hraise hr) fwOnly orQuery
    exact ⟨select, hbuild, (hright _ fs hb hfs (hraise hr)).mpr hr⟩

end Right

/-- The search finds exactly the objects that meet the query if and only if it is right. -/
theorem search_selects_iff {C : Type} (engine : SqlEngine C) (db : SearchDb C) {env : QueryEnv}
    (fwOnly : Bool) {query : QueryDict} {cs : List SearchCondition}
    {below : Option (List SearchCondition)} (hquery : query.Over env.dumps cs below) :
    (∃ select, buildQueryFromDict env fwOnly false query = .ok select ∧
      ∀ uid, uid ∈ select.run engine db ↔
        uid ∈ SqlSelect.searched fwOnly db ∧ MeetsQuery env.dumps engine db uid cs below) ↔
      SearchRight env engine db fwOnly cs below := by
  cases hquery with
  | plain hcs =>
    exact converts_iff hcs false (fun _ _ hb hfs hraise => right_plain hb hfs hcs.valid hraise)
      And.left
  | withOr hcs hds =>
    -- what stands next to `$or` is not looked at
    exact converts_iff hds true (fun _ _ hb hfs hraise => right_or hb hfs hds.valid hraise)
      And.left

/-! ## 4. Two searches -/

/-- Values of columns: NULL, text, and the JSON of an analysis result. -/
inductive Cell
  | null
  | text (s : String)
  | json (entries : List (String × String))
  deriving DecidableEq

/-- Text and JSON strings that are compared for equality. -/
def cellEngine : SqlEngine Cell where
  null := .null
  isNull c := decide (c = .null)
  dateString := id
  arrayString := id
  index
    | .json entries, key => (Dict.find key entries).elim .null .text
    | _, _ => .null
  text := id
  compare
    | _, .null => none
    | .eq (.str s), .text t => some (decide (t = s))
    | .eqJson (.str s), .text t => some (decide (t = s))
    | _, _ => some false
  isNull_null := rfl
  dateString_null := rfl
  arrayString_null := rfl
  compare_null _ := by cases ‹SqlComparison› <;> rfl

/-- The attributes that SQLAlchemy gives to the class. -/
def declarativeEnv : QueryEnv where
  dumps _ := ""
  attributes name := if name ∈ ["metadata", "registry"] then some fun _ => false else none
  attributes_dot name h := by
    refine if_neg fun hin => ?_
    have hnames : ∀ name ∈ ["metadata", "registry"], '.' ∉ name.toList := by decide
    exact hnames name hin h

/-- One file with the results of two plugins. -/
def twoPluginDb : SearchDb Cell where
  fileObjects := .ofList [("uid_1", fun name => if name = "file_name" then .text "a.txt" else .null)]
  firmware := ∅
  analyses := .ofList
    [(("uid_1", "file_type"), fun name =>
        if name = "result" then .json [("mime", "text/plain")] else .null),
      (("uid_1", "file_hashes"), fun name =>
        if name = "result" then .json [("md5", "0cc1")] else .null)]
  firmware_fileObjects _ h := absurd h (Dict.not_mem_empty _)

def mimeCondition : SearchCondition := ⟨.analysis "file_type" ["mime"], .plain (.str "text/plain")⟩

def hashCondition : SearchCondition := ⟨.analysis "file_hashes" ["md5"], .plain (.str "0cc1")⟩

def fileNameCondition : SearchCondition := ⟨.fileObject "file_name", .plain (.str "a.txt")⟩

theorem mimeCondition_valid : mimeCondition.Valid declarativeEnv.dumps :=
  ⟨⟨by decide, by decide⟩, rfl, nofun⟩

theorem hashCondition_valid : hashCondition.Valid declarativeEnv.dumps :=
  ⟨⟨by decide, by decide⟩, rfl, nofun⟩

theorem fileNameCondition_valid : fileNameCondition.Valid declarativeEnv.dumps :=
  ⟨show "file_name" ∈ fileObjectColumns by decide, rfl, nofun⟩

theorem mime_and_name : Conditions declarativeEnv.dumps
    (.ofList [("processed_analysis.file_type.mime", .str "text/plain"), ("file_name", .str "a.txt")])
    [mimeCondition, fileNameCondition] :=
  ⟨rfl, List.forall_mem_cons.mpr ⟨mimeCondition_valid,
    List.forall_mem_singleton.mpr fileNameCondition_valid⟩⟩

theorem mime_and_hash : Conditions declarativeEnv.dumps
    (.ofList [("processed_analysis.file_type.mime", .str "text/plain"),
      ("processed_analysis.file_hashes.md5", .str "0cc1")])
    [mimeCondition, hashCondition] :=
  ⟨rfl, List.forall_mem_cons.mpr ⟨mimeCondition_valid,
    List.forall_mem_singleton.mpr hashCondition_valid⟩⟩

/-- With conditions on one plugin the search is right. -/
theorem one_plugin_search : ∃ select,
    buildQueryFromDict declarativeEnv false false (.plain (.ofList
      [("processed_analysis.file_type.mime", .str "text/plain"), ("file_name", .str "a.txt")])) =
        .ok select ∧
      ∀ uid, uid ∈ select.run cellEngine twoPluginDb ↔
        uid ∈ SqlSelect.searched false twoPluginDb ∧
          MeetsQuery declarativeEnv.dumps cellEngine twoPluginDb uid
            [mimeCondition, fileNameCondition] none := by
  refine (search_selects_iff cellEngine twoPluginDb false (.plain mime_and_name)).mpr ?_
  have hread : ∀ c ∈ [mimeCondition, fileNameCondition], ¬ c.Misread declarativeEnv := by
    refine List.forall_mem_cons.mpr ⟨?_, List.forall_mem_singleton.mpr ?_⟩
    · rintro (⟨name, hname, -, hattr⟩ | ⟨ts, hts, -⟩)
      · cases hname
        revert hattr
        decide
      · cases hts
    · rintro (hattr | ⟨ts, hts, -⟩)
      · exact hattr.elim
      · cases hts
  refine (searchRight_plain_iff mime_and_name.valid hread).mpr (.inl ?_)
  -- only the first condition is on an analysis
  have hplugin : ∀ c ∈ [mimeCondition, fileNameCondition], ∀ plugin,
      c.field.plugin = some plugin → plugin = "file_type" :=
    List.forall_mem_cons.mpr ⟨fun plugin h => (Option.some.inj h).symm,
      List.forall_mem_singleton.mpr nofun⟩
  exact fun c hc c' hc' plugin plugin' h h' =>
    (hplugin c hc plugin h).trans (hplugin c' hc' plugin' h').symm

/-- Conditions on two plugins hold for a file that is not found. -/
theorem two_plugin_search :
    ¬ ∀ (C : Type) (engine : SqlEngine C) (db : SearchDb C) (env : QueryEnv) (fwOnly : Bool)
        (query : QueryDict) (cs : List SearchCondition) (below : Option (List SearchCondition)),
      query.Over env.dumps cs below → ∃ select,
        buildQueryFromDict env fwOnly false query = .ok select ∧
          ∀ uid, uid ∈ select.run engine db ↔
            uid ∈ SqlSelect.searched fwOnly db ∧ MeetsQuery env.dumps engine db uid cs below := by
  intro h
  obtain ⟨select, hbuild, hall⟩ :=
    h _ cellEngine twoPluginDb declarativeEnv false _ _ _ (.plain mime_and_hash)
  have hmime : mimeCondition.Holds declarativeEnv.dumps cellEngine twoPluginDb "uid_1" :=
    ⟨_, _, rfl, rfl, List.forall_mem_singleton.mpr rfl⟩
  have hhash : hashCondition.Holds declarativeEnv.dumps cellEngine twoPluginDb "uid_1" :=
    ⟨_, _, rfl, rfl, List.forall_mem_singleton.mpr rfl⟩
  have hfound : "uid_1" ∈ select.run cellEngine twoPluginDb :=
    (hall "uid_1").mpr ⟨List.mem_cons_self, List.forall_mem_cons.mpr ⟨hmime,
      List.forall_mem_singleton.mpr hhash⟩, nofun⟩
  obtain ⟨select', hbuild', hrun⟩ : ∃ select',
      buildQueryFromDict declarativeEnv false false (.plain (.ofList
        [("processed_analysis.file_type.mime", .str "text/plain"),
          ("processed_analysis.file_hashes.md5", .str "0cc1")])) = .ok select' ∧
        select'.run cellEngine twoPluginDb = [] := ⟨_, rfl, by rfl⟩
  obtain rfl := Except.ok.inj (hbuild.symm.trans hbuild')
  rw [hrun] at hfound
  cases hfound

end FactCore
