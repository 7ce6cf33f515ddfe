import FactCore.Lib.MapM
import FactCore.VirtualPathEncoding
import Mathlib.Data.List.Dedup
import Mathlib.Data.List.Sort

/-!
# Leaked artifacts

The plugin `information_leaks` tells from the path of a text file what kind of artifact
it is. A file may have several paths, and each of them is classified on its own; the
results for the paths are put together with `dict.update`.

Results:
1. `checkFilePath_spec`: what the classification of a path holds.
2. `findArtifacts_eq_ok_iff`: the kinds that are found for a file.
3. `artifacts_reported_iff`: when each kind has all its paths.
-/

namespace FactCore

/-! ## 1. The code -/

/-- `PATH_ARTIFACT_DICT`. -/
def pathArtifactDict : List (String × String) :=
  [(".git/config", "git_config"),
    (".svn/entries", "svn_entries"),
    (".conda/environments.txt", "conda_environment"),
    ("default.conf", "possible_code_blocks_config"),
    ("clion64.exe.vmoptions", "clion_jvm_options"),
    ("idea.properties", "clion_platform_properties"),
    (".config/Code/User/settings.json", "vscode_settings"),
    (".cproject", "eclipse_config"),
    (".csproject", "eclipse_config"),
    (".project", "eclipse_config"),
    (".bash_history", "bash_history"),
    (".zsh_history", "zsh_history"),
    (".hws", "renesas_project_config"),
    (".ewd", "iar_embedded_workbench_config"),
    (".ewp", "iar_embedded_workbench_config"),
    (".eww", "iar_embedded_workbench_config"),
    (".ewt", "iar_embedded_workbench_config"),
    (".Uv2", "keil_uvision_config"),
    (".uvproj", "keil_uvision_config"),
    (".uvopt", "keil_uvision_config"),
    (".uvprojx", "keil_uvision_config"),
    (".uvoptx", "keil_uvision_config"),
    (".atsln", "atmel_studio_config"),
    (".cyprj", "cydesigner_config"),
    (".cywrk", "cydesigner_config")]

/-- `DIRECTORY_DICT`. -/
def directoryDict : List (String × String) :=
  [(".git", "git_repository"),
    (".svn", "svn_repository"),
    (".github", "github_config_directory"),
    (".pytest_cache", "pytest_cache_directory"),
    (".conda", "conda_directory"),
    (".config", "config_directory"),
    (".subversion", "svn_user_settings_directory"),
    ("subversion", "svn_settings_directory"),
    (".idea", "jetbrains_config_directory")]

/-- The paths, or parts of paths, of each kind of artifact. -/
abbrev Artifacts := Dict String (List String)

/-- `results.setdefault(artifact, []).append(file_path)`. -/
def appendPath (filePath : String) (results : Artifacts) (artifact : String) : Artifacts :=
  results.push artifact filePath

/-- `_check_for_files`. -/
def checkForFiles (filePath : String) : Artifacts :=
  pathArtifactDict.foldl (fun results item =>
    if item.1.toList <:+ filePath.toList then appendPath filePath results item.2 else results) ∅

/-- `_check_for_directories`. -/
def checkForDirectories (filePath : String) : Artifacts :=
  directoryDict.foldl (fun results item =>
    let filePathList := splitAtChar '/' filePath
    if filePathList.length > 1 ∧ filePathList[filePathList.length - 2]? = some item.1 then
      appendPath filePath results item.2
    else results) ∅

/-- The text matches `.+_history` as a whole. -/
def isHistory (text : List Char) : Bool :=
  decide ('\n' ∉ text) && decide ("_history".toList <:+ text) && decide (8 < text.length)

/-- The match of `.+_history` at the beginning of a text. It is the longest one. -/
def historyMatch? (text : List Char) : Option (List Char) :=
  ((List.range (text.length + 1)).reverse.find? fun n => isHistory (text.take n)).map text.take

/-- `re.findall(rb'.+_history', text)`, `skip` characters of the text belonging to the match before.
As `_history` is ASCII, no match ends within a character. -/
def findHistories : Nat → List Char → List (List Char)
  | _, [] => []
  | skip + 1, _ :: text => findHistories skip text
  | 0, c :: text =>
    match historyMatch? (c :: text) with
    | some found => found :: findHistories (found.length - 1) text
    | none => findHistories 0 text

/-- `_find_files`. -/
def findFiles (filePath : String) : Artifacts :=
  let result := findHistories 0 filePath.toList
  if result = [] then ∅
  else Dict.ofList [("any_history",
    ((result.map String.ofList).dedup).insertionSort fun a b => a ≤ b)]

/-- `_check_file_path`. -/
def checkFilePath (filePath : String) : Artifacts :=
  if (checkForFiles filePath).entries ≠ [] then checkForFiles filePath
  else if (checkForDirectories filePath).entries ≠ [] then checkForDirectories filePath
  else findFiles filePath

/-- `_find_artifacts`. -/
def findArtifacts (virtualFilePath : VirtualFilePath) : Except PyException Artifacts :=
  virtualFilePath.values.flatten.foldlM (fun artifacts virtualPath => do
    let filePath ← getTopOfVirtualPath virtualPath
    return artifacts.update (checkFilePath filePath)) ∅

/-- The result of `process_object` for a text file. -/
def leaksOfTextFile (virtualFilePath : VirtualFilePath) : Except PyException Artifacts := do
  let artifacts ← findArtifacts virtualFilePath
  return artifacts.set "summary" (artifacts.keys.insertionSort fun a b => a ≤ b)

/-! ## 2. What shall be reported -/

/-- The paths of the file in its archives. -/
def IsPath (virtualFilePath : VirtualFilePath) (path : String) : Prop :=
  ∃ virtualPath ∈ virtualFilePath.values.flatten, getTopOfVirtualPath virtualPath = .ok path

/-- A kind of artifact is reported with exactly the paths that are classified as this kind. -/
structure KindReported (virtualFilePath : VirtualFilePath) (result : Artifacts) (kind : String) :
    Prop where
  reported : kind ∈ result ↔ ∃ path, IsPath virtualFilePath path ∧ kind ∈ checkFilePath path
  paths : ∀ path, path ∈ result.getD kind [] ↔
    IsPath virtualFilePath path ∧ kind ∈ checkFilePath path

/-- All virtual paths have a last element, no two paths are of the same kind, and a history file is
one that ends in `_history`. -/
structure ArtifactsApart (virtualFilePath : VirtualFilePath) : Prop where
  readable : ∀ virtualPath ∈ virtualFilePath.values.flatten,
    virtualPath = "" ∨ ∃ c ∈ virtualPath.toList, c ≠ '|'
  single : ∀ path path' kind, IsPath virtualFilePath path → IsPath virtualFilePath path' →
    kind ∈ checkFilePath path → kind ∈ checkFilePath path' → path = path'
  whole : ∀ path, IsPath virtualFilePath path → "any_history" ∈ checkFilePath path →
    isHistory path.toList = true

/-! ## 3. Histories -/

section Histories
variable {text found : List Char} {skip : Nat}

theorem isHistory_of_historyMatch? (h : historyMatch? text = some found) :
    isHistory found = true := by
  obtain ⟨n, hfind, rfl⟩ := Option.map_eq_some_iff.mp h
  have hn := List.find?_some hfind
  exact hn

theorem isHistory_of_mem_findHistories (h : found ∈ findHistories skip text) :
    isHistory found = true := by
  fun_induction findHistories skip text with
  | case1 => cases h
  | case2 skip c text ih => exact ih h
  | case3 c text m hmatch ih =>
    rcases List.mem_cons.mp h with rfl | h
    · exact isHistory_of_historyMatch? hmatch
    · exact ih h
  | case4 c text hmatch ih => exact ih h

theorem findHistories_eq_nil (h : text.length ≤ skip) : findHistories skip text = [] := by
  induction text generalizing skip with
  | nil => cases skip <;> rfl
  | cons c text ih =>
    cases skip with
    | zero => cases h
    | succ skip => exact ih (Nat.le_of_succ_le_succ h)

/-- A text that matches as a whole has no other match. -/
theorem findHistories_eq_singleton (h : isHistory text = true) : findHistories 0 text = [text] := by
  have hmatch : historyMatch? text = some text := by
    rw [historyMatch?, List.range_succ, List.reverse_append, List.reverse_singleton,
      List.singleton_append, List.find?_cons_of_pos (by rwa [List.take_length]), Option.map_some,
      List.take_length]
  cases text with
  | nil => cases h
  | cons c text =>
    rw [findHistories, hmatch]
    exact congrArg _ (findHistories_eq_nil (le_refl _))

end Histories

/-! ## 4. One path -/

section Classification
variable {path kind : String} {l : List String} {results : Artifacts} {kinds : List String}

/-- All kinds of the results are among `kinds`, with the one path. -/
def OnlyPath (path : String) (kinds : List String) (results : Artifacts) : Prop :=
  ∀ kind l, results.get? kind = some l → kind ∈ kinds ∧ ∀ x, x ∈ l ↔ x = path

theorem OnlyPath.appendPath (h : OnlyPath path kinds results) (hkind : kind ∈ kinds) :
    OnlyPath path kinds (appendPath path results kind) := by
  intro k l hget
  rcases Dict.get?_set_eq_some.mp hget with ⟨rfl, rfl⟩ | ⟨-, hold⟩
  · refine ⟨hkind, fun x => ?_⟩
    rw [List.mem_append, List.mem_singleton, Dict.getD]
    cases hget' : results.get? k with
    | none => simp
    | some l' => simp [(h k l' hget').2 x]
  · exact h k l hold

theorem onlyPath_foldl {items : List (String × String)} {test : String × String → Prop}
    [DecidablePred test] (hitems : ∀ item ∈ items, item.2 ∈ kinds)
    (h : OnlyPath path kinds results) :
    OnlyPath path kinds (items.foldl (fun results item =>
      if test item then appendPath path results item.2 else results) results) := by
  induction items generalizing results with
  | nil => exact h
  | cons item items ih =>
    rw [List.forall_mem_cons] at hitems
    refine ih hitems.2 ?_
    dsimp only
    split
    · exact h.appendPath hitems.1
    · exact h

/-- The kinds that are told by the name of the file or its directory. -/
def pathKinds : List String := (pathArtifactDict ++ directoryDict).map Prod.snd

theorem onlyPath_checkForFiles (path : String) : OnlyPath path pathKinds (checkForFiles path) :=
  onlyPath_foldl (fun _ h => List.mem_map_of_mem (List.mem_append_left _ h)) (fun _ _ h => by cases h)

theorem onlyPath_checkForDirectories (path : String) :
    OnlyPath path pathKinds (checkForDirectories path) :=
  onlyPath_foldl (fun _ h => List.mem_map_of_mem (List.mem_append_right _ h)) (fun _ _ h => by cases h)

/-- What the classification of a path holds: the path, or the histories in it. -/
theorem checkFilePath_spec (h : (checkFilePath path).get? kind = some l) :
    kind ≠ "summary" ∧
    ((kind ≠ "any_history" ∧ ∀ x, x ∈ l ↔ x = path) ∨
      (kind = "any_history" ∧ ∀ x, x ∈ l ↔ x.toList ∈ findHistories 0 path.toList)) := by
  have hkinds : ∀ kind ∈ pathKinds, kind ≠ "summary" ∧ kind ≠ "any_history" := by
    decide +kernel
  unfold checkFilePath at h
  split at h
  · obtain ⟨hkind, hl⟩ := onlyPath_checkForFiles path kind l h
    exact ⟨(hkinds kind hkind).1, .inl ⟨(hkinds kind hkind).2, hl⟩⟩
  · split at h
    · obtain ⟨hkind, hl⟩ := onlyPath_checkForDirectories path kind l h
      exact ⟨(hkinds kind hkind).1, .inl ⟨(hkinds kind hkind).2, hl⟩⟩
    · unfold findFiles at h
      dsimp only at h
      split at h
      · cases h
      · have hmem := Dict.mem_of_get?_ofList h
        obtain ⟨rfl, rfl⟩ := Prod.mk.inj (List.mem_singleton.mp hmem)
        refine ⟨by decide, .inr ⟨rfl, fun x => ?_⟩⟩
        rw [List.mem_insertionSort, List.mem_dedup, List.mem_map]
        constructor
        · intro hx
          obtain ⟨m, hm, rfl⟩ := hx
          rwa [String.toList_ofList]
        · intro hx
          exact ⟨x.toList, hx, String.ofList_toList⟩

/-- A history of a path that the path itself belongs to. -/
theorem mem_of_isHistory (h : isHistory path.toList = true) {x : String} :
    x.toList ∈ findHistories 0 path.toList ↔ x = path := by
  rw [findHistories_eq_singleton h, List.mem_singleton, String.toList_inj]

end Classification

/-! ## 5. All paths -/

section AllPaths
variable {virtualFilePath : VirtualFilePath} {virtualPath : String} {l : List String}
  {artifacts result : Artifacts}

theorem exists_top_iff :
    (∃ path, getTopOfVirtualPath virtualPath = .ok path) ↔
      virtualPath = "" ∨ ∃ c ∈ virtualPath.toList, c ≠ '|' := by
  unfold getTopOfVirtualPath
  split
  · next h => exact iff_of_true ⟨"", rfl⟩ (.inl h)
  · next h =>
    have hparts : splitVirtualPath virtualPath = [] ↔ ∀ c ∈ virtualPath.toList, c = '|' := by
      rw [← nonemptyParts_eq_nil_iff, splitVirtualPath, List.map_eq_nil_iff]
      rfl
    cases hlast : (splitVirtualPath virtualPath).getLast? with
    | none =>
      rw [List.getLast?_eq_none_iff, hparts] at hlast
      refine iff_of_false (by simp) ?_
      simpa [h] using hlast
    | some top =>
      refine iff_of_true ⟨top, rfl⟩ (.inr ?_)
      have hne : splitVirtualPath virtualPath ≠ [] := by
        intro hnil
        rw [hnil] at hlast
        cases hlast
      rw [Ne, hparts] at hne
      simpa using hne

/-- The loop over the paths updates with one classification after the other. -/
theorem foldlM_update_eq_ok :
    l.foldlM (fun artifacts virtualPath => do
        let filePath ← getTopOfVirtualPath virtualPath
        return artifacts.update (checkFilePath filePath)) artifacts =
        (.ok result : Except PyException Artifacts) ↔
      ∃ tops, List.Forall₂ (fun virtualPath top => getTopOfVirtualPath virtualPath = .ok top) l tops ∧
        tops.foldl (fun artifacts path => artifacts.update (checkFilePath path)) artifacts =
          result := by
  induction l generalizing artifacts with
  | nil =>
    constructor
    · intro h
      exact ⟨[], .nil, Except.ok.inj h⟩
    · intro h
      obtain ⟨tops, htops, rfl⟩ := h
      cases htops
      rfl
  | cons virtualPath l ih =>
    rw [List.foldlM_cons]
    constructor
    · intro h
      obtain ⟨artifacts', hfirst, hrest⟩ := except_bind_eq_ok h
      obtain ⟨top, htop, heq⟩ := except_bind_eq_ok hfirst
      obtain rfl := Except.ok.inj heq
      obtain ⟨tops, htops, hresult⟩ := ih.mp hrest
      exact ⟨top :: tops, .cons htop htops, hresult⟩
    · intro h
      obtain ⟨tops, htops, hresult⟩ := h
      cases htops with
      | @cons _ top _ tops htop htops =>
        rw [htop]
        exact ih.mpr ⟨tops, htops, hresult⟩

/-- The kinds that are found for a file, and the path that each of them comes from. -/
theorem findArtifacts_eq_ok (h : findArtifacts virtualFilePath = .ok artifacts) :
    (∀ kind, kind ∈ artifacts ↔
      ∃ path, IsPath virtualFilePath path ∧ kind ∈ checkFilePath path) ∧
    (∀ kind l, artifacts.get? kind = some l →
      ∃ path, IsPath virtualFilePath path ∧ (checkFilePath path).get? kind = some l) := by
  obtain ⟨tops, htops, rfl⟩ := foldlM_update_eq_ok.mp h
  have hpath : ∀ path, path ∈ tops ↔ IsPath virtualFilePath path := by
    intro path
    constructor
    · intro hmem
      exact forall₂_mem_left htops.flip hmem
    · intro hpath
      obtain ⟨virtualPath, hmem, htop⟩ := hpath
      obtain ⟨top, hin, htop'⟩ := forall₂_mem_left htops hmem
      obtain rfl := Except.ok.inj (htop.symm.trans htop')
      exact hin
  constructor
  · intro kind
    rw [Dict.mem_foldl_update]
    simp [hpath]
  · intro kind l hget
    rcases Dict.get?_foldl_update_cases hget with ⟨path, hmem, hl⟩ | hnone
    · exact ⟨path, (hpath path).mp hmem, hl⟩
    · cases hnone

/-- The paths can be read if and only if there is a result. -/
theorem findArtifacts_isOk_iff : (∃ artifacts, findArtifacts virtualFilePath = .ok artifacts) ↔
    ∀ virtualPath ∈ virtualFilePath.values.flatten,
      virtualPath = "" ∨ ∃ c ∈ virtualPath.toList, c ≠ '|' := by
  constructor
  · intro h
    obtain ⟨artifacts, h⟩ := h
    obtain ⟨tops, htops, -⟩ := foldlM_update_eq_ok.mp h
    intro virtualPath hmem
    obtain ⟨top, -, htop⟩ := forall₂_mem_left htops hmem
    exact exists_top_iff.mp ⟨top, htop⟩
  · intro h
    obtain ⟨tops, htops⟩ := exists_forall₂ fun virtualPath hmem => exists_top_iff.mpr (h virtualPath hmem)
    exact ⟨_, foldlM_update_eq_ok.mpr ⟨tops, htops, rfl⟩⟩

/-- What a kind that is found holds, if all paths of this kind are the same. -/
theorem kindReported_iff (h : findArtifacts virtualFilePath = .ok artifacts) {kind : String} :
    KindReported virtualFilePath artifacts kind ↔
      (∀ path path', IsPath virtualFilePath path → IsPath virtualFilePath path' →
        kind ∈ checkFilePath path → kind ∈ checkFilePath path' → path = path') ∧
      (kind = "any_history" → ∀ path, IsPath virtualFilePath path → kind ∈ checkFilePath path →
        isHistory path.toList = true) := by
  obtain ⟨hkinds, hsource⟩ := findArtifacts_eq_ok h
  cases hget : artifacts.get? kind with
  | none =>
    have hno : ∀ path, IsPath virtualFilePath path → kind ∉ checkFilePath path := by
      intro path hpath hkind
      exact Dict.get?_eq_none_iff.mp hget ((hkinds kind).mpr ⟨path, hpath, hkind⟩)
    refine iff_of_true ⟨hkinds kind, fun path => ?_⟩
      ⟨fun path _ hpath _ hkind => absurd hkind (hno path hpath),
        fun _ path hpath hkind => absurd hkind (hno path hpath)⟩
    rw [Dict.getD, hget]
    exact iff_of_false List.not_mem_nil fun hp => hno path hp.1 hp.2
  | some l =>
    obtain ⟨path₀, hpath₀, hl⟩ := hsource kind l hget
    have hkind₀ : kind ∈ checkFilePath path₀ := Dict.mem_of_get? hl
    have hlist : artifacts.getD kind [] = l := by rw [Dict.getD, hget]; rfl
    obtain ⟨-, hspec⟩ := checkFilePath_spec hl
    constructor
    · intro hreported
      have hpaths := hreported.paths
      rw [hlist] at hpaths
      -- the last path of this kind is in the list, so the list holds no other one
      have hmem₀ : path₀ ∈ l := (hpaths path₀).mpr ⟨hpath₀, hkind₀⟩
      have honly : (∀ x, x ∈ l ↔ x = path₀) ∧ (kind = "any_history" → isHistory path₀.toList = true) := by
        rcases hspec with ⟨hne, hall⟩ | ⟨-, hall⟩
        · exact ⟨hall, fun heq => absurd heq hne⟩
        · have hhistory := isHistory_of_mem_findHistories ((hall path₀).mp hmem₀)
          exact ⟨fun x => (hall x).trans (mem_of_isHistory hhistory), fun _ => hhistory⟩
      have heq : ∀ path, IsPath virtualFilePath path → kind ∈ checkFilePath path → path = path₀ :=
        fun path hpath hkind => (honly.1 path).mp ((hpaths path).mpr ⟨hpath, hkind⟩)
      refine ⟨fun path path' hpath hpath' hkind hkind' => ?_, fun hany path hpath hkind => ?_⟩
      · rw [heq path hpath hkind, heq path' hpath' hkind']
      · rw [heq path hpath hkind]
        exact honly.2 hany
    · intro hcond
      refine ⟨hkinds kind, fun path => ?_⟩
      have honly : path ∈ l ↔ path = path₀ := by
        rcases hspec with ⟨-, hall⟩ | ⟨hany, hall⟩
        · exact hall path
        · exact (hall path).trans (mem_of_isHistory (hcond.2 hany path₀ hpath₀ hkind₀))
      rw [hlist, honly]
      constructor
      · intro heq
        exact heq ▸ ⟨hpath₀, hkind₀⟩
      · intro hpath
        exact hcond.1 path path₀ hpath.1 hpath₀ hpath.2 hkind₀

/-- The summary is an entry of its own. -/
theorem kindReported_set {kind : String} (h : kind ≠ "summary") (summary : List String) :
    KindReported virtualFilePath (artifacts.set "summary" summary) kind ↔
      KindReported virtualFilePath artifacts kind := by
  have hget : (artifacts.set "summary" summary).get? kind = artifacts.get? kind :=
    Dict.get?_set_of_ne summary h
  have hmem : kind ∈ artifacts.set "summary" summary ↔ kind ∈ artifacts := by
    rw [← Dict.isSome_get?, ← Dict.isSome_get?, hget]
  constructor
  · intro hr
    exact ⟨hmem.symm.trans hr.reported, by have := hr.paths; rwa [Dict.getD, hget] at this⟩
  · intro hr
    exact ⟨hmem.trans hr.reported, by have := hr.paths; rwa [Dict.getD, ← hget] at this⟩

/-- Every kind of artifact has exactly its paths in the result, if and only if all virtual paths have
a last element, no two paths are of the same kind, and history files end in `_history`. -/
theorem artifacts_reported_iff (virtualFilePath : VirtualFilePath) :
    (∃ result, leaksOfTextFile virtualFilePath = .ok result ∧
      ∀ kind, kind ≠ "summary" → KindReported virtualFilePath result kind) ↔
      ArtifactsApart virtualFilePath := by
  constructor
  · intro h
    obtain ⟨result, hresult, hall⟩ := h
    obtain ⟨artifacts, hfind, heq⟩ := except_bind_eq_ok hresult
    obtain rfl := Except.ok.inj heq
    have hreported : ∀ kind, kind ≠ "summary" → KindReported virtualFilePath artifacts kind :=
      fun kind hkind => (kindReported_set hkind _).mp (hall kind hkind)
    refine ⟨findArtifacts_isOk_iff.mp ⟨artifacts, hfind⟩, ?_, ?_⟩
    · intro path path' kind hpath hpath' hkind hkind'
      obtain ⟨l, hl⟩ := Dict.mem_iff.mp hkind
      have hsummary := (checkFilePath_spec hl).1
      exact ((kindReported_iff hfind).mp (hreported kind hsummary)).1 path path' hpath hpath' hkind
        hkind'
    · exact ((kindReported_iff hfind).mp (hreported "any_history" (by decide))).2 rfl
  · intro h
    obtain ⟨artifacts, hfind⟩ := findArtifacts_isOk_iff.mpr h.readable
    refine ⟨_, by rw [leaksOfTextFile, hfind]; rfl, fun kind hkind => ?_⟩
    rw [kindReported_set hkind, kindReported_iff hfind]
    exact ⟨fun path path' => h.single path path' kind, fun hany => hany ▸ h.whole⟩

end AllPaths

/-- Two repositories of one image that hold the same configuration. -/
def twoRepositories : VirtualFilePath :=
  Dict.ofList [("image", ["image|/a/.git/config", "image|/b/.git/config"])]

/-- The first path is lost. -/
theorem twoRepositories_one_reported : ¬ ∀ virtualFilePath : VirtualFilePath,
    ∃ result, leaksOfTextFile virtualFilePath = .ok result ∧
      ∀ kind, kind ≠ "summary" → KindReported virtualFilePath result kind := by
  intro hclaim
  obtain ⟨result, hresult, hall⟩ := hclaim twoRepositories
  have hcode : (leaksOfTextFile twoRepositories).map (fun result => result.getD "git_config" []) =
      .ok ["/b/.git/config"] := by decide +kernel
  rw [hresult, Except.map, Except.ok.injEq] at hcode
  have hpath : IsPath twoRepositories "/a/.git/config" :=
    ⟨"image|/a/.git/config", by decide +kernel, by decide +kernel⟩
  have hmem := ((hall "git_config" (by decide)).paths "/a/.git/config").mpr
    ⟨hpath, by decide +kernel⟩
  rw [hcode] at hmem
  exact absurd hmem (by decide)

end FactCore
