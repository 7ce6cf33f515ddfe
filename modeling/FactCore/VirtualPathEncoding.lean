import FactCore.Unpacking
import FactCore.VirtualPathMerge
import Mathlib.Data.List.TakeWhile

/-!
# What a virtual path tells

The virtual path of an extracted file names the archives on the way to it and the
path of the file in the last one. Nothing in it is escaped. A `|` in the path of the
file cuts the path; a `|` in the path of an archive, unless it stands at the end,
adds an element to the uid chain of everything below.

Results:
1. `splitVirtualPath_pathBelow`: the elements of the path that the unpacker builds.
2. `encodesChain_iff`: when they are the uid chain and the path.
3. `pipe_in_name`: a file name with `|`.
-/

namespace FactCore

/-- `is_uid`: `[a-f0-9]{64}_[0-9]+`. -/
def isUid (inputString : String) : Bool :=
  let chars := inputString.toList
  let isHex := fun c => decide (c ∈ "abcdef0123456789".toList)
  let isNumber := fun c => decide (c ∈ "0123456789".toList)
  (chars.take 64).length = 64 && (chars.take 64).all isHex && chars[64]? = some '_' &&
    !(chars.drop 65).isEmpty && (chars.drop 65).all isNumber

/-- `get_top_of_virtual_path`. -/
def getTopOfVirtualPath (virtualPath : String) : Except PyException String :=
  if virtualPath = "" then .ok ""
  else
    match (splitVirtualPath virtualPath).getLast? with
    | some top => .ok top
    | none => .error (.indexError "list index out of range")

/-- `get_uids_from_virtual_path`. -/
def getUidsFromVirtualPath (virtualPath : String) : List Uid :=
  let parts := splitVirtualPath virtualPath
  -- the virtual path of a firmware consists only of its uid
  if parts.length = 1 then parts else parts.dropLast

/-- `get_parent_uids_from_virtual_path`, for the virtual file paths of an object. -/
def getParentUidsFromVirtualPath (virtualFilePath : VirtualFilePath) : List Uid :=
  virtualFilePath.values.flatten.foldl (fun parentUids virtualPath =>
    match (splitVirtualPath virtualPath).dropLast.getLast? with
    | some parentUid => parentUids.insert parentUid
    | none => parentUids) []

/-! ## 1. The elements of a path -/

/-- An archive below an image: its uid, and its path in the archive above it. -/
structure Archive where
  uid : Uid
  path : String

/-- The virtual path of a file that is found below an object by unpacking the archives one after
the other. -/
def pathBelow (parentPath : String) (parentUid : Uid) : List Archive → String → String
  | [], path => currentVirtualPath parentPath parentUid path
  | archive :: archives, path =>
    pathBelow (currentVirtualPath parentPath parentUid archive.path) archive.uid archives path

/-- The paths below are those that `unpack` hands over. -/
theorem Unpacks.firstVirtualPath_eq {env : ExtractionEnv} {parentContent : List UInt8}
    {parentPath : String} {files : List ExtractedFile} {out : Unpacked} {fo : FileObject}
    (h : Unpacks env parentContent parentPath files out) (hfo : fo ∈ out.objects) :
    ∃ item ∈ files, firstVirtualPath env.rootUid fo =
      .ok (pathBelow parentPath env.parent.uid [] (getRelativeObjectPath item)) := by
  obtain ⟨item, hitem, hempty, -, -, paths, hpaths, hall⟩ := h.sound fo hfo
  have hcopy : item ∈ copiesOf files item.binary := by simp [copiesOf, hitem, hempty]
  obtain ⟨first, rest, hcopies⟩ := List.exists_cons_of_ne_nil (List.ne_nil_of_mem hcopy)
  have hfirst : first ∈ files := List.mem_of_mem_filter (hcopies ▸ List.mem_cons_self)
  rw [hcopies] at hall
  obtain ⟨path, others, hpath, -, rfl⟩ := List.forall₂_cons_left_iff.mp hall
  obtain rfl := ExtractionEnv.virtualPathOf_iff.mp hpath
  exact ⟨first, hfirst, ExtractionEnv.firstVirtualPath_eq_ok (.stored hpaths)⟩

theorem splitVirtualPath_joinVirtualPath_eq (elements : List String) :
    splitVirtualPath (joinVirtualPath elements) = elements.flatMap splitVirtualPath := by
  rw [splitVirtualPath_eq, joinVirtualPath, String.toList_intercalate]
  have hsplit := nonemptyParts_intercalate '|' (elements.map String.toList)
  rw [show "|".toList = ['|'] from rfl, hsplit, List.flatMap_map, List.map_flatMap]
  rfl

theorem splitVirtualPath_of_isPathElement {element : String} (h : IsPathElement element) :
    splitVirtualPath element = [element] := by
  rw [splitVirtualPath_eq, nonemptyParts_of_not_mem h.2 (String.toList_eq_nil_iff.not.mpr h.1),
    List.map_singleton, String.ofList_toList]

theorem isPathElement_of_isUid {uid : Uid} (h : isUid uid = true) : IsPathElement uid := by
  simp only [isUid, Bool.and_eq_true, decide_eq_true_iff, List.all_eq_true] at h
  obtain ⟨⟨⟨⟨hlength, hhex⟩, hsep⟩, -⟩, hnumber⟩ := h
  have hlt : 64 < uid.toList.length := (List.getElem?_eq_some_iff.mp hsep).1
  constructor
  · intro hempty
    rw [hempty] at hlt
    exact absurd hlt (by decide)
  · -- `|` is no hexadecimal digit, no `_` and no decimal digit
    intro hpipe
    rw [← List.take_append_drop 64 uid.toList, List.drop_eq_getElem_cons hlt] at hpipe
    rw [List.getElem?_eq_getElem hlt, Option.some.injEq] at hsep
    rw [hsep, List.mem_append, List.mem_cons] at hpipe
    rcases hpipe with hpipe | hpipe | hpipe
    · exact absurd (hhex _ hpipe) (by decide)
    · exact absurd hpipe (by decide)
    · exact absurd (hnumber _ hpipe) (by decide)

section Below
variable {parentPath path : String} {parentUid : Uid} {archives : List Archive}

theorem splitVirtualPath_currentVirtualPath (hparent : isUid parentUid = true) :
    splitVirtualPath (currentVirtualPath parentPath parentUid path) =
      uidChain parentPath ++ parentUid :: splitVirtualPath path := by
  rw [currentVirtualPath, splitVirtualPath_joinVirtualPath_eq]
  simp only [List.flatMap_cons, List.flatMap_nil, List.append_nil,
    splitVirtualPath_getBaseOfVirtualPath,
    splitVirtualPath_of_isPathElement (isPathElement_of_isUid hparent), List.singleton_append]

/-- The path of an extracted file starts with `/`. -/
def StartsWithSlash (path : String) : Prop := path.toList.head? = some '/'

theorem splitVirtualPath_ne_nil (h : StartsWithSlash path) : splitVirtualPath path ≠ [] := by
  rw [splitVirtualPath_eq, ne_eq, List.map_eq_nil_iff, nonemptyParts_eq_nil_iff]
  intro hpipes
  exact absurd (hpipes '/' (List.mem_of_mem_head? h)) (by decide)

/-- What the path of an archive adds to the uid chain besides its uid. -/
def chainRest (path : String) : List String := (splitVirtualPath path).dropLast

theorem splitVirtualPath_pathBelow (hparent : isUid parentUid = true)
    (harchives : ∀ archive ∈ archives, isUid archive.uid = true ∧ StartsWithSlash archive.path) :
    splitVirtualPath (pathBelow parentPath parentUid archives path) =
      uidChain parentPath ++ parentUid ::
        archives.flatMap (fun archive => chainRest archive.path ++ [archive.uid]) ++
          splitVirtualPath path := by
  induction archives generalizing parentPath parentUid with
  | nil =>
    rw [pathBelow, splitVirtualPath_currentVirtualPath hparent]
    simp
  | cons archive archives ih =>
    rw [List.forall_mem_cons] at harchives
    obtain ⟨⟨huid, hslash⟩, hrest⟩ := harchives
    have hchain : uidChain (currentVirtualPath parentPath parentUid archive.path) =
        uidChain parentPath ++ parentUid :: chainRest archive.path := by
      rw [uidChain, splitVirtualPath_currentVirtualPath hparent,
        List.dropLast_append_of_ne_nil (List.cons_ne_nil _ _),
        List.dropLast_cons_of_ne_nil (splitVirtualPath_ne_nil hslash), chainRest]
    rw [pathBelow, ih huid hrest, hchain]
    simp

end Below

/-! ## 2. The uid chain and the path -/

/-- What should be read from the virtual path of a file below the uids `chain`: its path, the chain,
and the last uid of the chain, its parent. -/
structure EncodesChain (root : Uid) (chain : List Uid) (path virtualPath : String) : Prop where
  top : getTopOfVirtualPath virtualPath = .ok path
  uids : getUidsFromVirtualPath virtualPath = chain
  base : getBaseOfVirtualPath virtualPath = joinVirtualPath chain
  parents : getParentUidsFromVirtualPath (Dict.ofList [(root, [virtualPath])]) =
    chain.getLast?.toList

/-- A `|` stands at the end of the path only. -/
def PipesAtEnd (path : String) : Prop :=
  ∃ name rest, path.toList = name ++ rest ∧ '|' ∉ name ∧ ∀ c ∈ rest, c = '|'

section Encodes
variable {path : String}

theorem chainRest_eq_nil_iff (h : StartsWithSlash path) : chainRest path = [] ↔ PipesAtEnd path := by
  have hcut : ∀ name rest, path.toList = name ++ rest → '|' ∉ name →
      (∀ c, rest.head? = some c → c = '|') →
        (chainRest path = [] ↔ ∀ c ∈ rest, c = '|') := by
    intro name rest hpath hname hhead
    have hne : name ≠ [] := by
      rintro rfl
      rw [StartsWithSlash, hpath] at h
      exact absurd (hhead '/' h) (by decide)
    rw [chainRest, splitVirtualPath_eq, hpath, nonemptyParts_append hname hne hhead,
      ← nonemptyParts_eq_nil_iff]
    cases nonemptyParts '|' rest <;> simp
  constructor
  · intro hrest
    have hpath := (List.takeWhile_append_dropWhile (p := (· ≠ '|')) (l := path.toList)).symm
    have hname : '|' ∉ path.toList.takeWhile (· ≠ '|') := fun hmem => by
      simpa using List.mem_takeWhile_imp hmem
    refine ⟨_, _, hpath, hname, (hcut _ _ hpath hname fun c hc => ?_).mp hrest⟩
    have hdrop := List.head?_dropWhile_not (fun c => decide (c ≠ '|')) path.toList
    rw [hc] at hdrop
    simpa using hdrop
  · rintro ⟨name, rest, hpath, hname, hrest⟩
    refine (hcut name rest hpath hname fun c hc => ?_).mpr hrest
    exact hrest c (List.mem_of_mem_head? hc)

theorem getLast?_splitVirtualPath_iff (h : StartsWithSlash path) :
    (splitVirtualPath path).getLast? = some path ↔ '|' ∉ path.toList := by
  constructor
  · intro hlast
    exact (isPathElement_of_mem_splitVirtualPath (List.mem_of_getLast? hlast)).2
  · intro hpipe
    have helement : IsPathElement path := by
      refine ⟨fun hempty => ?_, hpipe⟩
      rw [hempty] at h
      cases h
    rw [splitVirtualPath_of_isPathElement helement]
    rfl

theorem flatMap_append_eq_map_iff {α β : Type} {f : α → List β} {g : α → β} {l : List α}
    {rest : List β} : l.flatMap (fun a => f a ++ [g a]) ++ rest = l.map g ↔
      (∀ a ∈ l, f a = []) ∧ rest = [] := by
  have hlength : ∀ l : List α, l.length ≤ (l.flatMap fun a => f a ++ [g a]).length := by
    intro l
    induction l with
    | nil => exact Nat.le_refl _
    | cons a l ih =>
      simp only [List.flatMap_cons, List.length_append, List.length_cons, List.length_nil]
      omega
  constructor
  · intro h
    induction l with
    | nil => exact ⟨fun a ha => absurd ha List.not_mem_nil, h⟩
    | cons a l ih =>
      have hnil : f a = [] := by
        have hcount := congrArg List.length h
        have hle := hlength l
        simp only [List.flatMap_cons, List.length_append, List.length_cons, List.length_nil,
          List.length_map] at hcount
        exact List.length_eq_zero_iff.mp (by omega)
      rw [List.flatMap_cons, hnil, List.map_cons, List.nil_append, List.append_assoc,
        List.singleton_append, List.cons.injEq] at h
      obtain ⟨hrest, htail⟩ := ih h.2
      exact ⟨List.forall_mem_cons.mpr ⟨hnil, hrest⟩, htail⟩
  · rintro ⟨hnil, rfl⟩
    rw [List.append_nil, List.map_eq_flatMap]
    exact List.flatMap_congr fun a ha => by rw [hnil a ha, List.nil_append]

end Encodes

section Chain
variable {root : Uid} {chain parts : List String} {path virtualPath : String}

theorem getParentUidsFromVirtualPath_singleton (root : Uid) (virtualPath : String) :
    getParentUidsFromVirtualPath (Dict.ofList [(root, [virtualPath])]) =
      (uidChain virtualPath).getLast?.toList := by
  have hentries : (Dict.ofList [(root, [virtualPath])]).entries = [(root, [virtualPath])] :=
    Dict.entries_ofList (List.nodup_singleton root)
  have hvalues : (Dict.ofList [(root, [virtualPath])]).values = [[virtualPath]] := by
    rw [Dict.values, hentries]
    rfl
  rw [getParentUidsFromVirtualPath, hvalues, List.flatten_singleton, List.foldl_cons,
    List.foldl_nil, ← uidChain]
  cases (uidChain virtualPath).getLast? <;> rfl

/-- A virtual path with a uid and a path in it encodes the chain if its elements are that. -/
theorem encodesChain_iff_of_split (hparts : parts ≠ [])
    (hsplit : splitVirtualPath virtualPath = root :: parts) :
    EncodesChain root chain path virtualPath ↔
      (root :: parts).dropLast = chain ∧ parts.getLast? = some path := by
  obtain ⟨part, rest, rfl⟩ := List.exists_cons_of_ne_nil hparts
  have hne : virtualPath ≠ "" := by
    rintro rfl
    cases hsplit
  have hlast : (splitVirtualPath virtualPath).getLast? = (part :: rest).getLast? := by
    rw [hsplit, List.getLast?_cons_cons]
  have huids : getUidsFromVirtualPath virtualPath = (root :: part :: rest).dropLast := by
    simp [getUidsFromVirtualPath, hsplit]
  have htop : getTopOfVirtualPath virtualPath = .ok path ↔ (part :: rest).getLast? = some path := by
    rw [getTopOfVirtualPath, if_neg hne, hlast]
    cases (part :: rest).getLast? <;> simp
  constructor
  · intro h
    exact ⟨huids.symm.trans h.uids, htop.mp h.top⟩
  · rintro ⟨hchain, hpath⟩
    refine ⟨htop.mpr hpath, huids.trans hchain, ?_, ?_⟩
    · rw [getBaseOfVirtualPath, hsplit, hchain]
    · rw [getParentUidsFromVirtualPath_singleton, uidChain, hsplit, hchain]

/-- The virtual path of a file tells its path and the uids above it if and only if there is no `|` in
its path, and in the paths of the archives above it only at the end. -/
theorem encodesChain_iff {archives : List Archive} (hroot : isUid root = true)
    (harchives : ∀ archive ∈ archives, isUid archive.uid = true ∧ StartsWithSlash archive.path)
    (hpath : StartsWithSlash path) :
    EncodesChain root (root :: archives.map Archive.uid) path (pathBelow root root archives path) ↔
      '|' ∉ path.toList ∧ ∀ archive ∈ archives, PipesAtEnd archive.path := by
  have hne := splitVirtualPath_ne_nil hpath
  have hsplit : splitVirtualPath (pathBelow root root archives path) = _ :=
    splitVirtualPath_pathBelow hroot harchives
  rw [uidChain, splitVirtualPath_of_isPathElement (isPathElement_of_isUid hroot),
    List.dropLast_singleton, List.nil_append, List.cons_append] at hsplit
  rw [encodesChain_iff_of_split (List.append_ne_nil_of_right_ne_nil _ hne) hsplit,
    ← List.cons_append, List.dropLast_append_of_ne_nil hne, List.cons_append, List.cons.injEq,
    and_iff_right rfl, flatMap_append_eq_map_iff, List.getLast?_append_of_ne_nil _ hne,
    getLast?_splitVirtualPath_iff hpath]
  have hchains : (∀ archive ∈ archives, chainRest archive.path = []) ↔
      ∀ archive ∈ archives, PipesAtEnd archive.path :=
    forall₂_congr fun archive harchive => chainRest_eq_nil_iff (harchives archive harchive).2
  rw [hchains]
  constructor
  · rintro ⟨⟨harchives', -⟩, hpipe⟩
    exact ⟨hpipe, harchives'⟩
  · rintro ⟨hpipe, harchives'⟩
    refine ⟨⟨harchives', ?_⟩, hpipe⟩
    exact (chainRest_eq_nil_iff hpath).mpr ⟨path.toList, [], by simp, hpipe, by simp⟩

end Chain

instance (path : String) : Decidable (StartsWithSlash path) :=
  inferInstanceAs (Decidable (_ = _))

/-- The uid of an image, and of an archive in it. -/
def imageUid : Uid := createUid tarSha256 [97, 98]
def archiveUid : Uid := createUid tarSha256 [97]

/-- A file in an archive whose name ends with a `|`. -/
theorem archivePath_encoded :
    EncodesChain imageUid [imageUid, archiveUid] "/etc/passwd"
      (pathBelow imageUid imageUid [⟨archiveUid, "/fs.img|"⟩] "/etc/passwd") := by
  have harchives : ∀ archive ∈ [Archive.mk archiveUid "/fs.img|"],
      isUid archive.uid = true ∧ StartsWithSlash archive.path := by decide
  refine (encodesChain_iff (by decide) harchives (by decide)).mpr ⟨by decide, fun archive h => ?_⟩
  rw [List.mem_singleton.mp h]
  exact ⟨"/fs.img".toList, ['|'], by decide, by decide, by simp⟩

/-- A `|` in the name of a file is taken for a separator. -/
theorem pipe_in_name : ¬ ∀ root archives path, isUid root = true →
    (∀ archive ∈ archives, isUid archive.uid = true ∧ StartsWithSlash archive.path) →
      StartsWithSlash path →
        EncodesChain root (root :: archives.map Archive.uid) path
          (pathBelow root root archives path) := by
  intro h
  have htop := (h imageUid [] "/a|b" (by decide) (by simp) (by decide)).top
  exact absurd htop (by decide)

end FactCore
