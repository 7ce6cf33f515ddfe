import FactCore.Unpacker

/-!
# Unpacking a file

`src/src/unpacker/unpack.py`: the extractor leaves the content of a file in a
directory, and every file below it becomes an object. A file that was extracted at
several paths is one object with several virtual paths; an empty file and a copy of
the archive itself are no objects.

The root uid of an object is set before it is unpacked: an image sets it with its
binary, an extracted file gets it from its parent. Here it is an argument.

Results:
1. `generateAndStoreFileObjects_eq_ok`: what the loop over the extracted files has
   collected, and in which order files are locked and stored.
2. `unpack_eq_ok`: the objects are those of `extractedObject`.
3. `unpack_unpacks`: no file is lost or there twice.
-/

namespace FactCore

/-- A file below the directory of the extraction: the components of its path, and what is read
from it. An entry that cannot be read, such as a broken link, has no content. -/
structure ExtractedFile where
  parts : List String
  content : Option (List UInt8)
  deriving DecidableEq

/-- `file_is_empty`. -/
def fileIsEmpty (item : ExtractedFile) : Bool := decide (item.content = some [])

/-- What an object reads as its binary. -/
def ExtractedFile.binary (item : ExtractedFile) : List UInt8 := item.content.getD []

/-- `str(path)` for a relative path. -/
def pathText (parts : List String) : String := if parts = [] then "." else "/".intercalate parts

/-- `get_relative_object_path`. Some extractors put everything into a directory
`fact_extracted`. -/
def getRelativeObjectPath (item : ExtractedFile) : String :=
  "/" ++ pathText
    (if item.parts.head? = some "fact_extracted" then item.parts.tail else item.parts)

/-- `create_uid`. -/
def createUid (getSha256 : List UInt8 → String) (binary : List UInt8) : Uid :=
  getSha256 binary ++ "_" ++ toString binary.length

/-- A `FileObject` with its `file_path`. -/
structure LoadedFile where
  filePath : String
  object : FileObject

/-- What the constructor of an object reads from an extracted file. -/
def ExtractedFile.binaryFile (getSha256 : List UInt8 → String) (item : ExtractedFile) :
    BinaryFile where
  uid := createUid getSha256 item.binary
  sha256 := getSha256 item.binary
  fileName := item.parts.getLastD ""
  size := item.binary.length

/-- `FileObject(file_path=...)`. -/
def newFileObject (file : BinaryFile) : FileObject where
  uid := file.uid
  sha256 := some file.sha256
  fileName := file.fileName
  depth := 0
  size := file.size
  comments := []
  virtualFilePath := ∅
  parents := []
  parentFirmwareUids := []
  filesIncluded := []
  processedAnalysis := ∅
  scheduledAnalysis := []
  analysisException := none
  forceUpdate := false
  firmware := none

/-! ## The loop over the extracted files -/

/-- What an unpacker does to the locks and to the file store. -/
inductive UnpackEffect
  | setUnpackingLock (uid : Uid)
  | storeFile (uid : Uid)
  deriving DecidableEq, Repr

/-- `extracted_files`, and what was done so far. -/
structure ExtractionState where
  extractedFiles : Dict Uid LoadedFile
  effects : List UnpackEffect

/-- What an extraction is about: the temporary directory, the hash function, and the object with
its root. -/
structure ExtractionEnv where
  tmpDir : String
  getSha256 : List UInt8 → String
  rootUid : Uid
  parent : FileObject

/-- `parent.get_virtual_file_paths()[parent.get_root_uid()][0]`. -/
def firstVirtualPath (rootUid : Uid) (parent : FileObject) : Except PyException String :=
  match parent.getVirtualFilePaths.get? rootUid with
  | none => .error (.keyError rootUid)
  | some [] => .error (.indexError "list index out of range")
  | some (path :: _) => .ok path

/-- The virtual path of a file that was extracted from `parentUid`. -/
def currentVirtualPath (parentPath : String) (parentUid : Uid) (relativePath : String) : String :=
  joinVirtualPath [getBaseOfVirtualPath parentPath, parentUid, relativePath]

/-- `virtual_file_path[root_uid].append(path)`. -/
def FileObject.addPath (rootUid : Uid) (path : String) (fo : FileObject) : FileObject :=
  let paths := fo.virtualFilePath.getD rootUid []
  { fo with virtualFilePath := fo.virtualFilePath.set rootUid (paths ++ [path]) }

namespace ExtractionEnv
variable (env : ExtractionEnv)

def uidOf (item : ExtractedFile) : Uid := createUid env.getSha256 item.binary

/-- `FileObject(file_path=str(item))`, with the reference to the root and a first path. -/
def currentFile (item : ExtractedFile) (currentVirtualPath : String) : LoadedFile where
  filePath := env.tmpDir ++ "/files/" ++ pathText item.parts
  object :=
    { newFileObject (item.binaryFile env.getSha256) with
      virtualFilePath := Dict.ofList [(env.rootUid, [currentVirtualPath])]
      parentFirmwareUids := [env.rootUid] }

/-- One round of the loop in `generate_and_store_file_objects`. -/
def addExtractedFile (state : ExtractionState) (item : ExtractedFile) :
    Except PyException ExtractionState :=
  if fileIsEmpty item then .ok state
  else do
    let parentPath ← firstVirtualPath env.rootUid env.parent
    let path := currentVirtualPath parentPath env.parent.uid (getRelativeObjectPath item)
    match state.extractedFiles.get? (env.uidOf item) with
    | some known =>
      -- the same file is extracted multiple times from one archive
      let known' := { known with object := known.object.addPath env.rootUid path }
      .ok { state with extractedFiles := state.extractedFiles.set (env.uidOf item) known' }
    | none =>
      let stored := [.setUnpackingLock (env.uidOf item), .storeFile (env.uidOf item)]
      .ok ⟨state.extractedFiles.set (env.uidOf item) (env.currentFile item path),
        state.effects ++ stored⟩

/-- `generate_and_store_file_objects`. -/
def generateAndStoreFileObjects (filePaths : List ExtractedFile) :
    Except PyException ExtractionState :=
  filePaths.foldlM env.addExtractedFile ⟨∅, []⟩

end ExtractionEnv

/-- `remove_duplicates`. -/
def removeDuplicates (extractedFoDict : Dict Uid LoadedFile) (parentUid : Uid) :
    List LoadedFile :=
  (extractedFoDict.erase parentUid).values

/-! ## Linking the objects to their parent -/

/-- `FileObject.get_virtual_paths_for_one_uid`. -/
def FileObject.getVirtualPathsForOneUid (rootUid : Uid) (fo : FileObject) : List String :=
  match fo.getVirtualFilePaths.get? rootUid with
  | some paths => paths
  | none => fo.getVirtualFilePaths.values.headD []

/-- `FileObject.add_virtual_file_path_if_none_exists`. -/
def LoadedFile.addVirtualFilePathIfNoneExists (rootUid : Uid) (parentPaths : List String)
    (parentUid : Uid) (file : LoadedFile) : LoadedFile :=
  if rootUid ∈ file.object.virtualFilePath then file
  else
    let paths := parentPaths.map fun item =>
      let basePath := getBaseOfVirtualPath item
      (if basePath = "" then "" else basePath ++ "|") ++ parentUid ++ "|" ++ file.filePath
    let virtualFilePath := file.object.virtualFilePath.set rootUid paths
    { file with object := { file.object with virtualFilePath := virtualFilePath } }

/-- The child that `FileObject.add_included_file` leaves. -/
def LoadedFile.includeIn (rootUid : Uid) (parent : FileObject) (file : LoadedFile) : FileObject :=
  let file' := file.addVirtualFilePathIfNoneExists rootUid
    (parent.getVirtualPathsForOneUid rootUid) parent.uid
  { file'.object with
    parents := file.object.parents ++ [parent.uid]
    depth := parent.depth + 1
    scheduledAnalysis := parent.scheduledAnalysis }

/-- The parent that `FileObject.add_included_file` leaves. -/
def FileObject.includeUid (uid : Uid) (parent : FileObject) : FileObject :=
  { parent with filesIncluded := parent.filesIncluded.insert uid }

/-- `add_included_files_to_object`: the parent and its children. -/
def addIncludedFilesToObject (rootUid : Uid) :
    List LoadedFile → FileObject → FileObject × List FileObject
  | [], rootFileObject => (rootFileObject, [])
  | item :: items, rootFileObject =>
    let child := item.includeIn rootUid rootFileObject
    let (rootFileObject', children) :=
      addIncludedFilesToObject rootUid items (rootFileObject.includeUid child.uid)
    (rootFileObject', child :: children)

/-! ## `unpack` -/

/-- The result of the unpacker when it did not unpack anything. -/
def unpackSkipInfo (now : Rat) (info tagName tagValue : String) : PyVal :=
  .dict [("plugin_used", .str "None"), ("number_of_unpacked_files", .num 0),
    ("plugin_version", .str "0.0"), ("analysis_date", .num now), ("info", .str info),
    ("tags", .dict [(tagName,
      .dict [("value", .str tagValue), ("color", .str "warning"), ("propagate", .bool false)])])]

/-- `_store_unpacking_error_skip_info`. -/
def unpackingErrorSkipInfo (now : Rat) : PyVal :=
  unpackSkipInfo now "Unpacking stopped because extractor raised a exception (possible timeout)"
    "extractor error" "possible extractor timeout"

/-- `_store_unpacking_depth_skip_info`. -/
def unpackingDepthSkipInfo (now : Rat) : PyVal :=
  unpackSkipInfo now "Unpacking stopped because maximum unpacking depth was reached"
    "depth reached" "unpacking depth reached"

/-- Store the result of the unpacker. -/
def FileObject.setUnpackerResult (result : PyVal) (fo : FileObject) : FileObject :=
  { fo with processedAnalysis := fo.processedAnalysis.set "unpacker" result }

/-- What the extractor hands over: the files below `files`, or nothing if it could not be reached,
and its report. -/
structure ExtractorRun where
  extractedFiles : Except PyException (Option (List ExtractedFile))
  report : PyVal

/-- The objects that `unpack` returns, the object that it was called with, and what it did. -/
structure Unpacked where
  objects : List FileObject
  currentFo : FileObject
  effects : List UnpackEffect

/-- `Unpacker.unpack`. `now` is the clock. -/
def unpack (env : ExtractionEnv) (maxDepth : Nat) (now : Rat) (run : ExtractorRun) :
    Except PyException Unpacked :=
  if maxDepth ≤ env.parent.depth then
    .ok ⟨[], env.parent.setUnpackerResult (unpackingDepthSkipInfo now), []⟩
  else do
    match ← run.extractedFiles with
    | none => .ok ⟨[], env.parent.setUnpackerResult (unpackingErrorSkipInfo now), []⟩
    | some filePaths =>
      let state ← env.generateAndStoreFileObjects filePaths
      let items := removeDuplicates state.extractedFiles env.parent.uid
      let (parent, children) := addIncludedFilesToObject env.rootUid items env.parent
      .ok ⟨children, parent.setUnpackerResult run.report, state.effects⟩

/-! ## 1. What is collected -/

namespace ExtractionEnv
variable {env : ExtractionEnv} {parentPath : String} {item : ExtractedFile}
  {files : List ExtractedFile} {state : ExtractionState}

/-- The extracted files with the content of `uid`. -/
def copies (env : ExtractionEnv) (files : List ExtractedFile) (uid : Uid) : List ExtractedFile :=
  files.filter fun item => !fileIsEmpty item && decide (env.uidOf item = uid)

/-- The virtual path of an extracted file. -/
def virtualPath (env : ExtractionEnv) (parentPath : String) (item : ExtractedFile) : String :=
  currentVirtualPath parentPath env.parent.uid (getRelativeObjectPath item)

/-- The object of several copies of one file. -/
def loaded (env : ExtractionEnv) (parentPath : String) : List ExtractedFile → Option LoadedFile
  | [] => none
  | item :: items => some
    { filePath := env.tmpDir ++ "/files/" ++ pathText item.parts
      object :=
        { newFileObject (item.binaryFile env.getSha256) with
          virtualFilePath :=
            Dict.ofList [(env.rootUid, (item :: items).map (env.virtualPath parentPath))]
          parentFirmwareUids := [env.rootUid] } }

/-- What is done for every new file. -/
def storeEffects (uid : Uid) : List UnpackEffect := [.setUnpackingLock uid, .storeFile uid]

/-- The state of the loop behind the files. -/
structure Collected (env : ExtractionEnv) (parentPath : String) (files : List ExtractedFile)
    (state : ExtractionState) : Prop where
  files_eq : ∀ uid, state.extractedFiles.get? uid = env.loaded parentPath (env.copies files uid)
  effects_eq : state.effects = state.extractedFiles.keys.flatMap storeEffects

theorem copies_append (files : List ExtractedFile) (item : ExtractedFile) (uid : Uid) :
    env.copies (files ++ [item]) uid =
      env.copies files uid ++
        if fileIsEmpty item = false ∧ env.uidOf item = uid then [item] else [] := by
  rw [copies, List.filter_append, ← copies]
  congr 1
  by_cases hempty : fileIsEmpty item <;> by_cases huid : env.uidOf item = uid <;>
    simp [hempty, huid]

theorem set_ofList_singleton (root : Uid) (paths paths' : List String) :
    (Dict.ofList [(root, paths)]).set root paths' = Dict.ofList [(root, paths')] := by
  have hentries : ∀ ps : List String, (Dict.ofList [(root, ps)]).entries = [(root, ps)] :=
    fun ps => Dict.entries_ofList (List.nodup_singleton root)
  have hmem : root ∈ (Dict.ofList [(root, paths)]).keys := by simp [Dict.keys, hentries]
  refine Dict.ext ?_
  rw [Dict.set, dif_pos hmem]
  change Dict.replace root paths' (Dict.ofList [(root, paths)]).entries = _
  rw [hentries, hentries]
  simp [Dict.replace]

/-- One more copy is one more path. -/
theorem loaded_append (env : ExtractionEnv) (parentPath : String) (first item : ExtractedFile)
    (items : List ExtractedFile) :
    env.loaded parentPath (first :: items ++ [item]) =
      (env.loaded parentPath (first :: items)).map fun known =>
        { known with object := known.object.addPath env.rootUid (env.virtualPath parentPath item) } := by
  have hgetD : (Dict.ofList [(env.rootUid, (first :: items).map (env.virtualPath parentPath))]).getD
      env.rootUid [] = (first :: items).map (env.virtualPath parentPath) := by
    simp [Dict.getD, Dict.ofList, Dict.setAll]
  rw [List.cons_append, loaded, loaded, Option.map_some, FileObject.addPath]
  dsimp only
  rw [hgetD, set_ofList_singleton, ← List.cons_append, List.map_append, List.map_singleton]

theorem addExtractedFile_collected (hfirst : firstVirtualPath env.rootUid env.parent = .ok parentPath)
    (h : Collected env parentPath files state) :
    ∃ state', env.addExtractedFile state item = .ok state' ∧
      Collected env parentPath (files ++ [item]) state' := by
  unfold addExtractedFile
  cases hempty : fileIsEmpty item with
  | true =>
    refine ⟨state, rfl, ⟨fun uid => ?_, h.effects_eq⟩⟩
    rw [copies_append, if_neg (by simp [hempty]), List.append_nil]
    exact h.files_eq uid
  | false =>
    have hother : ∀ uid, uid ≠ env.uidOf item →
        env.copies (files ++ [item]) uid = env.copies files uid := by
      intro uid hne
      rw [copies_append, if_neg fun hcopy => hne hcopy.2.symm, List.append_nil]
    have hself : env.copies (files ++ [item]) (env.uidOf item) =
        env.copies files (env.uidOf item) ++ [item] := by
      rw [copies_append, if_pos ⟨hempty, rfl⟩]
    have hknown := h.files_eq (env.uidOf item)
    rw [if_neg Bool.false_ne_true, hfirst]
    cases hcopies : env.copies files (env.uidOf item) with
    | nil =>
      rw [hcopies, loaded] at hknown
      simp only [hknown, bind, Except.bind]
      refine ⟨_, rfl, ⟨fun uid => ?_, ?_⟩⟩
      · rw [Dict.get?_set]
        split
        · next heq =>
          rw [heq, hself, hcopies]
          rfl
        · next hne => rw [h.files_eq, hother uid hne]
      · rw [Dict.keys_set, if_neg (Dict.get?_eq_none_iff.mp hknown), List.flatMap_append,
          ← h.effects_eq]
        rfl
    | cons first items =>
      rw [hcopies] at hknown
      have hmore := loaded_append env parentPath first item items
      rw [← hcopies, ← hself, hcopies, ← hknown] at hmore
      obtain ⟨known, hget⟩ : ∃ known, state.extractedFiles.get? (env.uidOf item) = some known := by
        rw [hknown]
        exact ⟨_, rfl⟩
      rw [hget, Option.map_some] at hmore
      simp only [hget, bind, Except.bind]
      refine ⟨_, rfl, ⟨fun uid => ?_, ?_⟩⟩
      · rw [Dict.get?_set]
        split
        · next heq => rw [heq, hmore]; rfl
        · next hne => rw [h.files_eq, hother uid hne]
      · rw [Dict.keys_set, if_pos (Dict.mem_of_get? hget)]
        exact h.effects_eq

theorem foldlM_collected (hfirst : firstVirtualPath env.rootUid env.parent = .ok parentPath)
    (items : List ExtractedFile) (h : Collected env parentPath files state) :
    ∃ state', items.foldlM env.addExtractedFile state = .ok state' ∧
      Collected env parentPath (files ++ items) state' := by
  induction items generalizing files state with
  | nil => exact ⟨state, rfl, by rwa [List.append_nil]⟩
  | cons item items ih =>
    obtain ⟨next, hnext, hcollected⟩ : ∃ next, env.addExtractedFile state item = .ok next ∧
        Collected env parentPath (files ++ [item]) next :=
      addExtractedFile_collected hfirst h
    obtain ⟨state', hstate', hall⟩ := ih hcollected
    refine ⟨state', ?_, by simpa using hall⟩
    rw [List.foldlM_cons, hnext]
    exact hstate'

theorem generateAndStoreFileObjects_eq_ok
    (hfirst : firstVirtualPath env.rootUid env.parent = .ok parentPath)
    (files : List ExtractedFile) :
    ∃ state, env.generateAndStoreFileObjects files = .ok state ∧
      Collected env parentPath files state := by
  have hstart : Collected env parentPath [] ⟨∅, []⟩ := ⟨fun _ => rfl, rfl⟩
  exact foldlM_collected hfirst files hstart

theorem loaded_uid {items : List ExtractedFile} {file : LoadedFile} {uid : Uid}
    (h : env.loaded parentPath (env.copies items uid) = some file) : file.object.uid = uid := by
  cases hcopies : env.copies items uid with
  | nil => rw [hcopies] at h; cases h
  | cons first rest =>
    rw [hcopies] at h
    have hmem : first ∈ env.copies items uid := hcopies ▸ List.mem_cons_self
    obtain rfl := Option.some.inj h
    simp only [copies, List.mem_filter, Bool.and_eq_true, decide_eq_true_iff] at hmem
    exact hmem.2.2

end ExtractionEnv

/-! ## 2. The objects -/

section Include
variable {root : Uid} {items : List LoadedFile} {parent : FileObject}

/-- The object of an extracted file, linked to its parent. -/
def LoadedFile.linkedTo (parent : FileObject) (file : LoadedFile) : FileObject :=
  { file.object with
    parents := file.object.parents ++ [parent.uid]
    depth := parent.depth + 1
    scheduledAnalysis := parent.scheduledAnalysis }

theorem addIncludedFilesToObject_eq (items : List LoadedFile) (parent : FileObject)
    (hroot : ∀ item ∈ items, root ∈ item.object.virtualFilePath) :
    addIncludedFilesToObject root items parent =
      (items.foldl (fun fo item => fo.includeUid item.object.uid) parent,
        items.map (LoadedFile.linkedTo parent)) := by
  induction items generalizing parent with
  | nil => rfl
  | cons item items ih =>
    have hfirst : item.addVirtualFilePathIfNoneExists root (parent.getVirtualPathsForOneUid root)
        parent.uid = item := if_pos (hroot item List.mem_cons_self)
    have hrest := ih (parent.includeUid item.object.uid) fun other hother =>
      hroot other (List.mem_cons_of_mem item hother)
    simp only [addIncludedFilesToObject, LoadedFile.includeIn, hfirst, hrest]
    rfl

theorem mem_filesIncluded_foldl_includeUid {uid : Uid} :
    uid ∈ (items.foldl (fun fo item => fo.includeUid item.object.uid) parent).filesIncluded ↔
      uid ∈ parent.filesIncluded ∨ uid ∈ items.map fun item => item.object.uid := by
  induction items generalizing parent with
  | nil => simp
  | cons item items ih =>
    rw [List.foldl_cons, ih, FileObject.includeUid, List.mem_insert_iff, List.map_cons,
      List.mem_cons]
    tauto

end Include

namespace ExtractionEnv
variable {env : ExtractionEnv} {parentPath : String} {files : List ExtractedFile}
  {state : ExtractionState} {uid : Uid}

theorem mem_removeDuplicates {file : LoadedFile} (h : Collected env parentPath files state) :
    file ∈ removeDuplicates state.extractedFiles env.parent.uid ↔
      file.object.uid ≠ env.parent.uid ∧
        env.loaded parentPath (env.copies files file.object.uid) = some file := by
  rw [removeDuplicates, Dict.mem_values_iff]
  simp only [Dict.get?_erase, h.files_eq]
  constructor
  · rintro ⟨uid, hfile⟩
    split at hfile
    · cases hfile
    · next hne =>
      rw [loaded_uid hfile]
      exact ⟨hne, hfile⟩
  · rintro ⟨hne, hfile⟩
    exact ⟨file.object.uid, by rw [if_neg hne]; exact hfile⟩

theorem map_uid_removeDuplicates (h : Collected env parentPath files state) :
    (removeDuplicates state.extractedFiles env.parent.uid).map (fun file => file.object.uid) =
      (state.extractedFiles.erase env.parent.uid).keys := by
  refine Dict.map_values_eq_keys fun uid file hfile => ?_
  have hget := Dict.get?_of_get?_erase hfile
  rw [h.files_eq] at hget
  exact loaded_uid hget

theorem mem_copies {item : ExtractedFile} :
    item ∈ env.copies files uid ↔ item ∈ files ∧ fileIsEmpty item = false ∧ env.uidOf item = uid := by
  simp [copies]

/-- Being loaded means being the object of all copies. -/
theorem loaded_eq_some_iff {items : List ExtractedFile} {file : LoadedFile} :
    env.loaded parentPath items = some file ↔
      ∃ first rest, items = first :: rest ∧ env.loaded parentPath (first :: rest) = some file := by
  cases items with
  | nil => simp [loaded]
  | cons first rest => simp

theorem mem_keys_of_collected (h : Collected env parentPath files state) :
    uid ∈ state.extractedFiles.keys ↔ env.copies files uid ≠ [] := by
  rw [← Dict.mem_def, ← Dict.isSome_get?, h.files_eq]
  cases env.copies files uid <;> simp [loaded]

theorem root_mem_of_loaded {items : List ExtractedFile} {file : LoadedFile}
    (h : env.loaded parentPath items = some file) :
    env.rootUid ∈ file.object.virtualFilePath := by
  obtain ⟨first, rest, -, hfile⟩ := loaded_eq_some_iff.mp h
  obtain rfl := Option.some.inj hfile
  simp [Dict.ofList]

/-- What is loaded and linked to the archive is the object that was extracted from it. -/
theorem extractedObject_eq_linkedTo
    (hfirst : firstVirtualPath env.rootUid env.parent = .ok parentPath)
    {first : ExtractedFile} {rest : List ExtractedFile} {file : LoadedFile}
    (h : env.loaded parentPath (first :: rest) = some file) :
    extractedObject env.rootUid env.parent (first.binaryFile env.getSha256)
      ((first :: rest).map getRelativeObjectPath) = some (file.linkedTo env.parent) := by
  obtain rfl := Option.some.inj h
  unfold firstVirtualPath at hfirst
  split at hfirst
  · cases hfirst
  · cases hfirst
  · next paths hpaths =>
    obtain rfl := Except.ok.inj hfirst
    simp only [extractedObject, hpaths, List.head?_cons, Option.map_some, Option.bind_some, bind,
      pure, List.map_map]
    rfl

/-- What `unpack` hands over, by the state of the loop. -/
theorem unpack_eq_ok {maxDepth : Nat} {run : ExtractorRun} (now : Rat)
    (hfirst : firstVirtualPath env.rootUid env.parent = .ok parentPath)
    (hdepth : env.parent.depth < maxDepth) (hfiles : run.extractedFiles = .ok (some files)) :
    ∃ state out, Collected env parentPath files state ∧ unpack env maxDepth now run = .ok out ∧
      out.objects = (removeDuplicates state.extractedFiles env.parent.uid).map
        (LoadedFile.linkedTo env.parent) ∧
      (∀ uid, uid ∈ out.currentFo.filesIncluded ↔
        uid ∈ env.parent.filesIncluded ∨ uid ∈ out.objects.map FileObject.uid) ∧
      out.effects = state.effects := by
  obtain ⟨state, hstate, hcollected⟩ := generateAndStoreFileObjects_eq_ok hfirst files
  have hroot : ∀ item ∈ removeDuplicates state.extractedFiles env.parent.uid,
      env.rootUid ∈ item.object.virtualFilePath := fun item hitem =>
    root_mem_of_loaded ((mem_removeDuplicates hcollected).mp hitem).2
  have hlink := addIncludedFilesToObject_eq _ env.parent hroot
  let items := removeDuplicates state.extractedFiles env.parent.uid
  let parent := items.foldl (fun fo item => fo.includeUid item.object.uid) env.parent
  refine ⟨state, ⟨items.map (LoadedFile.linkedTo env.parent),
    parent.setUnpackerResult run.report, state.effects⟩, hcollected, ?_, rfl, fun uid => ?_, rfl⟩
  · rw [unpack, if_neg (Nat.not_le.mpr hdepth), hfiles]
    simp only [bind, Except.bind, hstate, hlink]
    rfl
  · rw [List.map_map]
    exact mem_filesIncluded_foldl_includeUid

end ExtractionEnv

/-! ## 3. No file is lost or there twice -/

/-- The first virtual path of an object below a root: the first of its paths, or its uid if it has
no paths at all and is the root itself. -/
inductive FirstVirtualPath (rootUid : Uid) (parent : FileObject) : String → Prop
  | stored {path paths} (hpath : parent.virtualFilePath.get? rootUid = some (path :: paths)) :
      FirstVirtualPath rootUid parent path
  | alone (hnone : parent.virtualFilePath.entries = []) (hroot : rootUid = parent.uid) :
      FirstVirtualPath rootUid parent parent.uid

/-- The base of a virtual path: all names in it but the last one. -/
def BaseOf (virtualPath base : String) : Prop :=
  ∃ names : List String, Separated '|' virtualPath.toList (names.map String.toList) ∧
    base = "|".intercalate names.dropLast

/-- The path of an extracted file below the directory of the extraction: the components, each behind
a slash, without a leading `fact_extracted`. -/
inductive RelativePath : List String → String → Prop
  | plain {first parts} (h : first ≠ "fact_extracted") :
      RelativePath (first :: parts) (String.join ((first :: parts).map fun part => "/" ++ part))
  | wrapped {first parts} : RelativePath ("fact_extracted" :: first :: parts)
      (String.join ((first :: parts).map fun part => "/" ++ part))
  | directory : RelativePath [] "/."
  | wrapper : RelativePath ["fact_extracted"] "/."

/-- The virtual path of a file below its parent. -/
def VirtualPathOf (parentPath : String) (parentUid : Uid) (item : ExtractedFile) (path : String) :
    Prop :=
  ∃ base relative, BaseOf parentPath base ∧ RelativePath item.parts relative ∧
    path = base ++ "|" ++ parentUid ++ "|" ++ relative

/-- The extracted files that are not empty and have this content. -/
def copiesOf (files : List ExtractedFile) (binary : List UInt8) : List ExtractedFile :=
  files.filter fun item => decide (item.content ≠ some [] ∧ item.binary = binary)

/-- What `unpack` should hand over for the files below an archive with the content
`parentContent` and the first virtual path `parentPath`. -/
structure Unpacks (env : ExtractionEnv) (parentContent : List UInt8) (parentPath : String)
    (files : List ExtractedFile) (out : Unpacked) : Prop where
  distinct : (out.objects.map FileObject.uid).Nodup
  notParent : ∀ fo ∈ out.objects, fo.uid ≠ env.parent.uid
  /-- No file is lost. -/
  complete : ∀ item ∈ files, item.content ≠ some [] → item.binary ≠ parentContent →
    ∃ fo ∈ out.objects, fo.uid = env.uidOf item
  /-- No object is made up, and it has one virtual path for each of its copies. -/
  sound : ∀ fo ∈ out.objects, ∃ item ∈ files,
    item.content ≠ some [] ∧ item.binary ≠ parentContent ∧ fo.uid = env.uidOf item ∧
      ∃ paths, fo.virtualFilePath.get? env.rootUid = some paths ∧
        List.Forall₂ (VirtualPathOf parentPath env.parent.uid) (copiesOf files item.binary) paths
  /-- Every object is that of a file extracted at the paths of its copies. -/
  extracted : ∀ fo ∈ out.objects, ∃ item rest, env.copies files fo.uid = item :: rest ∧
    extractedObject env.rootUid env.parent (item.binaryFile env.getSha256)
      ((item :: rest).map getRelativeObjectPath) = some fo
  parents : ∀ fo ∈ out.objects, fo.parents = [env.parent.uid]
  depth : ∀ fo ∈ out.objects, fo.depth = env.parent.depth + 1
  roots : ∀ fo ∈ out.objects, fo.parentFirmwareUids = [env.rootUid]
  included : ∀ uid, uid ∈ out.currentFo.filesIncluded ↔
    uid ∈ env.parent.filesIncluded ∨ ∃ fo ∈ out.objects, fo.uid = uid
  /-- Every object is locked and then stored, once. -/
  lockedFirst : ∀ fo ∈ out.objects, ∃ before after,
    out.effects = before ++ [.setUnpackingLock fo.uid, .storeFile fo.uid] ++ after ∧
      .storeFile fo.uid ∉ before ++ after

namespace ExtractionEnv
variable {env : ExtractionEnv} {parentPath : String} {parentContent : List UInt8}
  {files : List ExtractedFile} {state : ExtractionState}

theorem firstVirtualPath_eq_ok {rootUid : Uid} {parent : FileObject}
    (h : FirstVirtualPath rootUid parent parentPath) :
    firstVirtualPath rootUid parent = .ok parentPath := by
  cases h with
  | stored hpath =>
    have hne : parent.virtualFilePath.entries.isEmpty = false := by
      cases hentries : parent.virtualFilePath.entries with
      | nil =>
        rw [Dict.get?, hentries] at hpath
        cases hpath
      | cons entry entries => rfl
    rw [firstVirtualPath, FileObject.getVirtualFilePaths, hne, if_neg Bool.false_ne_true, hpath]
  | alone hnone hroot =>
    rw [firstVirtualPath, FileObject.getVirtualFilePaths, hnone, hroot]
    simp [Dict.ofList, Dict.setAll]

theorem baseOf_getBaseOfVirtualPath (virtualPath : String) :
    BaseOf virtualPath (getBaseOfVirtualPath virtualPath) :=
  ⟨splitVirtualPath virtualPath, splitVirtualPath_eq_iff.mp rfl, rfl⟩

theorem eq_of_baseOf {virtualPath base : String} (h : BaseOf virtualPath base) :
    base = getBaseOfVirtualPath virtualPath := by
  obtain ⟨names, hnames, rfl⟩ := h
  rw [getBaseOfVirtualPath, splitVirtualPath_eq_iff.mpr hnames, joinVirtualPath]

/-- Components joined by slashes are components behind slashes. -/
theorem slash_append_intercalate (first : String) (parts : List String) :
    "/" ++ "/".intercalate (first :: parts) =
      String.join ((first :: parts).map fun part => "/" ++ part) := by
  induction parts generalizing first with
  | nil => simp [String.join]
  | cons next parts ih =>
    rw [String.intercalate_cons_cons, List.map_cons, String.join_cons, ← ih next]
    simp only [String.append_assoc]

theorem relativePath_iff {item : ExtractedFile} {relative : String} :
    RelativePath item.parts relative ↔ relative = getRelativeObjectPath item := by
  have hcases : RelativePath item.parts (getRelativeObjectPath item) := by
    unfold getRelativeObjectPath pathText
    match item.parts with
    | [] => exact .directory
    | [first] =>
      by_cases hfirst : first = "fact_extracted"
      · rw [hfirst]
        exact .wrapper
      · simp only [List.head?_cons, Option.some.injEq, hfirst, if_false, List.cons_ne_nil,
          slash_append_intercalate]
        exact .plain hfirst
    | first :: next :: parts =>
      by_cases hfirst : first = "fact_extracted"
      · simp only [List.head?_cons, hfirst, if_true, List.tail_cons, List.cons_ne_nil, if_false,
          slash_append_intercalate]
        exact .wrapped
      · simp only [List.head?_cons, Option.some.injEq, hfirst, if_false, List.cons_ne_nil,
          slash_append_intercalate]
        exact .plain hfirst
  constructor
  · intro h
    generalize getRelativeObjectPath item = path at hcases
    generalize item.parts = parts at h hcases
    cases h <;> cases hcases <;> first | rfl | contradiction
  · rintro rfl
    exact hcases

/-- There is one virtual path for a file. -/
theorem virtualPathOf_iff {item : ExtractedFile} {path : String} :
    VirtualPathOf parentPath env.parent.uid item path ↔ env.virtualPath parentPath item = path := by
  have hjoin : ∀ base relative : String, joinVirtualPath [base, env.parent.uid, relative] =
      base ++ "|" ++ env.parent.uid ++ "|" ++ relative := by
    intro base relative
    simp only [joinVirtualPath, String.intercalate_cons_cons, String.intercalate_singleton,
      String.append_assoc]
  rw [virtualPath, currentVirtualPath, hjoin]
  constructor
  · rintro ⟨base, relative, hbase, hrelative, rfl⟩
    rw [eq_of_baseOf hbase, relativePath_iff.mp hrelative]
  · rintro rfl
    exact ⟨_, _, baseOf_getBaseOfVirtualPath parentPath, relativePath_iff.mpr rfl, rfl⟩

theorem fileIsEmpty_eq_false_iff {item : ExtractedFile} :
    fileIsEmpty item = false ↔ item.content ≠ some [] := by
  rw [fileIsEmpty, decide_eq_false_iff_not]

/-- Different contents have different uids. -/
def UidsDistinguish (env : ExtractionEnv) (contents : List (List UInt8)) : Prop :=
  ∀ a ∈ contents, ∀ b ∈ contents,
    createUid env.getSha256 a = createUid env.getSha256 b → a = b

instance (env : ExtractionEnv) (contents : List (List UInt8)) :
    Decidable (env.UidsDistinguish contents) := by
  unfold UidsDistinguish
  infer_instance

theorem UidsDistinguish.uidOf_eq_iff
    (h : env.UidsDistinguish (parentContent :: files.map ExtractedFile.binary))
    {item other : ExtractedFile} (hitem : item ∈ files) (hother : other ∈ files) :
    env.uidOf item = env.uidOf other ↔ item.binary = other.binary :=
  ⟨h _ (List.mem_cons_of_mem _ (List.mem_map_of_mem hitem)) _
    (List.mem_cons_of_mem _ (List.mem_map_of_mem hother)), congrArg _⟩

theorem UidsDistinguish.uidOf_eq_parent_iff
    (h : env.UidsDistinguish (parentContent :: files.map ExtractedFile.binary))
    (hparent : createUid env.getSha256 parentContent = env.parent.uid)
    {item : ExtractedFile} (hitem : item ∈ files) :
    env.uidOf item = env.parent.uid ↔ item.binary = parentContent := by
  rw [← hparent]
  exact ⟨h _ (List.mem_cons_of_mem _ (List.mem_map_of_mem hitem)) _ List.mem_cons_self, congrArg _⟩

/-- The copies of an extracted file are the files with its content. -/
theorem copies_eq_copiesOf
    (h : env.UidsDistinguish (parentContent :: files.map ExtractedFile.binary))
    {item : ExtractedFile} (hitem : item ∈ files) :
    env.copies files (env.uidOf item) = copiesOf files item.binary := by
  refine List.filter_congr fun other hother => ?_
  rw [decide_eq_decide.mpr (h.uidOf_eq_iff hother hitem), Bool.decide_and, fileIsEmpty,
    decide_not]

theorem Collected.locked_stored (h : Collected env parentPath files state) {uid : Uid}
    (huid : uid ∈ state.extractedFiles.keys) : ∃ before after,
      state.effects = before ++ [.setUnpackingLock uid, .storeFile uid] ++ after ∧
        .storeFile uid ∉ before ++ after := by
  obtain ⟨front, back, hkeys⟩ := List.append_of_mem huid
  have hnodup := state.extractedFiles.keys_nodup
  rw [hkeys, List.nodup_middle, List.nodup_cons] at hnodup
  refine ⟨front.flatMap storeEffects, back.flatMap storeEffects, ?_, ?_⟩
  · rw [h.effects_eq, hkeys, List.flatMap_append, List.flatMap_cons, ← List.append_assoc]
    rfl
  · rw [← List.flatMap_append]
    simpa [storeEffects] using hnodup.1

/-- A file that is kept was loaded from all its copies. -/
theorem Collected.mem_loaded (h : Collected env parentPath files state) {file : LoadedFile}
    (hfile : file ∈ removeDuplicates state.extractedFiles env.parent.uid) :
    file.object.uid ≠ env.parent.uid ∧ ∃ first rest,
      env.copies files file.object.uid = first :: rest ∧
        env.loaded parentPath (first :: rest) = some file := by
  obtain ⟨hne, hloaded⟩ := (mem_removeDuplicates h).mp hfile
  exact ⟨hne, loaded_eq_some_iff.mp hloaded⟩

/-- Each file with another content than the archive is kept. -/
theorem Collected.exists_loaded (h : Collected env parentPath files state)
    (huids : env.UidsDistinguish (parentContent :: files.map ExtractedFile.binary))
    (hparent : createUid env.getSha256 parentContent = env.parent.uid) {item : ExtractedFile}
    (hitem : item ∈ files) (hempty : item.content ≠ some [])
    (hcontent : item.binary ≠ parentContent) :
    ∃ file ∈ removeDuplicates state.extractedFiles env.parent.uid,
      file.object.uid = env.uidOf item := by
  have hcopy : item ∈ env.copies files (env.uidOf item) :=
    mem_copies.mpr ⟨hitem, fileIsEmpty_eq_false_iff.mpr hempty, rfl⟩
  obtain ⟨first, rest, hcopies⟩ := List.exists_cons_of_ne_nil (List.ne_nil_of_mem hcopy)
  obtain ⟨file, hloaded⟩ : ∃ file,
      env.loaded parentPath (env.copies files (env.uidOf item)) = some file := by
    rw [hcopies]
    exact ⟨_, rfl⟩
  have huid := loaded_uid hloaded
  refine ⟨file, (mem_removeDuplicates h).mpr ⟨?_, ?_⟩, huid⟩
  · rw [huid]
    exact (huids.uidOf_eq_parent_iff hparent hitem).not.mpr hcontent
  · rwa [huid]

/-- The virtual paths of a loaded file are those of the files with its content. -/
theorem get?_linkedTo_of_loaded
    (huids : env.UidsDistinguish (parentContent :: files.map ExtractedFile.binary))
    {first : ExtractedFile} {rest : List ExtractedFile} {file : LoadedFile} {parent : FileObject}
    (hfirst : first ∈ files) (hcopies : env.copies files (env.uidOf first) = first :: rest)
    (hloaded : env.loaded parentPath (first :: rest) = some file) :
    (file.linkedTo parent).virtualFilePath.get? env.rootUid =
      some ((copiesOf files first.binary).map (env.virtualPath parentPath)) := by
  rw [← copies_eq_copiesOf huids hfirst, hcopies]
  obtain rfl := Option.some.inj hloaded
  simp [LoadedFile.linkedTo, Dict.ofList, Dict.setAll]

end ExtractionEnv

open ExtractionEnv in
/-- Below the depth limit an archive with a path under its root is unpacked without losing or
doubling a file. -/
theorem unpack_unpacks {env : ExtractionEnv} {maxDepth : Nat} {now : Rat} {run : ExtractorRun}
    {parentContent : List UInt8} {parentPath : String} {files : List ExtractedFile}
    (hdepth : env.parent.depth < maxDepth)
    (hpath : FirstVirtualPath env.rootUid env.parent parentPath)
    (hparent : createUid env.getSha256 parentContent = env.parent.uid)
    (huids : env.UidsDistinguish (parentContent :: files.map ExtractedFile.binary))
    (hfiles : run.extractedFiles = .ok (some files)) :
    ∃ out, unpack env maxDepth now run = .ok out ∧
      Unpacks env parentContent parentPath files out := by
  obtain ⟨state, out, hstate, hout, hobjects, hincluded, heffects⟩ :=
    unpack_eq_ok now (firstVirtualPath_eq_ok hpath) hdepth hfiles
  have hmem : ∀ fo ∈ out.objects, ∃ file, fo = LoadedFile.linkedTo env.parent file ∧
      file ∈ removeDuplicates state.extractedFiles env.parent.uid := by
    intro fo hfo
    rw [hobjects] at hfo
    obtain ⟨file, hfile, rfl⟩ := List.mem_map.mp hfo
    exact ⟨file, rfl, hfile⟩
  have hextracted : ∀ fo ∈ out.objects, ∃ item rest, env.copies files fo.uid = item :: rest ∧
      extractedObject env.rootUid env.parent (item.binaryFile env.getSha256)
        ((item :: rest).map getRelativeObjectPath) = some fo := by
    intro fo hfo
    obtain ⟨file, rfl, hfile⟩ := hmem fo hfo
    obtain ⟨-, first, rest, hcopies, hloaded⟩ := hstate.mem_loaded hfile
    exact ⟨first, rest, hcopies, extractedObject_eq_linkedTo (firstVirtualPath_eq_ok hpath) hloaded⟩
  refine ⟨out, hout, ?_⟩
  constructor
  case distinct =>
    rw [hobjects, List.map_map]
    exact map_uid_removeDuplicates hstate ▸ (state.extractedFiles.erase env.parent.uid).keys_nodup
  case notParent =>
    intro fo hfo
    obtain ⟨file, rfl, hfile⟩ := hmem fo hfo
    exact (hstate.mem_loaded hfile).1
  case complete =>
    intro item hitem hempty hcontent
    obtain ⟨file, hfile, huid⟩ := hstate.exists_loaded huids hparent hitem hempty hcontent
    refine ⟨file.linkedTo env.parent, ?_, huid⟩
    rw [hobjects]
    exact List.mem_map_of_mem hfile
  case sound =>
    intro fo hfo
    obtain ⟨file, rfl, hfile⟩ := hmem fo hfo
    obtain ⟨hne, first, rest, hcopies, hloaded⟩ := hstate.mem_loaded hfile
    have hfirst : first ∈ env.copies files file.object.uid := hcopies ▸ List.mem_cons_self
    obtain ⟨hitem, hempty, huid⟩ := mem_copies.mp hfirst
    rw [← huid] at hne hcopies
    refine ⟨first, hitem, fileIsEmpty_eq_false_iff.mp hempty,
      (huids.uidOf_eq_parent_iff hparent hitem).not.mp hne, huid.symm, _,
      get?_linkedTo_of_loaded huids hitem hcopies hloaded, ?_⟩
    rw [List.forall₂_map_right_iff, List.forall₂_same]
    exact fun item _ => virtualPathOf_iff.mpr rfl
  case extracted => exact hextracted
  case parents =>
    intro fo hfo
    obtain ⟨_, _, -, hfresh⟩ := hextracted fo hfo
    exact (extractedObject_fresh hfresh).parents
  case depth =>
    intro fo hfo
    obtain ⟨_, rfl, -⟩ := hmem fo hfo
    rfl
  case roots =>
    intro fo hfo
    obtain ⟨_, _, -, hfresh⟩ := hextracted fo hfo
    exact (extractedObject_fresh hfresh).roots
  case included =>
    intro uid
    rw [hincluded, List.mem_map]
  case lockedFirst =>
    intro fo hfo
    obtain ⟨first, rest, hcopies, -⟩ := hextracted fo hfo
    rw [heffects]
    refine hstate.locked_stored ((mem_keys_of_collected hstate).mpr ?_)
    exact hcopies ▸ List.cons_ne_nil first rest

/-- The hashes of `ab`, `a` and nothing. -/
def tarSha256 (binary : List UInt8) : String :=
  if binary = [97, 98] then "fb8e20fc2e4c3f248c60c39bd652f3c1347298bb977b8b4d5903b85055620603"
  else if binary = [97] then "ca978112ca1bbdcafac231b39a23dc4da786eff8147c4e72b9807785afee48bb"
  else "e3b0c44298fc1c149afbf4c8996fb92427ae41e4649b934ca495991b7852b855"

/-- An image with the content `ab`. -/
def tarEnv : ExtractionEnv where
  tmpDir := "/tmp/fact_unpack_0"
  getSha256 := tarSha256
  rootUid := createUid tarSha256 [97, 98]
  parent := newFirmware ⟨createUid tarSha256 [97, 98], tarSha256 [97, 98], "image.tar", 2⟩ routerMeta []

/-- One file at two paths, an empty file, and a copy of the image. -/
def tarFiles : List ExtractedFile :=
  [⟨["bin", "a"], some [97]⟩, ⟨["empty"], some []⟩, ⟨["image.tar"], some [97, 98]⟩,
    ⟨["lib", "a"], some [97]⟩]

theorem tar_unpacks : ∃ out, unpack tarEnv 8 0 ⟨.ok (some tarFiles), .dict []⟩ = .ok out ∧
    Unpacks tarEnv [97, 98] tarEnv.parent.uid tarFiles out :=
  unpack_unpacks (by decide) (.stored rfl) rfl (by decide) rfl

end FactCore
