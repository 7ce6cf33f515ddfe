import FactCore.VirtualFilePath

/-!
# Objects as the upload and the extraction create them

`src/src/objects/firmware.py` and `src/src/unpacker/unpack.py`: the `Firmware` of
an uploaded image, and the `FileObject` of a file that was extracted from it, as
they first reach the analysis scheduler.

A file that occurs in several archives, or in several images, is a new object
each time: it names one parent and one root.

Results: `newFirmware_fresh` and `extractedObject_fresh` say which references a
new object carries.
-/

namespace FactCore

/-- What the constructors read from a file on the disk. -/
structure BinaryFile where
  uid : Uid
  sha256 : String
  fileName : String
  size : Nat
  deriving DecidableEq, Repr

/-- The `Firmware` of an upload. Its only virtual path is its own uid. -/
def newFirmware (file : BinaryFile) (fw : FirmwareMeta) (scheduledAnalysis : List String) :
    FileObject where
  uid := file.uid
  sha256 := some file.sha256
  fileName := file.fileName
  depth := 0
  size := file.size
  comments := []
  virtualFilePath := Dict.ofList [(file.uid, [file.uid])]
  parents := []
  parentFirmwareUids := []
  filesIncluded := []
  processedAnalysis := ∅
  scheduledAnalysis := scheduledAnalysis
  analysisException := none
  forceUpdate := false
  firmware := some fw

/-- `FileObject.get_virtual_file_paths`. -/
def FileObject.getVirtualFilePaths (fo : FileObject) : VirtualFilePath :=
  if fo.virtualFilePath.entries.isEmpty then Dict.ofList [(fo.uid, [fo.uid])]
  else fo.virtualFilePath

/-- The object of a file that was extracted from `parent` at `paths`, as
`generate_and_store_file_objects` and `add_included_file` leave it. `none` stands for the lookup
error when the parent has no path below the root. -/
def extractedObject (rootUid : Uid) (parent : FileObject) (file : BinaryFile)
    (paths : List String) : Option FileObject := do
  let parentPaths ← parent.getVirtualFilePaths.get? rootUid
  let base ← parentPaths.head?.map getBaseOfVirtualPath
  return {
    uid := file.uid
    sha256 := some file.sha256
    fileName := file.fileName
    depth := parent.depth + 1
    size := file.size
    comments := []
    virtualFilePath := Dict.ofList
      [(rootUid, paths.map fun path => joinVirtualPath [base, parent.uid, path])]
    parents := [parent.uid]
    parentFirmwareUids := [rootUid]
    filesIncluded := []
    processedAnalysis := ∅
    scheduledAnalysis := parent.scheduledAnalysis
    analysisException := none
    forceUpdate := false
    firmware := none }

/-- The references of a new firmware: it names neither parents nor roots. -/
structure FreshFirmware (fo : FileObject) : Prop where
  isFirmware : fo.isFirmware = true
  parents : fo.parents = []
  roots : fo.parentFirmwareUids = []
  paths : ∀ root, root ∈ fo.virtualFilePath ↔ root = fo.uid

/-- The references of a file that was just extracted from `parent` below the image `root`. -/
structure FreshFile (root parent : Uid) (fo : FileObject) : Prop where
  firmware : fo.firmware = none
  parents : fo.parents = [parent]
  roots : fo.parentFirmwareUids = [root]
  paths : ∀ r, r ∈ fo.virtualFilePath ↔ r = root

theorem newFirmware_fresh (file : BinaryFile) (fw : FirmwareMeta) (scheduled : List String) :
    FreshFirmware (newFirmware file fw scheduled) where
  isFirmware := rfl
  parents := rfl
  roots := rfl
  paths root := by simp [newFirmware, Dict.ofList]

theorem extractedObject_fresh {rootUid : Uid} {parent fo : FileObject} {file : BinaryFile}
    {paths : List String} (h : extractedObject rootUid parent file paths = some fo) :
    FreshFile rootUid parent.uid fo := by
  obtain ⟨parentPaths, -, h⟩ := Option.bind_eq_some_iff.mp h
  obtain ⟨base, -, h⟩ := Option.bind_eq_some_iff.mp h
  obtain rfl := Option.some.inj h
  exact ⟨rfl, rfl, rfl, fun r => by simp [Dict.ofList]⟩

/-! ## Two images with one file -/

/-- The meta data of an image. -/
def routerMeta : FirmwareMeta := ⟨"router", "1.0", "Router", "vendor", "", "1970-01-01", ∅⟩

/-- An uploaded image. -/
def outerImage : FileObject := newFirmware ⟨"outer", "aa", "outer.bin", 2⟩ routerMeta []

/-- A file that is extracted from it. -/
def innerFile : FileObject :=
  (extractedObject "outer" outerImage ⟨"inner", "bb", "inner.bin", 1⟩ ["/inner.bin"]).get (by decide)

theorem innerFile_fresh : FreshFile "outer" "outer" innerFile := by
  have h : extractedObject "outer" outerImage ⟨"inner", "bb", "inner.bin", 1⟩ ["/inner.bin"] =
      some innerFile := (Option.some_get _).symm
  exact extractedObject_fresh h

/-- A second image. -/
def secondImage : FileObject := newFirmware ⟨"second", "cc", "second.bin", 3⟩ routerMeta []

/-- The file of the first image, extracted from the second. -/
def innerFileAgain : FileObject :=
  (extractedObject "second" secondImage ⟨"inner", "bb", "inner.bin", 1⟩ ["/inner.bin"]).get
    (by decide)

theorem innerFileAgain_fresh : FreshFile "second" "second" innerFileAgain := by
  have h : extractedObject "second" secondImage ⟨"inner", "bb", "inner.bin", 1⟩ ["/inner.bin"] =
      some innerFileAgain := (Option.some_get _).symm
  exact extractedObject_fresh h

end FactCore
