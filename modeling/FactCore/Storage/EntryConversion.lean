import FactCore.Storage.Schema

/-!
# Objects to rows and back

`src/src/storage/entry_conversion.py`. Writing an object creates its rows;
loading an object rebuilds it from them field by field. Null bytes are removed
from the JSON columns on the way in.

What is rebuilt is less than what is written: a loaded object has no `sha256`
and its `depth` is the default of the constructor.
-/

namespace FactCore

/-- `META_KEYS`: the keys of an analysis result that have columns of their own or are dropped. -/
def metaKeys : List String :=
  ["tags", "summary", "analysis_date", "plugin_version", "system_version", "file_system_flag"]

/-! ## 1. Sanitizing -/

/-- The null byte. -/
def nul : Char := Char.ofNat 0

/-- `s.replace(NUL, '')`. -/
def stripNul (s : String) : String := String.ofList (s.toList.filter fun c => decide (c ≠ nul))

/-- `d.pop(key)` on the entries of a dict, stored again under `key'`. -/
def moveKey (d : List (String × PyVal)) (key key' : String) : List (String × PyVal) :=
  match Dict.find key d with
  | none => d
  | some v => PyVal.setEntry (d.filter fun e => decide (e.1 ≠ key)) key' v

/-- One round of the loop in `sanitize` on the dict `d`, for an item of its snapshot. Nested
dicts and lists are changed in place, so `d` holds them sanitized already. -/
def sanitizeItem (d : List (String × PyVal)) (item : String × PyVal) : List (String × PyVal) :=
  let d' := match item.2 with
    | .str s => if nul ∈ s.toList then PyVal.setEntry d item.1 (.str (stripNul s)) else d
    | _ => d
  if nul ∈ item.1.toList then moveKey d' item.1 (stripNul item.1) else d'

mutual

/-- `_sanitize_value` on a dict or a list. -/
def sanitizeNested : PyVal → PyVal
  | .dict entries => .dict (entries.foldl sanitizeItem (sanitizeValues entries))
  | .list xs => .list (sanitizeElements xs)
  | v => v

/-- The values of a dict with the nested dicts and lists sanitized. -/
def sanitizeValues : List (String × PyVal) → List (String × PyVal)
  | [] => []
  | (key, v) :: entries => (key, sanitizeNested v) :: sanitizeValues entries

/-- `_sanitize_list`: a list inside a list is left as it is. -/
def sanitizeElements : List PyVal → List PyVal
  | [] => []
  | .dict entries :: xs =>
    .dict (entries.foldl sanitizeItem (sanitizeValues entries)) :: sanitizeElements xs
  | .str s :: xs => .str (stripNul s) :: sanitizeElements xs
  | x :: xs => x :: sanitizeElements xs

end

/-- `sanitize`. -/
def sanitize (analysisData : List (String × PyVal)) : List (String × PyVal) :=
  analysisData.foldl sanitizeItem (sanitizeValues analysisData)

/-- `_sanitize_list` on whatever stands under `summary`. A string or a dict can be enumerated
but not assigned to (or not while it is enumerated); anything else cannot be enumerated. -/
def sanitizeList : PyVal → Except PyException PyVal
  | .list xs => .ok (.list (sanitizeElements xs))
  | .str s =>
    if nul ∈ s.toList then .error (.typeError "'str' object does not support item assignment")
    else .ok (.str s)
  | .dict entries =>
    if entries.any fun e => decide (nul ∈ e.1.toList) then
      .error (.runtimeError "dictionary changed size during iteration")
    else .ok (.dict entries)
  | _ => .error (.typeError "object is not iterable")

/-- `get_analysis_without_meta`. -/
def getAnalysisWithoutMeta (analysisData : PyVal) : PyVal :=
  match analysisData with
  | .dict entries => .dict (sanitize (entries.filter fun e => decide (e.1 ∉ metaKeys)))
  | v => v

/-! ## 2. Objects to rows -/

/-- `create_file_object_entry`, for an object whose binary is known. -/
def createFileObjectEntry (fo : FileObject) (sha256 : String) : FileObjectEntry where
  sha256 := sha256
  fileName := fo.fileName
  depth := fo.depth
  size := fo.size
  comments := fo.comments
  virtualFilePaths := fo.virtualFilePath
  isFirmware := fo.isFirmware

/-- The columns of a firmware whose release date is `date`. The array column takes the keys of the
dict `tags`. -/
def firmwareRow (fw : FirmwareMeta) (date : Date) : FirmwareEntry where
  releaseDate := date
  version := fw.version
  vendor := fw.vendor
  deviceName := fw.deviceName
  deviceClass := fw.deviceClass
  devicePart := fw.part
  firmwareTags := fw.tags.keys

/-- `create_firmware_entry`: `strptime` raises a `ValueError` for what is no date. -/
def createFirmwareEntry (digits : DecimalTable) (fw : FirmwareMeta) :
    Except PyException FirmwareEntry :=
  match strptime digits fw.releaseDate with
  | some date => .ok (firmwareRow fw date)
  | none => .error (.valueError ("time data '" ++ fw.releaseDate ++
      "' does not match format '%Y-%m-%d'"))

/-- One row of `create_analysis_entries`. -/
def createAnalysisEntry (analysisData : PyVal) : Except PyException AnalysisEntry :=
  match analysisData with
  | .dict entries =>
    (sanitizeList ((analysisData.get? "summary").getD (.list []))).map fun summary =>
      { pluginVersion := analysisData.getOrNone "plugin_version"
        systemVersion := analysisData.getOrNone "system_version"
        analysisDate := analysisData.getOrNone "analysis_date"
        summary := summary
        tags := analysisData.getOrNone "tags"
        result := getAnalysisWithoutMeta (.dict entries) }
  | _ => .error (.attributeError "object has no attribute 'get'")

/-- `create_analysis_entries`: plugin names with their rows. -/
def createAnalysisEntries (fo : FileObject) : Except PyException (List (String × AnalysisEntry)) :=
  fo.processedAnalysis.entries.mapM fun item =>
    (createAnalysisEntry item.2).map fun entry => (item.1, entry)

/-! ## 3. Rows to objects -/

/-- `analysis_entry_to_dict`. -/
def analysisEntryToDict (entry : AnalysisEntry) : PyVal :=
  let base := PyVal.dict
    [("analysis_date", entry.analysisDate), ("plugin_version", entry.pluginVersion),
     ("system_version", entry.systemVersion),
     ("summary", if entry.summary.truthy then entry.summary else .list []),
     ("tags", if entry.tags.truthy then entry.tags else .dict [])]
  match entry.result with
  | .dict entries => base.updateWith entries
  | _ => base

/-- The results of a file, as `_populate_fo_data` collects them. -/
def processedAnalysisFromDb (db : Db) (uid : Uid) : Dict String PyVal :=
  Dict.ofList ((db.analyses.entries.filter fun e => decide (e.1.1 = uid)).map fun e =>
    (e.1.2, analysisEntryToDict e.2))

/-- `firmware_from_entry`, the fields of the image. -/
def firmwareFromEntry (entry : FirmwareEntry) : FirmwareMeta where
  deviceName := entry.deviceName
  version := entry.version
  deviceClass := entry.deviceClass
  vendor := entry.vendor
  part := entry.devicePart
  releaseDate := entry.releaseDate.iso
  tags := Dict.ofList (entry.firmwareTags.map fun tag => (tag, "secondary"))

/-- `_populate_fo_data` on a new object. Neither `depth` nor the binary is restored. -/
def fileObjectFromEntry (db : Db) (uid : Uid) (entry : FileObjectEntry)
    (firmware : Option FirmwareMeta) : FileObject where
  uid := uid
  sha256 := none
  fileName := entry.fileName
  depth := 0
  size := entry.size
  comments := entry.comments
  virtualFilePath := entry.virtualFilePaths
  parents := db.getParentUids uid
  parentFirmwareUids := entry.virtualFilePaths.keys
  filesIncluded := db.getIncludedUids uid
  processedAnalysis := processedAnalysisFromDb db uid
  scheduledAnalysis := []
  analysisException := none
  forceUpdate := false
  firmware := firmware

/-- The object that `DbInterfaceCommon.get_object` returns, unless the tags of the files below an
image cannot be collected (`loadObject`). -/
def getObject (db : Db) (uid : Uid) : Option FileObject :=
  (db.fileObjects.get? uid).map fun entry =>
    fileObjectFromEntry db uid entry ((db.firmware.get? uid).map firmwareFromEntry)

theorem getObject_uid {db : Db} {uid : Uid} {fo : FileObject} (h : getObject db uid = some fo) :
    fo.uid = uid := by
  obtain ⟨entry, -, rfl⟩ := Option.map_eq_some_iff.mp h
  rfl

theorem getObject_isFirmware {db : Db} {uid : Uid} {fo : FileObject}
    (h : getObject db uid = some fo) : fo.isFirmware = true ↔ uid ∈ db.firmware := by
  obtain ⟨entry, -, rfl⟩ := Option.map_eq_some_iff.mp h
  simp [FileObject.isFirmware, fileObjectFromEntry, Dict.isSome_get?]

end FactCore
