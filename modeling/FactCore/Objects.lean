import FactCore.Lib.Dates
import FactCore.Lib.Dict

/-!
# Objects that travel through the backend

`FileObject` and `Firmware` of `src/src/objects/`, the values that plugin
results are made of, and the Python exceptions that the modelled code can raise.

A `Firmware` is a `FileObject` with the meta data of an uploaded image, so both
are one structure here and `isinstance(fo, Firmware)` reads `fo.isFirmware`.
-/

namespace FactCore

/-- `<sha256>_<size>`, the key of every stored file. -/
abbrev Uid := String

/-! ## Values -/

/-- The Python values an analysis result is made of. Integers and floats are both `num`: the
code only compares them. -/
inductive PyVal
  | none
  | bool (b : Bool)
  | num (x : Rat)
  | str (s : String)
  | list (xs : List PyVal)
  | dict (entries : List (String × PyVal))

namespace PyVal

/-- `d.get(key)`: the value under a key, if `d` is a dict that has it. -/
def get? : PyVal → String → Option PyVal
  | .dict entries, key => Dict.find key entries
  | _, _ => Option.none

/-- `key in d` for a dict `d`. -/
def hasKey (d : PyVal) (key : String) : Bool := (d.get? key).isSome

/-- `d.get(key)` with Python's `None` for a missing key. -/
def getOrNone (d : PyVal) (key : String) : PyVal := (d.get? key).getD .none

/-- Python's truth value. -/
def truthy : PyVal → Bool
  | .none => false
  | .bool b => b
  | .num x => decide (x ≠ 0)
  | .str s => decide (s ≠ "")
  | .list xs => !xs.isEmpty
  | .dict entries => !entries.isEmpty

/-- `d[key] = v` on the entries of a dict. -/
def setEntry (entries : List (String × PyVal)) (key : String) (v : PyVal) :
    List (String × PyVal) :=
  if key ∈ entries.map Prod.fst then Dict.replace key v entries else entries ++ [(key, v)]

/-- `d.update(new)` for two dicts. -/
def updateWith : PyVal → List (String × PyVal) → PyVal
  | .dict entries, new => .dict (new.foldl (fun d e => setEntry d e.1 e.2) entries)
  | v, _ => v

end PyVal

theorem find_setEntry (entries : List (String × PyVal)) (key k : String) (v : PyVal) :
    Dict.find k (PyVal.setEntry entries key v) = if k = key then some v else Dict.find k entries := by
  unfold PyVal.setEntry
  split
  · next hmem =>
    rw [Dict.find_replace]
    split
    · next heq =>
      subst heq
      cases hfind : Dict.find k entries with
      | none => exact absurd hmem (Dict.find_eq_none_iff.mp hfind)
      | some w => rfl
    · rfl
  · next hmem =>
    rw [Dict.find_append]
    split
    · next heq =>
      subst heq
      rw [Dict.find_eq_none_iff.mpr hmem]
      simp [Dict.find]
    · next hne => simp [Dict.find, Ne.symm hne]

theorem mem_keys_setEntry {entries : List (String × PyVal)} {key k : String} {v : PyVal} :
    k ∈ (PyVal.setEntry entries key v).map Prod.fst ↔ k = key ∨ k ∈ entries.map Prod.fst := by
  have hnone := find_setEntry entries key k v
  rw [← not_iff_not, ← Dict.find_eq_none_iff, hnone, not_or, ← Dict.find_eq_none_iff]
  split
  · next heq => simp [heq]
  · next hne => simp [hne]

/-! ## Exceptions -/

/-- The exceptions that the modelled code raises or lets through. -/
inductive PyException
  /-- `storage.db_interface_base.DbInterfaceError`. -/
  | dbInterfaceError (message : String)
  /-- `DbSerializationError`, a subclass of `DbInterfaceError`. -/
  | dbSerializationError
  /-- `sqlalchemy.exc.SQLAlchemyError`, with its text. -/
  | sqlAlchemyError (message : String)
  | attributeError (message : String)
  | keyError (key : String)
  | indexError (message : String)
  | typeError (message : String)
  | valueError (message : String)
  /-- `packaging.version.InvalidVersion`, a subclass of `ValueError`. -/
  | invalidVersion (version : String)
  | runtimeError (message : String)
  | recursionError
  | fileNotFoundError (path : String)
  deriving DecidableEq, Repr

/-- `isinstance(e, DbInterfaceError)`. -/
def PyException.isDbInterfaceError : PyException → Bool
  | .dbInterfaceError _ => true
  | .dbSerializationError => true
  | _ => false

/-! ## Files and firmware images -/

/-- One entry of `FileObject.comments`. -/
structure Comment where
  author : String
  comment : String
  time : String
  deriving DecidableEq, Repr

/-- The virtual file paths of a file: for each root uid the paths below this root. -/
abbrev VirtualFilePath := Dict Uid (List String)

/-- What a `Firmware` has beyond a `FileObject`. `tags` maps each tag to its colour. The release date
is whatever text the upload form had. -/
structure FirmwareMeta where
  deviceName : String
  version : String
  deviceClass : String
  vendor : String
  part : String
  releaseDate : String
  tags : Dict String String

/-- `Firmware.get_hid`. -/
def FirmwareMeta.getHid (fw : FirmwareMeta) : String :=
  let part := if fw.part = "" then "" else " - " ++ fw.part
  fw.vendor ++ " " ++ fw.deviceName ++ part ++ " v. " ++ fw.version

/-- `FileObject`, and `Firmware` when `firmware` holds its meta data.

`sha256` is `none` for an object that was rebuilt from the database and whose binary is not
loaded. `scheduled_analysis` may be `None` in the source; every function here treats `None` as
the empty list. -/
structure FileObject where
  uid : Uid
  sha256 : Option String
  fileName : String
  depth : Nat
  size : Nat
  comments : List Comment
  virtualFilePath : VirtualFilePath
  parents : List Uid
  parentFirmwareUids : List Uid
  filesIncluded : List Uid
  processedAnalysis : Dict String PyVal
  scheduledAnalysis : List String
  analysisException : Option (String × String)
  forceUpdate : Bool
  firmware : Option FirmwareMeta

/-- `isinstance(fo, Firmware)`. -/
def FileObject.isFirmware (fo : FileObject) : Bool := fo.firmware.isSome

theorem FileObject.isFirmware_iff {fo : FileObject} :
    fo.isFirmware = true ↔ ∃ fw, fo.firmware = some fw :=
  Option.isSome_iff_exists

end FactCore
