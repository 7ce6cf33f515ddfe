import FactCore.Objects

/-!
# The file store and the unpacking locks

`src/src/storage/fsorganizer.py` keeps the binary of every file under its uid, and
`src/src/storage/unpacking_locks.py` a dict of the uids that are being extracted.
The lock of a uid does not count how often it was set: one release takes it away.

A binary is represented by its `sha256`, since the code only copies it.
-/

namespace FactCore

/-- The files below `firmware_file_storage_directory`. -/
abbrev FileStore := Dict Uid String

namespace FileStore

/-- `FSOrganizer.store_file`: an object without binary is not stored, and a file that is there is
not overwritten. -/
def storeFile (files : FileStore) (fo : FileObject) : FileStore :=
  match fo.sha256 with
  | none => files
  | some binary => if fo.uid ∈ files then files else files.set fo.uid binary

/-- `FSOrganizer.delete_file`: a file that is missing is no error. -/
def deleteFile (files : FileStore) (uid : Uid) : FileStore := files.erase uid

/-- Reading the binary of a stored file, as `create_binary_from_path` does. -/
def readBinary (files : FileStore) (uid : Uid) : Except PyException String :=
  match files.get? uid with
  | some binary => .ok binary
  | none => .error (.fileNotFoundError uid)

theorem mem_of_readBinary {files : FileStore} {u : Uid} {binary : String}
    (h : files.readBinary u = .ok binary) : u ∈ files := by
  unfold readBinary at h
  split at h
  · next hget => exact Dict.mem_of_get? hget
  · cases h

theorem mem_storeFile {files : FileStore} {fo : FileObject} {u : Uid} (h : u ∈ files) :
    u ∈ files.storeFile fo := by
  unfold storeFile
  split
  · exact h
  · split
    · exact h
    · exact Dict.mem_set.mpr (.inr h)

theorem mem_storeFile_self {files : FileStore} {fo : FileObject} (h : fo.sha256 ≠ none) :
    fo.uid ∈ files.storeFile fo := by
  obtain ⟨binary, hbinary⟩ := Option.ne_none_iff_exists'.mp h
  unfold storeFile
  rw [hbinary]
  show fo.uid ∈ if fo.uid ∈ files then files else files.set fo.uid binary
  split
  · next hmem => exact hmem
  · exact Dict.mem_set.mpr (.inl rfl)

theorem mem_deleteFile {files : FileStore} {u v : Uid} (h : u ∈ files) (hne : u ≠ v) :
    u ∈ files.deleteFile v :=
  Dict.mem_erase.mpr ⟨hne, h⟩

end FileStore

/-- The dict of an `UnpackingLockManager`. -/
abbrev UnpackingLocks := Dict Uid Nat

namespace UnpackingLocks

/-- `set_unpacking_lock`. -/
def setUnpackingLock (locks : UnpackingLocks) (uid : Uid) : UnpackingLocks := locks.set uid 1

/-- `unpacking_lock_is_set`. -/
def unpackingLockIsSet (locks : UnpackingLocks) (uid : Uid) : Bool := decide (uid ∈ locks)

/-- `release_unpacking_lock`: a lock that is not set is no error. -/
def releaseUnpackingLock (locks : UnpackingLocks) (uid : Uid) : UnpackingLocks := locks.erase uid

variable {locks : UnpackingLocks} {u v : Uid}

theorem mem_setUnpackingLock : u ∈ locks.setUnpackingLock v ↔ u = v ∨ u ∈ locks := Dict.mem_set

theorem unpackingLockIsSet_iff : locks.unpackingLockIsSet u = true ↔ u ∈ locks := decide_eq_true_iff

theorem mem_releaseUnpackingLock : u ∈ locks.releaseUnpackingLock v ↔ u ≠ v ∧ u ∈ locks :=
  Dict.mem_erase

end UnpackingLocks

end FactCore
