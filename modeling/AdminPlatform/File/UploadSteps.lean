import AdminPlatform.File.UploadChecks
import Mathlib.Logic.Function.Basic

namespace AdminPlatform.File.UploadSteps

open Model.Schema Model.Service Service UploadChecks

/-- An `Exception`, or what derives from `BaseException` alone, such as a cancelled request. -/
inductive Thrown
  | exception (e : Failure)
  | baseException (name : String)
  deriving DecidableEq

def Thrown.isException : Thrown → Bool
  | .exception _ => true
  | .baseException _ => false

/-- What ends `write_stream` early; `FileSizeExceeded` is raised nowhere else. -/
inductive WriteError
  | fileSizeExceeded (maxBytes : ℕ)
  | thrown (e : Thrown)
  deriving DecidableEq

abbrev Disk := ℕ → Option Bytes

def Disk.store (key : ℕ) (content : Bytes) (disk : Disk) : Disk := Function.update disk key (some content)

/-- `unlink`; a file that is not there is no error. -/
def Disk.unlink (key : ℕ) (disk : Disk) : Disk := Function.update disk key none

variable {disk : Disk} {key k : ℕ} {content : Bytes}

@[simp] theorem store_self : disk.store key content key = some content := Function.update_self ..

@[simp] theorem unlink_self : disk.unlink key key = none := Function.update_self ..

theorem store_of_ne (h : k ≠ key) : disk.store key content k = disk k := Function.update_of_ne h ..

theorem unlink_of_ne (h : k ≠ key) : disk.unlink key k = disk k := Function.update_of_ne h ..

/-- What goes wrong below the storage. A file that cannot be opened may have been created, and a write
may put some of its bytes into the file before it raises. -/
structure Faults where
  mkdir : Option Thrown := none
  openFile : Option (Bool × Thrown) := none
  write : ℕ → Option (ℕ × Thrown) := fun _ ↦ none
  close : Option Thrown := none

/-- The variables of the loop, and what the file holds. -/
structure Progress where
  size : ℕ := 0
  hashed : Bytes := []
  content : Bytes := []

/-- The loop over the chunks; `n` counts the writes. -/
def writeChunks (faults : Faults) (maxBytes : ℕ) (raises : Option Thrown) :
    ℕ → Progress → List Bytes → Progress × Option WriteError
  | _, p, [] => (p, raises.map .thrown)
  | n, p, chunk :: chunks =>
    if chunk.isEmpty then writeChunks faults maxBytes raises n p chunks
    else if maxBytes < p.size + chunk.length then
      ({ p with size := p.size + chunk.length }, some (.fileSizeExceeded maxBytes))
    else match faults.write n with
      | some (k, e) =>
        (⟨p.size + chunk.length, p.hashed ++ chunk, p.content ++ chunk.take k⟩, some (.thrown e))
      | none => writeChunks faults maxBytes raises (n + 1)
          ⟨p.size + chunk.length, p.hashed ++ chunk, p.content ++ chunk⟩ chunks

/-- What `async with` raises: closing the file may fail too, and takes the place of what was raised. -/
def closed (faults : Faults) (stopped : Option WriteError) : Option WriteError :=
  (faults.close.map .thrown).or stopped

def writeStream (settings : FileSettings) (faults : Faults) (key : ℕ) (stream : Stream Thrown)
    (disk : Disk) : Except WriteError StoredStat × Disk :=
  match faults.mkdir with
  | some e => (.error (.thrown e), disk)
  | none => match faults.openFile with
    | some (created, e) =>
      (.error (.thrown e), (if created then disk.store key [] else disk).unlink key)
    | none =>
      let (p, stopped) := writeChunks faults settings.maxBytes stream.raises 0 {} stream.chunks
      match closed faults stopped with
      | some e => (.error e, (disk.store key p.content).unlink key)
      | none => (.ok ⟨p.size, settings.sha256 p.hashed⟩, disk.store key p.content)

/-- A request, with what its surroundings do to it: the key that `uuid4` gives, the faults of the file
system, what the flush of the row raises, and the id of the row. -/
structure Upload where
  filename : String
  contentType : String
  stream : Stream Thrown
  uploaderId : ℕ
  key : ℕ
  faults : Faults := {}
  flush : Option Thrown := none
  rowId : ℕ

structure World where
  disk : Disk
  rows : ℕ → Option File

def row (settings : FileSettings) (u : Upload) (stat : StoredStat) : File where
  objectKey := u.key
  storageBackend := settings.storageBackendName
  originalFilename := truncate u.filename 255
  contentType := truncate u.contentType 128
  sizeBytes := stat.sizeBytes
  sha256 := stat.sha256
  uploaderId := u.uploaderId
  status := .active
  deletedAt := none

def appError (e : AppError) : Thrown := .exception (.app e)

def verified (ext : String) (stream : Stream Thrown) : Stream Thrown :=
  rechain (appError (contentTypeMismatch ext)) ext stream.raises [] stream.chunks

/-- `except FileSizeExceeded` -/
def surfaced (settings : FileSettings) : WriteError → Thrown
  | .fileSizeExceeded _ => appError (sizeExceeded settings.maxBytes)
  | .thrown e => e

def allowed (settings : FileSettings) (ext : String) : Bool :=
  settings.allowedExtensions.any fun e ↦ decide (settings.lower e = ext)

def upload (settings : FileSettings) (u : Upload) (w : World) : Except Thrown FileRead × World :=
  let ext := extractExt settings u.filename
  if !allowed settings ext then (.error (appError (extensionNotAllowed ext)), w)
  else match writeStream settings u.faults u.key (verified ext u.stream) w.disk with
    | (.error e, disk) => (.error (surfaced settings e), { w with disk := disk })
    | (.ok stat, disk) =>
      if stat.sizeBytes = 0 then (.error (appError emptyFile), { w with disk := disk.unlink u.key })
      else match u.flush with
        | some e => (.error e, { w with disk := if e.isException then disk.unlink u.key else disk })
        | none => (.ok (fileRead u.rowId (row settings u stat)),
            ⟨disk, Function.update w.rows u.rowId (some (row settings u stat))⟩)

end AdminPlatform.File.UploadSteps
