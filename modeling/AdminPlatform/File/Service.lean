import AdminPlatform.Model.Service

namespace AdminPlatform.File.Service

open Model.Schema Model.Service Foundation.Relational Foundation.Transaction

abbrev Bytes := List UInt8

/-- The settings of the file service; `lower` is `str.lower`. -/
structure FileSettings where
  maxBytes : ℕ
  allowedExtensions : List String
  storageBackendName : String
  sha256 : Bytes → String
  lower : String → String

/-- What a stream yields, and what it raises after that. -/
structure Stream (ε : Type) where
  chunks : List Bytes
  raises : Option ε

abbrev Chunks := Stream Failure

structure StoredStat where
  sizeBytes : ℕ
  sha256 : String
  deriving DecidableEq, Repr

structure FileRead where
  id : ℕ
  originalFilename : String
  contentType : String
  sizeBytes : ℕ
  sha256 : String
  uploaderId : ℕ
  status : FileStatus
  deriving DecidableEq, Repr

structure FilePage where
  items : List FileRead
  page : ℕ
  size : ℕ
  total : ℕ
  totalPages : ℕ
  deriving DecidableEq, Repr

def fileRead (id : ℕ) (f : File) : FileRead where
  id := id
  originalFilename := f.originalFilename
  contentType := f.contentType
  sizeBytes := f.sizeBytes
  sha256 := f.sha256
  uploaderId := f.uploaderId
  status := f.status

def fileNotFound (title : String) : AppError where
  code := "file.NOT_FOUND"
  title := title
  statusCode := 404

def extensionNotAllowed (ext : String) : AppError where
  code := "file.EXTENSION_NOT_ALLOWED"
  title := "不支持的文件类型"
  detail := some s!"扩展名 .{ext} 不在允许列表"
  statusCode := 415

def contentTypeMismatch (ext : String) : AppError where
  code := "file.CONTENT_TYPE_MISMATCH"
  title := "文件内容与扩展名不符"
  detail := some s!"扩展名 .{ext} 的魔数头校验未通过"
  statusCode := 415

def sizeExceeded (maxBytes : ℕ) : AppError where
  code := "file.SIZE_EXCEEDED"
  title := "文件超过大小上限"
  detail := some s!"上限 {maxBytes} 字节"
  statusCode := 413

def emptyFile : AppError where
  code := "file.EMPTY_FILE"
  title := "空文件不允许上传"
  statusCode := 422

def pk : Bytes := [0x50, 0x4B, 0x03, 0x04]

def _MAGIC_SIGNATURES : List (String × List Bytes) := [
  ("pdf", [[0x25, 0x50, 0x44, 0x46]]),
  ("png", [[0x89, 0x50, 0x4E, 0x47, 0x0D, 0x0A, 0x1A, 0x0A]]),
  ("jpg", [[0xFF, 0xD8, 0xFF]]),
  ("jpeg", [[0xFF, 0xD8, 0xFF]]),
  ("gif", [[0x47, 0x49, 0x46, 0x38, 0x37, 0x61], [0x47, 0x49, 0x46, 0x38, 0x39, 0x61]]),
  ("xlsx", [pk]),
  ("docx", [pk]),
  ("zip", [pk])]

def _MAGIC_PEEK : ℕ := 8

/-- `filename.rsplit(".", 1)[-1]`, empty where there is no dot. -/
def afterLastDot (filename : String) : String :=
  if '.' ∈ filename.toList then
    .ofList (filename.toList.reverse.takeWhile fun c ↦ decide (c ≠ '.')).reverse
  else ""

def extractExt (settings : FileSettings) (filename : String) : String :=
  settings.lower (afterLastDot filename)

def verifyMagic (ext : String) (header : Bytes) : Bool :=
  header.isEmpty || match _MAGIC_SIGNATURES.lookup ext with
    | none => true
    | some signatures => signatures.any fun sig ↦ sig.isPrefixOf header

/-- What is passed on once `head` has been held back. -/
def rechain {ε : Type} (mismatch : ε) (ext : String) (raises : Option ε) (head : Bytes) :
    List Bytes → Stream ε
  | [] =>
    if raises.isSome then ⟨[], raises⟩
    else if verifyMagic ext head then ⟨if head.isEmpty then [] else [head], none⟩
    else ⟨[], some mismatch⟩
  | chunk :: chunks =>
    if _MAGIC_PEEK ≤ (head ++ chunk).length then
      if verifyMagic ext (head ++ chunk) then ⟨(head ++ chunk) :: chunks, raises⟩ else ⟨[], some mismatch⟩
    else rechain mismatch ext raises (head ++ chunk) chunks

def verifyAndRechain (ext : String) (source : Chunks) : Chunks :=
  rechain (.app (contentTypeMismatch ext)) ext source.raises [] source.chunks

def received (maxBytes : ℕ) (raises : Option Failure) (written : Bytes) : List Bytes → Except Failure Bytes
  | [] => match raises with
    | some e => .error e
    | none => .ok written
  | chunk :: chunks =>
    if maxBytes < (written ++ chunk).length then .error (.app (sizeExceeded maxBytes))
    else received maxBytes raises (written ++ chunk) chunks

def Storage.store (key : ℕ) (s : Storage) : Storage := { s with present := key :: s.present }

/-- `unlink`; a file that is not there is no error. -/
def Storage.unlink (key : ℕ) (s : Storage) : Storage :=
  if key ∈ s.present then ⟨s.present.filter fun k ↦ decide (k ≠ key), key :: s.removed⟩ else s

def writeStream (settings : FileSettings) (key : ℕ) (stream : Chunks) : Call StoredStat :=
  .query fun _ ↦
    match received settings.maxBytes stream.raises [] stream.chunks with
    | .error e => .error e
    | .ok content => .ok ({ ext := Storage.store key }, ⟨content.length, settings.sha256 content⟩)

def deletePhysical (key : ℕ) : Call Unit := .query fun _ ↦ .ok ({ ext := Storage.unlink key }, ())

def stat (key : ℕ) : Call Bool := .read fun v ↦ decide (key ∈ v.ext.present)

namespace FileRepository

/-- The flush of a new row, with its foreign key and the unique `object_key`. -/
def create (row : File) : Call FileRead :=
  .query fun v ↦
    if (v.db.rows .users row.uploaderId).isNone ||
        !(v.db.select .files fun _ (f : File) ↦ decide (f.objectKey = row.objectKey)).isEmpty then
      .error .integrity
    else .ok ({
      locks := [(.row .users row.uploaderId, .shared)]
      fresh := 1
      writes := [⟨.files, v.next, some row⟩] }, fileRead v.next row)

def active (db : Db) (fileId : ℕ) : Option File :=
  (db.rows .files fileId).filter fun f : File ↦ decide (f.status = .active)

def getActive (fileId : ℕ) : Call (Option File) := .read fun v ↦ active v.db fileId

def activeFiles (db : Db) : List (ℕ × File) :=
  (db.select .files fun _ (f : File) ↦ decide (f.status = .active)).mergeSort fun x y ↦ decide (y.1 ≤ x.1)

def listActive (page size : ℕ) : Call (List (ℕ × File)) :=
  .read fun v ↦ ((activeFiles v.db).drop ((page - 1) * size)).take size

def countActive : Call ℕ := .read fun v ↦ (activeFiles v.db).length

def flushDeleted (fileId : ℕ) (now : ℕ) : Call Unit :=
  .query fun v ↦
    match v.db.rows .files fileId with
    | none => .error .staleData
    | some f => .ok ({ writes := [⟨.files, fileId,
        some { f with status := .deleted, deletedAt := some now }⟩] }, ())

def softDelete (fileId : ℕ) (now : ℕ) : Call (Option File) := do
  match ← getActive fileId with
  | none => pure none
  | some f =>
    flushDeleted fileId now
    pure (some f)

end FileRepository

open FileRepository

def truncate (s : String) (n : ℕ) : String := .ofList (s.toList.take n)

def upload (settings : FileSettings) (filename contentType : String) (source : Chunks)
    (uploaderId : ℕ) : Call FileRead := do
  let ext := extractExt settings filename
  if !settings.allowedExtensions.any fun e ↦ decide (settings.lower e = ext) then
    raise (extensionNotAllowed ext)
  else do
    let key ← uuid4
    let stat ← writeStream settings key (verifyAndRechain ext source)
    if stat.sizeBytes = 0 then do
      deletePhysical key
      raise emptyFile
    else
      Prog.tryCatch (create {
        objectKey := key
        storageBackend := settings.storageBackendName
        originalFilename := truncate filename 255
        contentType := truncate contentType 128
        sizeBytes := stat.sizeBytes
        sha256 := stat.sha256
        uploaderId := uploaderId
        status := .active
        deletedAt := none }) fun e ↦ do
          deletePhysical key
          .fail e

def get (fileId : ℕ) : Call FileRead := do
  match ← getActive fileId with
  | none => raise (fileNotFound "文件不存在")
  | some f => pure (fileRead fileId f)

def computeTotalPages (total size : ℕ) : ℕ := if size = 0 then 0 else (total + size - 1) / size

def list (page size : ℕ) : Call FilePage := do
  let rows ← listActive page size
  let total ← countActive
  pure ⟨rows.map fun x ↦ fileRead x.1 x.2, page, size, total, computeTotalPages total size⟩

def prepareDownload (fileId : ℕ) : Call FileRead := do
  match ← getActive fileId with
  | none => raise (fileNotFound "文件不存在")
  | some f => do
    if !(← stat f.objectKey) then raise (fileNotFound "文件内容已丢失")
    else pure (fileRead fileId f)

def delete (fileId : ℕ) : Call ℕ := do
  let time ← now
  match ← softDelete fileId time with
  | none => raise (fileNotFound "文件不存在")
  | some f => pure f.objectKey

/-- `background.add_task(svc.delete_physical, object_key)` -/
def backgroundDelete (fileId key : ℕ) : Call Unit :=
  .query fun _ ↦ .ok ({ ext := Storage.unlink key, notes := [.fileUnlinked fileId] }, ())

/-- The response has been sent before the background task runs, and the dependency commits after
it. -/
def deleteFile (fileId : ℕ) : Call Unit := do
  let key ← delete fileId
  backgroundDelete fileId key
  .save

inductive Answer
  | file (f : FileRead)
  | page (p : FilePage)
  | download (f : FileRead)
  | deleted
  deriving DecidableEq, Repr

inductive FileOp
  | upload (filename contentType : String) (source : Chunks) (uploaderId : ℕ)
  | list (page size : ℕ)
  | get (fileId : ℕ)
  | download (fileId : ℕ)
  | delete (fileId : ℕ)

def FileOp.call (settings : FileSettings) : FileOp → Call Answer
  | .upload filename contentType source uploaderId => getSession do
    let f ← Service.upload settings filename contentType source uploaderId
    pure (.file f)
  | .list page size => getSession do
    let p ← Service.list page size
    pure (.page p)
  | .get fileId => getSession do
    let f ← Service.get fileId
    pure (.file f)
  | .download fileId => getSession do
    let f ← prepareDownload fileId
    pure (.download f)
  | .delete fileId => do
    deleteFile fileId
    pure .deleted

end AdminPlatform.File.Service
