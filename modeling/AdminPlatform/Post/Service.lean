import AdminPlatform.Model.Coded

namespace AdminPlatform.Post.Service

open Model.Schema Model.Service Model.Scope Model.Coded Foundation.Relational Foundation.Transaction

structure PostCreate where
  name : String
  code : String
  sortOrder : ℤ := 0
  status : Status := .active
  deriving DecidableEq, Repr

def PostCreate.row (payload : PostCreate) : Post where
  name := payload.name
  code := payload.code
  sortOrder := payload.sortOrder
  status := payload.status

/-- Every field may be sent as `null`, which no column accepts. -/
structure PostUpdate where
  name : PatchField (Option String) := none
  code : PatchField (Option String) := none
  sortOrder : PatchField (Option ℤ) := none
  status : PatchField (Option Status) := none

structure PostRead where
  id : ℕ
  post : Post
  deriving DecidableEq, Repr

structure PostImportRowError where
  row : ℕ
  column : Option String := none
  code : String
  message : String
  deriving DecidableEq, Repr

structure PostImportSummary where
  imported : ℕ
  errors : List PostImportRowError := []
  deriving DecidableEq, Repr

structure ParsedRow where
  row : ℕ
  data : PostCreate
  deriving DecidableEq, Repr

structure ImportResult where
  rows : List ParsedRow
  errors : List PostImportRowError

namespace PostRepository

def posts : CodeTable where
  table := .posts
  codeOf := Post.code
  cascade db itemId := db.delete .userPosts fun _ (r : UserPost) ↦ decide (r.postId = itemId)

def create (payload : PostCreate) : Call (ℕ × Post) := posts.insert payload.row

def patch (loaded : Post) (payload : PostUpdate) (r : Post) : Post where
  name := (flushed (some loaded.name) (some r.name) payload.name).getD r.name
  code := (flushed (some loaded.code) (some r.code) payload.code).getD r.code
  sortOrder := (flushed (some loaded.sortOrder) (some r.sortOrder) payload.sortOrder).getD r.sortOrder
  status := (flushed (some loaded.status) (some r.status) payload.status).getD r.status

def isDirty (loaded : Post) (payload : PostUpdate) : Bool :=
  dirty (some loaded.name) payload.name || dirty (some loaded.code) payload.code ||
    dirty (some loaded.sortOrder) payload.sortOrder || dirty (some loaded.status) payload.status

def hasNull (payload : PostUpdate) : Bool :=
  decide (payload.name = some none) || decide (payload.code = some none) ||
    decide (payload.sortOrder = some none) || decide (payload.status = some none)

def update (postId : ℕ) (loaded : Post) (payload : PostUpdate) : Call Post :=
  posts.flush postId (hasNull payload) (isDirty loaded payload)
    (dirty (some loaded.code) payload.code) (patch loaded payload)

def listExistingCodes (codes : List String) : Call (List String) :=
  .read fun v ↦ codes.filter fun c ↦ posts.codeTaken v.db none c

/-- One flush of new rows. A code that is there already, or comes twice, is refused by the
database. -/
def bulkCreate (payloads : List PostCreate) : Call ℕ :=
  .query fun v ↦
    let codes := payloads.map PostCreate.code
    if (codes.any fun c ↦ posts.codeTaken v.db none c) || !decide codes.Nodup then .error .integrity
    else .ok ({
      locks := codes.map fun c ↦ (.named (.unique .posts c), .exclusive)
      fresh := payloads.length
      writes := payloads.zipIdx.map fun x ↦ ⟨.posts, v.next + x.2, some x.1.row⟩ }, payloads.length)

end PostRepository

open PostRepository

def notFound (itemId : ℕ) : AppError where
  code := "post.NOT_FOUND"
  title := "Post not found"
  detail := some s!"id={itemId}"
  statusCode := 404

def duplicate (code : String) : AppError where
  code := "post.CODE_DUPLICATE"
  title := "Post code already exists"
  detail := some s!"code='{code}'"
  statusCode := 409

def importTooLarge : AppError where
  code := "post.EXCEL_TOO_LARGE"
  title := "Excel 文件过大"
  detail := some "解压后体积/条目超限，疑似 zip bomb，已拒绝"
  statusCode := 413

def create (payload : PostCreate) : Call PostRead := do
  if ← posts.findByCode payload.code then raise (duplicate payload.code)
  let (id, row) ← PostRepository.create payload
  pure ⟨id, row⟩

def update (itemId : ℕ) (payload : PostUpdate) : Call PostRead := do
  match ← posts.get itemId with
  | none => raise (notFound itemId)
  | some (existing : Post) =>
    posts.checkCodeUnique existing.code payload.code duplicate
    let row ← PostRepository.update itemId existing payload
    pure ⟨itemId, row⟩

def delete (itemId : ℕ) : Call Unit := do
  if !(← posts.delete itemId) then raise (notFound itemId)

def duplicateInFile (parsed : ParsedRow) : PostImportRowError where
  row := parsed.row
  column := some "岗位编码"
  code := "DUPLICATE_IN_FILE"
  message := s!"文件内 code 重复: {parsed.data.code}"

def dbDuplicate (parsed : ParsedRow) : PostImportRowError where
  row := parsed.row
  column := some "岗位编码"
  code := "DB_DUPLICATE"
  message := s!"库内已存在 code: {parsed.data.code}"

def duplicatesInFile : List ParsedRow → List String → List PostImportRowError
  | [], _ => []
  | parsed :: rows, seen =>
    if parsed.data.code ∈ seen then duplicateInFile parsed :: duplicatesInFile rows seen
    else duplicatesInFile rows (parsed.data.code :: seen)

/-- The import of what the reader made of the file; `none` when it refused to unpack it. -/
def importPosts (parsed : Option ImportResult) : Call PostImportSummary := do
  match parsed with
  | none => raise importTooLarge
  | some result =>
    let existing ← listExistingCodes (result.rows.map fun p ↦ p.data.code)
    let errors := result.errors ++ duplicatesInFile result.rows [] ++
      (result.rows.filter fun p ↦ decide (p.data.code ∈ existing)).map dbDuplicate
    if errors ≠ [] then pure { imported := 0, errors := errors }
    else do
      let imported ← bulkCreate (result.rows.map ParsedRow.data)
      pure { imported := imported }

end AdminPlatform.Post.Service
