import AdminPlatform.Excel.Writer
import AdminPlatform.Foundation.Ordering
import AdminPlatform.Post.Service

namespace AdminPlatform.Post.Excel

open Model.Schema Model.Service Foundation.Relational Foundation.Transaction Foundation.Ordering
open Excel.Reader Excel.Writer Post.Service

/-- What Pydantic adds to the checks: how it reads a number, and its messages. -/
structure Pydantic where
  int : String → Option ℤ
  missing : String
  tooShort : String
  tooLong : String
  valueError : String → String
  intParsing : String
  tooSmall : String
  tooLarge : String
  literal : String

variable (pydantic : Pydantic) (data : List (String × String))

def fieldError (field msg : String) : ValidationError := ⟨some field, msg⟩

def _rejectControlChars (value : String) : Bool := value.toList.any isIllegal

/-- `CleanText` with the bounds of its length. -/
def validateText (field : String) : Except ValidationError String :=
  match data.lookup field with
  | none => .error (fieldError field pydantic.missing)
  | some value =>
    if _rejectControlChars value then
      .error (fieldError field (pydantic.valueError "不能包含 Excel 非法字符"))
    else if value.toList.length < 1 then .error (fieldError field pydantic.tooShort)
    else if 64 < value.toList.length then .error (fieldError field pydantic.tooLong)
    else .ok value

def validateSortOrder : Except ValidationError ℤ :=
  match data.lookup "sort_order" with
  | none => .ok 0
  | some value => match pydantic.int value with
    | none => .error (fieldError "sort_order" pydantic.intParsing)
    | some n =>
      if n < 0 then .error (fieldError "sort_order" pydantic.tooSmall)
      else if 999999 < n then .error (fieldError "sort_order" pydantic.tooLarge)
      else .ok n

def statusText : Status → String
  | .active => "active"
  | .disabled => "disabled"

def validateStatus : Except ValidationError Status :=
  match data.lookup "status" with
  | none => .ok .active
  | some value =>
    if value = statusText .active then .ok .active
    else if value = statusText .disabled then .ok .disabled
    else .error (fieldError "status" pydantic.literal)

def errorOf {α : Type} : Except ValidationError α → List ValidationError
  | .error e => [e]
  | .ok _ => []

def modelValidate : Except (List ValidationError) PostCreate :=
  match validateText pydantic data "name", validateText pydantic data "code",
      validateSortOrder pydantic data, validateStatus pydantic data with
  | .ok name, .ok code, .ok sortOrder, .ok status => .ok ⟨name, code, sortOrder, status⟩
  | name, code, sortOrder, status =>
    .error (errorOf name ++ errorOf code ++ errorOf sortOrder ++ errorOf status)

def POST_EXCEL_COLUMNS : List ExcelColumn :=
  [⟨"name", "岗位名称", true⟩, ⟨"code", "岗位编码", true⟩, ⟨"sort_order", "显示顺序", false⟩,
   ⟨"status", "状态", false⟩]

def _EXCEL_MAX_ROWS : ℕ := 10000

def exportOrder : List (SortExpr (ℕ × Post)) := [asc fun x ↦ x.2.sortOrder, asc Prod.fst]

def listForExport (db : Db) : List (ℕ × Post) := sort (lexicographic exportOrder) (db.scan .posts)

def exportTooLarge : AppError where
  code := "post.EXPORT_TOO_LARGE"
  title := "导出超过行数上限"
  detail := some s!"超过 {_EXCEL_MAX_ROWS} 行，请用筛选或后台任务（排期）"
  statusCode := 422

def exportRow (r : Post) : List (String × Cell) :=
  [("name", .text r.name), ("code", .text r.code), ("sort_order", .number r.sortOrder),
   ("status", .text (statusText r.status))]

def exportPosts (db : Db) : Except AppError Workbook :=
  let rows := (listForExport db).take (_EXCEL_MAX_ROWS + 1)
  if _EXCEL_MAX_ROWS < rows.length then .error exportTooLarge
  else .ok (write POST_EXCEL_COLUMNS (rows.map fun x ↦ exportRow x.2))

def importer : ExcelImporter PostCreate where
  columns := POST_EXCEL_COLUMNS
  maxRows := _EXCEL_MAX_ROWS
  modelValidate := modelValidate pydantic

def importError (e : RowError) : PostImportRowError := ⟨e.row, e.column, e.code, e.message⟩

def importResult (result : Excel.Reader.ImportResult PostCreate) : Post.Service.ImportResult where
  rows := result.rows.map fun p ↦ ⟨p.row, p.data⟩
  errors := result.errors.map importError

/-- `guard` holds of the files that are refused before they are unpacked. -/
def importWorkbook (guard : Workbook → Bool) (workbook : Workbook) : Call PostImportSummary :=
  importPosts (if guard workbook then none
    else some (importResult ((importer pydantic).parse workbook)))

end AdminPlatform.Post.Excel
