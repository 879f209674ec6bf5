import Mathlib.Data.Int.Notation
import Mathlib.Data.Nat.Notation

namespace AdminPlatform.Excel.Reader

structure ExcelColumn where
  field : String
  header : String
  required : Bool := true
  deriving DecidableEq, Repr

structure RowError where
  row : ℕ
  column : Option String
  code : String
  message : String
  deriving DecidableEq, Repr

structure ParsedRow (α : Type) where
  row : ℕ
  data : α
  deriving DecidableEq, Repr

structure ImportResult (α : Type) where
  rows : List (ParsedRow α)
  errors : List RowError
  deriving DecidableEq, Repr

/-- A value that the workbook library reads; `other` is known by its `str`. -/
inductive Cell
  | text (s : String)
  | number (n : ℤ)
  | other (str : String)
  deriving DecidableEq, Repr

def Cell.str : Cell → String
  | .text s => s
  | .number n => toString n
  | .other s => s

abbrev RawRow := List (Option Cell)

/-- A file that cannot be opened, by the name of the exception; one without an active sheet; or
the rows of the active sheet. -/
inductive Workbook
  | broken (exception : String)
  | blank
  | sheet (rows : List RawRow)
  deriving DecidableEq, Repr

/-- The characters that `str.strip` removes. -/
def isSpace (c : Char) : Bool :=
  (0x09 ≤ c.toNat && c.toNat ≤ 0x0d) || (0x1c ≤ c.toNat && c.toNat ≤ 0x20) || c.toNat == 0x85 ||
    c.toNat == 0xa0 || c.toNat == 0x1680 || (0x2000 ≤ c.toNat && c.toNat ≤ 0x200a) ||
    c.toNat == 0x2028 || c.toNat == 0x2029 || c.toNat == 0x202f || c.toNat == 0x205f || c.toNat == 0x3000

def stripChars (s : List Char) : List Char :=
  ((s.dropWhile isSpace).reverse.dropWhile isSpace).reverse

def strip (s : String) : String := String.ofList (stripChars s.toList)

def canonical : Option Cell → String
  | none => ""
  | some cell => strip cell.str

structure ValidationError where
  loc : Option String
  msg : String
  deriving DecidableEq, Repr

structure ExcelImporter (α : Type) where
  columns : List ExcelColumn
  maxRows : ℕ := 10000
  modelValidate : List (String × String) → Except (List ValidationError) α

def headerMap (header : RawRow) : List (String × ℕ) :=
  (header.zipIdx.filterMap fun x ↦ x.1.map fun cell ↦ (strip cell.str, x.2)).reverse

variable {α : Type} (importer : ExcelImporter α)

namespace ExcelImporter

def rowData (positions : List (String × ℕ)) (raw : RawRow) : List (String × String) :=
  importer.columns.filterMap fun col ↦
    let value := canonical ((positions.lookup col.header).bind fun i ↦ (raw[i]?).join)
    if value = "" ∧ col.required = false then none else some (col.field, value)

def rowErrors (rowIdx : ℕ) (errors : List ValidationError) : List RowError :=
  errors.map fun err ↦ {
    row := rowIdx
    column := err.loc.bind fun f ↦ (importer.columns.find? fun c ↦ decide (c.field = f)).map ExcelColumn.header
    code := "VALIDATION"
    message := err.msg }

def tooManyRows (rowIdx : ℕ) : RowError where
  row := rowIdx
  column := none
  code := "TOO_MANY_ROWS"
  message := s!"超过最大行数 {importer.maxRows}"

/-- The loop over the rows below the header, from the row number `rowIdx` on. -/
def parseRows (positions : List (String × ℕ)) : ℕ → List RawRow → ImportResult α
  | _, [] => ⟨[], []⟩
  | rowIdx, raw :: rest =>
    if importer.maxRows < rowIdx - 1 then ⟨[], [importer.tooManyRows rowIdx]⟩
    else if raw.all Option.isNone then parseRows positions (rowIdx + 1) rest
    else
      let result := parseRows positions (rowIdx + 1) rest
      match importer.modelValidate (importer.rowData positions raw) with
      | .error errors => { result with errors := importer.rowErrors rowIdx errors ++ result.errors }
      | .ok data => { result with rows := ⟨rowIdx, data⟩ :: result.rows }

def invalidFile (exception : String) : RowError where
  row := 1
  column := none
  code := "INVALID_FILE"
  message := s!"无法解析 Excel: {exception}"

def missingColumn (header : String) : RowError where
  row := 1
  column := some header
  code := "MISSING_COLUMN"
  message := s!"缺列头: {header}"

/-- The parse of a file that the guard against zip bombs lets through. -/
def parse : Workbook → ImportResult α
  | .broken exception => ⟨[], [invalidFile exception]⟩
  | .blank => ⟨[], [⟨1, none, "EMPTY", "空工作簿"⟩]⟩
  | .sheet [] => ⟨[], [⟨1, none, "EMPTY", "空文件"⟩]⟩
  | .sheet (header :: rows) =>
    let positions := headerMap header
    let missing := (importer.columns.map ExcelColumn.header).filter fun h ↦ (positions.lookup h).isNone
    if missing ≠ [] then ⟨[], missing.map missingColumn⟩
    else importer.parseRows positions 2 rows

end ExcelImporter

end AdminPlatform.Excel.Reader
