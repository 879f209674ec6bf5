import AdminPlatform.Model.Scope

namespace AdminPlatform.Model.Coded

open Schema Service Scope Foundation.Relational Foundation.Transaction

/-- A table whose rows carry a unique code, and what a deletion takes with it. -/
structure CodeTable where
  table : Table
  codeOf : Row table → String
  cascade : Db → ℕ → List (Write Row)

namespace CodeTable

variable (t : CodeTable)

/-- Another row than `exceptId` has the code. -/
def codeTaken (db : Db) (exceptId : Option ℕ) (code : String) : Bool :=
  !(db.select t.table fun i r ↦ decide (some i ≠ exceptId ∧ t.codeOf r = code)).isEmpty

def get (itemId : ℕ) : Call (Option (Row t.table)) := .read fun v ↦ v.db.rows t.table itemId

def findByCode (code : String) : Call Bool := .read fun v ↦ t.codeTaken v.db none code

def insert (row : Row t.table) : Call (ℕ × Row t.table) :=
  .query fun v ↦
    if t.codeTaken v.db none (t.codeOf row) then .error .integrity
    else .ok ({
      locks := [(.named (.unique t.table (t.codeOf row)), .exclusive)]
      fresh := 1
      writes := [⟨t.table, v.next, some row⟩] }, (v.next, row))

/-- The flush of the changed columns and the reload of the row. -/
def flush (itemId : ℕ) (hasNull isDirty recoded : Bool) (patch : Row t.table → Row t.table) :
    Call (Row t.table) :=
  .query fun v ↦
    if hasNull then .error .integrity
    else
      match v.db.rows t.table itemId with
      | none => .error .staleData
      | some r =>
        if !isDirty then .ok ({}, r)
        else if recoded && t.codeTaken v.db (some itemId) (t.codeOf (patch r)) then .error .integrity
        else .ok ({
          locks := if recoded then [(.named (.unique t.table (t.codeOf (patch r))), .exclusive)] else []
          writes := [⟨t.table, itemId, some (patch r)⟩] }, patch r)

/-- The `DELETE` of a loaded row, which the commit sends. -/
def delete (itemId : ℕ) : Call Bool := do
  match ← t.get itemId with
  | none => pure false
  | some _ => .query fun v ↦ .ok ({
      writes := t.cascade v.db itemId ++ v.db.delete t.table fun i _ ↦ decide (i = itemId) }, true)

def checkCodeUnique (current : String) (code : PatchField (Option String)) (duplicate : String → AppError) :
    Call Unit :=
  match code with
  | some (some code) =>
    if code = current then pure ()
    else do if ← t.findByCode code then raise (duplicate code)
  | _ => pure ()

end CodeTable

end AdminPlatform.Model.Coded
