import AdminPlatform.Authz.DataScope

namespace AdminPlatform.Dept.Service

open Model.Schema Model.Service Model.Scope Foundation.Relational Foundation.Transaction Foundation.Sql
open Authz.DataScope

structure DeptCreate where
  name : String
  code : String
  parentId : Option ℕ := none
  sortOrder : ℤ := 0
  leader : Option String := none
  phone : Option String := none
  email : Option String := none

/-- Every field may be sent as `null`; the columns of the first four do not accept it. -/
structure DeptUpdate where
  name : PatchField (Option String) := none
  code : PatchField (Option String) := none
  sortOrder : PatchField (Option ℤ) := none
  status : PatchField (Option Status) := none
  parentId : PatchField (Option ℕ) := none
  leader : PatchField (Option String) := none
  phone : PatchField (Option String) := none
  email : PatchField (Option String) := none

structure DeptRead where
  id : ℕ
  dept : Dept
  deriving DecidableEq, Repr

namespace DeptRepository

def _MAX_DEPT_DEPTH : ℕ := 64

def acquireTreeLock : Call Unit := acquireTransactionLock .deptTree

def get (deptId : ℕ) : Call (Option Dept) := .read fun v ↦ v.db.rows .depts deptId

/-- The `SELECT` behind the department list; departments have no owner. -/
def scopedSelect (scope : Option DataScope) : Select (ℕ × Dept) :=
  match scope with
  | none => {}
  | some s => applyDataScope {} s (fun x ↦ some x.1) none

def codeTaken (db : Db) (deptId : Option ℕ) (code : String) : Bool :=
  !(db.select .depts fun i (d : Dept) ↦ decide (some i ≠ deptId ∧ d.code = code)).isEmpty

def findByCode (code : String) : Call Bool := .read fun v ↦ codeTaken v.db none code

def childIds (db : Db) (deptId : ℕ) : List ℕ :=
  (db.select .depts fun _ (d : Dept) ↦ decide (d.parentId = some deptId)).map Prod.fst

def countChildren (deptId : ℕ) : Call ℕ := .read fun v ↦ (childIds v.db deptId).length

def expand (db : Db) : ℕ → List ℕ → List ℕ
  | 0, level => level
  | depth + 1, level => level ++ expand db depth (level.flatMap (childIds db))

def descendantDeptIds (db : Db) (deptId : ℕ) : List ℕ :=
  if (db.rows .depts deptId).isSome then expand db _MAX_DEPT_DEPTH [deptId] else []

def listDescendantDeptIds (deptId : ℕ) : Call (List ℕ) :=
  .read fun v ↦ descendantDeptIds v.db deptId

/-- The foreign key on `parent_id`: the parent, if any, exists and is locked. -/
def parentReference (db : Db) (parentId : Option ℕ) : Option (List (Resource Table LockName × Mode)) :=
  match parentId with
  | none => some []
  | some p => if (db.rows .depts p).isSome then some [(.row .depts p, .shared)] else none

def create (payload : DeptCreate) : Call (ℕ × Dept) :=
  .query fun v ↦
    let row : Dept := {
      parentId := payload.parentId
      name := payload.name
      code := payload.code
      sortOrder := payload.sortOrder
      status := .active
      leader := payload.leader
      phone := payload.phone
      email := payload.email }
    match parentReference v.db payload.parentId with
    | none => .error .integrity
    | some locks =>
      if codeTaken v.db none payload.code then .error .integrity
      else .ok ({
        locks := (.named (.unique .depts payload.code), .exclusive) :: locks
        fresh := 1
        writes := [⟨.depts, v.next, some row⟩] }, (v.next, row))

def patch (loaded : Dept) (payload : DeptUpdate) (d : Dept) : Dept where
  parentId := flushed loaded.parentId d.parentId payload.parentId
  name := (flushed (some loaded.name) (some d.name) payload.name).getD d.name
  code := (flushed (some loaded.code) (some d.code) payload.code).getD d.code
  sortOrder := (flushed (some loaded.sortOrder) (some d.sortOrder) payload.sortOrder).getD d.sortOrder
  status := (flushed (some loaded.status) (some d.status) payload.status).getD d.status
  leader := flushed loaded.leader d.leader payload.leader
  phone := flushed loaded.phone d.phone payload.phone
  email := flushed loaded.email d.email payload.email

def isDirty (loaded : Dept) (payload : DeptUpdate) : Bool :=
  dirty (some loaded.name) payload.name || dirty (some loaded.code) payload.code ||
    dirty (some loaded.sortOrder) payload.sortOrder || dirty (some loaded.status) payload.status ||
    dirty loaded.parentId payload.parentId || dirty loaded.leader payload.leader ||
    dirty loaded.phone payload.phone || dirty loaded.email payload.email

def hasNull (payload : DeptUpdate) : Bool :=
  decide (payload.name = some none) || decide (payload.code = some none) ||
    decide (payload.sortOrder = some none) || decide (payload.status = some none)

/-- The flush of the changed columns and the reload of the row. -/
def update (deptId : ℕ) (loaded : Dept) (payload : DeptUpdate) : Call Dept :=
  .query fun v ↦
    if hasNull payload then .error .integrity
    else
      match v.db.rows .depts deptId with
      | none => .error .staleData
      | some d =>
        if !isDirty loaded payload then .ok ({}, d)
        else
          let new := patch loaded payload d
          let moved := dirty loaded.parentId payload.parentId
          let recoded := dirty (some loaded.code) payload.code
          match if moved then parentReference v.db new.parentId else some [] with
          | none => .error .integrity
          | some locks =>
            if recoded && codeTaken v.db (some deptId) new.code then .error .integrity
            else .ok ({
              locks := (if recoded then [(.named (.unique .depts new.code), .exclusive)] else []) ++ locks
              writes := [⟨.depts, deptId, some new⟩]
              notes := if moved then (new.parentId.map fun p ↦ Note.deptMoved deptId p).toList else [] },
              new)

/-- `DELETE`: refused while a child is left; users lose their department, roles the link. -/
def delete (deptId : ℕ) : Call Unit :=
  .query fun v ↦
    if childIds v.db deptId = [] then
      .ok ({ writes :=
        v.db.update .users (fun _ u ↦ decide (u.deptId = some deptId)) (fun u ↦ { u with deptId := none }) ++
        v.db.delete .roleDepts (fun _ (r : RoleDept) ↦ decide (r.deptId = deptId)) ++
        v.db.delete .depts (fun i _ ↦ decide (i = deptId)) }, ())
    else .error .integrity

end DeptRepository

open DeptRepository

def notFound (itemId : ℕ) : AppError where
  code := "dept.NOT_FOUND"
  title := "Dept not found"
  detail := some s!"id={itemId}"
  statusCode := 404

def duplicate (code : String) : AppError where
  code := "dept.CODE_DUPLICATE"
  title := "Dept code already exists"
  detail := some s!"code='{code}'"
  statusCode := 409

def parentNotFound (parentId : ℕ) : AppError where
  code := "dept.PARENT_NOT_FOUND"
  title := "Parent dept not found"
  detail := some s!"parent_id={parentId}"
  statusCode := 404

def cycle (itemId newParentId : ℕ) : AppError where
  code := "dept.CYCLE"
  title := "Dept move would create a cycle"
  detail := some s!"不能把部门 id={itemId} 移动到自身或其子孙 id={newParentId} 之下"
  statusCode := 409

def hasChildren (itemId : ℕ) : AppError where
  code := "dept.HAS_CHILDREN"
  title := "Dept has children"
  detail := some s!"部门 id={itemId} 存在子部门，禁止删除"
  statusCode := 409

def hides (scope : Option DataScope) (deptId : Option ℕ) : Bool :=
  scope.any fun s ↦ !isDeptVisible s deptId

def create (payload : DeptCreate) (scope : Option DataScope) : Call DeptRead := do
  if hides scope payload.parentId then raise forbiddenScope
  match payload.parentId with
  | none => pure ()
  | some p => if (← get p).isNone then raise (parentNotFound p)
  if ← findByCode payload.code then raise (duplicate payload.code)
  let (id, row) ← DeptRepository.create payload
  pure ⟨id, row⟩

def checkCodeUnique (existing : Dept) (payload : DeptUpdate) : Call Unit :=
  match payload.code with
  | some (some code) =>
    if code = existing.code then pure ()
    else do if ← findByCode code then raise (duplicate code)
  | _ => pure ()

def checkNoCycle (itemId newParentId : ℕ) : Call Unit := do
  if newParentId = itemId then raise (cycle itemId newParentId)
  if newParentId ∈ (← listDescendantDeptIds itemId) then raise (cycle itemId newParentId)

/-- The checks of a move, under the tree lock. The session still holds the moved row. -/
def checkMove (itemId : ℕ) (newParentId : Option ℕ) (scope : Option DataScope) : Call Unit := do
  acquireTreeLock
  if hides scope newParentId then raise forbiddenScope
  match newParentId with
  | none => pure ()
  | some p =>
    if p ≠ itemId then
      if (← get p).isNone then raise (parentNotFound p)
    checkNoCycle itemId p

def update (itemId : ℕ) (payload : DeptUpdate) (scope : Option DataScope) : Call DeptRead := do
  match ← get itemId with
  | none => raise (notFound itemId)
  | some existing =>
    if hides scope (some itemId) then raise (notFound itemId)
    checkCodeUnique existing payload
    match payload.parentId with
    | none => pure ()
    | some newParentId => checkMove itemId newParentId scope
    let row ← DeptRepository.update itemId existing payload
    pure ⟨itemId, row⟩

def delete (itemId : ℕ) (scope : Option DataScope) : Call Unit := do
  match ← get itemId with
  | none => raise (notFound itemId)
  | some _ =>
    if hides scope (some itemId) then raise (notFound itemId)
    acquireTreeLock
    if 0 < (← countChildren itemId) then raise (hasChildren itemId)
    DeptRepository.delete itemId

end AdminPlatform.Dept.Service
