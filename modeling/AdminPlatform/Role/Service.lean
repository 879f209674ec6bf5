import AdminPlatform.Model.Coded

namespace AdminPlatform.Role.Service

open Model.Schema Model.Service Model.Scope Model.Coded Foundation.Relational

structure RoleCreate where
  name : String
  code : String
  dataScope : ScopeType := .self
  sortOrder : ℤ := 0
  status : Status := .active

/-- Every field may be sent as `null`, which no column accepts. -/
structure RoleUpdate where
  name : PatchField (Option String) := none
  code : PatchField (Option String) := none
  dataScope : PatchField (Option ScopeType) := none
  sortOrder : PatchField (Option ℤ) := none
  status : PatchField (Option Status) := none

structure RoleRead where
  id : ℕ
  role : Role
  deriving DecidableEq, Repr

namespace RoleRepository

def roles : CodeTable where
  table := .roles
  codeOf := Role.code
  cascade db itemId :=
    db.delete .userRoles (fun _ (r : UserRole) ↦ decide (r.roleId = itemId)) ++
    db.delete .roleDepts (fun _ (r : RoleDept) ↦ decide (r.roleId = itemId)) ++
    db.delete .roleMenus (fun _ (r : RoleMenu) ↦ decide (r.roleId = itemId))

def create (payload : RoleCreate) : Call (ℕ × Role) :=
  roles.insert {
    name := payload.name
    code := payload.code
    dataScope := payload.dataScope
    sortOrder := payload.sortOrder
    status := payload.status }

def patch (loaded : Role) (payload : RoleUpdate) (r : Role) : Role where
  name := (flushed (some loaded.name) (some r.name) payload.name).getD r.name
  code := (flushed (some loaded.code) (some r.code) payload.code).getD r.code
  dataScope := (flushed (some loaded.dataScope) (some r.dataScope) payload.dataScope).getD r.dataScope
  sortOrder := (flushed (some loaded.sortOrder) (some r.sortOrder) payload.sortOrder).getD r.sortOrder
  status := (flushed (some loaded.status) (some r.status) payload.status).getD r.status

def isDirty (loaded : Role) (payload : RoleUpdate) : Bool :=
  dirty (some loaded.name) payload.name || dirty (some loaded.code) payload.code ||
    dirty (some loaded.dataScope) payload.dataScope ||
    dirty (some loaded.sortOrder) payload.sortOrder || dirty (some loaded.status) payload.status

def hasNull (payload : RoleUpdate) : Bool :=
  decide (payload.name = some none) || decide (payload.code = some none) ||
    decide (payload.dataScope = some none) || decide (payload.sortOrder = some none) ||
    decide (payload.status = some none)

def update (roleId : ℕ) (loaded : Role) (payload : RoleUpdate) : Call Role :=
  roles.flush roleId (hasNull payload) (isDirty loaded payload)
    (dirty (some loaded.code) payload.code) (patch loaded payload)

end RoleRepository

open RoleRepository

def notFound (itemId : ℕ) : AppError where
  code := "role.NOT_FOUND"
  title := "Role not found"
  detail := some s!"id={itemId}"
  statusCode := 404

def duplicate (code : String) : AppError where
  code := "role.CODE_DUPLICATE"
  title := "Role code already exists"
  detail := some s!"code='{code}'"
  statusCode := 409

def forbiddenSecurityFields : AppError where
  code := "auth.FORBIDDEN_BY_ROLE"
  title := "Forbidden"
  detail := some "data_scope/status/perms 等授权根字段仅超级管理员可修改"
  statusCode := 403

def guardSecurityFieldsUpdate (payload : RoleUpdate) (isSuperAdmin : Bool) : Call Unit :=
  if isSuperAdmin then pure ()
  else if payload.dataScope.isSome || payload.status.isSome then raise forbiddenSecurityFields
  else pure ()

def guardSecurityFieldsCreate (payload : RoleCreate) (isSuperAdmin : Bool) : Call Unit :=
  if isSuperAdmin then pure ()
  else if decide (payload.dataScope ≠ .self) || decide (payload.status ≠ .active) then
    raise forbiddenSecurityFields
  else pure ()

def create (payload : RoleCreate) (isSuperAdmin : Bool) : Call RoleRead := do
  guardSecurityFieldsCreate payload isSuperAdmin
  if ← roles.findByCode payload.code then raise (duplicate payload.code)
  let (id, row) ← RoleRepository.create payload
  pure ⟨id, row⟩

def update (itemId : ℕ) (payload : RoleUpdate) (isSuperAdmin : Bool) : Call RoleRead := do
  guardSecurityFieldsUpdate payload isSuperAdmin
  match ← roles.get itemId with
  | none => raise (notFound itemId)
  | some (existing : Role) =>
    roles.checkCodeUnique existing.code payload.code duplicate
    let row ← RoleRepository.update itemId existing payload
    pure ⟨itemId, row⟩

def delete (itemId : ℕ) : Call Unit := do
  if !(← roles.delete itemId) then raise (notFound itemId)

end AdminPlatform.Role.Service
