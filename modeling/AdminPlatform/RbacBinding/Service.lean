import AdminPlatform.Role.Repository
import AdminPlatform.User.Service

namespace AdminPlatform.RbacBinding.Service

open Model.Schema Model.Service Model.Scope Foundation.Relational Foundation.Transaction

structure AuditActor where
  userId : Option ℕ := none
  username : Option String := none
  isSuperAdmin : Bool := false

/-- One link table: its lock, the owner's and the target's tables, and its rows. -/
structure LinkTable where
  table : Table
  lock : LockName
  ownerTable : Table
  targetTable : Table
  ownerOf : Row table → ℕ
  targetOf : Row table → ℕ
  link : ℕ → ℕ → Row table

def userRoles : LinkTable where
  table := .userRoles
  lock := .userRoles
  ownerTable := .users
  targetTable := .roles
  ownerOf := UserRole.userId
  targetOf := UserRole.roleId
  link := UserRole.mk

def userPosts : LinkTable where
  table := .userPosts
  lock := .userPosts
  ownerTable := .users
  targetTable := .posts
  ownerOf := UserPost.userId
  targetOf := UserPost.postId
  link := UserPost.mk

def roleMenus : LinkTable where
  table := .roleMenus
  lock := .roleMenus
  ownerTable := .roles
  targetTable := .menus
  ownerOf := RoleMenu.roleId
  targetOf := RoleMenu.menuId
  link := RoleMenu.mk

def roleDepts : LinkTable where
  table := .roleDepts
  lock := .roleDepts
  ownerTable := .roles
  targetTable := .depts
  ownerOf := RoleDept.roleId
  targetOf := RoleDept.deptId
  link := RoleDept.mk

namespace LinkTable

variable (t : LinkTable)

def deleteLinks (owner : ℕ) : Call Unit :=
  .query fun v ↦ .ok ({ writes := v.db.delete t.table fun _ r ↦ decide (t.ownerOf r = owner) }, ())

/-- One flush of new rows. A missing owner or target and a row that is already there are
refused by the database. -/
def insertLinks (owner : ℕ) (ids : List ℕ) : Call Unit :=
  .query fun v ↦
    let taken := v.db.select t.table fun _ r ↦ decide (t.ownerOf r = owner ∧ t.targetOf r ∈ ids)
    if ids = [] then .ok ({}, ())
    else if (v.db.rows t.ownerTable owner).isSome && taken.isEmpty &&
        ids.all fun i ↦ (v.db.rows t.targetTable i).isSome then
      .ok ({
        locks := (.row t.ownerTable owner, .shared) :: ids.flatMap fun i ↦
          [(.row t.targetTable i, .shared), (.named (.unique t.table s!"{owner}-{i}"), .exclusive)]
        fresh := ids.length
        writes := ids.zipIdx.map fun x ↦ ⟨t.table, v.next + x.2, some (t.link owner x.1)⟩ }, ())
    else .error .integrity

/-- `set_user_roles` and its siblings: delete, then insert, under the table's lock. -/
def replace (owner : ℕ) (ids : List ℕ) : Call Unit := do
  acquireTransactionLock t.lock
  t.deleteLinks owner
  t.insertLinks owner ids.eraseDups
  mark (.linksReplaced t.table owner ids)

def targets (db : Db) (owner : ℕ) : List ℕ :=
  ((db.select t.table fun _ r ↦ decide (t.ownerOf r = owner)).map fun x ↦ t.targetOf x.2).mergeSort
    fun a b ↦ decide (a ≤ b)

def listTargets (owner : ℕ) : Call (List ℕ) := .read fun v ↦ t.targets v.db owner

end LinkTable

def userNotFound (userId : ℕ) : AppError where
  code := "user.NOT_FOUND"
  title := "User not found"
  detail := some s!"id={userId}"
  statusCode := 404

def roleNotFound (roleId : ℕ) : AppError where
  code := "role.NOT_FOUND"
  title := "Role not found"
  detail := some s!"id={roleId}"
  statusCode := 404

def idsInvalid (code label : String) (missing : List ℕ) : AppError where
  code := code
  title := label ++ " ids invalid"
  detail := some s!"不存在的 {label} id: {missing.mergeSort fun a b ↦ decide (a ≤ b)}"
  statusCode := 422

def forbiddenByRole : AppError where
  code := "auth.FORBIDDEN_BY_ROLE"
  title := "Forbidden"
  detail := some "角色/权限图谱分配仅超级管理员可操作"
  statusCode := 403

def requireSuperAdmin (operator : AuditActor) : Call Unit :=
  if operator.isSuperAdmin then pure () else raise forbiddenByRole

def userVisible (userId : ℕ) (user : User) (scope : DataScope) : Bool :=
  isDeptVisible scope user.deptId || scope.includeSelf && decide (userId = scope.userId)

def requireVisibleUser (userId : ℕ) (scope : Option DataScope) : Call User := do
  match ← User.Service.UserRepository.get userId with
  | none => raise (userNotFound userId)
  | some user =>
    if scope.any fun s ↦ !userVisible userId user s then raise (userNotFound userId)
    else pure user

def requireRole (roleId : ℕ) : Call Role := do
  match ← (.read fun v ↦ v.db.rows .roles roleId : Call (Option Role)) with
  | none => raise (roleNotFound roleId)
  | some role => pure role

def requireIdsExist (t : Table) (ids : List ℕ) (code label : String) : Call Unit := do
  let missing ← (.read fun v ↦ ids.filter fun i ↦ (v.db.rows t i).isNone : Call (List ℕ))
  if missing = [] then pure () else raise (idsInvalid code label missing)

def setUserRoles (userId : ℕ) (roleIds : List ℕ) (operator : AuditActor)
    (scope : Option DataScope) : Call (List ℕ) := do
  requireSuperAdmin operator
  let _ ← requireVisibleUser userId scope
  let deduped := roleIds.eraseDups
  requireIdsExist .roles deduped "rbac_binding.ROLE_IDS_INVALID" "role"
  userRoles.replace userId deduped
  pure deduped

def getUserRoles (userId : ℕ) (scope : Option DataScope) : Call (List ℕ) := do
  let _ ← requireVisibleUser userId scope
  userRoles.listTargets userId

def setUserPosts (userId : ℕ) (postIds : List ℕ) (_operator : AuditActor)
    (scope : Option DataScope) : Call (List ℕ) := do
  let _ ← requireVisibleUser userId scope
  let deduped := postIds.eraseDups
  requireIdsExist .posts deduped "rbac_binding.POST_IDS_INVALID" "post"
  userPosts.replace userId deduped
  pure deduped

def getUserPosts (userId : ℕ) (scope : Option DataScope) : Call (List ℕ) := do
  let _ ← requireVisibleUser userId scope
  userPosts.listTargets userId

def setRoleMenus (roleId : ℕ) (menuIds : List ℕ) (operator : AuditActor) : Call (List ℕ) := do
  requireSuperAdmin operator
  let _ ← requireRole roleId
  let deduped := menuIds.eraseDups
  requireIdsExist .menus deduped "rbac_binding.MENU_IDS_INVALID" "menu"
  roleMenus.replace roleId deduped
  pure deduped

def setRoleDepts (roleId : ℕ) (deptIds : List ℕ) (operator : AuditActor) : Call (List ℕ) := do
  requireSuperAdmin operator
  let _ ← requireRole roleId
  let deduped := deptIds.eraseDups
  requireIdsExist .depts deduped "rbac_binding.DEPT_IDS_INVALID" "dept"
  roleDepts.replace roleId deduped
  pure deduped

end AdminPlatform.RbacBinding.Service
