import AdminPlatform.Role.Provider

namespace AdminPlatform.Authz.Permission

open Model.Schema Model.Service Model.Scope Role.Provider

/-- The values of the constants of `Permissions`. -/
def ALL_PERMISSIONS : List String :=
  ["system:user:list", "system:user:query", "system:user:add", "system:user:edit",
    "system:user:remove", "system:role:list", "system:role:query", "system:role:add",
    "system:role:edit", "system:role:remove", "system:menu:list", "system:menu:query",
    "system:menu:add", "system:menu:edit", "system:menu:remove", "system:dept:list",
    "system:dept:query", "system:dept:add", "system:dept:edit", "system:dept:remove",
    "system:post:list", "system:post:query", "system:post:add", "system:post:edit",
    "system:post:remove", "system:post:import", "system:post:export", "system:operlog:list",
    "system:operlog:query", "system:logininfor:list", "system:logininfor:query",
    "system:dict:list", "system:dict:query", "system:dict:add", "system:dict:edit",
    "system:dict:remove", "system:config:list", "system:config:query", "system:config:add",
    "system:config:edit", "system:config:remove", "system:notice:list", "system:notice:query",
    "system:notice:add", "system:notice:edit", "system:notice:remove", "system:server:list",
    "system:cache:list", "system:online:list", "system:online:remove", "system:job:list",
    "system:job:query", "system:job:add", "system:job:edit", "system:job:remove",
    "system:job:run", "system:file:list", "system:file:query", "system:file:upload",
    "system:file:download", "system:file:remove"]

structure CurrentUser where
  userId : ℕ
  scope : String := ""
  isSuperAdmin : Bool := false
  roles : Finset String := ∅
  permissions : Finset String := ∅
  deptId : Option ℕ := none
  dataScope : Option DataScope := none

def accountDisabled : AppError where
  code := "auth.ACCOUNT_DISABLED"
  title := "Account disabled"
  detail := some "账号已停用"
  statusCode := 403

def forbiddenByRole (perm : String) : AppError where
  code := "auth.FORBIDDEN_BY_ROLE"
  title := "Forbidden"
  detail := some s!"缺少权限: {perm}"
  statusCode := 403

/-- The dependency that guards an endpoint, given how the authorization context is loaded. -/
def dep (perm : String) (load : ℕ → AuthzContext) (baseUser : CurrentUser) :
    Except AppError CurrentUser :=
  let ctx := load baseUser.userId
  if !ctx.isActive then .error accountDisabled
  else if ctx.isSuperAdmin then
    .ok { baseUser with
      isSuperAdmin := true
      dataScope := some { scopeType := .all, userId := baseUser.userId } }
  else if perm ∉ ctx.permissions then .error (forbiddenByRole perm)
  else
    .ok { baseUser with
      isSuperAdmin := false
      permissions := ctx.permissions
      deptId := ctx.dataScope.deptId
      dataScope := some ctx.dataScope }

/-- `none` is the `ValueError` for a permission that is not registered. -/
def requirePermission (perm : String) :
    Option ((ℕ → AuthzContext) → CurrentUser → Except AppError CurrentUser) :=
  if perm ∈ ALL_PERMISSIONS then some (dep perm) else none

variable {db : Db} {userId : ℕ}

def Granted (db : Db) (perm : String) (userId : ℕ) : Prop :=
  ∃ i j roleId menuId, ∃ role : Role, ∃ m : Menu,
    db.rows .userRoles i = some ⟨userId, roleId⟩ ∧
    db.rows .roles roleId = some role ∧ role.status = .active ∧
    db.rows .roleMenus j = some ⟨roleId, menuId⟩ ∧
    db.rows .menus menuId = some m ∧ m.status = .active ∧ m.perms = some perm

def Allowed (db : Db) (perm : String) (userId : ℕ) : Prop :=
  ∃ user : User, db.rows .users userId = some user ∧ user.status = .active ∧
    (user.isSuperAdmin = true ∨ Granted db perm userId)

theorem loadAuthzContext_eq (db : Db) (userId : ℕ) :
    DbPermissionProvider.loadAuthzContext db userId =
      (DbPermissionProvider.queries db).loadAuthzContext userId := by
  unfold DbPermissionProvider.loadAuthzContext PermissionProvider.loadAuthzContext
    DbPermissionProvider.queries DbPermissionProvider.getIsActive DbPermissionProvider.getIsSuperAdmin
  cases hu : db.rows .users userId with
  | none => simp [hu]
  | some user =>
    by_cases ha : user.status = .active
    · cases hs : user.isSuperAdmin with
      | true => simp [hu, ha, hs]
      | false =>
        simp only [hu, ha, hs, Option.any_some, ne_eq, not_true_eq_false, if_false, decide_true,
          Bool.not_true, Bool.false_eq_true, Bool.false_and]
        rfl
    · simp [hu, ha]

theorem dep_ok_iff {perm : String} (hp : perm ≠ "") {base : CurrentUser} :
    (∃ user, dep perm (DbPermissionProvider.loadAuthzContext db) base = .ok user) ↔
      Allowed db perm base.userId := by
  have hgranted : perm ∈ Menu.Repository.listPermsForUser db base.userId ↔
      Granted db perm base.userId := by
    rw [Menu.Repository.mem_listPermsForUser, and_iff_right hp]
    rfl
  unfold dep DbPermissionProvider.loadAuthzContext Allowed
  cases hu : db.rows .users base.userId with
  | none => simp
  | some user =>
    by_cases ha : user.status = .active
    · cases hs : user.isSuperAdmin with
      | true => simp [ha, hs]
      | false =>
        by_cases hm : perm ∈ Menu.Repository.listPermsForUser db base.userId
        · simp [ha, hs, hm, hgranted.1 hm]
        · have hn : ¬ Granted db perm base.userId := fun h ↦ hm (hgranted.2 h)
          simp [ha, hs, hm, hn]
    · simp [ha]

theorem ne_empty_of_registered {perm : String} (h : perm ∈ ALL_PERMISSIONS) : perm ≠ "" := by
  rintro rfl
  revert h
  decide

/-- The merged load agrees with the single queries, and a guarded endpoint lets through
exactly the allowed users. -/
theorem authz_snapshot_agrees (db : Db) :
    (∀ userId, DbPermissionProvider.loadAuthzContext db userId =
      (DbPermissionProvider.queries db).loadAuthzContext userId) ∧
    ∀ perm ∈ ALL_PERMISSIONS, ∃ guard, requirePermission perm = some guard ∧ ∀ base : CurrentUser,
      (∃ user, guard (DbPermissionProvider.loadAuthzContext db) base = .ok user) ↔
        Allowed db perm base.userId :=
  ⟨loadAuthzContext_eq db, fun perm h ↦ ⟨dep perm, if_pos h, fun _ ↦
    dep_ok_iff (ne_empty_of_registered h)⟩⟩

end AdminPlatform.Authz.Permission
