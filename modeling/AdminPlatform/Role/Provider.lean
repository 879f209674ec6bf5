import AdminPlatform.Dept.Service
import AdminPlatform.Menu.Repository
import AdminPlatform.Role.Repository

namespace AdminPlatform.Role.Provider

open Model.Schema Model.Service Model.Scope Foundation.Relational
open Repository

/-- The role queries that `compute_effective_data_scope` is given. -/
structure RoleReads where
  listRolesForUser : ℕ → List (ℕ × Role)
  listCustomDeptIdsForRole : ℕ → Finset ℕ

/-- The variables of the loop over the roles; `descendantDeptIds` is `none` until needed. -/
structure ScopeAcc where
  visibleDeptIds : Finset ℕ := ∅
  includeSelf : Bool := false
  descendantDeptIds : Option (Finset ℕ) := none

def scopeLoop (custom deptRepo : ℕ → Finset ℕ) (userId : ℕ)
    (userDeptId : Option ℕ) : List (ℕ × Role) → ScopeAcc → DataScope
  | [], acc => {
      scopeType := .customDept
      userId := userId
      deptId := userDeptId
      visibleDeptIds := acc.visibleDeptIds
      includeSelf := acc.includeSelf }
  | (id, role) :: roles, acc =>
    let loop := scopeLoop custom deptRepo userId userDeptId roles
    match role.dataScope with
    | .all => { scopeType := .all, userId := userId }
    | .self => loop { acc with includeSelf := true }
    | .selfDept => match userDeptId with
      | none => loop acc
      | some d => loop { acc with visibleDeptIds := acc.visibleDeptIds ∪ {d} }
    | .selfDeptAndBelow => match userDeptId with
      | none => loop acc
      | some d =>
        let ids := acc.descendantDeptIds.getD (deptRepo d)
        loop { acc with
          visibleDeptIds := acc.visibleDeptIds ∪ ids, descendantDeptIds := some ids }
    | .customDept => loop { acc with
        visibleDeptIds := acc.visibleDeptIds ∪ custom id }

def computeEffectiveDataScope (userRepo : ℕ → Option User) (roleRepo : RoleReads)
    (deptRepo : ℕ → Finset ℕ) (userId : ℕ) : DataScope :=
  let userDeptId := (userRepo userId).bind User.deptId
  scopeLoop roleRepo.listCustomDeptIdsForRole deptRepo userId userDeptId
    (roleRepo.listRolesForUser userId) {}

structure AuthzContext where
  isActive : Bool
  isSuperAdmin : Bool
  permissions : Finset String
  dataScope : DataScope
  deriving DecidableEq

/-- The queries of a `PermissionProvider`. -/
structure PermissionProvider where
  getIsActive : ℕ → Bool
  getIsSuperAdmin : ℕ → Bool
  getUserPermissions : ℕ → Finset String
  getEffectiveDataScope : ℕ → DataScope

/-- `PermissionProvider.a_load_authz_context`. -/
def PermissionProvider.loadAuthzContext (p : PermissionProvider) (userId : ℕ) : AuthzContext :=
  if !p.getIsActive userId then
    ⟨false, false, ∅, { scopeType := .self, userId := userId }⟩
  else if p.getIsSuperAdmin userId then
    ⟨true, true, ∅, { scopeType := .all, userId := userId }⟩
  else
    ⟨true, false, p.getUserPermissions userId, p.getEffectiveDataScope userId⟩

namespace DbPermissionProvider

def roleReads (db : Db) : RoleReads := ⟨Repository.listRolesForUser db, Repository.listCustomDeptIdsForRole db⟩

def getIsActive (db : Db) (userId : ℕ) : Bool :=
  (db.rows .users userId).any fun u ↦ decide (User.status u = .active)

def getIsSuperAdmin (db : Db) (userId : ℕ) : Bool :=
  (db.rows .users userId).any fun u ↦ User.isSuperAdmin u && decide (User.status u = .active)

def getEffectiveDataScope (db : Db) (userId : ℕ) : DataScope :=
  computeEffectiveDataScope (db.rows .users) (roleReads db)
    (fun d ↦ (Dept.Service.DeptRepository.descendantDeptIds db d).toFinset) userId

def getUserPermissions (db : Db) (userId : ℕ) : Finset String :=
  Menu.Repository.listPermsForUser db userId

def queries (db : Db) : PermissionProvider :=
  ⟨getIsActive db, getIsSuperAdmin db, getUserPermissions db, getEffectiveDataScope db⟩

/-- `DbPermissionProvider.a_load_authz_context`, which overrides the default. -/
def loadAuthzContext (db : Db) (userId : ℕ) : AuthzContext :=
  match db.rows .users userId with
  | none => ⟨false, false, ∅, { scopeType := .self, userId := userId }⟩
  | some user =>
    if user.status ≠ .active then
      ⟨false, false, ∅, { scopeType := .self, userId := userId }⟩
    else if user.isSuperAdmin then
      ⟨true, true, ∅, { scopeType := .all, userId := userId }⟩
    else
      let permissions := Menu.Repository.listPermsForUser db userId
      let dataScope := computeEffectiveDataScope (db.rows .users) (roleReads db)
        (fun d ↦ (Dept.Service.DeptRepository.descendantDeptIds db d).toFinset) userId
      ⟨true, false, permissions, dataScope⟩

end DbPermissionProvider

end AdminPlatform.Role.Provider
