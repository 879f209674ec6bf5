import AdminPlatform.Authz.Permission
import AdminPlatform.Foundation.Sequential
import AdminPlatform.Frontend.ClientStores
import AdminPlatform.User.Service
import Mathlib.Data.Finset.Sort
import Mathlib.Data.String.Basic

namespace AdminPlatform.Frontend.Permissions

open Model.Schema Model.Service Foundation.Relational Foundation.Transaction Prog
open Role.Provider Authz.Permission ClientStores
open User.Service (UserRead)

def SUPER_ADMIN_WILDCARD : String := "*:*:*"

def _SUPER_ADMIN_ROLE : String := "superadmin"

def getUserRoleCodes (db : Db) (userId : ℕ) : Finset String :=
  ((Role.Repository.listRolesForUser db userId).map fun x ↦ x.2.code).toFinset

def sorted (s : Finset String) : List String := s.sort (· ≤ ·)

def getInfo (userId : ℕ) : Call (UserInfoResponse UserRead) := do
  if !(← .read fun v ↦ DbPermissionProvider.getIsActive v.db userId) then raise accountDisabled
  else
    let user ← User.Service.get userId none
    if ← .read fun v ↦ DbPermissionProvider.getIsSuperAdmin v.db userId then
      pure ⟨user, [_SUPER_ADMIN_ROLE], [SUPER_ADMIN_WILDCARD]⟩
    else
      let roles ← .read fun v ↦ sorted (getUserRoleCodes v.db userId)
      let permissions ← .read fun v ↦ sorted (DbPermissionProvider.getUserPermissions v.db userId)
      pure ⟨user, roles, permissions⟩

variable {υ : Type}

/-- `usePermissionStore().has`. -/
def has (s : Client υ) (code : String) : Bool :=
  decide (SUPER_ADMIN_WILDCARD ∈ s.perms) || decide (code ∈ s.perms)

/-- `usePermission().hasPermi`; a single code is a list of one. -/
def hasPermi (s : Client υ) (codes : List String) : Bool := codes.any (has s)

/-- `v-hasPermi`; `none` when it throws. -/
def isGranted (s : Client υ) : Option (List String) → Option Bool
  | none => none
  | some codes => if codes.length = 0 then none else some (codes.any (has s))

variable {w : Shared} {userId : ℕ} {user : User} {s : Client UserRead} {k i : ℕ} {info : UserInfoResponse UserRead}
  {code : String} {codes : List String} {base : CurrentUser}

def rolesFor (db : Db) (userId : ℕ) (user : User) : List String :=
  if user.isSuperAdmin then [_SUPER_ADMIN_ROLE] else sorted (getUserRoleCodes db userId)

def permissionsFor (db : Db) (userId : ℕ) (user : User) : List String :=
  if user.isSuperAdmin then [SUPER_ADMIN_WILDCARD] else sorted (DbPermissionProvider.getUserPermissions db userId)

theorem mem_sorted {x : Finset String} : code ∈ sorted x ↔ code ∈ x := Finset.mem_sort _

theorem getIsActive_iff : DbPermissionProvider.getIsActive w.db userId = true ↔
    ∃ user : User, w.db.rows .users userId = some user ∧ user.status = .active := by
  unfold DbPermissionProvider.getIsActive
  cases hu : w.db.rows .users userId with
  | none => simp
  | some user => simp

theorem runs_get (hu : w.db.rows .users userId = some user) :
    (User.Service.get userId none).runs {} w = (.ok (.modelValidate userId user), {}, w) := by
  have hread : (User.Service.UserRepository.get userId).runs {} w = (.ok (some user), {}, w) := by
    refine (runs_read _ {} w).trans ?_
    rw [← hu]
    rfl
  exact runs_bind hread

theorem getInfo_inactive (h : DbPermissionProvider.getIsActive w.db userId = false) :
    (getInfo userId).runs {} w = (.error (.app accountDisabled), {}, w) := by
  have hread : (read (fun v ↦ DbPermissionProvider.getIsActive v.db userId) : Call Bool).runs {} w =
      (.ok false, {}, w) := by
    refine (runs_read _ {} w).trans ?_
    rw [← h]
    rfl
  exact runs_bind hread

theorem getInfo_active (hu : w.db.rows .users userId = some user) (ha : user.status = .active) :
    (getInfo userId).runs {} w =
      (.ok ⟨.modelValidate userId user, rolesFor w.db userId user, permissionsFor w.db userId user⟩, {}, w) := by
  have hactive : (read (fun v ↦ DbPermissionProvider.getIsActive v.db userId) : Call Bool).runs {} w =
      (.ok true, {}, w) := by
    refine (runs_read _ {} w).trans ?_
    rw [← getIsActive_iff.2 ⟨user, hu, ha⟩]
    rfl
  have hsuper : (read (fun v ↦ DbPermissionProvider.getIsSuperAdmin v.db userId) : Call Bool).runs {} w =
      (.ok user.isSuperAdmin, {}, w) := by
    have h : DbPermissionProvider.getIsSuperAdmin w.db userId = user.isSuperAdmin := by
      simp [DbPermissionProvider.getIsSuperAdmin, hu, ha]
    refine (runs_read _ {} w).trans ?_
    rw [← h]
    rfl
  refine (runs_bind hactive).trans ((runs_bind (runs_get hu)).trans ((runs_bind hsuper).trans ?_))
  unfold rolesFor permissionsFor
  cases user.isSuperAdmin with
  | true => rfl
  | false =>
    refine (runs_bind (runs_read _ {} w)).trans ((runs_bind (runs_read _ {} w)).trans ?_)
    rw [Foundation.Sequential.view_init]
    rfl

theorem dep_inactive (h : DbPermissionProvider.getIsActive w.db base.userId = false) :
    dep code (DbPermissionProvider.loadAuthzContext w.db) base = .error accountDisabled := by
  unfold dep
  rw [loadAuthzContext_eq]
  simp [PermissionProvider.loadAuthzContext, DbPermissionProvider.queries, h]

theorem accountDisabled_ne_forbiddenByRole : accountDisabled ≠ forbiddenByRole code := by
  intro h
  have hcode := congrArg AppError.code h
  revert hcode
  exact (by decide : accountDisabled.code ≠ (forbiddenByRole "").code)

theorem dep_active (h : DbPermissionProvider.getIsActive w.db base.userId = true) :
    dep code (DbPermissionProvider.loadAuthzContext w.db) base ≠ .error accountDisabled := by
  intro hd
  unfold dep at hd
  have hctx : (DbPermissionProvider.loadAuthzContext w.db base.userId).isActive = true := by
    rw [loadAuthzContext_eq]
    unfold PermissionProvider.loadAuthzContext DbPermissionProvider.queries
    simp only [h, Bool.not_true, Bool.false_eq_true, if_false]
    split <;> rfl
  simp only [hctx, Bool.not_true, Bool.false_eq_true, if_false] at hd
  split at hd
  · cases hd
  · split at hd
    · exact accountDisabled_ne_forbiddenByRole (Except.error.inj hd).symm
    · cases hd

theorem mem_permissionsFor (hc : code ≠ "") : code ∈ permissionsFor w.db userId user ↔
    user.isSuperAdmin = true ∧ code = SUPER_ADMIN_WILDCARD ∨
      user.isSuperAdmin = false ∧ Granted w.db code userId := by
  unfold permissionsFor
  cases user.isSuperAdmin with
  | true => simp
  | false =>
    have h : code ∈ DbPermissionProvider.getUserPermissions w.db userId ↔ Granted w.db code userId := by
      rw [DbPermissionProvider.getUserPermissions, Menu.Repository.mem_listPermsForUser, and_iff_right hc]
      rfl
    rw [if_neg Bool.false_ne_true, mem_sorted]
    simpa using h

theorem has_loadUserInfo : has (s.loadUserInfo k i (some info)) code = true ↔
    SUPER_ADMIN_WILDCARD ∈ info.permissions ∨ code ∈ info.permissions := by
  have hperms : (s.loadUserInfo k i (some info)).perms = info.permissions.toFinset := rfl
  unfold has
  rw [hperms]
  simp

theorem isGranted_iff (hne : codes ≠ []) :
    isGranted s (some codes) = some true ↔ ∃ code ∈ codes, has s code = true := by
  have hlen : ¬ codes.length = 0 := fun h ↦ hne (List.length_eq_zero_iff.1 h)
  simp [isGranted, hlen]

theorem isGranted_eq_hasPermi (hne : codes ≠ []) : isGranted s (some codes) = some (hasPermi s codes) :=
  if_neg fun h ↦ hne (List.length_eq_zero_iff.1 h)

theorem granted_or (hu : w.db.rows .users userId = some user) (ha : user.status = .active) (hc : code ≠ "") :
    SUPER_ADMIN_WILDCARD ∈ permissionsFor w.db userId user ∨ code ∈ permissionsFor w.db userId user ↔
      Allowed w.db code userId ∨ Granted w.db SUPER_ADMIN_WILDCARD userId := by
  have hallowed : Allowed w.db code userId ↔ user.isSuperAdmin = true ∨ Granted w.db code userId := by
    constructor
    · rintro ⟨u, hu', -, h⟩
      cases hu.symm.trans hu'
      exact h
    · exact fun h ↦ ⟨user, hu, ha, h⟩
  rw [hallowed, mem_permissionsFor hc, mem_permissionsFor (by decide : SUPER_ADMIN_WILDCARD ≠ "")]
  cases user.isSuperAdmin with
  | true => simp
  | false => simp [or_comm]

theorem isGranted_getInfo (hu : w.db.rows .users base.userId = some user) (ha : user.status = .active)
    (hne : codes ≠ []) (hcodes : ∀ code ∈ codes, code ∈ ALL_PERMISSIONS)
    (hinfo : info.permissions = permissionsFor w.db base.userId user) :
    isGranted (s.loadUserInfo k i (some info)) (some codes) = some true ↔
      (∃ code ∈ codes, ∃ u, dep code (DbPermissionProvider.loadAuthzContext w.db) base = .ok u) ∨
        Granted w.db SUPER_ADMIN_WILDCARD base.userId := by
  have hone : ∀ code ∈ codes, has (s.loadUserInfo k i (some info)) code = true ↔
      (∃ u, dep code (DbPermissionProvider.loadAuthzContext w.db) base = .ok u) ∨
        Granted w.db SUPER_ADMIN_WILDCARD base.userId := by
    intro code hcode
    have hc := ne_empty_of_registered (hcodes code hcode)
    rw [has_loadUserInfo, hinfo, granted_or hu ha hc, dep_ok_iff hc]
  rw [isGranted_iff hne]
  constructor
  · rintro ⟨code, hcode, h⟩
    exact ((hone code hcode).1 h).imp_left fun h ↦ ⟨code, hcode, h⟩
  · rintro (⟨code, hcode, h⟩ | h)
    · exact ⟨code, hcode, (hone code hcode).2 (.inl h)⟩
    · obtain ⟨code, hcode⟩ := List.exists_mem_of_ne_nil codes hne
      exact ⟨code, hcode, (hone code hcode).2 (.inr h)⟩

/-- `getInfo` is refused exactly when the guards say that the account is disabled, and else a button shows
exactly when the guard of one of its codes lets the user through, unless a menu was granted whose permission
is the wildcard itself. -/
theorem interface_agrees (w : Shared) (base : CurrentUser) (s : Client UserRead) (k i : ℕ) (codes : List String)
    (hne : codes ≠ []) (hcodes : ∀ code ∈ codes, code ∈ ALL_PERMISSIONS) :
    ((getInfo base.userId).exec w = (w, .error (.app accountDisabled)) ∧
      ∀ code, dep code (DbPermissionProvider.loadAuthzContext w.db) base = .error accountDisabled) ∨
    ∃ info, (getInfo base.userId).exec w = (w, .ok info) ∧
      (∀ code, dep code (DbPermissionProvider.loadAuthzContext w.db) base ≠ .error accountDisabled) ∧
      isGranted (s.loadUserInfo k i (some info)) (some codes) =
        some (hasPermi (s.loadUserInfo k i (some info)) codes) ∧
      (isGranted (s.loadUserInfo k i (some info)) (some codes) = some true ↔
        (∃ code ∈ codes, ∃ u, dep code (DbPermissionProvider.loadAuthzContext w.db) base = .ok u) ∨
          Granted w.db SUPER_ADMIN_WILDCARD base.userId) := by
  cases hactive : DbPermissionProvider.getIsActive w.db base.userId with
  | false =>
    refine .inl ⟨?_, fun code ↦ dep_inactive hactive⟩
    rw [exec, getInfo_inactive hactive]
  | true =>
    obtain ⟨user, hu, ha⟩ := getIsActive_iff.1 hactive
    refine .inr ⟨⟨.modelValidate base.userId user, rolesFor w.db base.userId user,
      permissionsFor w.db base.userId user⟩, ?_, fun _ ↦ dep_active hactive, isGranted_eq_hasPermi hne,
      isGranted_getInfo hu ha hne hcodes rfl⟩
    rw [exec, getInfo_active hu ha]

/-- An operator who may list the users. -/
def aliceLists : Shared where
  now := 0
  next := 3
  ext := ⟨[], []⟩
  db := Store.empty.apply [⟨.users, 0, some ⟨"alice", ⟨"", 0⟩, "", .active, false, none⟩⟩,
    ⟨.roles, 1, some ⟨"ops", "ops", .self, 0, .active⟩⟩,
    ⟨.menus, 2, some ⟨none, "users", .menu, "/users", none, some "system:user:list", "", 0, true, .active, none⟩⟩,
    ⟨.userRoles, 0, some ⟨0, 1⟩⟩, ⟨.roleMenus, 0, some ⟨1, 2⟩⟩]
  log := []

theorem allowed_aliceLists : Allowed aliceLists.db "system:user:list" 0 :=
  ⟨_, rfl, rfl, .inr ⟨0, 0, 1, 2, _, _, rfl, rfl, rfl, rfl, rfl, rfl, rfl⟩⟩

theorem interface_agrees_aliceLists : ∃ info, (getInfo 0).exec aliceLists = (aliceLists, .ok info) ∧
    isGranted (Client.start.loadUserInfo 0 0 (some info)) (some ["system:user:add", "system:user:list"]) =
      some true := by
  have hdep : ∃ u, dep "system:user:list" (DbPermissionProvider.loadAuthzContext aliceLists.db) ⟨0, "", false, ∅,
      ∅, none, none⟩ = .ok u := (dep_ok_iff (by decide)).2 allowed_aliceLists
  obtain ⟨-, hdenied⟩ | ⟨info, hinfo, -, -, hshown⟩ := interface_agrees aliceLists ⟨0, "", false, ∅, ∅, none, none⟩
    Client.start 0 0 ["system:user:add", "system:user:list"] (by decide) (by decide)
  · obtain ⟨u, hu⟩ := hdep
    cases hu.symm.trans (hdenied "system:user:list")
  · exact ⟨info, hinfo, hshown.2 (.inl ⟨"system:user:list", by decide, hdep⟩)⟩

end AdminPlatform.Frontend.Permissions
