import AdminPlatform.Authz.AccountCalls
import AdminPlatform.Authz.ReservedCalls

namespace AdminPlatform.Authz.NonTakeover

open Model.Schema Model.Service Model.Scope Foundation.Relational Foundation.Transaction
open Foundation.Sequential Foundation.RowRules AccountRules GuardedCalls ReservedCalls AccountCalls
open Role.Provider Permission
open User.Service (UserCreate UserUpdate)
open User.SuperAdmin (AtMostOne)

/-- The service calls behind the endpoints for users, roles, menus, departments, posts and
bindings that change something. -/
inductive Op
  | createUser (payload : UserCreate)
  | updateUser (userId : ℕ) (payload : UserUpdate)
  | deleteUser (userId : ℕ)
  | createRole (payload : Role.Service.RoleCreate)
  | updateRole (itemId : ℕ) (payload : Role.Service.RoleUpdate)
  | deleteRole (itemId : ℕ)
  | createMenu (payload : Menu.Service.MenuCreate)
  | updateMenu (itemId : ℕ) (payload : Menu.Service.MenuUpdate)
  | deleteMenu (itemId : ℕ)
  | createDept (payload : Dept.Service.DeptCreate)
  | updateDept (itemId : ℕ) (payload : Dept.Service.DeptUpdate)
  | deleteDept (itemId : ℕ)
  | createPost (payload : Post.Service.PostCreate)
  | updatePost (itemId : ℕ) (payload : Post.Service.PostUpdate)
  | deletePost (itemId : ℕ)
  | importPosts (parsed : Option Post.Service.ImportResult)
  | setUserRoles (userId : ℕ) (roleIds : List ℕ)
  | setUserPosts (userId : ℕ) (postIds : List ℕ)
  | setRoleMenus (roleId : ℕ) (menuIds : List ℕ)
  | setRoleDepts (roleId : ℕ) (deptIds : List ℕ)

/-- The permission that guards the endpoint. -/
def Op.permission : Op → String
  | .createUser _ => "system:user:add"
  | .updateUser _ _ => "system:user:edit"
  | .deleteUser _ => "system:user:remove"
  | .createRole _ => "system:role:add"
  | .updateRole _ _ => "system:role:edit"
  | .deleteRole _ => "system:role:remove"
  | .createMenu _ => "system:menu:add"
  | .updateMenu _ _ => "system:menu:edit"
  | .deleteMenu _ => "system:menu:remove"
  | .createDept _ => "system:dept:add"
  | .updateDept _ _ => "system:dept:edit"
  | .deleteDept _ => "system:dept:remove"
  | .createPost _ => "system:post:add"
  | .updatePost _ _ => "system:post:edit"
  | .deletePost _ => "system:post:remove"
  | .importPosts _ => "system:post:import"
  | .setUserRoles _ _ => "system:user:edit"
  | .setUserPosts _ _ => "system:user:edit"
  | .setRoleMenus _ _ => "system:role:edit"
  | .setRoleDepts _ _ => "system:role:edit"

def actor (user : CurrentUser) : RbacBinding.Service.AuditActor where
  userId := some user.userId
  isSuperAdmin := user.isSuperAdmin

def dropped {α : Type} (p : Call α) : Call Unit := p >>= fun _ ↦ pure ()

/-- The service call, for the user that the guard has let through. -/
def Op.service (user : CurrentUser) : Op → Call Unit
  | .createUser payload => dropped (User.Service.create payload user.dataScope)
  | .updateUser userId payload => dropped (User.Service.update userId payload user.dataScope)
  | .deleteUser userId => User.Service.delete userId user.dataScope
  | .createRole payload => dropped (Role.Service.create payload user.isSuperAdmin)
  | .updateRole itemId payload => dropped (Role.Service.update itemId payload user.isSuperAdmin)
  | .deleteRole itemId => Role.Service.delete itemId
  | .createMenu payload => dropped (Menu.Service.create payload user.isSuperAdmin)
  | .updateMenu itemId payload => dropped (Menu.Service.update itemId payload user.isSuperAdmin)
  | .deleteMenu itemId => Menu.Service.delete itemId
  | .createDept payload => dropped (Dept.Service.create payload user.dataScope)
  | .updateDept itemId payload => dropped (Dept.Service.update itemId payload user.dataScope)
  | .deleteDept itemId => Dept.Service.delete itemId user.dataScope
  | .createPost payload => dropped (Post.Service.create payload)
  | .updatePost itemId payload => dropped (Post.Service.update itemId payload)
  | .deletePost itemId => Post.Service.delete itemId
  | .importPosts parsed => dropped (Post.Service.importPosts parsed)
  | .setUserRoles userId roleIds =>
    dropped (RbacBinding.Service.setUserRoles userId roleIds (actor user) user.dataScope)
  | .setUserPosts userId postIds =>
    dropped (RbacBinding.Service.setUserPosts userId postIds (actor user) user.dataScope)
  | .setRoleMenus roleId menuIds => dropped (RbacBinding.Service.setRoleMenus roleId menuIds (actor user))
  | .setRoleDepts roleId deptIds => dropped (RbacBinding.Service.setRoleDepts roleId deptIds (actor user))

structure Request where
  actor : ℕ
  op : Op

def Request.serve (w : Shared) (r : Request) : Shared :=
  match dep r.op.permission (DbPermissionProvider.loadAuthzContext w.db) { userId := r.actor } with
  | .error _ => w
  | .ok user => ((getSession (r.op.service user)).exec w).1

def SuperAdmin (db : Db) (userId : ℕ) : Prop :=
  ∃ u : User, db.rows .users userId = some u ∧ u.isSuperAdmin = true

/-- The states that requests of others than super administrators lead to, when each of them
meets the condition `c` in the state that it is served in. -/
inductive Reached (c : Db → Op → Prop) (w₀ : Shared) : Shared → Prop
  | start : Reached c w₀ w₀
  | serve {w : Shared} {r : Request} : Reached c w₀ w → ¬ SuperAdmin w.db r.actor → c w.db r.op →
      Reached c w₀ (r.serve w)

/-- No super administrator is touched, nobody becomes one, no permission is gained, and no guard
lets anybody through that it did not, but for accounts that were disabled. -/
structure NotTakenOver (db db' : Db) : Prop where
  kept : ∀ i (u : User), db.rows .users i = some u → u.isSuperAdmin = true →
    ∃ u' : User, db'.rows .users i = some u' ∧ u'.passwordHash = u.passwordHash ∧ u'.status = u.status
  made : ∀ i, SuperAdmin db' i → SuperAdmin db i
  permissions : ∀ i, Menu.Repository.listPermsForUser db' i ⊆ Menu.Repository.listPermsForUser db i
  allowed : ∀ i perm, Allowed db' perm i →
    Allowed db perm i ∨ ∃ u : User, db.rows .users i = some u ∧ u.status = .disabled

def Spares (db : Db) : Op → Prop
  | .updateUser userId payload => ∀ u : User, db.rows .users userId = some u → u.isSuperAdmin = true →
      SparesUser payload u
  | _ => True

variable {n₀ : ℕ} {v : Snapshot} {w w₀ : Shared} {db : Db}

/-- The call follows the rules, and leaves the commit to its caller. -/
structure Confined (n₀ : ℕ) (p : Call Unit) (v : Snapshot) : Prop where
  obeys : Ensures p v fun _ v' ↦ (rules n₀).Obeys v.db v'.db
  uncommitted : Uncommitted p

theorem confined_of_always {p : Call Unit} (h : Always (Harmless n₀) p) (hl : Later n₀ v) :
    Confined n₀ p v :=
  ⟨ensures_mono (follows_of_always h v) fun _ _ hf ↦ (hf hl).2, uncommitted_of_always h⟩

theorem confined_dropped {α : Type} {p : Call α} (h : Always (Harmless n₀) p) (hl : Later n₀ v) :
    Confined n₀ (dropped p) v :=
  confined_of_always (always_bind h fun _ ↦ trivial) hl

/-- One call of somebody who is no super administrator. -/
theorem confined_service {user : CurrentUser} (hu : user.isSuperAdmin = false) {op : Op}
    (hl : Later n₀ v) (hc : Spares v.db op) : Confined n₀ (op.service user) v := by
  have hact : (actor user).isSuperAdmin = false := hu
  cases op with
  | createUser payload => exact confined_dropped (always_createUser payload) hl
  | updateUser userId payload =>
    refine ⟨ensures_bind (ensures_mono (ensures_updateUser hl.one hc) fun _ _ h ↦ h), ?_⟩
    exact uncommitted_bind (uncommitted_updateUser payload) fun _ ↦ trivial
  | deleteUser userId => exact ⟨ensures_deleteUser hl.one, uncommitted_deleteUser⟩
  | createRole payload =>
    unfold Op.service
    rw [hu]
    exact confined_dropped (always_createRole payload) hl
  | updateRole itemId payload =>
    unfold Op.service
    rw [hu]
    exact confined_dropped (always_updateRole payload) hl
  | deleteRole itemId => exact confined_of_always always_deleteRole hl
  | createMenu payload =>
    unfold Op.service
    rw [hu]
    exact confined_dropped (always_createMenu payload) hl
  | updateMenu itemId payload =>
    unfold Op.service
    rw [hu]
    exact confined_dropped (always_updateMenu payload) hl
  | deleteMenu itemId => exact confined_of_always always_deleteMenu hl
  | createDept payload => exact confined_dropped (always_createDept payload) hl
  | updateDept itemId payload => exact confined_dropped (always_updateDept payload) hl
  | deleteDept itemId => exact confined_of_always always_deleteDept hl
  | createPost payload => exact confined_dropped (always_createPost payload) hl
  | updatePost itemId payload => exact confined_dropped (always_updatePost payload) hl
  | deletePost itemId => exact confined_of_always always_deletePost hl
  | importPosts parsed => exact confined_dropped (always_importPosts parsed) hl
  | setUserRoles userId roleIds => exact confined_dropped (always_reserved hact) hl
  | setUserPosts userId postIds => exact confined_dropped (always_setUserPosts postIds _) hl
  | setRoleMenus roleId menuIds => exact confined_dropped (always_reserved hact) hl
  | setRoleDepts roleId deptIds => exact confined_dropped (always_reserved hact) hl

theorem superAdmin_of_load {userId : ℕ}
    (h : (DbPermissionProvider.loadAuthzContext db userId).isSuperAdmin = true) : SuperAdmin db userId := by
  unfold DbPermissionProvider.loadAuthzContext at h
  cases hrow : db.rows .users userId with
  | none =>
    simp only [hrow] at h
    cases h
  | some u =>
    refine ⟨u, hrow, ?_⟩
    simp only [hrow] at h
    split at h
    · cases h
    · split at h
      · next hs => exact hs
      · cases h

/-- A guard passes on the flag of the database. -/
theorem superAdmin_of_dep {perm : String} {base user : CurrentUser}
    (h : dep perm (DbPermissionProvider.loadAuthzContext db) base = .ok user)
    (hs : user.isSuperAdmin = true) : SuperAdmin db base.userId := by
  unfold dep at h
  dsimp only at h
  split at h
  · cases h
  · split at h
    · next hl => exact superAdmin_of_load hl
    · split at h
      · cases h
      · cases h
        cases hs

/-- The unique index on super administrators, the foreign keys, and keys that are drawn once. -/
structure WellFormed (w : Shared) : Prop where
  drawn : Drawn w
  one : AtMostOne w.db
  linked : Linked w.db

/-- The rules have been followed since `w₀`. -/
structure Since (w₀ w : Shared) : Prop where
  later : Later w₀.next w.toView
  obeys : (rules w₀.next).Obeys w₀.db w.db

theorem Since.of_db (h : Since w₀ w) {w' : Shared} (hn : w.next ≤ w'.next)
    (ho : (rules w₀.next).Obeys w.db w'.db) : Since w₀ w' where
  later := h.later.of_obeys ho hn
  obeys t k := (rules w₀.next).trans t k _ _ _ (h.obeys t k) (ho t k)

theorem since_serve (h : Since w₀ w) {r : Request} (hr : ¬ SuperAdmin w.db r.actor)
    (hc : Spares w.db r.op) : Since w₀ (r.serve w) := by
  unfold Request.serve
  cases hd : dep r.op.permission (DbPermissionProvider.loadAuthzContext w.db) { userId := r.actor } with
  | error e => exact h
  | ok user =>
    have hu : user.isSuperAdmin = false := by
      cases hs : user.isSuperAdmin with
      | false => rfl
      | true => exact absurd (superAdmin_of_dep hd hs) hr
    have hconf : Confined w₀.next (r.op.service user) w.toView := confined_service hu h.later hc
    cases he : (getSession (r.op.service user)).exec w with
    | mk w' x =>
      have hn : w.next ≤ w'.next := by
        cases hruns : (getSession (r.op.service user)).runs {} w with
        | mk y z =>
          rw [Prog.exec, hruns] at he
          cases he
          exact runs_next hruns
      dsimp only
      rw [he]
      refine h.of_db hn ?_
      rcases exec_cases hconf.obeys hconf.uncommitted he with ⟨-, -, ho⟩ | hdb
      · exact ho
      · rw [hdb]
        exact fun t k ↦ (rules w₀.next).refl t k _

theorem since_of_reached (hw : WellFormed w₀) (h : Reached Spares w₀ w) : Since w₀ w := by
  induction h with
  | start =>
    refine ⟨⟨Nat.le_refl _, hw.one, fun k u hu _ ↦ hw.drawn .users k u hu⟩, fun t k ↦ ?_⟩
    exact (rules w₀.next).refl t k _
  | serve _ hr hc ih => exact since_serve ih hr hc

theorem Since.notTakenOver (hw : WellFormed w₀) (h : Since w₀ w) : NotTakenOver w₀.db w.db := by
  have hu : ∀ i, Untouched (w₀.db.rows .users i) (w.db.rows .users i) := fun i ↦ h.obeys .users i
  have hg : ∀ i perm, Granted w.db perm i → Granted w₀.db perm i := fun i perm ↦
    granted_of_obeys hw.drawn hw.linked h.obeys
  have hmade : ∀ i, SuperAdmin w.db i → SuperAdmin w₀.db i := by
    rintro i ⟨u, hrow, hs⟩
    exact (hu i).made u hrow hs
  refine ⟨fun i u hrow hs ↦ ?_, hmade, fun i perm hp ↦ ?_, fun i perm ha ↦ ?_⟩
  · obtain ⟨n, hn, -, hp, hst⟩ := (hu i).kept u hrow hs
    exact ⟨n, hn, hp, hst⟩
  · obtain ⟨hne, hgr⟩ := Menu.Repository.mem_listPermsForUser.1 hp
    exact Menu.Repository.mem_listPermsForUser.2 ⟨hne, hg i perm hgr⟩
  · obtain ⟨u', hrow', hact, hsup | hgr⟩ := ha
    · obtain ⟨u, hrow, hs⟩ := hmade i ⟨u', hrow', hsup⟩
      obtain ⟨n, hn, -, -, hst⟩ := (hu i).kept u hrow hs
      rw [hrow', Option.some.injEq] at hn
      subst hn
      exact .inl ⟨u, hrow, hst.symm.trans hact, .inl hs⟩
    · have hgr₀ : Granted w₀.db perm i := hg i perm hgr
      obtain ⟨k, -, roleId, -, -, -, hk, -⟩ := hgr₀
      obtain ⟨u, hrow⟩ := Option.isSome_iff_exists.1 (hw.linked.user k _ hk)
      cases hst : u.status with
      | active => exact .inl ⟨u, hrow, hst, .inr (hg i perm hgr)⟩
      | disabled => exact .inr ⟨u, hrow, hst⟩

/-- Requests of others than super administrators do not take the system over, as long as their
user updates spare the super administrators. -/
theorem notTakenOver_of_reached (w₀ w : Shared) (hw : WellFormed w₀) (h : Reached Spares w₀ w) :
    NotTakenOver w₀.db w.db := (since_of_reached hw h).notTakenOver hw

/-- A super administrator, and somebody who may edit users and roles everywhere. -/
def staffed : Shared where
  now := 0
  next := 8
  ext := ⟨[], []⟩
  db := Store.empty.apply [
    ⟨.users, 0, some ⟨"root", ⟨"secret", 0⟩, "", .active, true, none⟩⟩,
    ⟨.users, 1, some ⟨"eve", ⟨"eve", 1⟩, "", .active, false, none⟩⟩,
    ⟨.roles, 2, some ⟨"staff", "staff", .all, 0, .active⟩⟩,
    ⟨.userRoles, 3, some ⟨1, 2⟩⟩,
    ⟨.menus, 4, some ⟨none, "users", .menu, "", none, some "system:user:edit", "", 0, true, .active, none⟩⟩,
    ⟨.roleMenus, 5, some ⟨2, 4⟩⟩,
    ⟨.menus, 6, some ⟨none, "roles", .menu, "", none, some "system:role:edit", "", 0, true, .active, none⟩⟩,
    ⟨.roleMenus, 7, some ⟨2, 6⟩⟩]
  log := []

theorem lt_of_scan {t : Table} (h : ((w.db.scan t).all fun x ↦ decide (x.1 < w.next)) = true) (k : ℕ)
    (r : Row t) (hr : w.db.rows t k = some r) : k < w.next :=
  of_decide_eq_true (List.all_eq_true.1 h (k, r) (mem_scan.2 hr))

theorem drawn_staffed : Drawn staffed := by
  intro t
  cases t with
  | users => exact lt_of_scan (by decide +kernel)
  | roles => exact lt_of_scan (by decide +kernel)
  | userRoles => exact lt_of_scan (by decide +kernel)
  | menus => exact lt_of_scan (by decide +kernel)
  | roleMenus => exact lt_of_scan (by decide +kernel)
  | _ => exact lt_of_scan rfl

theorem linked_of_check
    (hu : ((db.scan .userRoles).all fun (x : ℕ × UserRole) ↦
      (db.rows .users x.2.userId).isSome && (db.rows .roles x.2.roleId).isSome) = true)
    (hm : ((db.scan .roleMenus).all fun (x : ℕ × RoleMenu) ↦
      (db.rows .roles x.2.roleId).isSome && (db.rows .menus x.2.menuId).isSome) = true) : Linked db := by
  have hu' : ∀ i (r : UserRole), db.rows .userRoles i = some r → _ ∧ _ := fun i r hr ↦
    Bool.and_eq_true_iff.1 (List.all_eq_true.1 hu (i, r) (mem_scan.2 hr))
  have hm' : ∀ i (r : RoleMenu), db.rows .roleMenus i = some r → _ ∧ _ := fun i r hr ↦
    Bool.and_eq_true_iff.1 (List.all_eq_true.1 hm (i, r) (mem_scan.2 hr))
  exact ⟨fun i r hr ↦ (hu' i r hr).1, fun i r hr ↦ (hu' i r hr).2, fun i r hr ↦ (hm' i r hr).1,
    fun i r hr ↦ (hm' i r hr).2⟩

theorem root_of_super {k : ℕ} {u : User} (h : staffed.db.rows .users k = some u)
    (hs : u.isSuperAdmin = true) : k = 0 := by
  have hall : ((staffed.db.scan .users).all fun (x : ℕ × User) ↦
      !x.2.isSuperAdmin || decide (x.1 = 0)) = true := by decide +kernel
  have hx := List.all_eq_true.1 hall (k, u) (mem_scan.2 h)
  rw [hs] at hx
  exact of_decide_eq_true hx

theorem wellFormed_staffed : WellFormed staffed where
  drawn := drawn_staffed
  one i j u u' hu hs hu' hs' := (root_of_super hu hs).trans (root_of_super hu' hs').symm
  linked := linked_of_check (by decide +kernel) (by decide +kernel)

theorem eve_staffed : ¬ SuperAdmin staffed.db 1 := by
  rintro ⟨u, hu, hs⟩
  cases root_of_super hu hs

def renameStaff : Request := ⟨1, .updateRole 2 { name := some (some "editors") }⟩

theorem notTakenOver_of_reached_renameStaff : ∃ w, Reached Spares staffed w ∧
    w.db.rows .roles 2 = some ⟨"editors", "staff", .all, 0, .active⟩ ∧ NotTakenOver staffed.db w.db := by
  have h : Reached Spares staffed (renameStaff.serve staffed) := .serve .start eve_staffed trivial
  exact ⟨_, h, by decide +kernel, notTakenOver_of_reached staffed _ wellFormed_staffed h⟩

def resetRoot : Request := ⟨1, .updateUser 0 { password := some "stolen" }⟩

theorem not_notTakenOver_resetRoot : ∃ w, WellFormed staffed ∧ Reached (fun _ _ ↦ True) staffed w ∧
    (∃ u : User, w.db.rows .users 0 = some u ∧ u.isSuperAdmin = true ∧
      u.passwordHash.password = "stolen") ∧ ¬ NotTakenOver staffed.db w.db := by
  have h : Reached (fun _ _ ↦ True) staffed (resetRoot.serve staffed) := .serve .start eve_staffed trivial
  have hrow : (resetRoot.serve staffed).db.rows .users 0 =
      some ⟨"root", ⟨"stolen", 8⟩, "", .active, true, none⟩ := by decide +kernel
  refine ⟨_, wellFormed_staffed, h, ⟨_, hrow, rfl, rfl⟩, fun hn ↦ ?_⟩
  obtain ⟨u', hu', hp, -⟩ := hn.kept 0 ⟨"root", ⟨"secret", 0⟩, "", .active, true, none⟩ rfl rfl
  rw [hrow, Option.some.injEq] at hu'
  rw [← hu'] at hp
  exact absurd (congrArg PasswordHash.password hp) (by decide)

end AdminPlatform.Authz.NonTakeover
