import AdminPlatform.Model.Service
import Mathlib.Data.Finset.Dedup

namespace AdminPlatform.Menu.Repository

open Model.Schema Foundation.Relational

def grantedMenus (db : Db) (userId : ℕ) : List (ℕ × Menu) :=
  (db.select .userRoles fun _ (r : UserRole) ↦ decide (r.userId = userId)).flatMap fun x ↦
    (db.select .roleMenus fun _ (r : RoleMenu) ↦ decide (r.roleId = x.2.roleId) &&
      (db.rows .roles x.2.roleId).any fun role ↦ decide (Role.status role = .active)).filterMap
      fun y ↦ (db.rows .menus y.2.menuId).map fun m ↦ (y.2.menuId, m)

/-- `NULL` and empty permission texts are left out. -/
def listPermsForUser (db : Db) (userId : ℕ) : Finset String :=
  ((grantedMenus db userId).filterMap fun x ↦
    if x.2.status = .active then x.2.perms.filter fun p ↦ decide (p ≠ "") else none).toFinset

theorem mem_grantedMenus {db : Db} {userId : ℕ} {x : ℕ × Menu} :
    x ∈ grantedMenus db userId ↔ db.rows .menus x.1 = some x.2 ∧
      ∃ i j roleId, ∃ role : Role, db.rows .userRoles i = some ⟨userId, roleId⟩ ∧
        db.rows .roles roleId = some role ∧ role.status = .active ∧
        db.rows .roleMenus j = some ⟨roleId, x.1⟩ := by
  simp only [grantedMenus, List.mem_flatMap, List.mem_filterMap, Prod.exists, mem_select,
    decide_eq_true_eq, Bool.and_eq_true, Option.any_eq_true, Option.map_eq_some_iff]
  constructor
  · rintro ⟨i, r, ⟨hi, rfl⟩, j, q, ⟨hj, hq, role, hrole, hactive⟩, m, hm, he⟩
    cases he
    obtain ⟨roleId, menuId⟩ := q
    cases hq
    exact ⟨hm, i, j, r.roleId, role, hi, hrole, hactive, hj⟩
  · rintro ⟨hm, i, j, roleId, role, hi, hrole, hactive, hj⟩
    exact ⟨i, ⟨userId, roleId⟩, ⟨hi, rfl⟩, j, ⟨roleId, x.1⟩, ⟨hj, rfl, role, hrole, hactive⟩, x.2, hm, rfl⟩

theorem mem_listPermsForUser {db : Db} {userId : ℕ} {p : String} :
    p ∈ listPermsForUser db userId ↔ p ≠ "" ∧
      ∃ i j roleId menuId, ∃ role : Role, ∃ m : Menu, db.rows .userRoles i = some ⟨userId, roleId⟩ ∧
        db.rows .roles roleId = some role ∧ role.status = .active ∧
        db.rows .roleMenus j = some ⟨roleId, menuId⟩ ∧
        db.rows .menus menuId = some m ∧ m.status = .active ∧ m.perms = some p := by
  simp only [listPermsForUser, List.mem_toFinset, List.mem_filterMap, Option.ite_none_right_eq_some,
    Option.filter_eq_some_iff, decide_eq_true_eq]
  constructor
  · rintro ⟨⟨menuId, m⟩, hx, hactive, hp, hne⟩
    obtain ⟨hm, i, j, roleId, role, hi, hrole, hr, hj⟩ := mem_grantedMenus.1 hx
    exact ⟨hne, i, j, roleId, menuId, role, m, hi, hrole, hr, hj, hm, hactive, hp⟩
  · rintro ⟨hne, i, j, roleId, menuId, role, m, hi, hrole, hr, hj, hm, hactive, hp⟩
    exact ⟨(menuId, m), mem_grantedMenus.2 ⟨hm, i, j, roleId, role, hi, hrole, hr, hj⟩, hactive, hp, hne⟩

end AdminPlatform.Menu.Repository
