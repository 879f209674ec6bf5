import AdminPlatform.Model.Scope
import Mathlib.Data.Finset.Dedup

namespace AdminPlatform.Role.Repository

open Model.Schema Model.Service Model.Scope Foundation.Relational Foundation.Transaction

def listRolesForUser (db : Db) (userId : ℕ) : List (ℕ × Role) :=
  ((db.select .userRoles fun _ (r : UserRole) ↦ decide (r.userId = userId)).filterMap fun x ↦
    (db.rows .roles x.2.roleId).bind fun role ↦
      if Role.status role = .active then some (x.2.roleId, role) else none).mergeSort
    fun a b ↦ decide (a.1 ≤ b.1)

def listCustomDeptIdsForRole (db : Db) (roleId : ℕ) : Finset ℕ :=
  ((db.select .roleDepts fun _ (r : RoleDept) ↦ decide (r.roleId = roleId)).map fun x ↦
    x.2.deptId).toFinset

theorem mem_listRolesForUser {db : Db} {userId : ℕ} {x : ℕ × Role} :
    x ∈ listRolesForUser db userId ↔ db.rows .roles x.1 = some x.2 ∧ x.2.status = .active ∧
      ∃ i, db.rows .userRoles i = some ⟨userId, x.1⟩ := by
  simp only [listRolesForUser, List.mem_mergeSort, List.mem_filterMap, Prod.exists, mem_select,
    decide_eq_true_eq, Option.bind_eq_some_iff, Option.ite_none_right_eq_some]
  constructor
  · rintro ⟨i, r, ⟨hi, rfl⟩, role, hrole, hactive, he⟩
    cases he
    exact ⟨hrole, hactive, i, hi⟩
  · rintro ⟨hrole, hactive, i, hi⟩
    exact ⟨i, ⟨userId, x.1⟩, ⟨hi, rfl⟩, x.2, hrole, hactive, rfl⟩

theorem mem_listCustomDeptIdsForRole {db : Db} {roleId d : ℕ} :
    d ∈ listCustomDeptIdsForRole db roleId ↔
      ∃ i, db.rows .roleDepts i = some ⟨roleId, d⟩ := by
  simp only [listCustomDeptIdsForRole, List.mem_toFinset, List.mem_map, Prod.exists, mem_select,
    decide_eq_true_eq]
  constructor
  · rintro ⟨i, r, ⟨hi, rfl⟩, rfl⟩
    exact ⟨i, hi⟩
  · rintro ⟨i, hi⟩
    exact ⟨i, ⟨roleId, d⟩, ⟨hi, rfl⟩, rfl⟩

end AdminPlatform.Role.Repository
