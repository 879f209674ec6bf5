import AdminPlatform.Foundation.Ordering
import AdminPlatform.Foundation.RoseTree
import AdminPlatform.Menu.Repository
import Mathlib.Data.Finset.Empty

namespace AdminPlatform.Menu.Provider

open Model.Schema Foundation.Relational Foundation.Ordering Foundation.RoseTree Foundation.Forest

structure MenuNode where
  id : ℕ
  name : String
  path : String
  menuType : MenuType := .menu
  component : Option String := none
  perms : Option String := none
  icon : String := ""
  visible : Bool := true
  deriving DecidableEq, Repr

def menuNode (x : ℕ × Menu) : MenuNode where
  id := x.1
  name := x.2.name
  path := x.2.path
  menuType := x.2.menuType
  component := x.2.component
  perms := x.2.perms
  icon := x.2.icon
  visible := x.2.visible

def menuOrder : SortExpr (ℕ × Menu) := lexicographic [asc fun x ↦ x.2.sortOrder, asc Prod.fst]

def listAllActive (db : Db) : List (ℕ × Menu) :=
  sort menuOrder (db.select .menus fun _ (m : Menu) ↦ decide (m.status = .active))

def listActiveByIds (db : Db) (menuIds : Finset ℕ) : List (ℕ × Menu) :=
  if menuIds = ∅ then []
  else sort menuOrder (db.select .menus fun i (m : Menu) ↦ decide (m.status = .active) && decide (i ∈ menuIds))

def listMenuIdsForUser (db : Db) (userId : ℕ) : Finset ℕ :=
  ((db.select .userRoles fun _ (r : UserRole) ↦ decide (r.userId = userId)).flatMap fun x ↦
    (db.select .roleMenus fun _ (r : RoleMenu) ↦ decide (r.roleId = x.2.roleId) &&
      (db.rows .roles x.2.roleId).any fun role ↦ decide (Role.status role = .active)).map
      fun y ↦ y.2.menuId).toFinset

section

variable (menus : List (ℕ × Menu))

def parentKey (m : Menu) : Option ℕ := m.parentId.filter fun p ↦ menus.any fun x ↦ decide (x.1 = p)

def ordered (key : Option ℕ) : List (ℕ × Menu) :=
  sort menuOrder (menus.filter fun x ↦ decide (parentKey menus x.2 = key))

def build : ℕ → Option ℕ → Trees MenuNode
  | 0, _ => .nil
  | depth + 1, key => .ofList menuNode (fun x ↦ build depth (some x.1)) (ordered menus key)

def assembleMenuForest : Trees MenuNode := build menus (menus.length + 1) none

def parentIn (i : ℕ) : Option ℕ :=
  (menus.find? fun x ↦ decide (x.1 = i)).bind fun x ↦ parentKey menus x.2

end

def aGetUserMenuTree (db : Db) (userId : ℕ) : Trees MenuNode :=
  match db.rows .users userId with
  | none => .nil
  | some (user : User) =>
    if user.status ≠ .active then .nil
    else assembleMenuForest (if user.isSuperAdmin then listAllActive db
      else listActiveByIds db (listMenuIdsForUser db userId))

variable {db : Db} {userId i j : ℕ} {x : ℕ × Menu} {menus : List (ℕ × Menu)} {key : Option ℕ} {depth : ℕ}

theorem mem_listAllActive : x ∈ listAllActive db ↔
    db.rows .menus x.1 = some x.2 ∧ x.2.status = .active := by
  rw [listAllActive, (arranged_sort _ _).mem_iff, mem_select, decide_eq_true_eq]

theorem mem_listMenuIdsForUser : i ∈ listMenuIdsForUser db userId ↔
    ∃ k l roleId, ∃ role : Role, db.rows .userRoles k = some ⟨userId, roleId⟩ ∧
      db.rows .roles roleId = some role ∧ role.status = .active ∧ db.rows .roleMenus l = some ⟨roleId, i⟩ := by
  simp only [listMenuIdsForUser, List.mem_toFinset, List.mem_flatMap, List.mem_map, Prod.exists, mem_select,
    decide_eq_true_eq, Bool.and_eq_true, Option.any_eq_true]
  constructor
  · rintro ⟨k, r, ⟨hk, rfl⟩, l, q, ⟨hl, hq, role, hrole, hactive⟩, rfl⟩
    obtain ⟨roleId, menuId⟩ := q
    cases hq
    exact ⟨k, l, r.roleId, role, hk, hrole, hactive, hl⟩
  · rintro ⟨k, l, roleId, role, hk, hrole, hactive, hl⟩
    exact ⟨k, ⟨userId, roleId⟩, ⟨hk, rfl⟩, l, ⟨roleId, i⟩, ⟨hl, rfl, role, hrole, hactive⟩, rfl⟩

theorem mem_listActiveByIds {menuIds : Finset ℕ} : x ∈ listActiveByIds db menuIds ↔
    db.rows .menus x.1 = some x.2 ∧ x.2.status = .active ∧ x.1 ∈ menuIds := by
  unfold listActiveByIds
  split
  · rename_i h
    simp [h]
  · rw [(arranged_sort _ _).mem_iff, mem_select, Bool.and_eq_true, decide_eq_true_eq, decide_eq_true_eq]

theorem mem_ordered : x ∈ ordered menus key ↔ x ∈ menus ∧ parentKey menus x.2 = key := by
  rw [ordered, (arranged_sort _ _).mem_iff, List.mem_filter, decide_eq_true_eq]

theorem nodup_ordered (h : menus.Nodup) : (ordered menus key).Nodup :=
  (arranged_sort _ _).perm.nodup_iff.2 (h.filter _)

theorem parentKey_eq_some {m : Menu} : parentKey menus m = some i ↔
    m.parentId = some i ∧ ∃ x ∈ menus, x.1 = i := by
  simp [parentKey, Option.filter_eq_some_iff]

theorem build_eq : build menus depth key = (Trees.grow (ordered menus) Prod.fst depth key).map menuNode := by
  induction depth generalizing key with
  | zero => rfl
  | succ depth ih =>
    rw [build, Trees.grow, Trees.map_ofList]
    simp only [ih]

section Parents

variable (hn : (menus.map Prod.fst).Nodup)
include hn

theorem find_id (hx : x ∈ menus) : (menus.find? fun y ↦ decide (y.1 = x.1)) = some x := by
  cases hf : menus.find? fun y ↦ decide (y.1 = x.1) with
  | none => exact absurd (decide_eq_true rfl) (List.find?_eq_none.1 hf x hx)
  | some y =>
    have hy : y.1 = x.1 := by simpa using List.find?_some hf
    exact congrArg some (List.inj_on_of_nodup_map hn (List.mem_of_find?_eq_some hf) hx hy)

theorem parentIn_of_mem (hx : x ∈ menus) : parentIn menus x.1 = parentKey menus x.2 := by
  rw [parentIn, find_id hn hx]
  rfl

theorem mem_ordered_iff : x ∈ ordered menus key ↔ x ∈ menus ∧ parentIn menus x.1 = key := by
  rw [mem_ordered]
  exact and_congr_right fun hx ↦ by rw [parentIn_of_mem hn hx]

end Parents

theorem parentIn_eq_some (h : parentIn menus i = some j) :
    ∃ x ∈ menus, x.1 = i ∧ x.2.parentId = some j ∧ ∃ y ∈ menus, y.1 = j := by
  obtain ⟨x, hx, hp⟩ := Option.bind_eq_some_iff.1 h
  obtain ⟨hparent, hy⟩ := parentKey_eq_some.1 hp
  exact ⟨x, List.mem_of_find?_eq_some hx, by simpa using List.find?_some hx, hparent, hy⟩

end AdminPlatform.Menu.Provider
