import AdminPlatform.Dept.TreeInvariant
import AdminPlatform.Role.ScopeUnion
import AdminPlatform.User.Accepted

namespace AdminPlatform.Authz.Confinement

open Model.Schema Model.Service Model.Scope Foundation.Relational Foundation.Transaction
open Foundation.Sequential Foundation.Forest
open Dept.Accepted (of_exec of_exec_ignore)
open Dept.Service (DeptCreate DeptUpdate)
open Dept.Service.DeptRepository (descendantDeptIds _MAX_DEPT_DEPTH)
open Dept.TreeInvariant (parentOf mem_descendantDeptIds)
open User.Service (UserCreate UserUpdate userVisible)
open Role.Provider Role.Repository Role.ScopeUnion

/-- The calls by which an administrator changes departments and users. -/
inductive Op
  | createDept (payload : DeptCreate)
  | updateDept (id : ℕ) (payload : DeptUpdate)
  | deleteDept (id : ℕ)
  | createUser (payload : UserCreate)
  | updateUser (id : ℕ) (payload : UserUpdate)
  | deleteUser (id : ℕ)

def Op.call (scope : DataScope) : Op → Call Unit
  | .createDept payload => do let _ ← Dept.Service.create payload (some scope)
  | .updateDept id payload => do let _ ← Dept.Service.update id payload (some scope)
  | .deleteDept id => Dept.Service.delete id (some scope)
  | .createUser payload => do let _ ← User.Service.create payload (some scope)
  | .updateUser id payload => do let _ ← User.Service.update id payload (some scope)
  | .deleteUser id => User.Service.delete id (some scope)

def effective (db : Db) (actor : ℕ) : DataScope := DbPermissionProvider.getEffectiveDataScope db actor

/-- What an actor's calls, accepted one after the other under the scope of the moment, lead to. -/
inductive Accepted (actor : ℕ) (P : Db → Op → Prop) (w : Shared) : Shared → Prop
  | refl : Accepted actor P w w
  | step {w' w'' : Shared} (op : Op) : Accepted actor P w w' → P w'.db op →
      (getSession (op.call (effective w'.db actor))).exec w' = (w'', .ok ()) →
      Accepted actor P w w''

/-- Keys in use are not drawn again, and departments referred to exist. -/
structure Sane (w : Shared) : Prop where
  dept_lt : ∀ i (d : Dept), w.db.rows .depts i = some d → i < w.next
  user_lt : ∀ i (u : User), w.db.rows .users i = some u → i < w.next
  parent : ∀ i (d : Dept), w.db.rows .depts i = some d → Dept.Accepted.Exists w.db d.parentId
  dept : ∀ i (u : User), w.db.rows .users i = some u → Dept.Accepted.Exists w.db u.deptId

def HiddenDept (db : Db) (actor d : ℕ) : Prop :=
  (∃ row : Dept, db.rows .depts d = some row) ∧ isDeptVisible (effective db actor) (some d) = false

def HiddenUser (db : Db) (actor u : ℕ) : Prop :=
  ∃ row : User, db.rows .users u = some row ∧ userVisible u row (effective db actor) = false

def deptOf (db : Db) (u : ℕ) : Option ℕ := (db.rows .users u).bind User.deptId

def SeesBelow (db : Db) (actor : ℕ) : Prop :=
  ∃ x ∈ listRolesForUser db actor, x.2.dataScope = .selfDeptAndBelow

/-- The call moves a department to the actor's own or one below it, or puts the actor into it. -/
def Relocates (actor : ℕ) (db : Db) (d : ℕ) : Op → Prop
  | .updateDept id payload => id = d ∧ ∃ p own, payload.parentId = some (some p) ∧ parentOf db id ≠ some p ∧
      deptOf db actor = some own ∧ Below (parentOf db) p own
  | .updateUser id payload => id = actor ∧ payload.deptId = some (some d) ∧ deptOf db actor ≠ some d
  | _ => False

def Spares (start : Db) (actor : ℕ) (db : Db) (op : Op) : Prop :=
  SeesBelow db actor → ∀ d, Relocates actor db d op → ∀ x, HiddenDept start actor x → ¬ Below (parentOf db) x d

variable {w w' w₀ : Shared} {db : Db} {actor d u i n : ℕ} {scope : Option DataScope}

/-- What shows a department: a role, by its kind. -/
theorem visible_iff : isDeptVisible (effective db actor) (some d) = true ↔
    ∃ x ∈ listRolesForUser db actor, x.2.dataScope = .all ∨
      x.2.dataScope = .selfDept ∧ deptOf db actor = some d ∨
      (x.2.dataScope = .selfDeptAndBelow ∧ ∃ own, deptOf db actor = some own ∧
        d ∈ descendantDeptIds db own) ∨
      x.2.dataScope = .customDept ∧ d ∈ listCustomDeptIdsForRole db x.1 := by
  rw [effective, getEffectiveDataScope_eq, dept_shown_iff]
  refine exists_congr fun x ↦ and_congr_right fun _ ↦ ?_
  show roleShows _ _ (deptOf db actor) (some d) False x ↔ _
  unfold roleShows roleDepts
  cases x.2.dataScope <;> cases deptOf db actor <;> simp [eq_comm]

theorem user_visible_iff {row : User} : userVisible u row (effective db actor) = true ↔
    (∃ d, row.deptId = some d ∧ isDeptVisible (effective db actor) (some d) = true) ∨
      ∃ x ∈ listRolesForUser db actor, x.2.dataScope = .all ∨ x.2.dataScope = .self ∧ u = actor := by
  have hdept : ∀ d, isDeptVisible (effective db actor) d = true ↔ _ := fun d ↦ by
    rw [effective, getEffectiveDataScope_eq, dept_shown_iff]
  rw [effective, getEffectiveDataScope_eq, user_shown_iff]
  rw [← getEffectiveDataScope_eq]
  simp only [← effective.eq_def, hdept, roleShows]
  constructor
  · rintro ⟨x, hx, hall | ⟨d, hd, he⟩ | hown⟩
    · exact .inr ⟨x, hx, .inl hall⟩
    · exact .inl ⟨d, he, x, hx, .inr (.inl ⟨d, hd, rfl⟩)⟩
    · exact .inr ⟨x, hx, .inr hown⟩
  · rintro (⟨d, he, x, hx, hall | ⟨d', hd, he'⟩ | ⟨-, hf⟩⟩ | ⟨x, hx, hall | hown⟩)
    · exact ⟨x, hx, .inl hall⟩
    · exact ⟨x, hx, .inr (.inl ⟨d', hd, he.trans he'⟩)⟩
    · exact hf.elim
    · exact ⟨x, hx, .inl hall⟩
    · exact ⟨x, hx, .inr (.inr hown)⟩

/-- What the calls before have kept: keys in use are below the next one, the actor has no new
roles, and nothing that was hidden at the start has come into sight. -/
structure Kept (w₀ : Shared) (actor : ℕ) (w : Shared) : Prop where
  next : w₀.next ≤ w.next
  dept_lt : ∀ i (d : Dept), w.db.rows .depts i = some d → i < w.next
  parent_lt : ∀ i p, parentOf w.db i = some p → p < w.next
  dept_of_lt : ∀ i d, deptOf w.db i = some d → d < w.next
  roles : ∀ x ∈ listRolesForUser w.db actor, x ∈ listRolesForUser w₀.db actor
  hidden : ∀ d, HiddenDept w₀.db actor d → isDeptVisible (effective w.db actor) (some d) = false
  user : ∀ i (u u' : User), w₀.db.rows .users i = some u → HiddenUser w₀.db actor i →
    w.db.rows .users i = some u' → u'.deptId = u.deptId

/-- What one call may do: it gives the actor no role and no department of a role, puts the actor
into a visible department only, brings nothing hidden below the actor's own department and leaves
hidden users alone. -/
structure Change (w₀ : Shared) (actor : ℕ) (w w' : Shared) : Prop where
  next : w.next ≤ w'.next
  dept_lt : ∀ i (d : Dept), w'.db.rows .depts i = some d → i < w'.next
  parent_lt : ∀ i p, parentOf w'.db i = some p → p < w'.next
  dept_of_lt : ∀ i d, deptOf w'.db i = some d → d < w'.next
  roles : ∀ x ∈ listRolesForUser w'.db actor, x ∈ listRolesForUser w.db actor
  custom : ∀ r, listCustomDeptIdsForRole w'.db r ⊆ listCustomDeptIdsForRole w.db r
  own : ∀ d, deptOf w'.db actor = some d →
    deptOf w.db actor = some d ∨ isDeptVisible (effective w.db actor) (some d) = true
  below : SeesBelow w.db actor → ∀ own d, deptOf w'.db actor = some own →
    HiddenDept w₀.db actor d → d ∈ descendantDeptIds w'.db own →
    deptOf w.db actor = some own ∧ d ∈ descendantDeptIds w.db own
  user : ∀ i (u' : User), w'.db.rows .users i = some u' → i < w₀.next →
    ∃ u : User, w.db.rows .users i = some u ∧
      (userVisible i u (effective w.db actor) = false → u'.deptId = u.deptId)

section

variable {w₀ : Shared} (hs : Sane w₀) (hk : Kept w₀ actor w)

theorem kept_start (hs : Sane w₀) : Kept w₀ actor w₀ where
  next := Nat.le_refl _
  dept_lt := hs.dept_lt
  parent_lt i p hp := by
    obtain ⟨d, hd, hp⟩ := Option.bind_eq_some_iff.1 hp
    obtain ⟨d', hd'⟩ := hs.parent i d hd p hp
    exact hs.dept_lt p d' hd'
  dept_of_lt i d hd := by
    obtain ⟨u, hu, hd⟩ := Option.bind_eq_some_iff.1 hd
    obtain ⟨d', hd'⟩ := hs.dept i u hu d hd
    exact hs.dept_lt d d' hd'
  roles _ hx := hx
  hidden _ h := h.2
  user i u u' hu _ hu' := by
    rw [hu] at hu'
    cases hu'
    rfl

include hs hk in
/-- A user hidden at the start is still hidden. -/
theorem Kept.hiddenUser {u u' : User} (h : HiddenUser w₀.db actor i) (hu : w₀.db.rows .users i = some u)
    (hu' : w.db.rows .users i = some u') : userVisible i u' (effective w.db actor) = false := by
  obtain ⟨row, hrow, hhid⟩ := id h
  rw [hu] at hrow
  cases hrow
  rw [Bool.eq_false_iff, ne_eq, user_visible_iff]
  rintro (⟨d, hd, hvis⟩ | ⟨x, hx, hown⟩)
  · rw [hk.user i u u' hu h hu'] at hd
    have hd' : HiddenDept w₀.db actor d := by
      refine ⟨hs.dept i u hu d hd, ?_⟩
      rw [Bool.eq_false_iff]
      intro hv
      rw [user_visible_iff.2 (.inl ⟨d, hd, hv⟩)] at hhid
      cases hhid
    rw [hk.hidden d hd'] at hvis
    cases hvis
  · rw [user_visible_iff.2 (.inr ⟨x, hk.roles x hx, hown⟩)] at hhid
    cases hhid

include hs hk in
theorem Kept.change {w' : Shared} (hc : Change w₀ actor w w') : Kept w₀ actor w' where
  next := Nat.le_trans hk.next hc.next
  dept_lt := hc.dept_lt
  parent_lt := hc.parent_lt
  dept_of_lt := hc.dept_of_lt
  roles x hx := hk.roles x (hc.roles x hx)
  hidden d hd := by
    have hhid := hk.hidden d hd
    rw [Bool.eq_false_iff] at hhid ⊢
    intro hvis
    refine hhid (visible_iff.2 ?_)
    obtain ⟨x, hx, hall | ⟨ht, hown⟩ | ⟨ht, own, hown, hd'⟩ | ⟨ht, hd'⟩⟩ := visible_iff.1 hvis
    · exact ⟨x, hc.roles x hx, .inl hall⟩
    · rcases hc.own d hown with hown | hv
      · exact ⟨x, hc.roles x hx, .inr (.inl ⟨ht, hown⟩)⟩
      · exact absurd hv hhid
    · obtain ⟨hown, hd'⟩ := hc.below ⟨x, hc.roles x hx, ht⟩ own d hown hd hd'
      exact ⟨x, hc.roles x hx, .inr (.inr (.inl ⟨ht, own, hown, hd'⟩))⟩
    · exact ⟨x, hc.roles x hx, .inr (.inr (.inr ⟨ht, hc.custom x.1 hd'⟩))⟩
  user i u u' hu hhid hu' := by
    obtain ⟨u₁, hu₁, hsame⟩ := hc.user i u' hu' (hs.user_lt i u hu)
    rw [hsame (hk.hiddenUser hs hhid hu hu₁)]
    exact hk.user i u u₁ hu hhid hu₁

end

/-- The calls take roles, and departments of roles, away only. -/
structure RolesKept (db db' : Db) : Prop where
  userRoles : ∀ i (r : UserRole), db'.rows .userRoles i = some r → db.rows .userRoles i = some r
  roles : ∀ i, db'.rows .roles i = db.rows .roles i
  roleDepts : ∀ i (r : RoleDept), db'.rows .roleDepts i = some r → db.rows .roleDepts i = some r

theorem RolesKept.list {db' : Db} (h : RolesKept db db') :
    ∀ x ∈ listRolesForUser db' actor, x ∈ listRolesForUser db actor := by
  intro x hx
  obtain ⟨hrole, hactive, j, hj⟩ := mem_listRolesForUser.1 hx
  rw [h.roles] at hrole
  exact mem_listRolesForUser.2 ⟨hrole, hactive, j, h.userRoles j _ hj⟩

theorem RolesKept.custom {db' : Db} (h : RolesKept db db') (r : ℕ) :
    listCustomDeptIdsForRole db' r ⊆ listCustomDeptIdsForRole db r := by
  intro d hd
  obtain ⟨j, hj⟩ := mem_listCustomDeptIdsForRole.1 hd
  exact mem_listCustomDeptIdsForRole.2 ⟨j, h.roleDepts j _ hj⟩

theorem RolesKept.refl (db : Db) : RolesKept db db := ⟨fun _ _ h ↦ h, fun _ ↦ rfl, fun _ _ h ↦ h⟩

theorem rolesKept_dept (i : ℕ) (v : Option Dept) : RolesKept db (db.apply [⟨.depts, i, v⟩]) where
  userRoles k r h := by rwa [apply_one_other db (by decide : Table.depts ≠ .userRoles)] at h
  roles k := apply_one_other db (by decide : Table.depts ≠ .roles) i v k
  roleDepts k r h := by rwa [apply_one_other db (by decide : Table.depts ≠ .roleDepts)] at h

theorem rolesKept_user (i : ℕ) (v : Option User) : RolesKept db (db.apply [⟨.users, i, v⟩]) where
  userRoles k r h := by rwa [apply_one_other db (by decide : Table.users ≠ .userRoles)] at h
  roles k := apply_one_other db (by decide : Table.users ≠ .roles) i v k
  roleDepts k r h := by rwa [apply_one_other db (by decide : Table.users ≠ .roleDepts)] at h

theorem parentOf_dept (i : ℕ) (row : Dept) (k : ℕ) :
    parentOf (db.apply [⟨.depts, i, some row⟩]) k = if k = i then row.parentId else parentOf db k := by
  unfold parentOf
  rw [apply_one]
  split <;> rfl

theorem deptOf_user (i : ℕ) (row : User) (k : ℕ) :
    deptOf (db.apply [⟨.users, i, some row⟩]) k = if k = i then row.deptId else deptOf db k := by
  unfold deptOf
  rw [apply_one]
  split <;> rfl

/-- A call that changes departments only, none of them below the actor's. -/
theorem change_depts (hk : Kept w₀ actor w) (hn : w.next ≤ w'.next) (hr : RolesKept w.db w'.db)
    (hd : ∀ i (d : Dept), w'.db.rows .depts i = some d → i < w'.next)
    (hp : ∀ i p, parentOf w'.db i = some p → p < w'.next)
    (hu : ∀ i, w'.db.rows .users i = w.db.rows .users i)
    (hb : SeesBelow w.db actor → ∀ own d, deptOf w.db actor = some own → HiddenDept w₀.db actor d →
      d ∈ descendantDeptIds w'.db own → d ∈ descendantDeptIds w.db own) : Change w₀ actor w w' := by
  have hdept : deptOf w'.db = deptOf w.db := by
    funext k
    unfold deptOf
    rw [hu]
  refine ⟨hn, hd, hp, fun i d h ↦ ?_, hr.list, hr.custom, fun d h ↦ ?_, fun hs own d h hh hm ↦ ?_,
    fun i u' h _ ↦ ?_⟩
  · rw [hdept] at h
    exact Nat.lt_of_lt_of_le (hk.dept_of_lt i d h) hn
  · rw [hdept] at h
    exact .inl h
  · rw [hdept] at h
    exact ⟨h, hb hs own d h hh hm⟩
  · rw [hu] at h
    exact ⟨u', h, fun _ ↦ rfl⟩

theorem isDeptVisible_of_shown {s : DataScope} {deptId : Option ℕ}
    (h : Dept.Service.hides (some s) deptId = false) : isDeptVisible s deptId = true := by
  simpa [Dept.Service.hides] using h

theorem mem_descendants_of_le {db' : Db} {own : ℕ} (hown : own < n)
    (hx : ∀ k < n, (db'.rows .depts k).isSome → (db.rows .depts k).isSome)
    (hc : ∀ k, climb (parentOf db') k d = some own → climb (parentOf db) k d = some own)
    (h : d ∈ descendantDeptIds db' own) : d ∈ descendantDeptIds db own := by
  obtain ⟨hsome, k, hk, hclimb⟩ := mem_descendantDeptIds.1 h
  exact mem_descendantDeptIds.2 ⟨hx own hown hsome, k, hk, hc k hclimb⟩

theorem Kept.hidden_lt (hs : Sane w₀) (hk : Kept w₀ actor w) (hd : HiddenDept w₀.db actor d) :
    d < w.next := by
  obtain ⟨row, hrow⟩ := hd.1
  exact Nat.lt_of_lt_of_le (hs.dept_lt d row hrow) hk.next

theorem Kept.exists_lt (hk : Kept w₀ actor w) {deptId : Option ℕ}
    (h : Dept.Accepted.Exists w.db deptId) {p : ℕ} (hp : deptId = some p) : p < w.next := by
  obtain ⟨row, hrow⟩ := h p hp
  exact hk.dept_lt p row hrow

theorem change_createDept {payload : DeptCreate} (hs : Sane w₀) (hk : Kept w₀ actor w)
    (h : Dept.Accepted.Created payload scope w.toView w'.toView) : Change w₀ actor w w' := by
  obtain ⟨row, hrow, hdb⟩ := h.db
  have hpar : ∀ k, parentOf w'.db k = if k = w.next then row.parentId else parentOf w.db k := by
    intro k
    rw [hdb]
    exact parentOf_dept _ _ _
  have hlt : w.next < w'.next := h.next
  refine change_depts hk (Nat.le_of_lt h.next) (hdb ▸ rolesKept_dept _ _) (fun i d hd ↦ ?_)
    (fun i p hp ↦ ?_) (fun i ↦ ?_) fun _ own d hown hd hm ↦ ?_
  · rw [hdb, apply_one] at hd
    split at hd
    · next he => rw [he]; exact hlt
    · exact Nat.lt_trans (hk.dept_lt i d hd) hlt
  · rw [hpar] at hp
    split at hp
    · rw [hrow] at hp
      exact Nat.lt_trans (hk.exists_lt h.parent hp) hlt
    · exact Nat.lt_trans (hk.parent_lt i p hp) hlt
  · rw [hdb]
    exact apply_one_other _ (by decide) _ _ _
  · have hownlt := hk.dept_of_lt actor own hown
    refine mem_descendants_of_le hownlt (fun k hkn hx ↦ ?_) (fun k hc ↦ ?_) hm
    · rw [hdb, apply_one, if_neg (show ¬ k = w.next by omega)] at hx
      exact hx
    · have hsame : ∀ x, x ≠ w.next → parentOf w'.db x = parentOf w.db x := by
        intro x hx
        rw [hpar, if_neg hx]
      rcases climb_or_below hsame hc with hc | ⟨hb, -⟩
      · exact hc
      · have hle : w.next ≤ d := by
          refine below_mem (s := fun x ↦ w.next ≤ x) (fun x y hxy hy ↦ ?_) hb (Nat.le_refl _)
          have hy' := hk.parent_lt x y hxy
          omega
        have hdlt := hk.hidden_lt hs hd
        omega

theorem change_same (hk : Kept w₀ actor w) (hn : w.next ≤ w'.next) (hdb : w'.db = w.db) :
    Change w₀ actor w w' := by
  refine change_depts hk hn (hdb ▸ .refl _) (fun i d hd ↦ ?_) (fun i p hp ↦ ?_) (fun i ↦ ?_)
    fun _ own d _ _ hm ↦ ?_
  · rw [hdb] at hd
    exact Nat.lt_of_lt_of_le (hk.dept_lt i d hd) hn
  · rw [hdb] at hp
    exact Nat.lt_of_lt_of_le (hk.parent_lt i p hp) hn
  · rw [hdb]
  · rwa [hdb] at hm

theorem patch_parent (d : Dept) (payload : DeptUpdate) :
    (Dept.Service.DeptRepository.patch d payload d).parentId = payload.parentId.getD d.parentId := by
  show flushed d.parentId d.parentId payload.parentId = _
  cases payload.parentId with
  | none => rfl
  | some p =>
    simp only [flushed, Option.getD_some]
    split
    · next h => exact h.symm
    · rfl

/-- A nullable field after a patch: it was given another value, or it is what it was. -/
theorem patched_cases (given : Option (Option ℕ)) (old : Option ℕ) :
    (given = some (given.getD old) ∧ given.any (fun q ↦ decide (q ≠ old)) = true ∧ given.getD old ≠ old) ∨
      given.getD old = old := by
  cases given with
  | none => exact .inr rfl
  | some q =>
    by_cases hq : q = old
    · exact .inr hq
    · exact .inl ⟨rfl, decide_eq_true hq, hq⟩

theorem change_updateDept {payload : DeptUpdate} (hk : Kept w₀ actor w)
    (hp : Spares w₀.db actor w.db (.updateDept i payload))
    (h : Dept.Accepted.Updated i payload scope w.toView w'.toView) : Change w₀ actor w w' := by
  have hnext : w'.next = w.next := h.next
  obtain ⟨row, hrow, hsame | ⟨hdb, hex⟩⟩ := h.db
  · exact change_same hk (Nat.le_of_eq hnext.symm) hsame
  · have hpar : ∀ k, parentOf w'.db k =
        if k = i then payload.parentId.getD row.parentId else parentOf w.db k := by
      intro k
      rw [hdb, ← patch_parent]
      exact parentOf_dept _ _ _
    have hold : parentOf w.db i = row.parentId := by
      unfold parentOf
      rw [hrow]
      rfl
    refine change_depts hk (Nat.le_of_eq hnext.symm) (hdb ▸ rolesKept_dept _ _) (fun k d hd ↦ ?_)
      (fun k p hkp ↦ ?_) (fun k ↦ ?_) fun hb own d hown hd hm ↦ ?_
    · rw [hdb, apply_one] at hd
      rw [hnext]
      split at hd
      · next he => rw [he]; exact hk.dept_lt i row hrow
      · exact hk.dept_lt k d hd
    · rw [hpar] at hkp
      rw [hnext]
      split at hkp
      · rcases patched_cases payload.parentId row.parentId with ⟨-, hm, -⟩ | hkept
        · exact hk.exists_lt (hex hm) (by rw [patch_parent]; exact hkp)
        · exact hk.parent_lt i p (hold.trans (hkept.symm.trans hkp))
      · exact hk.parent_lt k p hkp
    · rw [hdb]
      exact apply_one_other _ (by decide) _ _ _
    · refine mem_descendants_of_le (hk.dept_of_lt actor own hown) (fun k _ hx ↦ ?_) (fun k hc ↦ ?_) hm
      · rw [hdb, apply_one] at hx
        split at hx
        · next he => rw [he]; exact Option.isSome_iff_exists.2 ⟨row, hrow⟩
        · exact hx
      · have hsame : ∀ x, x ≠ i → parentOf w'.db x = parentOf w.db x := by
          intro x hx
          rw [hpar, if_neg hx]
        rcases climb_or_below hsame hc with hc | ⟨hbelow, p, hip, hpo⟩
        · exact hc
        · rw [hpar, if_pos rfl] at hip
          rcases patched_cases payload.parentId row.parentId with ⟨hgiven, -, hmoved⟩ | hkept
          · rw [hip] at hgiven hmoved
            exact absurd hbelow (hp hb i ⟨rfl, p, own, hgiven, fun h ↦ hmoved (h.symm.trans hold), hown, hpo⟩ d hd)
          · have hid : parentOf w'.db = parentOf w.db := by
              funext x
              by_cases hx : x = i
              · rw [hpar, if_pos hx, hkept, hx, hold]
              · exact hsame x hx
            rwa [hid] at hc

/-- What is left of a user when its department is deleted. -/
theorem user_of_deleted {u' : User} (hdb : w'.db = w.db.apply (
      w.db.update .users (fun _ (u : User) ↦ decide (u.deptId = some i)) (fun u ↦ { u with deptId := none }) ++
      w.db.delete .roleDepts (fun _ (r : RoleDept) ↦ decide (r.deptId = i)) ++
      w.db.delete .depts (fun k _ ↦ decide (k = i)))) (h : w'.db.rows .users n = some u') :
    ∃ u : User, w.db.rows .users n = some u ∧ (u' = u ∨ u.deptId = some i ∧ u'.deptId = none) := by
  rw [hdb, apply_rows, pending_append, pending_append, delete_other (by decide), delete_other (by decide),
    Option.none_or, Option.none_or] at h
  cases hp : pending (w.db.update .users (fun _ (u : User) ↦ decide (u.deptId = some i))
      (fun u ↦ { u with deptId := none })) .users n with
  | none =>
    rw [hp] at h
    exact ⟨u', h, .inl rfl⟩
  | some v =>
    obtain ⟨u, hu, hd, rfl⟩ := pending_update hp
    rw [hp] at h
    cases h
    exact ⟨u, hu, .inr ⟨of_decide_eq_true hd, rfl⟩⟩

/-- A deletion of a department takes rows from the other tables, and leaves the rest as they are. -/
theorem row_of_deleted {s : Table} {k : ℕ} {r : Row s} (hdb : w'.db = w.db.apply (
      w.db.update .users (fun _ (u : User) ↦ decide (u.deptId = some i)) (fun u ↦ { u with deptId := none }) ++
      w.db.delete .roleDepts (fun _ (r : RoleDept) ↦ decide (r.deptId = i)) ++
      w.db.delete .depts (fun k _ ↦ decide (k = i)))) (hs : s ≠ .users) (h : w'.db.rows s k = some r) :
    w.db.rows s k = some r := by
  rw [hdb] at h
  refine apply_of_deletes (fun j v hv ↦ ?_) h
  rcases List.mem_append.1 hv with hv | hv
  · rcases List.mem_append.1 hv with hv | hv
    · obtain ⟨_, _, -, -, he⟩ := mem_update.1 hv
      cases he
      exact absurd rfl hs
    · obtain ⟨_, _, -, -, he⟩ := mem_delete.1 hv
      cases he
      rfl
  · obtain ⟨_, _, -, -, he⟩ := mem_delete.1 hv
    cases he
    rfl

theorem change_deleteDept (hk : Kept w₀ actor w)
    (h : Dept.Accepted.Deleted i (some (effective w.db actor)) w.toView w'.toView) :
    Change w₀ actor w w' := by
  have hnext : w'.next = w.next := h.next
  have hdb := h.db
  have hdept : ∀ k (d : Dept), w'.db.rows .depts k = some d → w.db.rows .depts k = some d :=
    fun k d hd ↦ row_of_deleted hdb (by decide) hd
  have hpar : ∀ x y, parentOf w'.db x = some y → parentOf w.db x = some y := by
    intro x y hxy
    obtain ⟨d, hd, hy⟩ := Option.bind_eq_some_iff.1 hxy
    exact Option.bind_eq_some_iff.2 ⟨d, hdept x d hd, hy⟩
  have hof : ∀ k d, deptOf w'.db k = some d → deptOf w.db k = some d := by
    intro k d hd
    obtain ⟨u', hu', hd⟩ := Option.bind_eq_some_iff.1 hd
    obtain ⟨u, hu, rfl | ⟨-, hnone⟩⟩ := user_of_deleted hdb hu'
    · exact Option.bind_eq_some_iff.2 ⟨u', hu, hd⟩
    · rw [hnone] at hd
      cases hd
  have hroles : RolesKept w.db w'.db := by
    refine ⟨fun k r hr ↦ ?_, fun k ↦ ?_, fun k r hr ↦ ?_⟩
    · rw [hdb, apply_rows, pending_append, pending_append, delete_other (by decide),
        delete_other (by decide), update_other (by decide)] at hr
      exact hr
    · rw [hdb, apply_rows, pending_append, pending_append, delete_other (by decide),
        delete_other (by decide), update_other (by decide)]
      rfl
    · exact row_of_deleted hdb (by decide) hr
  refine ⟨Nat.le_of_eq hnext.symm, fun k d hd ↦ ?_, fun k p hp ↦ ?_, fun k d hd ↦ ?_, hroles.list,
    hroles.custom, fun d hd ↦ .inl (hof actor d hd), fun _ own d hown _ hm ↦ ?_, fun k u' hu' _ ↦ ?_⟩
  · rw [hnext]
    exact hk.dept_lt k d (hdept k d hd)
  · rw [hnext]
    exact hk.parent_lt k p (hpar k p hp)
  · rw [hnext]
    exact hk.dept_of_lt k d (hof k d hd)
  · have hown' := hof actor own hown
    refine ⟨hown', mem_descendants_of_le (hk.dept_of_lt actor own hown') (fun j _ hx ↦ ?_)
      (fun j hc ↦ climb_of_le hpar hc) hm⟩
    obtain ⟨d', hd'⟩ := Option.isSome_iff_exists.1 hx
    exact Option.isSome_iff_exists.2 ⟨d', hdept j d' hd'⟩
  · obtain ⟨u, hu, rfl | ⟨hd, -⟩⟩ := user_of_deleted hdb hu'
    · exact ⟨u', hu, fun _ ↦ rfl⟩
    · refine ⟨u, hu, fun hhid ↦ ?_⟩
      rw [user_visible_iff.2 (.inl ⟨i, hd, isDeptVisible_of_shown h.shown⟩)] at hhid
      cases hhid

/-- A call that changes users only. -/
theorem change_users (hk : Kept w₀ actor w) (hn : w.next ≤ w'.next) (hr : RolesKept w.db w'.db)
    (hd : ∀ i, w'.db.rows .depts i = w.db.rows .depts i)
    (hlt : ∀ i d, deptOf w'.db i = some d → d < w'.next)
    (hown : ∀ d, deptOf w'.db actor = some d →
      deptOf w.db actor = some d ∨ isDeptVisible (effective w.db actor) (some d) = true)
    (hb : SeesBelow w.db actor → ∀ own d, deptOf w'.db actor = some own → HiddenDept w₀.db actor d →
      d ∈ descendantDeptIds w.db own → deptOf w.db actor = some own)
    (hu : ∀ i (u' : User), w'.db.rows .users i = some u' → i < w₀.next →
      ∃ u : User, w.db.rows .users i = some u ∧
        (userVisible i u (effective w.db actor) = false → u'.deptId = u.deptId)) :
    Change w₀ actor w w' := by
  have hpar : parentOf w'.db = parentOf w.db := by
    funext k
    unfold parentOf
    rw [hd]
  have hdesc : ∀ own d, d ∈ descendantDeptIds w'.db own → d ∈ descendantDeptIds w.db own := by
    intro own d hm
    rw [mem_descendantDeptIds, hpar, hd] at hm
    exact mem_descendantDeptIds.2 hm
  refine ⟨hn, fun i d h ↦ ?_, fun i p h ↦ ?_, hlt, hr.list, hr.custom, hown,
    fun hs own d h hh hm ↦ ⟨hb hs own d h hh (hdesc own d hm), hdesc own d hm⟩, hu⟩
  · rw [hd] at h
    exact Nat.lt_of_lt_of_le (hk.dept_lt i d h) hn
  · rw [hpar] at h
    exact Nat.lt_of_lt_of_le (hk.parent_lt i p h) hn

theorem change_createUser {payload : UserCreate} (hk : Kept w₀ actor w) (ha : actor < w₀.next)
    (h : User.Accepted.Created payload scope w.toView w'.toView) : Change w₀ actor w w' := by
  obtain ⟨k, row, hle, hlt, hdept, -, hdb⟩ := h.db
  have hle' : w.next ≤ k := hle
  have hlt' : k < w'.next := hlt
  have hwn := hk.next
  have hof : ∀ j, deptOf w'.db j = if j = k then row.deptId else deptOf w.db j := by
    intro j
    rw [hdb]
    exact deptOf_user _ _ _
  have hactor : deptOf w'.db actor = deptOf w.db actor := by
    rw [hof, if_neg (show ¬ actor = k by omega)]
  refine change_users hk (by omega) (hdb ▸ rolesKept_user _ _) (fun j ↦ ?_) (fun j d hd ↦ ?_)
    (fun d hd ↦ .inl (hactor ▸ hd)) (fun _ own d hown _ _ ↦ hactor ▸ hown) fun j u' hu' hj ↦ ?_
  · rw [hdb]
    exact apply_one_other _ (by decide) _ _ _
  · rw [hof] at hd
    split at hd
    · rw [hdept] at hd
      have hd' := hk.exists_lt h.dept hd
      omega
    · have hd' := hk.dept_of_lt j d hd
      omega
  · rw [hdb, apply_one, if_neg (show ¬ j = k by omega)] at hu'
    exact ⟨u', hu', fun _ ↦ rfl⟩

theorem patch_dept (u : User) (payload : UserUpdate) (hash : Option PasswordHash) :
    (User.Service.UserRepository.patch u payload hash u).deptId = payload.deptId.getD u.deptId := by
  show flushed u.deptId u.deptId payload.deptId = _
  cases payload.deptId with
  | none => rfl
  | some d =>
    simp only [flushed, Option.getD_some]
    split
    · next h => exact h.symm
    · rfl

theorem change_updateUser {payload : UserUpdate} (hk : Kept w₀ actor w)
    (hp : Spares w₀.db actor w.db (.updateUser i payload))
    (h : User.Accepted.Updated i payload (some (effective w.db actor)) w.toView w'.toView) :
    Change w₀ actor w w' := by
  have hnext : w.next ≤ w'.next := h.next
  obtain ⟨row, hrow, hvis, hsame | ⟨hash, -, hdb, hex⟩⟩ := h.db
  · exact change_same hk hnext hsame
  have hof : ∀ j, deptOf w'.db j = if j = i then payload.deptId.getD row.deptId else deptOf w.db j := by
    intro j
    rw [hdb, ← patch_dept row payload hash]
    exact deptOf_user _ _ _
  have hold : deptOf w.db i = row.deptId := by
    unfold deptOf
    rw [hrow]
    rfl
  refine change_users hk hnext (hdb ▸ rolesKept_user _ _) (fun j ↦ ?_) (fun j d hd ↦ ?_)
    (fun d hd ↦ ?_) (fun hb own d hown hd hm ↦ ?_) fun j u' hu' _ ↦ ?_
  · rw [hdb]
    exact apply_one_other _ (by decide) _ _ _
  · rw [hof] at hd
    refine Nat.lt_of_lt_of_le ?_ hnext
    split at hd
    · rcases patched_cases payload.deptId row.deptId with ⟨-, hm, -⟩ | hkept
      · exact hk.exists_lt (hex hm) (by rw [patch_dept]; exact hd)
      · exact hk.dept_of_lt i d (hold.trans (hkept.symm.trans hd))
    · exact hk.dept_of_lt j d hd
  · rw [hof] at hd
    split at hd
    · next he =>
      rcases patched_cases payload.deptId row.deptId with ⟨hgiven, -, -⟩ | hkept
      · rw [hd] at hgiven
        exact .inr (h.move _ hgiven _ rfl)
      · exact .inl (he ▸ hold.trans (hkept.symm.trans hd))
    · exact .inl hd
  · rw [hof] at hown
    split at hown
    · next he =>
      subst he
      rcases patched_cases payload.deptId row.deptId with ⟨hgiven, -, hmoved⟩ | hkept
      · rw [hown] at hgiven hmoved
        obtain ⟨-, k, -, hclimb⟩ := mem_descendantDeptIds.1 hm
        refine absurd (below_iff_climb.2 ⟨k, hclimb⟩) (hp hb own ⟨rfl, hgiven, ?_⟩ d hd)
        exact fun h ↦ hmoved (h.symm.trans hold)
      · exact hold.trans (hkept.symm.trans hown)
    · exact hown
  · rw [hdb, apply_one] at hu'
    split at hu'
    · next he =>
      subst he
      refine ⟨row, hrow, fun hhid ↦ ?_⟩
      rw [hvis _ rfl] at hhid
      cases hhid
    · exact ⟨u', hu', fun _ ↦ rfl⟩

theorem change_deleteUser (hk : Kept w₀ actor w)
    (h : User.Accepted.Deleted i scope w.toView w'.toView) : Change w₀ actor w w' := by
  have hnext : w'.next = w.next := h.next
  have hdb := h.db
  have hrow : ∀ (t : Table) k (r : Row t), w'.db.rows t k = some r → w.db.rows t k = some r := by
    intro t k r hr
    rw [hdb] at hr
    refine apply_of_deletes (fun j v hv ↦ ?_) hr
    simp only [List.mem_append] at hv
    rcases hv with ((hv | hv) | hv) | hv
    all_goals
      obtain ⟨_, _, -, -, he⟩ := mem_delete.1 hv
      cases he
      rfl
  have hof : ∀ k d, deptOf w'.db k = some d → deptOf w.db k = some d := by
    intro k d hd
    obtain ⟨u, hu, hd⟩ := Option.bind_eq_some_iff.1 hd
    exact Option.bind_eq_some_iff.2 ⟨u, hrow .users k u hu, hd⟩
  have hother : ∀ (t : Table) k, t ≠ .users → t ≠ .refreshTokens → t ≠ .userRoles → t ≠ .userPosts →
      w'.db.rows t k = w.db.rows t k := by
    intro t k h₁ h₂ h₃ h₄
    rw [hdb, apply_rows, pending_append, pending_append, pending_append, delete_other h₁.symm,
      delete_other h₂.symm, delete_other h₃.symm, delete_other h₄.symm]
    rfl
  have hroles : RolesKept w.db w'.db :=
    ⟨hrow .userRoles, fun k ↦ hother .roles k (by decide) (by decide) (by decide) (by decide),
      hrow .roleDepts⟩
  refine change_users hk (Nat.le_of_eq hnext.symm) hroles
    (fun k ↦ hother .depts k (by decide) (by decide) (by decide) (by decide)) (fun j d hd ↦ ?_)
    (fun d hd ↦ .inl (hof actor d hd)) (fun _ own d hown _ _ ↦ hof actor own hown)
    fun j u' hu' _ ↦ ⟨u', hrow .users j u' hu', fun _ ↦ rfl⟩
  rw [hnext]
  exact hk.dept_of_lt j d (hof j d hd)

/-- An accepted call that relocates nothing with a hidden department below it. -/
theorem change_of_accepted {op : Op} (hs : Sane w₀) (hk : Kept w₀ actor w) (ha : actor < w₀.next)
    (hp : Spares w₀.db actor w.db op)
    (h : (getSession (op.call (effective w.db actor))).exec w = (w', .ok ())) :
    Change w₀ actor w w' := by
  cases op with
  | createDept payload =>
    exact change_createDept hs hk (of_exec_ignore
      (Dept.Accepted.Created payload (some (effective w.db actor)) w.toView)
      (Dept.Accepted.ensures_create payload) h)
  | updateDept id payload =>
    exact change_updateDept hk hp (of_exec_ignore
      (Dept.Accepted.Updated id payload (some (effective w.db actor)) w.toView)
      (Dept.Accepted.ensures_update payload) h)
  | deleteDept id =>
    exact change_deleteDept hk (of_exec
      (Dept.Accepted.Deleted id (some (effective w.db actor)) w.toView)
      Dept.Accepted.ensures_delete h)
  | createUser payload =>
    exact change_createUser hk ha (of_exec_ignore
      (User.Accepted.Created payload (some (effective w.db actor)) w.toView)
      (User.Accepted.ensures_create payload) h)
  | updateUser id payload =>
    exact change_updateUser hk hp (of_exec_ignore
      (User.Accepted.Updated id payload (some (effective w.db actor)) w.toView)
      (User.Accepted.ensures_update payload) h)
  | deleteUser id =>
    exact change_deleteUser hk (of_exec
      (User.Accepted.Deleted id (some (effective w.db actor)) w.toView)
      User.Accepted.ensures_delete h)

theorem kept_of_accepted (hs : Sane w₀) (ha : actor < w₀.next)
    (h : Accepted actor (Spares w₀.db actor) w₀ w) : Kept w₀ actor w := by
  induction h with
  | refl => exact kept_start hs
  | step op _ hp he ih => exact ih.change hs (change_of_accepted hs ih ha hp he)

/-- What was hidden from an actor stays hidden from it, whatever it does with what it sees. -/
theorem hidden_of_accepted (w w' : Shared) (actor : ℕ) (hs : Sane w)
    (ha : ∃ row : User, w.db.rows .users actor = some row)
    (h : Accepted actor (Spares w.db actor) w w') :
    (∀ d, HiddenDept w.db actor d → isDeptVisible (effective w'.db actor) (some d) = false) ∧
    ∀ u, HiddenUser w.db actor u → ∀ row : User, w'.db.rows .users u = some row →
      userVisible u row (effective w'.db actor) = false := by
  obtain ⟨row, hrow⟩ := ha
  have hk := kept_of_accepted hs (hs.user_lt actor row hrow) h
  refine ⟨hk.hidden, fun u hu row' hrow' ↦ ?_⟩
  obtain ⟨row₀, hrow₀, -⟩ := id hu
  exact hk.hiddenUser hs hu hrow₀ hrow'

def newDept (code : String) (parentId : Option ℕ) : Dept :=
  ⟨parentId, code, code, 0, .active, none, none, none⟩

/-- Two departments side by side, the second with a child, and an administrator of the first who
sees what is below it and, through another role, the second without its child. -/
def twoDepts : Shared where
  now := 0
  next := 10
  ext := ⟨[], []⟩
  db := Store.empty.apply [
    ⟨.depts, 1, some (newDept "a" none)⟩,
    ⟨.depts, 2, some (newDept "b" none)⟩,
    ⟨.depts, 3, some (newDept "c" (some 2))⟩,
    ⟨.users, 4, some ⟨"dora", ⟨"", 0⟩, "", .active, false, some 1⟩⟩,
    ⟨.roles, 5, some ⟨"below", "below", .selfDeptAndBelow, 0, .active⟩⟩,
    ⟨.roles, 6, some ⟨"custom", "custom", .customDept, 0, .active⟩⟩,
    ⟨.userRoles, 7, some ⟨4, 5⟩⟩,
    ⟨.userRoles, 8, some ⟨4, 6⟩⟩,
    ⟨.roleDepts, 9, some ⟨6, 2⟩⟩]
  log := []

theorem effective_twoDepts : effective twoDepts.db 4 =
    { scopeType := .customDept, userId := 4, deptId := some 1, visibleDeptIds := {1, 2} } := by
  have hroles : listRolesForUser twoDepts.db 4 =
      [(5, ⟨"below", "below", .selfDeptAndBelow, 0, .active⟩),
        (6, ⟨"custom", "custom", .customDept, 0, .active⟩)] := by
    have hlist : ((twoDepts.db.select .userRoles fun _ (r : UserRole) ↦
        decide (r.userId = 4)).filterMap fun x ↦ (twoDepts.db.rows .roles x.2.roleId).bind fun role ↦
          if Role.status role = .active then some (x.2.roleId, role) else none) =
        [(5, ⟨"below", "below", .selfDeptAndBelow, 0, .active⟩),
          (6, ⟨"custom", "custom", .customDept, 0, .active⟩)] := by decide +kernel
    rw [listRolesForUser, hlist]
    exact List.mergeSort_of_pairwise (by decide)
  show scopeLoop _ _ 4 _ (listRolesForUser twoDepts.db 4) {} = _
  rw [hroles]
  decide +kernel

def moveBelow : Op := .updateDept 2 { parentId := some (some 1) }

def moveSelf : Op := .updateUser 4 { deptId := some (some 2) }

def addBelow : Op := .createDept { name := "d", code := "d", parentId := some 1 }

theorem accepted_twoDepts (op : Op) {P : Db → Op → Prop} (hP : P twoDepts.db op)
    (h : ((getSession (op.call
      { scopeType := .customDept, userId := 4, deptId := some 1, visibleDeptIds := {1, 2} })).exec
        twoDepts).2 = .ok ()) :
    Accepted 4 P twoDepts ((getSession (op.call (effective twoDepts.db 4))).exec twoDepts).1 := by
  refine .step op .refl hP ?_
  rw [effective_twoDepts]
  exact Prod.ext rfl h

theorem exists_of_all {db : Db} {deptId : Option ℕ}
    (h : deptId.all (fun p ↦ (db.rows .depts p).isSome) = true) : Dept.Accepted.Exists db deptId := by
  rintro p rfl
  exact Option.isSome_iff_exists.1 h

theorem sane_of_check (h : ((w.db.scan .depts).all fun (x : ℕ × Dept) ↦ decide (x.1 < w.next) &&
      x.2.parentId.all fun p ↦ (w.db.rows .depts p).isSome) = true)
    (h' : ((w.db.scan .users).all fun (x : ℕ × User) ↦ decide (x.1 < w.next) &&
      x.2.deptId.all fun p ↦ (w.db.rows .depts p).isSome) = true) : Sane w := by
  have hd : ∀ i (d : Dept), w.db.rows .depts i = some d →
      i < w.next ∧ Dept.Accepted.Exists w.db d.parentId := by
    intro i d hd
    obtain ⟨hlt, hex⟩ := Bool.and_eq_true_iff.1 (List.all_eq_true.1 h (i, d) (mem_scan.2 hd))
    exact ⟨of_decide_eq_true hlt, exists_of_all hex⟩
  have hu : ∀ i (u : User), w.db.rows .users i = some u →
      i < w.next ∧ Dept.Accepted.Exists w.db u.deptId := by
    intro i u hu
    obtain ⟨hlt, hex⟩ := Bool.and_eq_true_iff.1 (List.all_eq_true.1 h' (i, u) (mem_scan.2 hu))
    exact ⟨of_decide_eq_true hlt, exists_of_all hex⟩
  exact ⟨fun i d h ↦ (hd i d h).1, fun i u h ↦ (hu i u h).1, fun i d h ↦ (hd i d h).2,
    fun i u h ↦ (hu i u h).2⟩

theorem sane_twoDepts : Sane twoDepts := sane_of_check (by decide +kernel) (by decide +kernel)

theorem dora_twoDepts : ∃ row : User, twoDepts.db.rows .users 4 = some row :=
  Option.isSome_iff_exists.1 (by decide +kernel)

theorem hiddenDept_twoDepts : HiddenDept twoDepts.db 4 3 := by
  refine ⟨Option.isSome_iff_exists.1 (by decide +kernel), ?_⟩
  rw [effective_twoDepts]
  decide

theorem hidden_of_accepted_addBelow : ∃ w', Accepted 4 (Spares twoDepts.db 4) twoDepts w' ∧
    isDeptVisible (effective w'.db 4) (some 3) = false := by
  have h := accepted_twoDepts addBelow (P := Spares twoDepts.db 4) (fun _ d hd ↦ hd.elim)
    (by decide +kernel)
  exact ⟨_, h, (hidden_of_accepted twoDepts _ 4 sane_twoDepts dora_twoDepts h).1 3 hiddenDept_twoDepts⟩

/-- After the second department has been moved below the first, its child is in sight. -/
theorem visible_of_accepted_moveBelow : ∃ w', Accepted 4 (fun _ _ ↦ True) twoDepts w' ∧
    (effective twoDepts.db 4).scopeType ≠ .all ∧ HiddenDept twoDepts.db 4 3 ∧
    w'.db.rows .depts 3 = twoDepts.db.rows .depts 3 ∧
    isDeptVisible (effective w'.db 4) (some 3) = true := by
  have h := accepted_twoDepts moveBelow (P := fun _ _ ↦ True) trivial (by decide +kernel)
  refine ⟨_, h, ?_, hiddenDept_twoDepts, ?_, visible_iff.2 ⟨(5, ⟨"below", "below", .selfDeptAndBelow, 0, .active⟩),
    mem_listRolesForUser.2 ⟨?_, rfl, 7, ?_⟩, .inr (.inr (.inl ⟨rfl, 1, ?_, ?_⟩))⟩⟩
  · rw [effective_twoDepts]
    decide
  all_goals
    rw [effective_twoDepts]
    decide +kernel

/-- And so it is after the administrator has moved. -/
theorem visible_of_accepted_moveSelf : ∃ w', Accepted 4 (fun _ _ ↦ True) twoDepts w' ∧
    (∀ i, w'.db.rows .depts i = twoDepts.db.rows .depts i) ∧
    isDeptVisible (effective w'.db 4) (some 3) = true := by
  have h := accepted_twoDepts moveSelf (P := fun _ _ ↦ True) trivial (by decide +kernel)
  refine ⟨_, h, fun i ↦ ?_, visible_iff.2 ⟨(5, ⟨"below", "below", .selfDeptAndBelow, 0, .active⟩),
    mem_listRolesForUser.2 ⟨?_, rfl, 7, ?_⟩, .inr (.inr (.inl ⟨rfl, 2, ?_, ?_⟩))⟩⟩
  · rw [effective_twoDepts]
    rfl
  all_goals
    rw [effective_twoDepts]
    decide +kernel

end AdminPlatform.Authz.Confinement
