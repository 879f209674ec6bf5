import AdminPlatform.Authz.DataScope
import AdminPlatform.Role.Provider
import AdminPlatform.User.Service

namespace AdminPlatform.Role.ScopeUnion

open Model.Schema Model.Scope Provider
open Authz.DataScope (isDeptVisible_eq_true)
open User.Service (userVisible)

variable {userRepo : ℕ → Option User} {custom : ℕ → Finset ℕ} {deptRepo : ℕ → Finset ℕ}
  {userId : ℕ} {userDeptId : Option ℕ} {roles : List (ℕ × Role)} {acc : ScopeAcc}

def roleDepts (custom deptRepo : ℕ → Finset ℕ) (userDeptId : Option ℕ) (x : ℕ × Role) : Finset ℕ :=
  match x.2.dataScope, userDeptId with
  | .selfDept, some d => {d}
  | .selfDeptAndBelow, some d => deptRepo d
  | .customDept, _ => custom x.1
  | _, _ => ∅

/-- What the loop leaves when no role is `ALL`. -/
structure LoopSpec (custom deptRepo : ℕ → Finset ℕ) (userId : ℕ) (userDeptId : Option ℕ)
    (roles : List (ℕ × Role)) (acc : ScopeAcc) (s : DataScope) : Prop where
  scopeType : s.scopeType = .customDept
  userId_eq : s.userId = userId
  deptId_eq : s.deptId = userDeptId
  visible (d : ℕ) : d ∈ s.visibleDeptIds ↔
    d ∈ acc.visibleDeptIds ∨ ∃ x ∈ roles, d ∈ roleDepts custom deptRepo userDeptId x
  self : s.includeSelf = true ↔ acc.includeSelf = true ∨ ∃ x ∈ roles, x.2.dataScope = .self

def ScopeAcc.Fresh (acc : ScopeAcc) (deptRepo : ℕ → Finset ℕ) (userDeptId : Option ℕ) : Prop :=
  ∀ d s, userDeptId = some d → acc.descendantDeptIds = some s → s = deptRepo d

theorem scopeLoop_all (h : ∃ x ∈ roles, x.2.dataScope = .all) :
    scopeLoop custom deptRepo userId userDeptId roles acc = { scopeType := .all, userId := userId } := by
  induction roles generalizing acc with
  | nil =>
    obtain ⟨x, hx, -⟩ := h
    cases hx
  | cons y roles ih =>
    obtain ⟨id, role⟩ := y
    have hrest : role.dataScope ≠ .all → ∃ x ∈ roles, x.2.dataScope = .all := by
      intro hne
      obtain ⟨x, hx, hall⟩ := h
      rcases List.mem_cons.1 hx with rfl | hx
      · exact absurd hall hne
      · exact ⟨x, hx, hall⟩
    cases hs : role.dataScope with
    | all => simp only [scopeLoop, hs]
    | self => simp only [scopeLoop, hs, ih (hrest (by simp [hs]))]
    | selfDept => cases userDeptId <;> simp only [scopeLoop, hs, ih (hrest (by simp [hs]))]
    | selfDeptAndBelow => cases userDeptId <;> simp only [scopeLoop, hs, ih (hrest (by simp [hs]))]
    | customDept => simp only [scopeLoop, hs, ih (hrest (by simp [hs]))]

theorem LoopSpec.cons {acc' : ScopeAcc} {x : ℕ × Role} {s : DataScope}
    (h : LoopSpec custom deptRepo userId userDeptId roles acc' s)
    (hv : ∀ d, d ∈ acc'.visibleDeptIds ↔
      d ∈ acc.visibleDeptIds ∨ d ∈ roleDepts custom deptRepo userDeptId x)
    (hs : acc'.includeSelf = true ↔ acc.includeSelf = true ∨ x.2.dataScope = .self) :
    LoopSpec custom deptRepo userId userDeptId (x :: roles) acc s where
  scopeType := h.scopeType
  userId_eq := h.userId_eq
  deptId_eq := h.deptId_eq
  visible d := by rw [h.visible, hv, List.exists_mem_cons_iff, or_assoc]
  self := by rw [h.self, hs, List.exists_mem_cons_iff, or_assoc]

theorem scopeLoop_spec (hacc : ScopeAcc.Fresh acc deptRepo userDeptId)
    (h : ∀ x ∈ roles, x.2.dataScope ≠ .all) :
    LoopSpec custom deptRepo userId userDeptId roles acc
      (scopeLoop custom deptRepo userId userDeptId roles acc) := by
  induction roles generalizing acc with
  | nil => exact ⟨rfl, rfl, rfl, by simp [scopeLoop], by simp [scopeLoop]⟩
  | cons y roles ih =>
    obtain ⟨id, role⟩ := y
    have hrest := fun x hx ↦ h x (List.mem_cons_of_mem _ hx)
    have hne := h _ List.mem_cons_self
    cases hs : role.dataScope with
    | all => exact absurd hs hne
    | self =>
      simp only [scopeLoop, hs]
      refine (ih ?_ hrest).cons (by simp [roleDepts, hs]) (by simp [hs])
      exact hacc
    | selfDept =>
      cases userDeptId with
      | none =>
        simp only [scopeLoop, hs]
        exact (ih hacc hrest).cons (by simp [roleDepts, hs]) (by simp [hs])
      | some d =>
        simp only [scopeLoop, hs]
        refine (ih ?_ hrest).cons (fun x ↦ ?_) (by simp [hs])
        · exact hacc
        · simp only [roleDepts, hs, Finset.mem_union]
    | selfDeptAndBelow =>
      cases userDeptId with
      | none =>
        simp only [scopeLoop, hs]
        exact (ih hacc hrest).cons (by simp [roleDepts, hs]) (by simp [hs])
      | some d =>
        have hids : acc.descendantDeptIds.getD (deptRepo d) = deptRepo d := by
          cases hm : acc.descendantDeptIds with
          | none => rfl
          | some s => exact hacc d s rfl hm
        simp only [scopeLoop, hs, hids]
        refine (ih ?_ hrest).cons (by simp [roleDepts, hs]) (by simp [hs])
        intro d' s hd hm
        cases hd
        cases hm
        rfl
    | customDept =>
      simp only [scopeLoop, hs]
      refine (ih ?_ hrest).cons (by cases userDeptId <;> simp [roleDepts, hs]) (by simp [hs])
      exact hacc

def scopeOf (userRepo : ℕ → Option User) (custom deptRepo : ℕ → Finset ℕ) (userId : ℕ)
    (roles : List (ℕ × Role)) : DataScope :=
  computeEffectiveDataScope userRepo ⟨fun _ ↦ roles, custom⟩ deptRepo userId

theorem scopeOf_all (h : ∃ x ∈ roles, x.2.dataScope = .all) :
    scopeOf userRepo custom deptRepo userId roles = { scopeType := .all, userId := userId } :=
  scopeLoop_all h

theorem scopeOf_spec (h : ∀ x ∈ roles, x.2.dataScope ≠ .all) :
    LoopSpec custom deptRepo userId ((userRepo userId).bind User.deptId) roles {}
      (scopeOf userRepo custom deptRepo userId roles) :=
  scopeLoop_spec (fun _ _ _ hm ↦ by cases hm) h

def roleShows (custom deptRepo : ℕ → Finset ℕ) (userDeptId deptId : Option ℕ) (own : Prop)
    (x : ℕ × Role) : Prop :=
  x.2.dataScope = .all ∨ (∃ d ∈ roleDepts custom deptRepo userDeptId x, deptId = some d) ∨
    x.2.dataScope = .self ∧ own

theorem shows_iff {deptId : Option ℕ} {own : Prop} :
    (isDeptVisible (scopeOf userRepo custom deptRepo userId roles) deptId = true ∨
      (scopeOf userRepo custom deptRepo userId roles).includeSelf = true ∧ own) ↔
    ∃ x ∈ roles, roleShows custom deptRepo ((userRepo userId).bind User.deptId) deptId own x := by
  rw [isDeptVisible_eq_true]
  by_cases h : ∃ x ∈ roles, x.2.dataScope = .all
  · rw [scopeOf_all h]
    obtain ⟨x, hx, hall⟩ := h
    simp only [true_or, true_iff]
    exact ⟨x, hx, .inl hall⟩
  · have hne : ∀ x ∈ roles, x.2.dataScope ≠ .all := fun x hx hall ↦ h ⟨x, hx, hall⟩
    have hspec : LoopSpec custom deptRepo userId ((userRepo userId).bind User.deptId) roles {}
        (scopeOf userRepo custom deptRepo userId roles) := scopeOf_spec hne
    simp only [hspec.scopeType, hspec.visible, hspec.self, reduceCtorEq, false_or,
      Finset.notMem_empty, Bool.false_eq_true, roleShows]
    constructor
    · rintro (⟨d, ⟨x, hx, hd⟩, rfl⟩ | ⟨⟨x, hx, hs⟩, ho⟩)
      · exact ⟨x, hx, .inr (.inl ⟨d, hd, rfl⟩)⟩
      · exact ⟨x, hx, .inr (.inr ⟨hs, ho⟩)⟩
    · rintro ⟨x, hx, hall | ⟨d, hd, rfl⟩ | ⟨hs, ho⟩⟩
      · exact absurd hall (hne x hx)
      · exact .inl ⟨d, ⟨x, hx, hd⟩, rfl⟩
      · exact .inr ⟨⟨x, hx, hs⟩, ho⟩

theorem dept_shown_iff {deptId : Option ℕ} :
    isDeptVisible (scopeOf userRepo custom deptRepo userId roles) deptId = true ↔
    ∃ x ∈ roles, roleShows custom deptRepo ((userRepo userId).bind User.deptId) deptId False x := by
  rw [← shows_iff, and_false, or_false]

theorem scopeOf_userId : (scopeOf userRepo custom deptRepo userId roles).userId = userId := by
  by_cases h : ∃ x ∈ roles, x.2.dataScope = .all
  · rw [scopeOf_all h]
  · exact (scopeOf_spec fun x hx hall ↦ h ⟨x, hx, hall⟩).userId_eq

theorem user_shown_iff {id : ℕ} {row : User} :
    userVisible id row (scopeOf userRepo custom deptRepo userId roles) = true ↔
    ∃ x ∈ roles, roleShows custom deptRepo ((userRepo userId).bind User.deptId) row.deptId
      (id = userId) x := by
  rw [← shows_iff, userVisible, scopeOf_userId]
  simp

/-- The scope depends on which roles are in the list, not on their order or number. -/
theorem scopeOf_congr {roles' : List (ℕ × Role)} (h : ∀ x, x ∈ roles ↔ x ∈ roles') :
    scopeOf userRepo custom deptRepo userId roles = scopeOf userRepo custom deptRepo userId roles' := by
  by_cases hall : ∃ x ∈ roles, x.2.dataScope = .all
  · have hall' : ∃ x ∈ roles', x.2.dataScope = .all := by simpa only [h] using hall
    rw [scopeOf_all hall, scopeOf_all hall']
  · have hall' : ¬ ∃ x ∈ roles', x.2.dataScope = .all := by simpa only [h] using hall
    have hs : LoopSpec custom deptRepo userId ((userRepo userId).bind User.deptId) roles {}
        (scopeOf userRepo custom deptRepo userId roles) :=
      scopeOf_spec fun x hx hx' ↦ hall ⟨x, hx, hx'⟩
    have hs' : LoopSpec custom deptRepo userId ((userRepo userId).bind User.deptId) roles' {}
        (scopeOf userRepo custom deptRepo userId roles') :=
      scopeOf_spec fun x hx hx' ↦ hall' ⟨x, hx, hx'⟩
    have hv : (scopeOf userRepo custom deptRepo userId roles).visibleDeptIds =
        (scopeOf userRepo custom deptRepo userId roles').visibleDeptIds := by
      ext d
      rw [hs.visible, hs'.visible]
      simp only [h]
    have hself : (scopeOf userRepo custom deptRepo userId roles).includeSelf =
        (scopeOf userRepo custom deptRepo userId roles').includeSelf := by
      rw [Bool.eq_iff_iff, hs.self, hs'.self]
      simp only [h]
    have ht := hs.scopeType.trans hs'.scopeType.symm
    have hu := hs.userId_eq.trans hs'.userId_eq.symm
    have hd := hs.deptId_eq.trans hs'.deptId_eq.symm
    cases hx : scopeOf userRepo custom deptRepo userId roles
    cases hx' : scopeOf userRepo custom deptRepo userId roles'
    simp_all

/-- The scope of several roles shows what one of them shows alone. -/
theorem effective_scope_union (userRepo : ℕ → Option User) (custom deptRepo : ℕ → Finset ℕ)
    (userId : ℕ) :
    let scope := scopeOf userRepo custom deptRepo userId
    (∀ roles deptId, isDeptVisible (scope roles) deptId = true ↔
      ∃ x ∈ roles, isDeptVisible (scope [x]) deptId = true) ∧
    (∀ roles id row, userVisible id row (scope roles) = true ↔
      ∃ x ∈ roles, userVisible id row (scope [x]) = true) ∧
    (∀ roles roles' : List (ℕ × Role), (∀ x, x ∈ roles ↔ x ∈ roles') → scope roles = scope roles') ∧
    (∀ roles roles' : List (ℕ × Role), roles ⊆ roles' →
      (∀ deptId, isDeptVisible (scope roles) deptId = true → isDeptVisible (scope roles') deptId = true) ∧
      ∀ id row, userVisible id row (scope roles) = true → userVisible id row (scope roles') = true) ∧
    (∀ roles : List (ℕ × Role), (∃ x ∈ roles, x.2.dataScope = .all) →
      (∀ deptId, isDeptVisible (scope roles) deptId = true) ∧
      ∀ id row, userVisible id row (scope roles) = true) ∧
    (∀ deptId, isDeptVisible (scope []) deptId = false) ∧
    ∀ id row, userVisible id row (scope []) = false := by
  intro scope
  refine ⟨fun roles deptId ↦ ?_, fun roles id row ↦ ?_, fun _ _ h ↦ scopeOf_congr h,
    fun roles roles' h ↦ ⟨fun deptId ↦ ?_, fun id row ↦ ?_⟩,
    fun roles h ↦ ⟨fun deptId ↦ ?_, fun id row ↦ ?_⟩, fun deptId ↦ ?_, fun id row ↦ ?_⟩
  · simp only [scope, dept_shown_iff, List.mem_singleton, exists_eq_left]
  · simp only [scope, user_shown_iff, List.mem_singleton, exists_eq_left]
  · simp only [scope, dept_shown_iff]
    exact fun ⟨x, hx, hs⟩ ↦ ⟨x, h hx, hs⟩
  · simp only [scope, user_shown_iff]
    exact fun ⟨x, hx, hs⟩ ↦ ⟨x, h hx, hs⟩
  · obtain ⟨x, hx, hall⟩ := h
    exact dept_shown_iff.2 ⟨x, hx, .inl hall⟩
  · obtain ⟨x, hx, hall⟩ := h
    exact user_shown_iff.2 ⟨x, hx, .inl hall⟩
  · rw [Bool.eq_false_iff, ne_eq, dept_shown_iff]
    rintro ⟨x, hx, -⟩
    cases hx
  · rw [Bool.eq_false_iff, ne_eq, user_shown_iff]
    rintro ⟨x, hx, -⟩
    cases hx

/-- The scope the provider computes from the database is that of the user's active roles. -/
theorem getEffectiveDataScope_eq (db : Db) (userId : ℕ) :
    DbPermissionProvider.getEffectiveDataScope db userId =
      scopeOf (db.rows .users) (Repository.listCustomDeptIdsForRole db)
        (fun d ↦ (Dept.Service.DeptRepository.descendantDeptIds db d).toFinset) userId
        (Repository.listRolesForUser db userId) := rfl

end AdminPlatform.Role.ScopeUnion
