import AdminPlatform.RbacBinding.Service
import AdminPlatform.Role.ScopeUnion

namespace AdminPlatform.User.Visibility

open Model.Schema Model.Service Model.Scope Foundation.Relational Foundation.Transaction Foundation.Sql
open Prog User.Service Authz.DataScope Role.Provider Role.ScopeUnion
open RbacBinding.Service hiding userVisible

variable {w : Shared} {userId : ℕ} {row : User} {scope : DataScope}

def Refuses {α : Type} (p : Call α) (w : Shared) (userId : ℕ) : Prop :=
  (p.exec w).2 = .error (.app (notFound userId))

theorem runs_getUser (h : w.db.rows .users userId = some row) :
    (UserRepository.get userId).runs {} w = (.ok (some row), {}, w) := by
  have hv : (w.view ({} : Private)).db.rows .users userId = some row := h
  refine (runs_read _ {} w).trans ?_
  rw [hv]

theorem refuses_iff {α : Type} {p : Call α} {f : Option User → Call α}
    (h : w.db.rows .users userId = some row) (hp : p = UserRepository.get userId >>= f)
    (hhid : userVisible userId row scope = false → f (some row) = raise (notFound userId))
    (hvis : userVisible userId row scope = true → (f (some row)).Avoids (.app (notFound userId))) :
    Refuses p w userId ↔ userVisible userId row scope = false := by
  have hrun : (p.exec w).2 = ((f (some row)).runs {} w).1 := by
    rw [hp, exec, runs_bind (runs_getUser h)]
  rw [Refuses, hrun]
  cases hv : userVisible userId row scope with
  | false =>
    rw [hhid hv]
    exact ⟨fun _ ↦ rfl, fun _ ↦ rfl⟩
  | true => exact ⟨fun he ↦ absurd he (hvis hv {} w), fun he ↦ by cases he⟩

theorem avoids_raise {α : Type} {e : AppError} (h : e.code ≠ "user.NOT_FOUND") :
    (raise e : Call α).Avoids (.app (notFound userId)) :=
  avoids_fail fun he ↦ h (congrArg AppError.code (Failure.app.inj he))

theorem avoids_hashPassword (password : String) {e : Failure} : (hashPassword password).Avoids e :=
  (avoids_query fun _ h ↦ by cases h).bind fun _ ↦ avoids_pure _

theorem avoids_updateRow {e : AppError} (payload : UserUpdate) (hash : Option PasswordHash) :
    (UserRepository.update userId row payload hash).Avoids (.app e) := by
  refine avoids_query fun v h ↦ ?_
  split at h
  · cases h
  · split at h
    · cases h
    · split at h
      · cases h
      · dsimp only at h
        split at h <;> cases h

theorem get_refuses (h : w.db.rows .users userId = some row) :
    Refuses (Service.get userId (some scope)) w userId ↔ userVisible userId row scope = false := by
  refine refuses_iff h rfl (fun hv ↦ ?_) (fun hv ↦ ?_)
  · simp [hv]
  · simp only [Option.any_some, hv, Bool.not_true, Bool.false_eq_true, if_false]
    exact avoids_pure _

theorem update_refuses (payload : UserUpdate) (h : w.db.rows .users userId = some row) :
    Refuses (Service.update userId payload (some scope)) w userId ↔
      userVisible userId row scope = false := by
  refine refuses_iff h rfl (fun hv ↦ ?_) (fun hv ↦ ?_)
  · simp [hv]
  · simp only [Option.any_some, hv, Bool.not_true, Bool.false_eq_true, if_false]
    split
    · exact avoids_raise (by decide)
    · refine (avoids_read _).bind fun n ↦ ?_
      split
      · exact avoids_raise (by decide)
      · have hrow (hash : Option PasswordHash) :
            (UserRepository.update userId row payload hash >>= fun r ↦
              pure (UserRead.modelValidate userId r)).Avoids (.app (notFound userId)) :=
          (avoids_updateRow payload hash).bind fun _ ↦ avoids_pure _
        split
        · exact hrow none
        · exact ((avoids_hashPassword _).bind fun _ ↦ avoids_pure _).bind fun _ ↦ hrow _

theorem delete_refuses (h : w.db.rows .users userId = some row) :
    Refuses (Service.delete userId (some scope)) w userId ↔ userVisible userId row scope = false := by
  refine refuses_iff h rfl (fun hv ↦ ?_) (fun hv ↦ ?_)
  · simp [hv]
  · simp only [Option.any_some, hv, Bool.not_true, Bool.false_eq_true, if_false]
    refine (avoids_read _).bind fun n ↦ ?_
    split
    · exact avoids_raise (by decide)
    · refine avoids_query fun v hq ↦ ?_
      split at hq <;> cases hq

theorem userVisible_binding : RbacBinding.Service.userVisible userId row scope =
    userVisible userId row scope := rfl

theorem userNotFound_eq : userNotFound userId = notFound userId := rfl

/-- The calls of the binding service begin with the check of the user. -/
theorem binding_refuses {α : Type} {f : User → Call α} (h : w.db.rows .users userId = some row)
    (hf : (f row).Avoids (.app (notFound userId))) :
    Refuses (requireVisibleUser userId (some scope) >>= f) w userId ↔
      userVisible userId row scope = false := by
  refine refuses_iff h (bind_assoc (UserRepository.get userId) _ f) (fun hv ↦ ?_) (fun hv ↦ ?_)
  · simp [userVisible_binding, userNotFound_eq, hv]
    rfl
  · simp only [Option.any_some, userVisible_binding, hv, Bool.not_true, Bool.false_eq_true, if_false]
    exact hf

theorem avoids_replace (t : LinkTable) (owner : ℕ) (ids : List ℕ) {e : AppError} :
    (t.replace owner ids).Avoids (.app e) := by
  refine (avoids_query fun v h ↦ by cases h).bind fun _ ↦ ?_
  refine (avoids_query fun v h ↦ by cases h).bind fun _ ↦ ?_
  refine (avoids_query fun v h ↦ ?_).bind fun _ ↦ avoids_query fun v h ↦ by cases h
  dsimp only at h
  split at h
  · cases h
  · split at h <;> cases h

theorem avoids_requireIdsExist {t : Table} {ids : List ℕ} {code label : String}
    (h : code ≠ "user.NOT_FOUND") :
    (requireIdsExist t ids code label).Avoids (.app (notFound userId)) := by
  refine (avoids_read _).bind fun missing ↦ ?_
  split
  · exact avoids_pure _
  · exact avoids_raise h

theorem setUserRoles_refuses (ids : List ℕ) {operator : AuditActor}
    (ho : operator.isSuperAdmin = true) (h : w.db.rows .users userId = some row) :
    Refuses (setUserRoles userId ids operator (some scope)) w userId ↔
      userVisible userId row scope = false := by
  unfold setUserRoles requireSuperAdmin
  rw [if_pos ho]
  refine binding_refuses h ?_
  exact (avoids_requireIdsExist (by decide)).bind fun _ ↦
    (avoids_replace _ _ _).bind fun _ ↦ avoids_pure _

theorem setUserPosts_refuses (ids : List ℕ) (operator : AuditActor)
    (h : w.db.rows .users userId = some row) :
    Refuses (setUserPosts userId ids operator (some scope)) w userId ↔
      userVisible userId row scope = false :=
  binding_refuses h ((avoids_requireIdsExist (by decide)).bind fun _ ↦
    (avoids_replace _ _ _).bind fun _ ↦ avoids_pure _)

theorem getUserRoles_refuses (h : w.db.rows .users userId = some row) :
    Refuses (getUserRoles userId (some scope)) w userId ↔ userVisible userId row scope = false :=
  binding_refuses h (avoids_read _)

theorem getUserPosts_refuses (h : w.db.rows .users userId = some row) :
    Refuses (getUserPosts userId (some scope)) w userId ↔ userVisible userId row scope = false :=
  binding_refuses h (avoids_read _)

/-- The scopes that `compute_effective_data_scope` returns. -/
def Effective (scope : DataScope) : Prop :=
  ∃ userRepo roleRepo deptRepo actor, scope = computeEffectiveDataScope userRepo roleRepo deptRepo actor

theorem Effective.scopeType_ne (h : Effective scope) : scope.scopeType ≠ .self := by
  obtain ⟨userRepo, roleRepo, deptRepo, actor, rfl⟩ := h
  intro he
  have hscope : computeEffectiveDataScope userRepo roleRepo deptRepo actor =
      scopeOf userRepo roleRepo.listCustomDeptIdsForRole deptRepo actor
        (roleRepo.listRolesForUser actor) := rfl
  rw [hscope] at he
  by_cases hall : ∃ x ∈ roleRepo.listRolesForUser actor, x.2.dataScope = .all
  · rw [scopeOf_all hall] at he
    cases he
  · rw [(scopeOf_spec fun x hx hx' ↦ hall ⟨x, hx, hx'⟩).scopeType] at he
    cases he

theorem listed_iff (h : Effective scope) : (UserRepository.scopedFiltered [] (some scope)).accepts
    (userId, row) = true ↔ userVisible userId row scope = true := by
  simp only [UserRepository.scopedFiltered, accepts_where, accepts_applyDataScope, h.scopeType_ne,
    userVisible, List.not_mem_nil, false_imp_iff, implies_true, and_true, or_false, Bool.or_eq_true,
    Bool.and_eq_true, decide_eq_true_eq, Option.some.injEq, exists_eq_left']
  simp [Select.accepts]

theorem visible_iff_of_refuses {α : Type} {p : Call α}
    (h : Refuses p w userId ↔ userVisible userId row scope = false) :
    userVisible userId row scope = true ↔ ¬ Refuses p w userId := by
  rw [h, Bool.not_eq_false]

/-- The list shows a user exactly when the calls on that user accept it, and a department
exactly when the department checks do. -/
theorem list_agrees_with_object (hscope : Effective scope) (h : w.db.rows .users userId = some row) :
    let listed := (UserRepository.scopedFiltered [] (some scope)).accepts (userId, row) = true
    (listed ↔ ¬ Refuses (Service.get userId (some scope)) w userId) ∧
    (∀ payload, listed ↔ ¬ Refuses (Service.update userId payload (some scope)) w userId) ∧
    (listed ↔ ¬ Refuses (Service.delete userId (some scope)) w userId) ∧
    (∀ ids operator, operator.isSuperAdmin = true →
      (listed ↔ ¬ Refuses (setUserRoles userId ids operator (some scope)) w userId)) ∧
    (∀ ids operator, listed ↔ ¬ Refuses (setUserPosts userId ids operator (some scope)) w userId) ∧
    (listed ↔ ¬ Refuses (getUserRoles userId (some scope)) w userId) ∧
    (listed ↔ ¬ Refuses (getUserPosts userId (some scope)) w userId) ∧
    ∀ deptId dept, (Dept.Service.DeptRepository.scopedSelect (some scope)).accepts (deptId, dept) = true ↔
      isDeptVisible scope (some deptId) = true := by
  intro listed
  have hl : listed ↔ userVisible userId row scope = true := listed_iff hscope
  refine ⟨hl.trans (visible_iff_of_refuses (get_refuses h)),
    fun payload ↦ hl.trans (visible_iff_of_refuses (update_refuses payload h)),
    hl.trans (visible_iff_of_refuses (delete_refuses h)),
    fun ids operator ho ↦ hl.trans (visible_iff_of_refuses (setUserRoles_refuses ids ho h)),
    fun ids operator ↦ hl.trans (visible_iff_of_refuses (setUserPosts_refuses ids operator h)),
    hl.trans (visible_iff_of_refuses (getUserRoles_refuses h)),
    hl.trans (visible_iff_of_refuses (getUserPosts_refuses h)), fun deptId dept ↦ ?_⟩
  rw [Dept.Service.DeptRepository.scopedSelect, accepts_applyDataScope]
  simp [Select.accepts]

def carol : User where
  username := "carol"
  passwordHash := ⟨"", 0⟩
  nickname := ""
  status := .active
  isSuperAdmin := false
  deptId := none

def carolOnly : Shared where
  now := 0
  next := 1
  ext := ⟨[], []⟩
  db := Store.empty.apply [⟨.users, 0, some carol⟩]
  log := []

def ownScope : DataScope :=
  computeEffectiveDataScope (carolOnly.db.rows .users)
    ⟨fun _ ↦ [(0, ⟨"own", "own", .self, 0, .active⟩)], fun _ ↦ ∅⟩ (fun _ ↦ ∅) 0

theorem list_agrees_with_object_carol :
    (UserRepository.scopedFiltered [] (some ownScope)).accepts (0, carol) = true ∧
      ¬ Refuses (Service.get 0 (some ownScope)) carolOnly 0 := by
  have hlisted : (UserRepository.scopedFiltered [] (some ownScope)).accepts (0, carol) = true := by
    decide +kernel
  have hrow : carolOnly.db.rows .users 0 = some carol := by decide +kernel
  exact ⟨hlisted, (list_agrees_with_object ⟨_, _, _, _, rfl⟩ hrow).1.1 hlisted⟩

end AdminPlatform.User.Visibility
