import AdminPlatform.Authz.GuardedCalls
import AdminPlatform.User.Accepted

namespace AdminPlatform.Authz.AccountCalls

open Model.Schema Model.Service Model.Scope Foundation.Relational Foundation.Transaction
open Foundation.Sequential AccountRules GuardedCalls
open Dept.Accepted (ensures_raise ensures_unless)
open User.SuperAdmin (AtMostOne countSuperAdmins_le)

variable {n₀ i : ℕ} {v v' : Snapshot} {scope : Option DataScope} {E : Snapshot → Statement → Prop}

section Depts

open Dept.Service DeptRepository

theorem always_createDept (payload : DeptCreate) :
    Always (Harmless n₀) (Dept.Service.create payload scope) := by
  have hi : Always (Harmless n₀) (do
      if ← findByCode payload.code then raise (duplicate payload.code)
      let x ← DeptRepository.create payload
      pure (DeptRead.mk x.1 x.2)) := by
    refine always_bind (always_get _) fun _ ↦ ?_
    refine always_guard fun _ ↦ ?_
    refine always_bind (always_query harmless_empty fun v g a hq ↦ ?_) fun _ ↦ trivial
    split at hq
    · cases hq
    · split at hq
      · cases hq
      · cases hq
        exact fun _ ↦ allows_one trivial
  unfold Dept.Service.create
  refine always_guard fun _ ↦ ?_
  dsimp only
  split
  · exact hi
  · refine always_bind (always_get _) fun _ ↦ ?_
    exact always_guard fun _ ↦ hi

theorem always_checkCodeUnique (existing : Dept) (payload : DeptUpdate) :
    Always (Harmless n₀) (checkCodeUnique existing payload) := by
  unfold checkCodeUnique
  split
  · split
    · trivial
    · refine always_bind (always_get _) fun _ ↦ ?_
      exact always_unless fun _ ↦ trivial
  · trivial

theorem always_checkMove (newParentId : Option ℕ) :
    Always (Harmless n₀) (checkMove i newParentId scope) := by
  unfold checkMove
  refine always_bind (always_lock .deptTree) fun _ ↦ ?_
  refine always_guard fun _ ↦ ?_
  split
  · trivial
  · next p _ =>
    have hc : Always (Harmless n₀) (checkNoCycle i p) := by
      unfold checkNoCycle
      refine always_guard fun _ ↦ ?_
      refine always_bind (always_get _) fun _ ↦ ?_
      exact always_unless fun _ ↦ trivial
    dsimp only
    split
    · refine always_bind (always_get _) fun _ ↦ ?_
      exact always_guard fun _ ↦ hc
    · exact hc

theorem always_flushDept (existing : Dept) (payload : DeptUpdate) :
    Always (Harmless n₀) (DeptRepository.update i existing payload) := by
  refine always_query harmless_empty fun v g a hq ↦ ?_
  split at hq
  · cases hq
  · split at hq
    · cases hq
    · split at hq
      · cases hq
        exact harmless_empty v
      · dsimp only at hq
        split at hq
        · cases hq
        · split at hq
          · cases hq
          · cases hq
            exact fun _ ↦ allows_one trivial

theorem always_updateDept (payload : DeptUpdate) :
    Always (Harmless n₀) (Dept.Service.update i payload scope) := by
  refine always_bind (always_get _) fun _ ↦ ?_
  split
  · trivial
  · next existing =>
    have hf : Always (Harmless n₀) (do
        let row ← DeptRepository.update i existing payload
        pure (DeptRead.mk i row)) := always_bind (always_flushDept existing payload) fun _ ↦ trivial
    refine always_guard fun _ ↦ ?_
    refine always_bind (always_checkCodeUnique existing payload) fun _ ↦ ?_
    dsimp only
    split
    · exact hf
    · exact always_bind (always_checkMove _) fun _ ↦ hf

/-- A deletion of a department takes it from its users, and nothing else of theirs. -/
theorem allows_moveOut {p : ℕ → User → Bool} {db : Db} :
    Allows n₀ db (db.update .users p fun u ↦ { u with deptId := none }) := by
  intro x hx
  obtain ⟨k, u, hu, -, rfl⟩ := mem_update.1 hx
  rw [hu]
  refine ⟨fun n hn hs ↦ ⟨u, rfl, ?_⟩, fun u' hu' hs ↦ ⟨_, rfl, ?_⟩⟩
  · cases hn
    exact hs
  · cases hu'
    exact ⟨hs, rfl, rfl⟩

theorem always_deleteDept : Always (Harmless n₀) (Dept.Service.delete i scope) := by
  refine always_bind (always_get _) fun _ ↦ ?_
  split
  · trivial
  · refine always_guard fun _ ↦ ?_
    refine always_bind (always_lock .deptTree) fun _ ↦ ?_
    refine always_bind (always_get _) fun _ ↦ ?_
    refine always_guard fun _ ↦ ?_
    refine always_query harmless_empty fun v g a hq ↦ ?_
    split at hq
    · cases hq
      exact fun _ ↦ (allows_moveOut.append (allows_delete (by decide) _)).append
        (allows_delete (by decide) _)
    · cases hq

end Depts

section Bindings

open RbacBinding.Service

theorem always_reserved {α : Type} {operator : AuditActor} {k : Unit → Call α}
    (h : operator.isSuperAdmin = false) : Always E (requireSuperAdmin operator >>= k) := by
  unfold requireSuperAdmin
  rw [h]
  trivial

theorem always_requireVisibleUser (h₀ : ∀ v, E v {}) : Always E (requireVisibleUser i scope) := by
  refine always_bind (always_read h₀ _) fun _ ↦ ?_
  split
  · trivial
  · exact always_unless fun _ ↦ trivial

theorem always_requireIdsExist (h₀ : ∀ v, E v {}) (t : Table) (ids : List ℕ) (code label : String) :
    Always E (requireIdsExist t ids code label) := by
  refine always_bind (always_read h₀ _) fun _ ↦ ?_
  split
  · trivial
  · trivial

theorem always_replacePosts (ids : List ℕ) : Always (Harmless n₀) (userPosts.replace i ids) := by
  refine always_bind (always_lock .userPosts) fun _ ↦ ?_
  refine always_bind (always_query harmless_empty fun v g a hq ↦ ?_) fun _ ↦ ?_
  · cases hq
    exact fun _ ↦ allows_delete (by decide) _
  refine always_bind (always_query harmless_empty fun v g a hq ↦ ?_) fun _ ↦ ?_
  · dsimp only at hq
    split at hq
    · cases hq
      exact harmless_empty v
    · split at hq
      · cases hq
        refine fun _ ↦ allows_free fun x hx ↦ ?_
        obtain ⟨y, -, rfl⟩ := List.mem_map.1 hx
        exact fun _ _ _ _ ↦ trivial
      · cases hq
  · refine always_query harmless_empty fun v g a hq ↦ ?_
    cases hq
    exact harmless_of_writes v _ rfl

theorem always_setUserPosts (ids : List ℕ) (operator : AuditActor) :
    Always (Harmless n₀) (setUserPosts i ids operator scope) := by
  refine always_bind (always_requireVisibleUser harmless_empty) fun _ ↦ ?_
  refine always_bind (always_requireIdsExist harmless_empty _ _ _ _) fun _ ↦ ?_
  exact always_bind (always_replacePosts _) fun _ ↦ trivial

end Bindings

section Users

open User.Service

theorem always_createUser (payload : UserCreate) :
    Always (Harmless n₀) (User.Service.create payload scope) := by
  refine always_unless fun _ ↦ ?_
  refine always_bind (always_get _) fun _ ↦ ?_
  refine always_unless fun _ ↦ ?_
  refine always_bind (always_bind (always_query harmless_empty fun v g a hq ↦ ?_) fun _ ↦ trivial) fun hash ↦ ?_
  · cases hq
    exact harmless_of_writes v _ rfl
  refine always_bind (always_query harmless_empty fun v g a hq ↦ ?_) fun _ ↦ trivial
  dsimp only at hq
  split at hq
  · cases hq
  · split at hq
    · cases hq
      refine fun hl ↦ allows_one ⟨fun n hn hs ↦ ?_, fun u hu hs ↦ ?_⟩
      · cases hn
        cases hs
      · exact absurd (hl.old _ u hu hs) (Nat.not_lt.2 hl.next)
    · cases hq

theorem uncommitted_updateUser (payload : UserUpdate) :
    Uncommitted (User.Service.update i payload scope) := by
  have hf (u : User) (hash : Option PasswordHash) : Uncommitted
      (UserRepository.update i u payload hash >>= fun row ↦ pure (UserRead.modelValidate i row)) :=
    uncommitted_bind (uncommitted_query _) fun _ ↦ trivial
  refine uncommitted_bind (uncommitted_read _) fun x ↦ ?_
  cases x with
  | none => trivial
  | some u =>
    dsimp only
    split
    · trivial
    · split
      · trivial
      · refine uncommitted_bind (uncommitted_read _) fun _ ↦ ?_
        split
        · trivial
        · split
          · exact hf u none
          · refine uncommitted_bind ?_ fun hash ↦ hf u hash
            exact uncommitted_bind (uncommitted_bind (uncommitted_query _) fun _ ↦ trivial) fun _ ↦ trivial

theorem uncommitted_deleteUser : Uncommitted (User.Service.delete i scope) := by
  refine uncommitted_bind (uncommitted_read _) fun x ↦ ?_
  cases x with
  | none => trivial
  | some u =>
    dsimp only
    split
    · trivial
    · refine uncommitted_bind (uncommitted_read _) fun _ ↦ ?_
      split
      · trivial
      · exact uncommitted_query _

/-- A user update that may reach a super administrator: one that the guard of the last super
administrator refuses, or one that brings neither a password nor another status. -/
def SparesUser (payload : UserUpdate) (u : User) : Prop :=
  payload.status = some (some .disabled) ∨
    payload.password = none ∧ (payload.status = some (some .active) → u.status = .active)

theorem untouched_patch {u : User} {payload : UserUpdate} {hash : Option PasswordHash}
    (hhash : payload.password = none → hash = none)
    (h : u.isSuperAdmin = true → payload.password = none ∧ payload.status ≠ some (some .disabled) ∧
      (payload.status = some (some .active) → u.status = .active)) :
    Untouched (some u) (some (UserRepository.patch u payload hash u)) := by
  refine ⟨fun n hn hs ↦ ⟨u, rfl, ?_⟩, fun u' hu' hs ↦ ⟨_, rfl, ?_⟩⟩
  · cases hn
    exact hs
  · cases hu'
    obtain ⟨hp, hd, hact⟩ := h hs
    refine ⟨hs, ?_, ?_⟩
    · show hash.getD u.passwordHash = u.passwordHash
      rw [hhash hp]
      rfl
    · show (flushed (some u.status) (some u.status) payload.status).getD u.status = u.status
      cases hx : payload.status with
      | none => rfl
      | some x =>
        cases x with
        | none =>
          rw [flushed, if_neg (Option.some_ne_none u.status).symm]
          rfl
        | some s =>
          cases s with
          | disabled => exact absurd hx hd
          | active =>
            rw [hact hx, flushed, if_pos rfl]
            rfl

theorem not_guarded {u : User} (hone : AtMostOne v.db)
    (h : ¬ (u.isSuperAdmin && decide ((v.db.select .users fun _ (u : User) ↦ u.isSuperAdmin).length ≤ 1)) =
      true) : u.isSuperAdmin = false := by
  cases hs : u.isSuperAdmin with
  | false => rfl
  | true =>
    rw [hs, Bool.true_and, decide_eq_true_eq] at h
    exact absurd (countSuperAdmins_le hone) h

/-- The last super administrator is not disabled, and there is no other. -/
theorem ensures_disableUser {payload : UserUpdate} {u : User} (hone : AtMostOne v.db)
    (hrow : v.db.rows .users i = some u) (hs : u.isSuperAdmin = true)
    (hd : payload.status = some (some .disabled)) :
    Ensures (User.Service.update i payload scope) v fun _ _ ↦ False := by
  refine ensures_bind (ensures_read ?_)
  rw [hrow]
  dsimp only
  refine ensures_unless fun _ ↦ ?_
  refine ensures_unless fun _ ↦ ?_
  refine ensures_bind (ensures_read ?_)
  refine ensures_unless fun hg ↦ ?_
  rw [hd, decide_eq_true rfl, Bool.true_and] at hg
  rw [not_guarded hone hg] at hs
  cases hs

theorem ensures_updateUser {payload : UserUpdate} (hone : AtMostOne v.db)
    (h : ∀ u : User, v.db.rows .users i = some u → u.isSuperAdmin = true → SparesUser payload u) :
    Ensures (User.Service.update i payload scope) v fun _ v' ↦ (rules n₀).Obeys v.db v'.db := by
  have hdis : Ensures (User.Service.update i payload scope) v fun _ _ ↦ ∀ u : User,
      v.db.rows .users i = some u → u.isSuperAdmin = true → payload.status ≠ some (some .disabled) := by
    by_cases hb : ∃ u : User, v.db.rows .users i = some u ∧ u.isSuperAdmin = true ∧
        payload.status = some (some .disabled)
    · obtain ⟨u, hrow, hs, hd⟩ := hb
      exact ensures_mono (ensures_disableUser hone hrow hs hd) fun _ _ hf ↦ hf.elim
    · refine ensures_mono ensures_next fun _ _ _ u hrow hs hd ↦ hb ⟨u, hrow, hs, hd⟩
  refine ensures_mono (ensures_and (User.Accepted.ensures_update payload) hdis) ?_
  rintro _ v' ⟨hu, hnd⟩
  obtain ⟨u, hrow, -, hdb | ⟨hash, hhash, hdb, -⟩⟩ := hu.db
  · rw [hdb]
    exact fun t k ↦ (rules n₀).refl t k _
  · rw [hdb]
    refine (allows_one ?_).obeys
    rw [hrow]
    refine untouched_patch hhash fun hs ↦ ?_
    have hd := hnd u hrow hs
    obtain ⟨hp, hact⟩ := (h u hrow hs).resolve_left hd
    exact ⟨hp, hd, hact⟩

/-- The last super administrator is not deleted, and there is no other. -/
theorem ensures_deleteUser (hone : AtMostOne v.db) :
    Ensures (User.Service.delete i scope) v fun _ v' ↦ (rules n₀).Obeys v.db v'.db := by
  refine ensures_bind (ensures_read ?_)
  cases hrow : v.db.rows .users i with
  | none => exact ensures_raise
  | some u =>
    dsimp only
    refine ensures_unless fun _ ↦ ?_
    refine ensures_bind (ensures_read ?_)
    refine ensures_unless fun hg ↦ ?_
    have hsup : u.isSuperAdmin = false := not_guarded hone hg
    refine ensures_query fun g a hq ↦ ?_
    split at hq
    · cases hq
      have hu : Allows n₀ v.db (v.db.delete .users fun k _ ↦ decide (k = i)) := by
        intro x hx
        obtain ⟨k, u', hu', hk, rfl⟩ := mem_delete.1 hx
        cases of_decide_eq_true hk
        rw [hrow, Option.some.injEq] at hu'
        subst hu'
        dsimp only
        rw [hrow]
        refine ⟨fun n hn ↦ ?_, fun n hn hs ↦ ?_⟩
        · cases hn
        · cases hn
          rw [hsup] at hs
          cases hs
      exact ((((allows_delete (by decide) _).append (allows_delete (by decide) _)).append
        (allows_delete (by decide) _)).append hu).obeys
    · cases hq

end Users

end AdminPlatform.Authz.AccountCalls
