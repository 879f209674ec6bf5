import AdminPlatform.Authz.GuardedCalls
import AdminPlatform.User.Accepted

namespace AdminPlatform.Authz.ReservedCalls

open Model.Schema Model.Service Model.Scope Model.Coded Foundation.Relational Foundation.Transaction
open Foundation.Sequential AccountRules GuardedCalls

variable {n₀ i : ℕ} {v v' : Snapshot} {scope : Option DataScope} {E : Snapshot → Statement → Prop}

theorem survives_new {R B : Type} {f : R → B} {a b : Option R} (h : n₀ ≤ i) : Survives n₀ f i a b := by
  intro hi
  omega

section Posts

open Post.Service PostRepository

theorem always_createPost (payload : PostCreate) : Always (Harmless n₀) (Post.Service.create payload) := by
  refine always_bind (always_get _) fun _ ↦ ?_
  refine always_guard fun _ ↦ ?_
  exact always_bind (always_insert posts _ fun v _ ↦ trivial) fun _ ↦ trivial

theorem always_updatePost (payload : PostUpdate) : Always (Harmless n₀) (Post.Service.update i payload) := by
  refine always_bind (always_get _) fun _ ↦ ?_
  split
  · trivial
  · refine always_bind (always_checkCodeUnique posts _ _ _) fun _ ↦ ?_
    exact always_bind (always_flush posts fun r ↦ trivial) fun _ ↦ trivial

theorem always_deletePost : Always (Harmless n₀) (Post.Service.delete i) := by
  have hd : Always (Harmless n₀) (posts.delete i) :=
    always_delete posts (by decide) fun db ↦ allows_delete (by decide) _
  exact always_bind hd fun _ ↦ always_unless fun _ ↦ trivial

theorem always_importPosts (parsed : Option ImportResult) :
    Always (Harmless n₀) (importPosts parsed) := by
  unfold importPosts
  split
  · trivial
  · refine always_bind (always_get _) fun _ ↦ ?_
    dsimp only
    split
    · trivial
    · refine always_bind (always_query harmless_empty fun v g a hq ↦ ?_) fun _ ↦ trivial
      dsimp only at hq
      split at hq
      · cases hq
      · cases hq
        refine fun _ ↦ allows_free fun x hx ↦ ?_
        obtain ⟨y, -, rfl⟩ := List.mem_map.1 hx
        exact fun _ _ _ _ ↦ trivial

end Posts

section Roles

open Role.Service RoleRepository

theorem always_createRole (payload : RoleCreate) : Always (Harmless n₀) (Role.Service.create payload false) := by
  have hg : Always (Harmless n₀) (guardSecurityFieldsCreate payload false) :=
    always_unless fun _ ↦ trivial
  refine always_bind hg fun _ ↦ ?_
  refine always_bind (always_get _) fun _ ↦ ?_
  refine always_guard fun _ ↦ ?_
  exact always_bind (always_insert roles _ fun v hl ↦ survives_new hl.next) fun _ ↦ trivial

theorem roleGrants_patch {loaded r : Role} {payload : RoleUpdate} (h : payload.status = none) :
    roleGrants (patch loaded payload r) = roleGrants r := by
  show (flushed (some loaded.status) (some r.status) payload.status).getD r.status = r.status
  rw [h]
  rfl

theorem always_updateRole (payload : RoleUpdate) : Always (Harmless n₀) (Role.Service.update i payload false) := by
  unfold Role.Service.update guardSecurityFieldsUpdate
  by_cases hg : (payload.dataScope.isSome || payload.status.isSome) = true
  · simp only [Bool.false_eq_true, if_false, if_pos hg]
    trivial
  · have hs : payload.status = none := by
      rw [Bool.or_eq_true, not_or] at hg
      exact Option.not_isSome_iff_eq_none.1 hg.2
    simp only [Bool.false_eq_true, if_false, if_neg hg]
    refine always_bind (always_pure ()) fun _ ↦ ?_
    refine always_bind (always_get _) fun _ ↦ ?_
    split
    · trivial
    · refine always_bind (always_checkCodeUnique roles _ _ _) fun _ ↦ ?_
      refine always_bind (always_flush roles fun r _ r' hr' ↦ ⟨r, rfl, ?_⟩) fun _ ↦ trivial
      cases hr'
      exact (roleGrants_patch hs).symm

theorem always_deleteRole : Always (Harmless n₀) (Role.Service.delete i) := by
  have hc (db : Db) : Allows n₀ db (roles.cascade db i) :=
    ((allows_delete (by decide) _).append (allows_delete (by decide) _)).append
      (allows_delete (by decide) _)
  have hd : Always (Harmless n₀) (roles.delete i) := always_delete roles (by decide) hc
  exact always_bind hd fun _ ↦ always_unless fun _ ↦ trivial

end Roles

section Menus

open Menu.Service MenuRepository

theorem always_requireParent (p : ℕ) (m : Option Menu) : Always E (requireParent p m) := by
  unfold requireParent
  split
  · trivial
  · exact always_unless fun _ ↦ trivial

theorem always_insertMenu (row : Menu) (note : ℕ → List Note) : Always (Harmless n₀) (insert row note) := by
  refine always_query harmless_empty fun v g a hq ↦ ?_
  split at hq
  · cases hq
  · split at hq
    · cases hq
    · cases hq
      exact fun hl ↦ allows_one (survives_new hl.next)

theorem always_createMenu (payload : MenuCreate) : Always (Harmless n₀) (Menu.Service.create payload false) := by
  have hg : Always (Harmless n₀) (guardSecurityFieldsCreate payload false) :=
    always_unless fun _ ↦ trivial
  have hi : Always (Harmless n₀) (do
      let x ← MenuRepository.create payload
      pure (MenuRead.mk x.1 x.2)) := always_bind (always_insertMenu _ _) fun _ ↦ trivial
  refine always_bind hg fun _ ↦ ?_
  dsimp only
  split
  · exact hi
  · refine always_bind (always_lock .menuTree) fun _ ↦ ?_
    refine always_bind (always_get _) fun m ↦ ?_
    exact always_bind (always_requireParent _ m) fun _ ↦ hi

theorem always_checkNoCycle (p : ℕ) : Always (Harmless n₀) (checkNoCycle i p) := by
  unfold checkNoCycle
  refine always_guard fun _ ↦ ?_
  refine always_bind (always_query harmless_empty fun v g a hq ↦ ?_) fun _ ↦ ?_
  · cases hq
    exact harmless_of_writes v _ rfl
  · exact always_unless fun _ ↦ trivial

theorem always_getParent (existing : Menu) (p : ℕ) : Always (Harmless n₀) (getParent i existing p) := by
  unfold getParent
  split
  · trivial
  · exact always_get _

theorem always_checkParent (existing : Menu) (newParentId : Option ℕ) :
    Always (Harmless n₀) (match newParentId with
      | none => pure ()
      | some p => do
        requireParent p (← getParent i existing p)
        checkNoCycle i p) := by
  cases newParentId with
  | none => trivial
  | some p =>
    refine always_bind (always_getParent existing p) fun m ↦ ?_
    exact always_bind (always_requireParent p m) fun _ ↦ always_checkNoCycle p

theorem always_checkCount (existing : Menu) (toButton : Bool) (newParentId : Option ℕ) :
    Always (Harmless n₀) (do
      if toButton then
        if 0 < (← countChildren i) then raise (typeHasChildren i)
      match newParentId with
      | none => pure ()
      | some p => do
        requireParent p (← getParent i existing p)
        checkNoCycle i p) := by
  dsimp only
  split
  · refine always_bind (always_get _) fun _ ↦ ?_
    exact always_guard fun _ ↦ always_checkParent existing newParentId
  · exact always_checkParent existing newParentId

theorem always_checkTree (existing : Menu) (toButton : Bool) (newParentId : Option ℕ) :
    Always (Harmless n₀) (checkTree i existing toButton newParentId) := by
  unfold checkTree
  dsimp only
  split
  · exact always_bind (always_lock .menuTree) fun _ ↦ always_checkCount existing toButton newParentId
  · exact always_checkCount existing toButton newParentId

/-- Without new permissions and status, a menu grants what it granted. -/
theorem menuGrants_patch {loaded m : Menu} {payload : MenuUpdate} (hp : payload.perms = none)
    (hs : payload.status = none) : menuGrants (patch loaded payload m) = menuGrants m := by
  have h₁ : (patch loaded payload m).perms = m.perms := by
    show flushed loaded.perms m.perms payload.perms = m.perms
    rw [hp]
    rfl
  have h₂ : (patch loaded payload m).status = m.status := by
    show (flushed (some loaded.status) (some m.status) payload.status).getD m.status = m.status
    rw [hs]
    rfl
  exact Prod.ext h₁ h₂

theorem always_flushMenu {loaded : Menu} {payload : MenuUpdate} (hp : payload.perms = none)
    (hs : payload.status = none) (note : List Note) :
    Always (Harmless n₀) (flush i loaded payload note) := by
  refine always_query harmless_empty fun v g a hq ↦ ?_
  split at hq
  · cases hq
  · split at hq
    · cases hq
      exact harmless_of_writes v _ rfl
    · split at hq
      · cases hq
      · next m hm =>
        dsimp only at hq
        split at hq
        · cases hq
        · cases hq
          refine fun _ ↦ allows_one ?_
          rw [hm]
          intro _ m' hm'
          cases hm'
          exact ⟨m, rfl, (menuGrants_patch hp hs).symm⟩

theorem always_updateMenu (payload : MenuUpdate) :
    Always (Harmless n₀) (Menu.Service.update i payload false) := by
  unfold Menu.Service.update guardSecurityFieldsUpdate
  by_cases hg : (payload.perms.isSome || payload.menuType.isSome || payload.status.isSome) = true
  · simp only [Bool.false_eq_true, if_false, if_pos hg]
    trivial
  · have hnone : payload.perms = none ∧ payload.status = none := by
      rw [Bool.or_eq_true, Bool.or_eq_true, not_or, not_or] at hg
      exact ⟨Option.not_isSome_iff_eq_none.1 hg.1.1, Option.not_isSome_iff_eq_none.1 hg.2⟩
    simp only [Bool.false_eq_true, if_false, if_neg hg]
    refine always_bind (always_pure ()) fun _ ↦ ?_
    refine always_bind (always_get _) fun _ ↦ ?_
    split
    · trivial
    · next existing =>
      refine always_bind (always_checkTree _ _ _) fun _ ↦ ?_
      have hu : Always (Harmless n₀) (MenuRepository.update i existing payload) := by
        refine always_bind (always_flushMenu hnone.1 hnone.2 _) fun _ ↦ ?_
        refine always_bind (always_get _) fun _ ↦ ?_
        split
        · trivial
        · trivial
      exact always_bind hu fun _ ↦ trivial

theorem always_deleteMenu : Always (Harmless n₀) (Menu.Service.delete i) := by
  refine always_bind (always_get _) fun _ ↦ ?_
  split
  · trivial
  · refine always_bind (always_lock .menuTree) fun _ ↦ ?_
    refine always_bind (always_get _) fun _ ↦ ?_
    refine always_guard fun _ ↦ ?_
    refine always_query harmless_empty fun v g a hq ↦ ?_
    split at hq
    · cases hq
      exact fun _ ↦ (allows_delete (by decide) _).append (allows_delete (by decide) _)
    · cases hq

end Menus

end AdminPlatform.Authz.ReservedCalls
