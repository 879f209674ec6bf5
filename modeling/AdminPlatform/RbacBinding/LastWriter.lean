import AdminPlatform.RbacBinding.LinkStatements

namespace AdminPlatform.RbacBinding.LastWriter

open Model.Schema Model.Service Model.Scope Foundation.Relational Foundation.Transaction
open Foundation.Interleaving Foundation.RelyGuarantee
open Service Links LinkProtocol LinkStatements

/-- The requests that replace links. -/
inductive BindOp
  | userRoles (userId : ℕ) (roleIds : List ℕ) (operator : AuditActor) (scope : Option DataScope)
  | userPosts (userId : ℕ) (postIds : List ℕ) (operator : AuditActor) (scope : Option DataScope)
  | roleMenus (roleId : ℕ) (menuIds : List ℕ) (operator : AuditActor)
  | roleDepts (roleId : ℕ) (deptIds : List ℕ) (operator : AuditActor)

def BindOp.call : BindOp → Call (List ℕ)
  | .userRoles userId roleIds operator scope => getSession (setUserRoles userId roleIds operator scope)
  | .userPosts userId postIds operator scope => getSession (setUserPosts userId postIds operator scope)
  | .roleMenus roleId menuIds operator => getSession (setRoleMenus roleId menuIds operator)
  | .roleDepts roleId deptIds operator => getSession (setRoleDepts roleId deptIds operator)

namespace BindOp

def links : BindOp → LinkTable
  | .userRoles .. => Service.userRoles
  | .userPosts .. => Service.userPosts
  | .roleMenus .. => Service.roleMenus
  | .roleDepts .. => Service.roleDepts

def owner : BindOp → ℕ
  | .userRoles userId .. => userId
  | .userPosts userId .. => userId
  | .roleMenus roleId .. => roleId
  | .roleDepts roleId .. => roleId

def ids : BindOp → List ℕ
  | .userRoles _ roleIds .. => roleIds
  | .userPosts _ postIds .. => postIds
  | .roleMenus _ menuIds .. => menuIds
  | .roleDepts _ deptIds .. => deptIds

def note (op : BindOp) : Note := .linksReplaced op.links.table op.owner op.ids.eraseDups

end BindOp

variable {α : Type} {w₀ w w' : Shared} {l l' : Private} {t : LinkTable} {o : ℕ} {ids : List ℕ}
  {G : Guard Table Row LockName Storage Note}

section Publishes

open Prog

variable {vs : List (View Table Row Storage)} {ns : List Note} {op : BindOp}

theorem gathers_requireSuperAdmin {operator : AuditActor}
    {Q : Unit → List (View Table Row Storage) → List Note → Prop}
    (hQ : Q () vs ns) : (requireSuperAdmin operator).Gathers Q (fun _ _ _ ↦ True) vs ns := by
  unfold requireSuperAdmin
  split
  · exact hQ
  · trivial

theorem gathers_requireVisibleUser {userId : ℕ} {scope : Option DataScope}
    {Q : User → List (View Table Row Storage) → List Note → Prop} (hQ : ∀ u vs, Q u vs ns) :
    (requireVisibleUser userId scope).Gathers Q (fun _ _ _ ↦ True) vs ns := by
  unfold requireVisibleUser
  refine gathers_bind (gathers_read fun v ↦ ?_)
  split
  · trivial
  · split
    · trivial
    · exact hQ _ _

theorem gathers_requireRole {roleId : ℕ} {Q : Role → List (View Table Row Storage) → List Note → Prop}
    (hQ : ∀ r vs, Q r vs ns) : (requireRole roleId).Gathers Q (fun _ _ _ ↦ True) vs ns := by
  unfold requireRole
  refine gathers_bind (gathers_read fun v ↦ ?_)
  split
  · trivial
  · exact hQ _ _

theorem gathers_requireIdsExist {s : Table} {code label : String}
    {Q : Unit → List (View Table Row Storage) → List Note → Prop} (hQ : ∀ vs, Q () vs ns) :
    (requireIdsExist s ids code label).Gathers Q (fun _ _ _ ↦ True) vs ns := by
  unfold requireIdsExist
  refine gathers_bind (gathers_read fun v ↦ ?_)
  split
  · exact hQ _
  · trivial

theorem gathers_replace {Q : Unit → List (View Table Row Storage) → List Note → Prop}
    (hQ : ∀ vs, Q () vs (ns ++ [.linksReplaced t.table o ids])) :
    (t.replace o ids).Gathers Q (fun _ _ _ ↦ True) vs ns := by
  unfold LinkTable.replace
  refine gathers_bind (gathers_query (fun v₁ g a h ↦ ?_) fun _ _ _ ↦ trivial)
  cases h
  refine gathers_bind (gathers_query (fun v₂ g a h ↦ ?_) fun _ _ _ ↦ trivial)
  cases h
  have hinsert : ∀ vs', (t.insertLinks o ids.eraseDups).Gathers
      (fun _ _ ns' ↦ ns' = ns) (fun _ _ _ ↦ True) vs' ns := by
    intro vs'
    refine gathers_query (fun v₃ g a h ↦ ?_) fun _ _ _ ↦ trivial
    dsimp only at h
    split at h
    · cases h
      exact List.append_nil ns
    · split at h
      · cases h
        exact List.append_nil ns
      · cases h
  simp only [List.append_nil]
  refine gathers_bind (gathers_mono (hinsert _) (fun a vs' ns' hns ↦ ?_) fun _ _ _ _ ↦ trivial)
  cases hns
  refine gathers_query (fun v₄ g a h ↦ ?_) fun _ _ _ ↦ trivial
  cases h
  exact hQ _

/-- A request that commits has replaced its own owner's links by its own ids, without the duplicates. -/
theorem publishes_call (op : BindOp) : op.call.Publishes
    (fun r _ ns ↦ r = .ok op.ids.eraseDups ∧ ns = [op.note]) [] [] := by
  cases op with
  | userRoles userId roleIds operator scope =>
    refine publishes_getSession (gathers_bind (gathers_requireSuperAdmin ?_))
    refine gathers_bind (gathers_requireVisibleUser fun _ _ ↦ ?_)
    refine gathers_bind (gathers_requireIdsExist fun _ ↦ ?_)
    exact gathers_bind (gathers_replace fun _ ↦ ⟨rfl, rfl⟩)
  | userPosts userId postIds operator scope =>
    refine publishes_getSession (gathers_bind (gathers_requireVisibleUser fun _ _ ↦ ?_))
    refine gathers_bind (gathers_requireIdsExist fun _ ↦ ?_)
    exact gathers_bind (gathers_replace fun _ ↦ ⟨rfl, rfl⟩)
  | roleMenus roleId menuIds operator =>
    refine publishes_getSession (gathers_bind (gathers_requireSuperAdmin ?_))
    refine gathers_bind (gathers_requireRole fun _ _ ↦ ?_)
    refine gathers_bind (gathers_requireIdsExist fun _ ↦ ?_)
    exact gathers_bind (gathers_replace fun _ ↦ ⟨rfl, rfl⟩)
  | roleDepts roleId deptIds operator =>
    refine publishes_getSession (gathers_bind (gathers_requireSuperAdmin ?_))
    refine gathers_bind (gathers_requireRole fun _ _ ↦ ?_)
    refine gathers_bind (gathers_requireIdsExist fun _ ↦ ?_)
    exact gathers_bind (gathers_replace fun _ ↦ ⟨rfl, rfl⟩)

end Publishes

theorem wp_requireSuperAdmin {operator : AuditActor} {Q : Unit → Private → Shared → Prop} (hQ : Q () l w) :
    wp (linkProtocol w₀) G (requireSuperAdmin operator) Q (fun _ _ _ ↦ True) l w := by
  unfold requireSuperAdmin
  split
  · exact hQ
  · trivial

theorem wp_requireVisibleUser {userId : ℕ} {scope : Option DataScope} {Q : User → Private → Shared → Prop}
    (hQ : ∀ u w', Q u l w') :
    wp (linkProtocol w₀) G (requireVisibleUser userId scope) Q (fun _ _ _ ↦ True) l w := by
  unfold requireVisibleUser
  refine wp_bind (wp_read fun w' hr ↦ ?_)
  split
  · trivial
  · split
    · trivial
    · exact hQ _ w'

theorem wp_requireRole {roleId : ℕ} {Q : Role → Private → Shared → Prop} (hQ : ∀ r w', Q r l w') :
    wp (linkProtocol w₀) G (requireRole roleId) Q (fun _ _ _ ↦ True) l w := by
  unfold requireRole
  refine wp_bind (wp_read fun w' hr ↦ ?_)
  split
  · trivial
  · exact hQ _ w'

theorem wp_requireIdsExist {s : Table} {code label : String} {Q : Unit → Private → Shared → Prop}
    (hQ : ∀ w', Q () l w') :
    wp (linkProtocol w₀) G (requireIdsExist s ids code label) Q (fun _ _ _ ↦ True) l w := by
  unfold requireIdsExist
  refine wp_bind (wp_read fun w' hr ↦ ?_)
  split
  · exact hQ w'
  · trivial

theorem safe_getSession {p : Call α} (h : wp (linkProtocol w₀) G p
    (fun _ l w ↦ LinkInv w₀ w ∧ ∃ t ∈ linkTables, ∃ o ids, Replaced t o ids l w) (fun _ _ _ ↦ True) l w) :
    safe (linkProtocol w₀) G (getSession p) l w := by
  refine wp_bind (wp_mono (fun a l' w' hq ↦ ?_) (fun _ _ _ _ ↦ trivial) h)
  obtain ⟨-, t, ht, o, ids, hrep⟩ := hq
  exact wp_bind (wp_save fun w₁ hr _ ↦ ⟨moves_commit hr.inv ht (hrep.rely ht hr), trivial⟩)

theorem wp_replace_deduped (ht : t ∈ linkTables) (a : List ℕ) :
    wp (linkProtocol w₀) G (do
      t.replace o ids
      pure a) (fun _ l w ↦ LinkInv w₀ w ∧ ∃ t ∈ linkTables, ∃ o ids, Replaced t o ids l w)
      (fun _ _ _ ↦ True) {} w :=
  wp_bind (wp_mono (fun _ _ _ h ↦ ⟨h.1, t, ht, o, ids, h.2⟩) (fun _ _ _ h ↦ h) (wp_replace ht .init))

theorem safe_call (op : BindOp) (w : Shared) : safe (linkProtocol w₀) G op.call {} w := by
  cases op with
  | userRoles userId roleIds operator scope =>
    refine safe_getSession (wp_bind (wp_requireSuperAdmin ?_))
    refine wp_bind (wp_requireVisibleUser fun _ _ ↦ ?_)
    exact wp_bind (wp_requireIdsExist fun _ ↦ wp_replace_deduped (by simp [linkTables]) _)
  | userPosts userId postIds operator scope =>
    refine safe_getSession (wp_bind (wp_requireVisibleUser fun _ _ ↦ ?_))
    exact wp_bind (wp_requireIdsExist fun _ ↦ wp_replace_deduped (by simp [linkTables]) _)
  | roleMenus roleId menuIds operator =>
    refine safe_getSession (wp_bind (wp_requireSuperAdmin ?_))
    refine wp_bind (wp_requireRole fun _ _ ↦ ?_)
    exact wp_bind (wp_requireIdsExist fun _ ↦ wp_replace_deduped (by simp [linkTables]) _)
  | roleDepts roleId deptIds operator =>
    refine safe_getSession (wp_bind (wp_requireSuperAdmin ?_))
    refine wp_bind (wp_requireRole fun _ _ ↦ ?_)
    exact wp_bind (wp_requireIdsExist fun _ ↦ wp_replace_deduped (by simp [linkTables]) _)

/-- Keys in use are drawn, before anything is logged. -/
structure Start (w : Shared) : Prop where
  below : ∀ t ∈ linkTables, ∀ k r, w.db.rows t.table k = some r → k < w.next
  log : w.log = []

theorem Start.inv (h : Start w) : LinkInv w w where
  below t ht o k x hk := by
    obtain ⟨r, hr, -⟩ := linkAt_eq_some.1 hk
    exact h.below t ht k r hr
  settled t ht o := by
    unfold Settled
    rw [h.log]
    exact fun k ↦ rfl

def lastBound (w : Shared) (log : List Note) (t : LinkTable) (o : ℕ) : List ℕ :=
  match replaced log t.table o with
  | none => t.targets w.db o
  | some ids => ids.eraseDups.mergeSort fun a b ↦ decide (a ≤ b)

theorem targets_of_reach {S : State Table Row LockName Storage Note Failure (List ℕ)} (hw : Start w)
    (h : Reach BindOp.call .crash .free w S) (ht : t ∈ linkTables) (o : ℕ) :
    t.targets S.world.db o = lastBound w S.world.log t o := by
  have hinv : LinkInv w S.world := (sound_of_reach (fun op w _ ↦ safe_call op w) hw.inv h).inv
  have hs := hinv.settled t ht o
  unfold Settled at hs
  unfold lastBound
  cases hr : replaced S.world.log t.table o with
  | none =>
    rw [hr] at hs
    exact targets_congr hs
  | some ids =>
    rw [hr] at hs
    exact targets_of_bound hs (nodup_eraseDups ids)

/-- The step with which the `i`th call is accepted and committed: it is logged with its owner and its own
ids, each once, and answered with them. -/
abbrev Accepts (op : BindOp) (i : ℕ) (S S' : State Table Row LockName Storage Note Failure (List ℕ)) : Prop :=
  Commits BindOp.call .crash i (.ok op.ids.eraseDups) [op.note] S S'

theorem accepts_of_reach {S S₁ S₂ : State Table Row LockName Storage Note Failure (List ℕ)} {op : BindOp}
    (hs : S.next BindOp.call .crash (.start op) = some S₁) (hc : Continues BindOp.call .crash .free S₁ S₂) :
    (∀ S₃, S₂.next BindOp.call .crash (.step S.sessions.length) = some S₃ →
        S₃.world.log = S₂.world.log ∨ Accepts op S.sessions.length S₂ S₃) ∧
      ∀ ids l, S₂.sessions[S.sessions.length]? = some ⟨.done ids, l⟩ → ids = op.ids.eraseDups ∧
        ∃ S₃ S₄, Continues BindOp.call .crash .free S₁ S₃ ∧ Accepts op S.sessions.length S₃ S₄ ∧
          Continues BindOp.call .crash .free S₄ S₂ := by
  refine ⟨fun S₃ hn ↦ ?_, fun ids l hl ↦ ?_⟩
  · refine (commits_of_next (publishes_call op) hs hc hn).imp_right ?_
    rintro ⟨r, vs, ns, hcommit, ⟨rfl, rfl⟩, -⟩
    exact hcommit
  · obtain ⟨S₃, S₄, vs, ns, h₃, hcommit, h₄, ⟨hr, rfl⟩, -⟩ := commits_of_done (publishes_call op) hs hc hl
    cases hr
    exact ⟨rfl, S₃, S₄, h₃, hcommit, h₄⟩

/-- An owner is bound to what the last accepted request on it asked for, and a step that commits no request
changes nothing. A call logs nothing before it is accepted, and one that is answered with success was accepted
by a step of its own. -/
theorem last_writer_wins (w : Shared) (S : State Table Row LockName Storage Note Failure (List ℕ))
    (hw : Start w) (h : Reach BindOp.call .crash .free w S) :
    (∀ t ∈ linkTables, ∀ o, t.targets S.world.db o = lastBound w S.world.log t o) ∧
      (∀ label S', S.next BindOp.call .crash label = some S' → S'.world.log = S.world.log →
        ∀ t ∈ linkTables, ∀ o, t.targets S'.world.db o = t.targets S.world.db o) ∧
      ∀ op S₁ S₂, S.next BindOp.call .crash (.start op) = some S₁ →
        Continues BindOp.call .crash .free S₁ S₂ →
        (∀ S₃, S₂.next BindOp.call .crash (.step S.sessions.length) = some S₃ →
          S₃.world.log = S₂.world.log ∨ Accepts op S.sessions.length S₂ S₃) ∧
        ∀ ids l, S₂.sessions[S.sessions.length]? = some ⟨.done ids, l⟩ → ids = op.ids.eraseDups ∧
          ∃ S₃ S₄, Continues BindOp.call .crash .free S₁ S₃ ∧ Accepts op S.sessions.length S₃ S₄ ∧
            Continues BindOp.call .crash .free S₄ S₂ := by
  refine ⟨fun t ht o ↦ targets_of_reach hw h ht o, fun label S' hn hlog t ht o ↦ ?_,
    fun op S₁ S₂ hs hc ↦ accepts_of_reach hs hc⟩
  have h' : Reach BindOp.call .crash .free w S' := .step label h (admits_free S label) hn
  rw [targets_of_reach hw h ht o, targets_of_reach hw h' ht o, hlog]

def aliceAndRoles : Shared where
  now := 0
  next := 3
  ext := ⟨[], []⟩
  db := Store.empty.apply [⟨.users, 0, some ⟨"alice", ⟨"", 0⟩, "", .active, false, none⟩⟩,
    ⟨.roles, 1, some ⟨"ops", "ops", .self, 0, .active⟩⟩,
    ⟨.roles, 2, some ⟨"dev", "dev", .self, 0, .active⟩⟩]
  log := []

theorem start_aliceAndRoles : Start aliceAndRoles where
  below t ht k r hr := by
    have hm := aliceAndRoles.db.complete t.table k r hr
    simp only [linkTables, List.mem_cons, List.not_mem_nil, or_false] at ht
    rcases ht with rfl | rfl | rfl | rfl
    all_goals cases hm
  log := rfl

def twoBinds : List (Label BindOp) :=
  [.start (.userRoles 0 [1, 2, 1] ⟨none, none, true⟩ none),
    .start (.userRoles 0 [2] ⟨none, none, true⟩ none), .step 1, .step 1] ++
    List.replicate 7 (.step 0) ++ List.replicate 5 (.step 1)

def answered (S : State Table Row LockName Storage Note Failure (List ℕ)) (i : ℕ) (ids : List ℕ) : Bool :=
  match S.sessions[i]? with
  | some ⟨.done a, _⟩ => decide (a = ids)
  | _ => false

theorem answered_spec {S : State Table Row LockName Storage Note Failure (List ℕ)} {i : ℕ}
    (h : answered S i ids = true) : ∃ l, S.sessions[i]? = some ⟨.done ids, l⟩ := by
  unfold answered at h
  split at h
  · next a l hs => exact ⟨l, of_decide_eq_true h ▸ hs⟩
  · cases h

theorem last_writer_wins_twoBinds :
    ∃ S S₃ S₄, Reach BindOp.call .crash .free aliceAndRoles S ∧
      S.world.log = [.linksReplaced .userRoles 0 [1, 2], .linksReplaced .userRoles 0 [2]] ∧
      (∀ t ∈ linkTables, ∀ o, t.targets S.world.db o = lastBound aliceAndRoles S.world.log t o) ∧
      Accepts (.userRoles 0 [1, 2, 1] ⟨none, none, true⟩ none) 0 S₃ S₄ ∧
      Continues BindOp.call .crash .free S₄ S := by
  obtain ⟨S₁, hstart, hrun⟩ : ∃ S₁, (State.init aliceAndRoles).next BindOp.call .crash
      (.start (.userRoles 0 [1, 2, 1] ⟨none, none, true⟩ none)) = some S₁ ∧
      (S₁.follow BindOp.call .crash (fun _ _ ↦ true) twoBinds.tail).any (fun S ↦ decide (S.world.log =
        [.linksReplaced .userRoles 0 [1, 2], .linksReplaced .userRoles 0 [2]]) && answered S 0 [1, 2]) = true :=
    ⟨_, rfl, by decide +kernel⟩
  obtain ⟨S, hfollow, hp⟩ := (Option.any_eq_true _ _).1 hrun
  rw [Bool.and_eq_true] at hp
  obtain ⟨l, hdone⟩ := answered_spec hp.2
  have hc : Continues BindOp.call .crash .free S₁ S := continues_follow .refl hfollow
  have hS : Reach BindOp.call .crash .free aliceAndRoles S :=
    reach_continues (.step _ .init (admits_free _ _) hstart) hc
  obtain ⟨-, -, haccepted⟩ := last_writer_wins aliceAndRoles _ start_aliceAndRoles .init
  obtain ⟨-, S₃, S₄, -, hcommit, hafter⟩ := (haccepted _ S₁ S hstart hc).2 _ _ hdone
  exact ⟨S, S₃, S₄, hS, of_decide_eq_true hp.1,
    (last_writer_wins aliceAndRoles S start_aliceAndRoles hS).1, hcommit, hafter⟩

end AdminPlatform.RbacBinding.LastWriter
