import AdminPlatform.Dept.Accepted
import AdminPlatform.User.Service

namespace AdminPlatform.User.Accepted

open Model.Schema Model.Service Model.Scope Foundation.Relational Foundation.Transaction
open Foundation.Sequential Service UserRepository
open Dept.Accepted (Exists ensures_raise ensures_unless)

variable {v v' : Snapshot} {scope : Option DataScope} {i n : ℕ}

def Shown (scope : Option DataScope) (deptId : Option ℕ) : Prop :=
  ∀ s, scope = some s → isDeptVisible s deptId = true

/-- A user has been created in a visible department. -/
structure Created (payload : UserCreate) (scope : Option DataScope) (v v' : Snapshot) : Prop where
  shown : Shown scope payload.deptId
  dept : Exists v.db payload.deptId
  db : ∃ (k : ℕ) (row : User), v.next ≤ k ∧ k < v'.next ∧ row.deptId = payload.deptId ∧
    row.isSuperAdmin = false ∧ v'.db = v.db.apply [⟨.users, k, some row⟩]

/-- A visible user has been patched, or nothing has changed. -/
structure Updated (i : ℕ) (payload : UserUpdate) (scope : Option DataScope) (v v' : Snapshot) :
    Prop where
  move : ∀ d, payload.deptId = some d → Shown scope d
  next : v.next ≤ v'.next
  db : ∃ u : User, v.db.rows .users i = some u ∧ (∀ s, scope = some s → userVisible i u s = true) ∧
    (v'.db = v.db ∨ ∃ hash : Option PasswordHash, (payload.password = none → hash = none) ∧
      v'.db = v.db.apply [⟨.users, i, some (patch u payload hash u)⟩] ∧
      (payload.deptId.any (fun d ↦ decide (d ≠ u.deptId)) = true →
        Exists v.db (patch u payload hash u).deptId))

/-- A visible user has been deleted. -/
structure Deleted (i : ℕ) (scope : Option DataScope) (v v' : Snapshot) : Prop where
  shown : ∃ u : User, v.db.rows .users i = some u ∧ ∀ s, scope = some s → userVisible i u s = true
  next : v'.next = v.next
  db : v'.db = v.db.apply (
    v.db.delete .refreshTokens (fun _ (r : RefreshToken) ↦ decide (r.userId = i)) ++
    v.db.delete .userRoles (fun _ (r : UserRole) ↦ decide (r.userId = i)) ++
    v.db.delete .userPosts (fun _ (r : UserPost) ↦ decide (r.userId = i)) ++
    v.db.delete .users (fun k _ ↦ decide (k = i)))

theorem of_not_any {p : DataScope → Bool} (h : ¬ (scope.any fun s ↦ !p s) = true) :
    ∀ s, scope = some s → p s = true := by
  rintro s rfl
  cases hp : p s with
  | true => rfl
  | false =>
    refine absurd ?_ h
    rw [Option.any_some, hp]
    rfl

theorem exists_of_reference {db : Db} {deptId : Option ℕ}
    {locks : List (Resource Table LockName × Mode)} (h : deptReference db deptId = some locks) :
    Exists db deptId := by
  rintro p rfl
  simp only [deptReference] at h
  split at h
  · next hs => exact Option.isSome_iff_exists.1 hs
  · cases h

theorem ensures_hashPassword (password : String) :
    Ensures (hashPassword password) v fun _ v' ↦ v'.db = v.db ∧ v.next ≤ v'.next := by
  refine ensures_bind (ensures_query fun g a hq ↦ ?_)
  cases hq
  exact ensures_pure ⟨apply_nil, Nat.le_succ _⟩

theorem ensures_create (payload : UserCreate) :
    Ensures (Service.create payload scope) v fun _ v' ↦ Created payload scope v v' := by
  unfold Service.create
  refine ensures_unless fun hs ↦ ?_
  refine ensures_bind (ensures_read ?_)
  refine ensures_unless fun _ ↦ ?_
  refine ensures_bind (ensures_mono (ensures_hashPassword _) fun hash v₁ h₁ ↦ ?_)
  obtain ⟨hdb, hle⟩ := h₁
  refine ensures_bind (ensures_query fun g a hq ↦ ?_)
  split at hq
  · cases hq
  · next locks hl =>
    split at hq
    · cases hq
      rw [hdb] at hl
      refine ⟨of_not_any hs, exists_of_reference hl, v₁.next,
        ⟨payload.username, hash, payload.nickname, .active, false, payload.deptId⟩, hle,
        Nat.lt_succ_self _, rfl, rfl, ?_⟩
      rw [← hdb]
      rfl
    · cases hq

theorem ensures_flush {u : User} {payload : UserUpdate} {hash : Option PasswordHash}
    (hrow : v.db.rows .users i = some u) :
    Ensures (UserRepository.update i u payload hash) v fun _ v' ↦ v'.next = v.next ∧
      (v'.db = v.db ∨ v'.db = v.db.apply [⟨.users, i, some (patch u payload hash u)⟩] ∧
        (payload.deptId.any (fun d ↦ decide (d ≠ u.deptId)) = true →
          Exists v.db (patch u payload hash u).deptId)) := by
  refine ensures_query fun g a hq ↦ ?_
  rw [hrow] at hq
  split at hq
  · cases hq
  · split at hq
    · cases hq
      exact ⟨rfl, .inl apply_nil⟩
    · dsimp only at hq
      split at hq
      · cases hq
      · next locks hl =>
        cases hq
        refine ⟨rfl, .inr ⟨rfl, fun hm ↦ ?_⟩⟩
        have hd : dirty u.deptId payload.deptId = true := by
          cases hp : payload.deptId with
          | none =>
            rw [hp] at hm
            cases hm
          | some d =>
            rw [hp] at hm
            exact hm
        rw [if_pos hd] at hl
        exact exists_of_reference hl

theorem ensures_update (payload : UserUpdate) :
    Ensures (Service.update i payload scope) v fun _ v' ↦ Updated i payload scope v v' := by
  unfold Service.update
  refine ensures_bind (ensures_read ?_)
  cases hrow : v.db.rows .users i with
  | none => exact ensures_raise
  | some u =>
    dsimp only
    refine ensures_unless fun hs ↦ ?_
    refine ensures_unless fun hm ↦ ?_
    have hmove : ∀ d, payload.deptId = some d → Shown scope d := by
      intro d hd s hscope
      subst hscope
      rw [hd] at hm
      simpa using hm
    refine ensures_bind (ensures_read ?_)
    refine ensures_unless fun _ ↦ ?_
    have hend (hash : Option PasswordHash) (v₁ : Snapshot) (hdb : v₁.db = v.db)
        (hle : v.next ≤ v₁.next) (hp : payload.password = none → hash = none) :
        Ensures (UserRepository.update i u payload hash >>= fun row ↦
          pure (UserRead.modelValidate i row)) v₁ fun _ v' ↦ Updated i payload scope v v' := by
      refine ensures_bind (ensures_mono (ensures_flush (by rw [hdb]; exact hrow)) ?_)
      rintro a v' ⟨hn, h⟩
      rw [hdb] at h
      refine ensures_pure ⟨hmove, by omega, u, hrow, of_not_any hs, ?_⟩
      rcases h with h | ⟨h, hex⟩
      · exact .inl h
      · exact .inr ⟨hash, hp, h, hex⟩
    split
    · exact hend none v rfl (Nat.le_refl _) fun _ ↦ rfl
    · next p hp =>
      refine ensures_bind (ensures_bind (ensures_mono (ensures_hashPassword p) ?_))
      rintro hash v₁ ⟨hdb, hle⟩
      refine ensures_pure (hend (some hash) v₁ hdb hle fun h ↦ ?_)
      rw [hp] at h
      cases h

theorem ensures_delete :
    Ensures (Service.delete i scope) v fun _ v' ↦ Deleted i scope v v' := by
  unfold Service.delete
  refine ensures_bind (ensures_read ?_)
  cases hrow : v.db.rows .users i with
  | none => exact ensures_raise
  | some u =>
    dsimp only
    refine ensures_unless fun hs ↦ ?_
    refine ensures_bind (ensures_read ?_)
    refine ensures_unless fun _ ↦ ?_
    refine ensures_query fun g a hq ↦ ?_
    split at hq
    · cases hq
      exact ⟨⟨u, hrow, of_not_any hs⟩, rfl, rfl⟩
    · cases hq

end AdminPlatform.User.Accepted
