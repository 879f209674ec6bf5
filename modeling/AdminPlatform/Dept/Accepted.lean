import AdminPlatform.Dept.Service
import AdminPlatform.Foundation.Sequential

namespace AdminPlatform.Dept.Accepted

open Model.Schema Model.Service Model.Scope Foundation.Relational Foundation.Transaction
open Foundation.Sequential Prog Service DeptRepository

variable {v v' : Snapshot} {scope : Option DataScope} {i n : ℕ}

def Exists (db : Db) (deptId : Option ℕ) : Prop :=
  ∀ p, deptId = some p → ∃ d : Dept, db.rows .depts p = some d

/-- A department has been created under a visible one. -/
structure Created (payload : DeptCreate) (scope : Option DataScope) (v v' : Snapshot) : Prop where
  shown : hides scope payload.parentId = false
  parent : Exists v.db payload.parentId
  db : ∃ row : Dept, row.parentId = payload.parentId ∧ v'.db = v.db.apply [⟨.depts, v.next, some row⟩]
  next : v.next < v'.next

/-- A department has been patched, or nothing has changed. -/
structure Updated (i : ℕ) (payload : DeptUpdate) (scope : Option DataScope) (v v' : Snapshot) :
    Prop where
  shown : hides scope (some i) = false
  move : ∀ p, payload.parentId = some p → hides scope p = false
  next : v'.next = v.next
  db : ∃ d : Dept, v.db.rows .depts i = some d ∧ (v'.db = v.db ∨
    v'.db = v.db.apply [⟨.depts, i, some (patch d payload d)⟩] ∧
      (payload.parentId.any (fun p ↦ decide (p ≠ d.parentId)) = true →
        Exists v.db (patch d payload d).parentId))

/-- A department without children has been deleted. -/
structure Deleted (i : ℕ) (scope : Option DataScope) (v v' : Snapshot) : Prop where
  shown : hides scope (some i) = false
  leaf : childIds v.db i = []
  next : v'.next = v.next
  db : v'.db = v.db.apply (
    v.db.update .users (fun _ (u : User) ↦ decide (u.deptId = some i)) (fun u ↦ { u with deptId := none }) ++
    v.db.delete .roleDepts (fun _ (r : RoleDept) ↦ decide (r.deptId = i)) ++
    v.db.delete .depts (fun k _ ↦ decide (k = i)))

theorem of_exec {α : Type} {q : Call α} {a : α} {w w' : Shared} (Q : Snapshot → Prop)
    (h : Ensures q w.toView fun _ v' ↦ Q v') (he : (getSession q).exec w = (w', .ok a)) :
    Q w'.toView := ensures_exec (Q := fun _ v' ↦ Q v') h he

theorem of_exec_ignore {α : Type} {q : Call α} {w w' : Shared} (Q : Snapshot → Prop)
    (h : Ensures q w.toView fun _ v' ↦ Q v')
    (he : (getSession (q >>= fun _ ↦ pure ())).exec w = (w', .ok ())) : Q w'.toView :=
  of_exec Q (ensures_bind (ensures_mono h fun _ _ hq ↦ ensures_pure hq)) he

theorem ensures_acquireLock {k : LockName} {Q : Unit → Snapshot → Prop} (h : Q () v) :
    Ensures (acquireTransactionLock k) v Q := by
  refine ensures_query fun g a hq ↦ ?_
  cases hq
  simp only [runView, Nat.add_zero, apply_nil]
  exact h

theorem ensures_raise {α : Type} {e : AppError} {Q : α → Snapshot → Prop} :
    Ensures (raise e) v Q := trivial

theorem ensures_unless {α : Type} {c : Prop} [Decidable c] {e : AppError} {p : Call α}
    {Q : α → Snapshot → Prop} (h : ¬ c → Ensures p v Q) :
    Ensures (if c then raise e else p) v Q := by
  split
  · exact ensures_raise
  · next hc => exact h hc

theorem ensures_guard {α : Type} {c : Prop} [Decidable c] {e : AppError} {k : Unit → Call α}
    {Q : α → Snapshot → Prop} (h : ¬ c → Ensures (k ()) v Q) :
    Ensures (if c then raise e >>= k else k ()) v Q := by
  split
  · exact ensures_fail _
  · next hc => exact h hc

theorem exists_of_reference {db : Db} {deptId : Option ℕ}
    {locks : List (Resource Table LockName × Mode)} (h : parentReference db deptId = some locks) :
    Exists db deptId := by
  rintro p rfl
  simp only [parentReference] at h
  split at h
  · next hs => exact Option.isSome_iff_exists.1 hs
  · cases h

theorem ensures_insert (payload : DeptCreate) (scope : Option DataScope) : Ensures (do
    if ← findByCode payload.code then raise (duplicate payload.code)
    let (id, row) ← DeptRepository.create payload
    pure (DeptRead.mk id row)) v fun _ v' ↦ hides scope payload.parentId = false →
      Created payload scope v v' := by
  refine ensures_bind (ensures_read ?_)
  refine ensures_guard fun _ ↦ ?_
  refine ensures_bind (ensures_query fun g a hq ↦ ?_)
  split at hq
  · cases hq
  · next locks hl =>
    split at hq
    · cases hq
    · cases hq
      exact fun hs ↦ ⟨hs, exists_of_reference hl, ⟨_, rfl, rfl⟩, Nat.lt_succ_self _⟩

theorem ensures_create (payload : DeptCreate) :
    Ensures (Service.create payload scope) v fun _ v' ↦ Created payload scope v v' := by
  unfold Service.create
  refine ensures_guard fun hs ↦ ?_
  have hins : Ensures _ v _ := ensures_mono (ensures_insert payload scope)
    fun _ _ h ↦ h (Bool.eq_false_iff.2 hs)
  dsimp only
  split
  · exact hins
  · refine ensures_bind (ensures_read ?_)
    exact ensures_guard fun _ ↦ hins

theorem ensures_checkCodeUnique {existing : Dept} {payload : DeptUpdate} :
    Ensures (checkCodeUnique existing payload) v fun _ v' ↦ v' = v := by
  unfold checkCodeUnique
  split
  · split
    · exact ensures_pure rfl
    · refine ensures_bind (ensures_read ?_)
      exact ensures_unless fun _ ↦ rfl
  · exact ensures_pure rfl

theorem ensures_checkMove {newParentId : Option ℕ} :
    Ensures (checkMove i newParentId scope) v fun _ v' ↦ v' = v ∧ hides scope newParentId = false := by
  unfold checkMove
  refine ensures_bind (ensures_acquireLock ?_)
  refine ensures_guard fun hs ↦ ?_
  have hshown : hides scope newParentId = false := Bool.eq_false_iff.2 hs
  cases newParentId with
  | none => exact ensures_pure ⟨rfl, hshown⟩
  | some p =>
    have hcycle : Ensures (checkNoCycle i p) v fun _ v' ↦ v' = v ∧ hides scope (some p) = false := by
      unfold checkNoCycle
      refine ensures_guard fun _ ↦ ?_
      refine ensures_bind (ensures_read ?_)
      exact ensures_unless fun _ ↦ ⟨rfl, hshown⟩
    dsimp only
    split
    · refine ensures_bind (ensures_read ?_)
      exact ensures_guard fun _ ↦ hcycle
    · exact hcycle

theorem ensures_flush {existing : Dept} {payload : DeptUpdate} (hrow : v.db.rows .depts i = some existing)
    (hs : hides scope (some i) = false)
    (hmove : ∀ p, payload.parentId = some p → hides scope p = false) :
    Ensures (DeptRepository.update i existing payload) v fun _ v' ↦ Updated i payload scope v v' := by
  refine ensures_query fun g a hq ↦ ?_
  rw [hrow] at hq
  split at hq
  · cases hq
  · dsimp only at hq
    split at hq
    · cases hq
      refine ⟨hs, hmove, rfl, existing, hrow, .inl ?_⟩
      simp only [runView, apply_nil]
    · split at hq
      · cases hq
      · next locks hl =>
        split at hq
        · cases hq
        · cases hq
          refine ⟨hs, hmove, rfl, existing, hrow, .inr ⟨rfl, fun hm ↦ ?_⟩⟩
          have hd : dirty existing.parentId payload.parentId = true := by
            cases hp : payload.parentId with
            | none =>
              rw [hp] at hm
              cases hm
            | some p =>
              rw [hp] at hm
              exact hm
          rw [if_pos hd] at hl
          exact exists_of_reference hl

theorem ensures_update (payload : DeptUpdate) :
    Ensures (Service.update i payload scope) v fun _ v' ↦ Updated i payload scope v v' := by
  unfold Service.update
  refine ensures_bind (ensures_read ?_)
  cases hrow : v.db.rows .depts i with
  | none => exact ensures_raise
  | some existing =>
    dsimp only
    refine ensures_guard fun hs ↦ ?_
    have hshown : hides scope (some i) = false := Bool.eq_false_iff.2 hs
    refine ensures_bind (ensures_mono ensures_checkCodeUnique ?_)
    rintro - v' rfl
    split
    · next hp =>
      refine ensures_bind (ensures_mono (ensures_flush hrow hshown fun p hp' ↦ ?_) fun _ _ h ↦ h)
      rw [hp] at hp'
      cases hp'
    · next newParentId hp =>
      refine ensures_bind (ensures_mono ensures_checkMove ?_)
      rintro - v'' ⟨rfl, hmove⟩
      refine ensures_bind (ensures_mono (ensures_flush hrow hshown fun p hp' ↦ ?_) fun _ _ h ↦ h)
      rw [hp] at hp'
      cases hp'
      exact hmove

theorem ensures_delete :
    Ensures (Service.delete i scope) v fun _ v' ↦ Deleted i scope v v' := by
  unfold Service.delete
  refine ensures_bind (ensures_read ?_)
  split
  · exact ensures_raise
  · refine ensures_guard fun hs ↦ ?_
    refine ensures_bind (ensures_acquireLock ?_)
    refine ensures_bind (ensures_read ?_)
    refine ensures_guard fun _ ↦ ?_
    refine ensures_query fun g a hq ↦ ?_
    split at hq
    · next hleaf =>
      cases hq
      exact ⟨Bool.eq_false_iff.2 hs, hleaf, rfl, rfl⟩
    · cases hq

end AdminPlatform.Dept.Accepted
