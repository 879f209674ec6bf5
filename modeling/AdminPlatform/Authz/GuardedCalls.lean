import AdminPlatform.Authz.AccountRules
import AdminPlatform.Menu.Service
import AdminPlatform.Post.Service
import AdminPlatform.RbacBinding.Service
import AdminPlatform.Role.Service

namespace AdminPlatform.Authz.GuardedCalls

open Model.Schema Model.Service Model.Scope Model.Coded Foundation.Relational Foundation.Transaction
open Foundation.Sequential AccountRules
open User.SuperAdmin (AtMostOne)

variable {n₀ i : ℕ} {α β : Type} {v v' : Snapshot} {scope : Option DataScope}

/-- What is known while a call runs: the super administrator is an old user, and the keys below
`n₀` are drawn. -/
structure Later (n₀ : ℕ) (v : Snapshot) : Prop where
  next : n₀ ≤ v.next
  one : AtMostOne v.db
  old : ∀ k (u : User), v.db.rows .users k = some u → u.isSuperAdmin = true → k < n₀

def Harmless (n₀ : ℕ) (v : Snapshot) (g : Statement) : Prop := Later n₀ v → Allows n₀ v.db g.writes

def Follows (n₀ : ℕ) (v v' : Snapshot) : Prop :=
  Later n₀ v → Later n₀ v' ∧ (rules n₀).Obeys v.db v'.db

theorem Later.of_obeys (h : Later n₀ v) (ho : (rules n₀).Obeys v.db v'.db) (hn : v.next ≤ v'.next) :
    Later n₀ v' where
  next := Nat.le_trans h.next hn
  one := atMostOne_of_obeys ho h.one
  old k u hu hs := by
    have hk : Untouched (v.db.rows .users k) (v'.db.rows .users k) := ho .users k
    obtain ⟨x, hx, hxs⟩ := hk.made u hu hs
    exact h.old k x hx hxs

theorem follows_refl (v : Snapshot) : Follows n₀ v v := fun h ↦ ⟨h, fun t k ↦ (rules n₀).refl t k _⟩

theorem follows_trans (v v' v'' : Snapshot) (h : Follows n₀ v v') (h' : Follows n₀ v' v'') :
    Follows n₀ v v'' := by
  intro hl
  obtain ⟨hl', ho⟩ := h hl
  obtain ⟨hl'', ho'⟩ := h' hl'
  exact ⟨hl'', fun t k ↦ (rules n₀).trans t k _ _ _ (ho t k) (ho' t k)⟩

theorem follows_run (v : Snapshot) (g : Statement) (h : Harmless n₀ v g) : Follows n₀ v (runView v g) := by
  intro hl
  have ho : (rules n₀).Obeys v.db (runView v g).db := (h hl).obeys
  exact ⟨hl.of_obeys ho (Nat.le_add_right _ _), ho⟩

theorem follows_of_always {p : Call α} (h : Always (Harmless n₀) p) (v : Snapshot) :
    Ensures p v fun _ v' ↦ Follows n₀ v v' :=
  ensures_of_always follows_refl follows_trans follows_run h v

theorem harmless_empty (v : Snapshot) : Harmless n₀ v {} := fun _ x hx ↦ by cases hx

section Guards

variable {E : Snapshot → Statement → Prop}

theorem always_unless {c : Prop} [Decidable c] {e : AppError} {p : Call α} (h : ¬ c → Always E p) :
    Always E (if c then raise e else p) := by
  split
  · trivial
  · next hc => exact h hc

theorem always_guard {c : Prop} [Decidable c] {e : AppError} {k : Unit → Call α}
    (h : ¬ c → Always E (k ())) : Always E (if c then raise e >>= k else k ()) := by
  split
  · trivial
  · next hc => exact h hc

theorem always_acquireLock (h₀ : ∀ v g, g.writes = [] → E v g) (k : LockName) :
    Always E (acquireTransactionLock k) := by
  refine always_query (fun v ↦ h₀ v _ rfl) fun v g a hq ↦ ?_
  cases hq
  exact h₀ v _ rfl

end Guards

theorem harmless_of_writes (v : Snapshot) (g : Statement) (h : g.writes = []) : Harmless n₀ v g := by
  intro _ x hx
  rw [h] at hx
  cases hx

theorem always_lock (k : LockName) : Always (Harmless n₀) (acquireTransactionLock k) :=
  always_acquireLock harmless_of_writes k

theorem always_get (q : Snapshot → α) : Always (Harmless n₀) (.read q : Call α) :=
  always_read harmless_empty q

section CodeTables

variable (t : CodeTable)

theorem always_insert (row : Row t.table)
    (h : ∀ v : Snapshot, Later n₀ v → untouched n₀ t.table v.next (v.db.rows t.table v.next) (some row)) :
    Always (Harmless n₀) (t.insert row) := by
  refine always_query harmless_empty fun v g a hq ↦ ?_
  split at hq
  · cases hq
  · cases hq
    exact fun hl ↦ allows_one (h v hl)

theorem always_flush {hasNull isDirty recoded : Bool} {patch : Row t.table → Row t.table}
    (h : ∀ r, untouched n₀ t.table i (some r) (some (patch r))) :
    Always (Harmless n₀) (t.flush i hasNull isDirty recoded patch) := by
  refine always_query harmless_empty fun v g a hq ↦ ?_
  split at hq
  · cases hq
  · split at hq
    · cases hq
    · next r hr =>
      split at hq
      · cases hq
        exact harmless_empty v
      · split at hq
        · cases hq
        · cases hq
          refine fun _ ↦ allows_one ?_
          rw [hr]
          exact h r

theorem always_delete (ht : t.table ≠ .users) (h : ∀ db, Allows n₀ db (t.cascade db i)) :
    Always (Harmless n₀) (t.delete i) := by
  refine always_bind (always_get _) fun x ↦ ?_
  split
  · trivial
  · refine always_query harmless_empty fun v g a hq ↦ ?_
    cases hq
    exact fun _ ↦ (h v.db).append (allows_delete ht _)

theorem always_checkCodeUnique (current : String) (code : PatchField (Option String))
    (duplicate : String → AppError) : Always (Harmless n₀) (t.checkCodeUnique current code duplicate) := by
  unfold CodeTable.checkCodeUnique
  split
  · split
    · trivial
    · refine always_bind (always_get _) fun _ ↦ ?_
      exact always_unless fun _ ↦ trivial
  · trivial

end CodeTables

end AdminPlatform.Authz.GuardedCalls
