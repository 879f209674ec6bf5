import AdminPlatform.RbacBinding.Links

namespace AdminPlatform.RbacBinding.LinkProtocol

open Model.Schema Model.Service Model.Scope Foundation.Relational Foundation.Transaction
open Foundation.Interleaving Foundation.RelyGuarantee
open Service Links

def replaced (log : List Note) (table : Table) (o : ℕ) : Option (List ℕ) :=
  (log.filterMap fun n ↦ match n with
    | .linksReplaced s owner ids => if s = table ∧ owner = o then some ids else none
    | _ => none).getLast?

variable {α : Type} {w₀ w w' : Shared} {l l' : Private} {t t' : LinkTable} {o k x : ℕ}
  {ids : List ℕ} {G : Guard Table Row LockName Storage Note}

theorem replaced_append_one {log : List Note} {table s : Table} {owner : ℕ} :
    replaced (log ++ [.linksReplaced s owner ids]) table o =
      if s = table ∧ owner = o then some ids else replaced log table o := by
  simp only [replaced, List.filterMap_append]
  by_cases h : s = table ∧ owner = o
  · simp [h]
  · simp [h]

def Settled (w₀ w : Shared) (t : LinkTable) (o : ℕ) : Prop :=
  match replaced w.log t.table o with
  | none => ∀ k, linkAt t w.db o k = linkAt t w₀.db o k
  | some ids => Bound t w.db o ids.eraseDups

theorem Settled.congr (h : Settled w₀ w t o)
    (hlog : replaced w'.log t.table o = replaced w.log t.table o)
    (hl : ∀ k, linkAt t w'.db o k = linkAt t w.db o k) : Settled w₀ w' t o := by
  unfold Settled at h ⊢
  rw [hlog]
  cases hr : replaced w.log t.table o with
  | none =>
    rw [hr] at h
    exact fun k ↦ (hl k).trans (h k)
  | some ids =>
    rw [hr] at h
    exact Bound.congr h hl

structure LinkInv (w₀ w : Shared) : Prop where
  below : ∀ t ∈ linkTables, ∀ o k x, linkAt t w.db o k = some x → k < w.next
  settled : ∀ t ∈ linkTables, ∀ o, Settled w₀ w t o

structure LinksKept (w w' : Shared) (t : LinkTable) : Prop where
  rows : ∀ k, w'.db.rows t.table k = w.db.rows t.table k
  log : ∀ o, replaced w'.log t.table o = replaced w.log t.table o

def linkProt (r : Resource Table LockName) (w w' : Shared) : Prop :=
  ∀ t ∈ linkTables, r = .named t.lock → LinksKept w w' t

/-- The agreement to change the links of a table under the table's lock. -/
def linkProtocol (w₀ : Shared) : Protocol Table Row LockName Storage Note where
  inv := LinkInv w₀
  guar _ _ := True
  change _ _ := True
  prot := linkProt
  guar_refl _ := trivial
  guar_trans _ _ _ _ _ := trivial
  prot_refl _ _ _ _ _ := ⟨fun _ ↦ rfl, fun _ ↦ rfl⟩
  prot_trans _ _ _ _ h h' t ht hr :=
    ⟨fun k ↦ ((h' t ht hr).rows k).trans ((h t ht hr).rows k),
      fun o ↦ ((h' t ht hr).log o).trans ((h t ht hr).log o)⟩
  quiet w w' h hdb hlog _ _ hn := by
    refine ⟨⟨fun t ht o k x hk ↦ ?_, fun t ht o ↦ ?_⟩, trivial, trivial, fun r t ht hr ↦ ?_⟩
    · rw [hdb] at hk
      exact Nat.lt_of_lt_of_le (h.below t ht o k x hk) hn
    · exact (h.settled t ht o).congr (by rw [hlog]) fun k ↦ by rw [hdb]
    · exact ⟨fun k ↦ by rw [hdb], fun o ↦ by rw [hlog]⟩

/-- The session changes the links of one owner. -/
structure Writing (t : LinkTable) (o : ℕ) (l : Private) (w : Shared) : Prop where
  lock : (.named t.lock, .exclusive) ∈ l.held
  others : ∀ o' k, o' ≠ o → linkAt t (w.view l).db o' k = linkAt t w.db o' k
  below : ∀ k x, linkAt t (w.view l).db o k = some x → k < w.next
  frame : ∀ s k, s ≠ t.table → pending l.redo s k = none

theorem kept_of_rely (h : Rely (linkProtocol w₀) l w w') (ht : t ∈ linkTables)
    (hl : (.named t.lock, .exclusive) ∈ l.held) : LinksKept w w' t :=
  h.prot _ hl t ht rfl

theorem view_rows_of_rely (hk : LinksKept w w' t) (l : Private) (k : ℕ) :
    (w'.view l).db.rows t.table k = (w.view l).db.rows t.table k := by
  rw [view_db, view_db, apply_rows, apply_rows, hk.rows]

theorem linkAt_view_of_kept (hk : LinksKept w w' t) (l : Private) (o k : ℕ) :
    linkAt t (w'.view l).db o k = linkAt t (w.view l).db o k :=
  linkAt_congr (view_rows_of_rely hk l k)

theorem Writing.rely (h : Writing t o l w) (ht : t ∈ linkTables)
    (hr : Rely (linkProtocol w₀) l w w') : Writing t o l w' := by
  have hk := kept_of_rely hr ht h.lock
  refine ⟨h.lock, fun o' k ho ↦ ?_, fun k x hx ↦ ?_, h.frame⟩
  · rw [linkAt_view_of_kept hk, h.others o' k ho]
    exact (linkAt_congr (hk.rows k)).symm
  · rw [linkAt_view_of_kept hk] at hx
    exact Nat.lt_of_lt_of_le (h.below k x hx) hr.later.next

structure Replaced (t : LinkTable) (o : ℕ) (ids : List ℕ) (l : Private) (w : Shared) : Prop where
  writing : Writing t o l w
  bound : Bound t (w.view l).db o ids.eraseDups
  notes : l.notes = [.linksReplaced t.table o ids]

theorem Replaced.rely (h : Replaced t o ids l w) (ht : t ∈ linkTables)
    (hr : Rely (linkProtocol w₀) l w w') : Replaced t o ids l w' := by
  have hk := kept_of_rely hr ht h.writing.lock
  exact ⟨h.writing.rely ht hr, h.bound.congr fun k ↦ linkAt_view_of_kept hk l o k, h.notes⟩

theorem commit_other (h : Writing t o l w) (hne : t'.table ≠ t.table) (k : ℕ) :
    (w.commit l).db.rows t'.table k = w.db.rows t'.table k := by
  rw [commit_db]
  exact apply_rows_of_none (h.frame _ k hne)

theorem commit_replaced (h : Replaced t o ids l w) (table : Table) (o' : ℕ) :
    replaced (w.commit l).log table o' =
      if t.table = table ∧ o = o' then some ids else replaced w.log table o' := by
  rw [commit_log, h.notes, replaced_append_one]

theorem moves_commit (hi : LinkInv w₀ w) (ht : t ∈ linkTables) (h : Replaced t o ids l w) :
    Moves (linkProtocol w₀) l.held w (w.commit l) := by
  refine ⟨⟨fun t' ht' o' k x hk ↦ ?_, fun t' ht' o' ↦ ?_⟩, trivial, trivial, fun r hr t' ht' he ↦ ?_⟩
  · by_cases hne : t'.table = t.table
    · obtain rfl := eq_of_table ht' ht hne
      by_cases ho : o' = o
      · subst ho
        exact h.writing.below k x hk
      · have hk' : linkAt t' (w.view l).db o' k = some x := hk
        rw [h.writing.others o' k ho] at hk'
        exact hi.below t' ht' o' k x hk'
    · rw [linkAt_congr (commit_other h.writing hne k)] at hk
      exact hi.below t' ht' o' k x hk
  · by_cases hne : t'.table = t.table
    · obtain rfl := eq_of_table ht' ht hne
      by_cases ho : o = o'
      · subst ho
        unfold Settled
        rw [commit_replaced h, if_pos ⟨rfl, rfl⟩]
        exact h.bound
      · refine (hi.settled t' ht' o').congr ?_ fun k ↦ h.writing.others o' k fun he ↦ ho he.symm
        rw [commit_replaced h, if_neg fun he ↦ ho he.2]
    · refine (hi.settled t' ht' o').congr ?_ fun k ↦ linkAt_congr (commit_other h.writing hne k)
      rw [commit_replaced h, if_neg fun he ↦ hne he.1.symm]
  · subst he
    by_cases hne : t'.table = t.table
    · obtain rfl := eq_of_table ht' ht hne
      exact absurd h.writing.lock (hr _)
    · refine ⟨fun k ↦ commit_other h.writing hne k, fun o' ↦ ?_⟩
      rw [commit_replaced h, if_neg fun he ↦ hne he.1.symm]

end AdminPlatform.RbacBinding.LinkProtocol
