import AdminPlatform.Dept.TreeTransaction

namespace AdminPlatform.Dept.TreeSafety

open Model.Schema Model.Service Model.Scope Foundation.Relational Foundation.Transaction
open Foundation.Interleaving Foundation.RelyGuarantee Foundation.Forest
open Service DeptRepository TreeInvariant TreeTransaction

variable {α : Type} {G : Guard Table Row LockName Storage Note} {w w' : Shared} {l l' : Private}
  {i p : ℕ} {loaded : Dept} {payload : DeptUpdate}

/-- The session has neither written nor noted anything. -/
structure Blank (l : Private) : Prop where
  redo : l.redo = []
  notes : l.notes = []

theorem Blank.row (hb : Blank l) (t : Table) (k : ℕ) : (w.view l).db.rows t k = w.db.rows t k := by
  rw [view_db, apply_rows, hb.redo]
  rfl

theorem Blank.parentOf (hb : Blank l) : parentOf (w.view l).db = parentOf w.db := by
  funext k
  rw [TreeInvariant.parentOf, TreeInvariant.parentOf, hb.row]

/-- The only writing statement of a call. -/
theorem tx_blank {g : Statement} (hb : Blank l)
    (h : (∀ k, pending g.writes .depts k = none) ∨ ∃ i v, TreeWrite (l.run g w.next) (w.run g) i v ∧
      ∀ k, pending g.writes .depts k = if k = i then some v else none) :
    TreeTx (l.run g w.next) (w.run g) := by
  have hredo : (l.run g w.next).redo = g.writes := by
    show l.redo ++ g.writes = _
    rw [hb.redo]
    rfl
  refine ⟨fun x hx ↦ ?_, ?_⟩
  · rw [hredo] at hx
    simp only [Local.run, Effect.claims, List.mem_append, List.mem_map]
    exact .inr (.inl (.inr ⟨x, hx, rfl⟩))
  · rw [hredo]
    exact h

def Ready (l : Private) (w : Shared) : Prop := TreeInv w ∧ TreeTx l w

theorem safe_getSession {q : Call α} (hG : ∀ w notes, G.commit w notes → MoveGuard w notes)
    (h : wp treeProtocol G q (fun _ l w ↦ Ready l w) (fun _ _ _ ↦ True) l w) :
    safe treeProtocol G (getSession q) l w := by
  refine wp_bind (wp_mono (fun a l' w' hr ↦ ?_) (fun _ _ _ _ ↦ trivial) h)
  refine wp_bind (wp_save fun w₁ hrely hg ↦ ⟨?_, trivial⟩)
  exact moves_commit hrely.inv (hr.2.rely hr.1 hrely) (hG _ _ hg)

theorem inv_run {g : Statement} (hi : TreeInv w) : TreeInv (w.run g) :=
  hi.congr rfl (Nat.le_add_right _ _)

theorem single_write (k : ℕ) (v : Option Dept) :
    pending [(⟨.depts, i, v⟩ : Write Row)] .depts k = if k = i then some v else none := by
  rw [pending_singleton]
  by_cases hk : k = i
  · rw [if_pos hk, hk, Write.at_self]
  · rw [if_neg hk, Write.at_id_ne (Ne.symm hk)]

/-- A resolved foreign key holds the parent. -/
theorem parentHeld_of_reference {locks : List (Resource Table LockName × Mode)} {d : Dept} {db : Db}
    (h : parentReference db d.parentId = some locks) (hdb : ∀ k, db.rows .depts k = w.db.rows .depts k)
    (hl : locks ⊆ l.held) : ParentHeld l w d := by
  intro p hp
  simp only [parentReference, hp] at h
  split at h
  · next hx =>
    cases h
    obtain ⟨x, hx⟩ := Option.isSome_iff_exists.1 hx
    exact ⟨⟨.shared, hl List.mem_cons_self⟩, x, (hdb p).symm.trans hx⟩
  · cases h

theorem wp_create {payload : DeptCreate} {Q : ℕ × Dept → Private → Shared → Prop} (hb : Blank l)
    (hQ : ∀ x l' w', Ready l' w' → Q x l' w') :
    wp treeProtocol G (DeptRepository.create payload) Q (fun _ _ _ ↦ True) l w := by
  refine wp_query fun w' hr ↦ ?_
  cases hp : parentReference (w'.view l).db payload.parentId with
  | none => trivial
  | some locks =>
    by_cases hc : codeTaken (w'.view l).db none payload.code = true
    · simp only [if_pos hc]
    · simp only [if_neg hc]
      refine fun _ ↦ ⟨trivial, hQ _ _ _ ⟨inv_run hr.inv, tx_blank hb (.inr ⟨w'.next, _, ?_,
        fun k ↦ single_write k _⟩)⟩⟩
      refine .create _ ?_ ?_ (Nat.lt_succ_self _) (parentHeld_of_reference hp (hb.row _) fun c hc ↦ ?_)
      · simp [Local.run, Effect.claims]
      · cases hn : w'.db.rows .depts w'.next with
        | none => exact hn
        | some d => exact absurd (hr.inv.below _ d hn) (Nat.lt_irrefl _)
      · simp [Local.run, Effect.claims, hc]

theorem wp_delete {Q : Unit → Private → Shared → Prop} (hb : Blank l) (hl : LocksTree l)
    (hQ : ∀ l' w', Ready l' w' → Q () l' w') :
    wp treeProtocol G (DeptRepository.delete i) Q (fun _ _ _ ↦ True) l w := by
  refine wp_query fun w' hr ↦ ?_
  by_cases hc : childIds (w'.view l).db i = []
  · rw [if_pos hc]
    refine fun _ ↦ ⟨rfl, hQ _ _ ⟨inv_run hr.inv, tx_blank hb ?_⟩⟩
    have hdepts : ∀ k, pending ((w'.view l).db.update .users (fun _ u ↦ decide (u.deptId = some i))
        (fun u ↦ { u with deptId := none }) ++
        (w'.view l).db.delete .roleDepts (fun _ (r : RoleDept) ↦ decide (r.deptId = i)) ++
        (w'.view l).db.delete .depts fun j _ ↦ decide (j = i)) .depts k =
        pending ((w'.view l).db.delete .depts fun j _ ↦ decide (j = i)) .depts k := by
      intro k
      rw [pending_append, pending_append, update_other (show Table.users ≠ .depts by decide),
        delete_other (show Table.roleDepts ≠ .depts by decide)]
      exact Option.or_none
    cases hd : (w'.view l).db.rows .depts i with
    | none =>
      refine .inl fun k ↦ (hdepts k).trans ?_
      cases hk : pending ((w'.view l).db.delete .depts fun j _ ↦ decide (j = i)) .depts k with
      | none => rfl
      | some v =>
        obtain ⟨d, hd', hki, -⟩ := pending_delete hk
        rw [of_decide_eq_true hki, hd] at hd'
        cases hd'
    | some d =>
      refine .inr ⟨i, none, .delete d (List.mem_append_left _ hl) ((hb.row _ _).symm.trans hd)
        fun k d' hk hp ↦ ?_, fun k ↦ (hdepts k).trans ?_⟩
      · have hm : k ∈ childIds (w'.view l).db i := by
          rw [mem_childIds, hb.parentOf]
          exact parentOf_eq_some.2 ⟨d', hk, hp⟩
        rw [hc] at hm
        cases hm
      · by_cases hki : k = i
        · rw [if_pos hki, hki]
          exact pending_delete_self hd (by simp)
        · rw [if_neg hki]
          cases hk : pending ((w'.view l).db.delete .depts fun j _ ↦ decide (j = i)) .depts k with
          | none => rfl
          | some v =>
            obtain ⟨-, -, hk', -⟩ := pending_delete hk
            exact absurd (of_decide_eq_true hk') hki
  · rw [if_neg hc]
    trivial

/-- The checks of a move to `a` have passed and still hold. -/
def Cleared (l : Private) (w : Shared) (i : ℕ) (a : Option ℕ) : Prop :=
  TreeInv w ∧ LocksTree l ∧
    ∀ p, a = some p → Unrelated w i p ∧ ∃ d : Dept, w.db.rows .depts p = some d

theorem cleared_rely {a : Option ℕ} (h : Cleared l w i a) (hr : Rely treeProtocol l w w') :
    Cleared l w' i a := by
  obtain ⟨hi, hl, hp⟩ := h
  refine ⟨hr.inv, hl, fun p ha ↦ ?_⟩
  obtain ⟨hu, d, hd⟩ := hp p ha
  have hk : TreeKept w w' := hr.prot _ hl
  obtain ⟨d', hd', -⟩ := hk p d hd
  exact ⟨unrelated_rely hi hu hl hd hr, d', hd'⟩

theorem wp_look {q : Snapshot → α} {Q : α → Private → Shared → Prop}
    {E : Failure → Private → Shared → Prop}
    (hQ : ∀ w', Rely treeProtocol l w w' → Q (q (w'.view l)) l w') :
    wp treeProtocol G (.read q) Q E l w := wp_read hQ

theorem wp_checkCodeUnique {existing : Dept} {Q : Unit → Private → Shared → Prop} (hQ : ∀ w', Q () l w') :
    wp treeProtocol G (checkCodeUnique existing payload) Q (fun _ _ _ ↦ True) l w := by
  unfold checkCodeUnique
  split
  · split
    · exact hQ w
    · refine wp_bind (wp_look fun w' _ ↦ ?_)
      split
      · trivial
      · exact hQ w'
  · exact hQ w

theorem wp_acquireTreeLock {Q : Unit → Private → Shared → Prop} (hb : Blank l)
    (hQ : ∀ l' w', Blank l' → TreeInv w' → LocksTree l' → Q () l' w') :
    wp treeProtocol G acquireTreeLock Q (fun _ _ _ ↦ True) l w := by
  unfold acquireTreeLock acquireTransactionLock
  refine wp_query fun w' hr _ ↦ ⟨rfl, hQ _ _ ⟨?_, ?_⟩ (inv_run hr.inv) ?_⟩
  · show l.redo ++ [] = []
    rw [hb.redo]
    rfl
  · show l.notes ++ [] = []
    rw [hb.notes]
    rfl
  · simp [LocksTree, Local.run, Effect.claims]

theorem wp_checkNoCycle {Q : Unit → Private → Shared → Prop} (hb : Blank l) (hl : LocksTree l)
    (hx : p ≠ i → ∃ d : Dept, w.db.rows .depts p = some d)
    (hQ : ∀ w', Cleared l w' i (some p) → Q () l w') :
    wp treeProtocol G (checkNoCycle i p) Q (fun _ _ _ ↦ True) l w := by
  unfold checkNoCycle
  by_cases hpi : p = i
  · simp only [if_pos hpi]
    trivial
  · simp only [if_neg hpi]
    refine wp_bind (wp_look fun w' hr ↦ ?_)
    have hk : TreeKept w w' := hr.prot _ hl
    obtain ⟨d, hd⟩ := hx hpi
    obtain ⟨d', hd', -⟩ := hk p d hd
    by_cases hm : p ∈ descendantDeptIds (w'.view l).db i
    · rw [if_pos hm]
      trivial
    · rw [if_neg hm]
      refine hQ w' ⟨hr.inv, hl, fun q hq ↦ ?_⟩
      cases hq
      refine ⟨fun n hn hc ↦ hm ?_, d', hd'⟩
      rw [mem_descendantDeptIds, hb.row, hb.parentOf]
      obtain ⟨x, hx⟩ := exists_of_climb hr.inv hd' hc
      exact ⟨Option.isSome_iff_exists.2 ⟨x, hx⟩, n, hn, hc⟩

theorem wp_checkMove {a : Option ℕ} {scope : Option DataScope} {Q : Unit → Private → Shared → Prop}
    (hb : Blank l) (hQ : ∀ l' w', Blank l' → Cleared l' w' i a → Q () l' w') :
    wp treeProtocol G (checkMove i a scope) Q (fun _ _ _ ↦ True) l w := by
  unfold checkMove
  refine wp_bind (wp_acquireTreeLock hb fun l₁ w₁ hb₁ hi₁ hl₁ ↦ ?_)
  cases a with
  | none =>
    by_cases hs : hides scope none = true
    · simp only [if_pos hs]
      trivial
    · simp only [if_neg hs]
      exact hQ l₁ w₁ hb₁ ⟨hi₁, hl₁, fun p hp ↦ by cases hp⟩
  | some p =>
    by_cases hs : hides scope (some p) = true
    · simp only [if_pos hs]
      trivial
    · by_cases hpi : p ≠ i
      · simp only [if_neg hs, if_pos hpi]
        refine wp_bind (wp_look fun w₂ hr₂ ↦ ?_)
        cases hd : (w₂.view l₁).db.rows .depts p with
        | none => trivial
        | some d =>
          exact wp_checkNoCycle hb₁ hl₁ (fun _ ↦ ⟨d, (hb₁.row _ _).symm.trans hd⟩)
            fun w' hc ↦ hQ l₁ w' hb₁ hc
      · simp only [if_neg hs, if_neg hpi]
        exact wp_checkNoCycle hb₁ hl₁ (fun h ↦ absurd h hpi) fun w' hc ↦ hQ l₁ w' hb₁ hc

theorem wp_update {Q : Dept → Private → Shared → Prop} (hb : Blank l)
    (hm : ∀ a, payload.parentId = some a → Cleared l w i a) (hQ : ∀ x l' w', Ready l' w' → Q x l' w') :
    wp treeProtocol G (DeptRepository.update i loaded payload) Q (fun _ _ _ ↦ True) l w := by
  refine wp_query fun w' hr ↦ ?_
  by_cases hnull : hasNull payload = true
  · rw [if_pos hnull]
    trivial
  · rw [if_neg hnull]
    cases hd : (w'.view l).db.rows .depts i with
    | none => trivial
    | some d =>
      rw [hb.row] at hd
      by_cases hdirty : (!isDirty loaded payload) = true
      · simp only [if_pos hdirty]
        exact fun _ ↦ ⟨trivial, hQ _ _ _ ⟨inv_run hr.inv, tx_blank hb (.inl fun _ ↦ rfl)⟩⟩
      · simp only [if_neg hdirty]
        generalize href : (if dirty loaded.parentId payload.parentId = true then
          parentReference (w'.view l).db (patch loaded payload d).parentId else some []) = ref
        cases ref with
        | none => trivial
        | some locks =>
          dsimp only
          by_cases hcode : (dirty (some loaded.code) payload.code &&
              codeTaken (w'.view l).db (some i) (patch loaded payload d).code) = true
          · simp only [if_pos hcode]
          · simp only [if_neg hcode]
            refine fun _ ↦ ⟨trivial, hQ _ _ _ ⟨inv_run hr.inv, tx_blank hb (.inr ⟨i, _, ?_,
              fun k ↦ single_write k _⟩)⟩⟩
            cases hmoved : dirty loaded.parentId payload.parentId with
            | false => exact .keep d _ hd (flushed_eq_of_clean hmoved)
            | true =>
              obtain ⟨-, hl, hun⟩ := cleared_rely (hm _ (eq_flushed_of_dirty (b := d.parentId) hmoved)) hr
              rw [hmoved, if_pos rfl] at href
              refine .move d _ (List.mem_append_left _ hl) hd
                (parentHeld_of_reference href (hb.row _) fun c hc ↦ ?_) fun p hp ↦ ⟨?_, (hun p hp).1⟩
              · simp [Local.run, Effect.claims, hc]
              · simp [Local.run, hp]

section Calls

variable (hG : ∀ w notes, G.commit w notes → MoveGuard w notes)

theorem blank_init : Blank {} := ⟨rfl, rfl⟩

include hG

theorem safe_create (payload : DeptCreate) (scope : Option DataScope) :
    safe treeProtocol G (getSession (Service.create payload scope)) {} w := by
  refine safe_getSession hG ?_
  have hlast : ∀ w, wp treeProtocol G (do
      let x ← DeptRepository.create payload
      pure (⟨x.1, x.2⟩ : DeptRead)) (fun _ l w ↦ Ready l w) (fun _ _ _ ↦ True) {} w := by
    intro w
    exact wp_bind (wp_create blank_init fun x l' w' hr ↦ hr)
  have hcode : ∀ w, wp treeProtocol G (do
      if ← findByCode payload.code then raise (duplicate payload.code)
      let x ← DeptRepository.create payload
      pure (⟨x.1, x.2⟩ : DeptRead)) (fun _ l w ↦ Ready l w) (fun _ _ _ ↦ True) {} w := by
    intro w
    refine wp_bind (wp_look fun w' hr ↦ ?_)
    split
    · trivial
    · exact hlast w'
  unfold Service.create
  by_cases hs : hides scope payload.parentId = true
  · simp only [if_pos hs]
    trivial
  · simp only [if_neg hs]
    cases payload.parentId with
    | none => exact hcode w
    | some p =>
      refine wp_bind (wp_look fun w' hr ↦ ?_)
      cases (w'.view {}).db.rows .depts p with
      | none => trivial
      | some d => exact hcode w'

theorem safe_update (payload : DeptUpdate) (scope : Option DataScope) :
    safe treeProtocol G (getSession (Service.update i payload scope)) {} w := by
  refine safe_getSession hG (wp_bind (wp_look fun w₁ hr₁ ↦ ?_))
  cases (w₁.view {}).db.rows .depts i with
  | none => trivial
  | some existing =>
    have hlast : ∀ l w, Blank l → (∀ a, payload.parentId = some a → Cleared l w i a) →
        wp treeProtocol G (do
          let row ← DeptRepository.update i existing payload
          pure (⟨i, row⟩ : DeptRead)) (fun _ l w ↦ Ready l w) (fun _ _ _ ↦ True) l w :=
      fun l w hb hm ↦ wp_bind (wp_update hb hm fun x l' w' hr ↦ hr)
    by_cases hs : hides scope (some i) = true
    · simp only [if_pos hs]
      trivial
    · simp only [if_neg hs]
      refine wp_bind (wp_checkCodeUnique fun w₂ ↦ ?_)
      cases hp : payload.parentId with
      | none => exact hlast {} w₂ blank_init fun a ha ↦ by rw [hp] at ha; cases ha
      | some a =>
        refine wp_bind (wp_checkMove blank_init fun l' w' hb hc ↦ hlast l' w' hb fun a' ha ↦ ?_)
        rw [hp] at ha
        cases ha
        exact hc

theorem safe_delete (scope : Option DataScope) :
    safe treeProtocol G (getSession (Service.delete i scope)) {} w := by
  refine safe_getSession hG (wp_bind (wp_look fun w₁ hr₁ ↦ ?_))
  cases (w₁.view {}).db.rows .depts i with
  | none => trivial
  | some existing =>
    by_cases hs : hides scope (some i) = true
    · simp only [if_pos hs]
      trivial
    · simp only [if_neg hs]
      refine wp_bind (wp_acquireTreeLock blank_init fun l₂ w₂ hb hi hl ↦ ?_)
      refine wp_bind (wp_look fun w₃ hr₃ ↦ ?_)
      split
      · trivial
      · exact wp_delete hb hl fun l' w' hr ↦ hr

end Calls

end AdminPlatform.Dept.TreeSafety
