import AdminPlatform.Dept.TreeInvariant

namespace AdminPlatform.Dept.TreeTransaction

open Model.Schema Model.Service Foundation.Relational Foundation.Transaction
open Foundation.Interleaving Foundation.RelyGuarantee Foundation.Forest
open Service DeptRepository TreeInvariant

def LocksTree (l : Private) : Prop := (.named .deptTree, .exclusive) ∈ l.held

def ParentHeld (l : Private) (w : Shared) (d : Dept) : Prop := ∀ p, d.parentId = some p →
  (∃ m, (.row .depts p, m) ∈ l.held) ∧ ∃ x : Dept, w.db.rows .depts p = some x

/-- No ancestor of `p` that the check looks at is `i`. -/
def Unrelated (w : Shared) (i p : ℕ) : Prop :=
  ∀ n ≤ _MAX_DEPT_DEPTH, climb (parentOf w.db) n p ≠ some i

/-- What a session's write to a department may be. -/
inductive TreeWrite (l : Private) (w : Shared) (i : ℕ) : Option Dept → Prop
  | create (d' : Dept) : (.own i, .exclusive) ∈ l.held → w.db.rows .depts i = none → i < w.next →
      ParentHeld l w d' → TreeWrite l w i (some d')
  | keep (d d' : Dept) : w.db.rows .depts i = some d → d'.parentId = d.parentId →
      TreeWrite l w i (some d')
  | move (d d' : Dept) : LocksTree l → w.db.rows .depts i = some d → ParentHeld l w d' →
      (∀ p, d'.parentId = some p → Note.deptMoved i p ∈ l.notes ∧ Unrelated w i p) →
      TreeWrite l w i (some d')
  | delete (d : Dept) : LocksTree l → w.db.rows .depts i = some d →
      (∀ k (d' : Dept), w.db.rows .depts k = some d' → d'.parentId ≠ some i) → TreeWrite l w i none

/-- Where an unfinished transaction on departments stands: it has written to at most one. -/
structure TreeTx (l : Private) (w : Shared) : Prop where
  covered : Covered l
  write : (∀ k, pending l.redo .depts k = none) ∨ ∃ i v, TreeWrite l w i v ∧
    ∀ k, pending l.redo .depts k = if k = i then some v else none

def MoveGuard (w : Shared) (notes : List Note) : Prop := ∀ i p, Note.deptMoved i p ∈ notes →
  ∀ n, _MAX_DEPT_DEPTH < n → climb (parentOf w.db) n p ≠ some i

variable {w w' : Shared} {l : Private} {i p : ℕ} {d : Dept} {v : Option Dept}

theorem parentHeld_rely (h : ParentHeld l w d) (hr : Rely treeProtocol l w w') :
    ParentHeld l w' d := by
  intro p hp
  obtain ⟨⟨m, hm⟩, x, hx⟩ := h p hp
  exact ⟨⟨m, hm⟩, x, (hr.row _ _ m hm).trans hx⟩

theorem unrelated_rely (hi : TreeInv w) (h : Unrelated w i p) (hl : LocksTree l)
    (hp : w.db.rows .depts p = some d) (hr : Rely treeProtocol l w w') : Unrelated w' i p := by
  intro n hn
  have hk : TreeKept w w' := hr.prot _ hl
  rw [climb_of_kept hi hk hp]
  exact h n hn

theorem treeWrite_rely (hi : TreeInv w) (h : TreeWrite l w i v)
    (hheld : (.row .depts i, .exclusive) ∈ l.held) (hr : Rely treeProtocol l w w') :
    TreeWrite l w' i v := by
  have hrow : w'.db.rows .depts i = w.db.rows .depts i := hr.row _ _ _ hheld
  cases h with
  | create d' hown hn hlt hp =>
    exact .create d' hown (hrow.trans hn) (Nat.lt_of_lt_of_le hlt hr.later.next) (parentHeld_rely hp hr)
  | keep d d' hd he => exact .keep d d' (hrow.trans hd) he
  | move d d' hl hd hp hm =>
    refine .move d d' hl (hrow.trans hd) (parentHeld_rely hp hr) fun p hp' ↦ ?_
    obtain ⟨-, x, hx⟩ := hp p hp'
    exact ⟨(hm p hp').1, unrelated_rely hi (hm p hp').2 hl hx hr⟩
  | delete d hl hd hc =>
    refine .delete d hl (hrow.trans hd) fun k d' hk hp ↦ ?_
    have hprot : NoChildAdded i w w' := hr.prot _ hheld
    obtain ⟨d₀, hk₀, hp₀⟩ := hprot k d' hk hp
    exact hc k d₀ hk₀ hp₀

theorem TreeTx.rely (hi : TreeInv w) (h : TreeTx l w) (hr : Rely treeProtocol l w w') :
    TreeTx l w' where
  covered := h.covered
  write := by
    rcases h.write with h₀ | ⟨i, v, hw, hp⟩
    · exact .inl h₀
    · have hself : pending l.redo .depts i = some v := by simp [hp]
      exact .inr ⟨i, v, treeWrite_rely hi hw (h.covered _ (pending_mem hself)) hr, hp⟩

theorem rows_commit (hp : ∀ k, pending l.redo .depts k = if k = i then some v else none) (k : ℕ) :
    (w.commit l).db.rows .depts k = if k = i then v else w.db.rows .depts k := by
  rw [commit_db, apply_rows, hp]
  by_cases hk : k = i <;> simp [hk]

theorem rows_commit_none (hp : ∀ k, pending l.redo .depts k = none) (k : ℕ) :
    (w.commit l).db.rows .depts k = w.db.rows .depts k := by
  rw [commit_db, apply_rows, hp]
  rfl

theorem not_below_missing (hi : TreeInv w) (hp : w.db.rows .depts p = some d)
    (hn : w.db.rows .depts i = none) : ¬ Below (parentOf w.db) p i := by
  intro hb
  obtain ⟨n, hc⟩ := below_iff_climb.1 hb
  obtain ⟨x, hx⟩ := exists_of_climb hi hp hc
  rw [hn] at hx
  cases hx

/-- The new parent of a written department does not lie below it. -/
theorem not_below_new (hi : TreeInv w) (hw : TreeWrite l w i v) (hg : MoveGuard w l.notes)
    (hp : v.bind Dept.parentId = some p) : ¬ Below (parentOf w.db) p i := by
  cases hw with
  | create d' _ hn _ hpar =>
    obtain ⟨-, x, hx⟩ := hpar p hp
    exact not_below_missing hi hx hn
  | keep d d' hd he =>
    intro hb
    obtain ⟨n, hc⟩ := below_iff_climb.1 hb
    have hup : parentOf w.db i = some p := by
      rw [parentOf, hd]
      exact he.symm.trans hp
    refine not_rooted_of_climb (n := n + 1) (Nat.succ_pos n) ?_ (hi.rooted i)
    rw [climb_succ, hup]
    exact hc
  | move d d' hl hd hpar hm =>
    intro hb
    obtain ⟨n, hc⟩ := below_iff_climb.1 hb
    obtain ⟨hnote, hun⟩ := hm p hp
    by_cases hn : n ≤ _MAX_DEPT_DEPTH
    · exact hun n hn hc
    · exact hg i p hnote n (by omega) hc
  | delete d _ _ _ => cases hp

theorem parent_new (hw : TreeWrite l w i v) (hi : TreeInv w) (hp : v.bind Dept.parentId = some p) :
    ∃ x : Dept, w.db.rows .depts p = some x := by
  cases hw with
  | create d' _ _ _ hpar => exact (hpar p hp).2
  | keep d d' hd he => exact hi.parent i d p hd (he ▸ hp)
  | move d d' _ _ hpar _ => exact (hpar p hp).2
  | delete d _ _ _ => cases hp

theorem treeInv_commit (hi : TreeInv w) (h : TreeTx l w) (hg : MoveGuard w l.notes) :
    TreeInv (w.commit l) := by
  rcases h.write with h₀ | ⟨i, v, hw, hp⟩
  · have hpar : parentOf (w.commit l).db = parentOf w.db := by
      funext k
      rw [parentOf, parentOf, rows_commit_none h₀]
    refine ⟨fun k d hk ↦ hi.below k d (rows_commit_none h₀ k ▸ hk), fun k d q hk hq ↦ ?_, ?_⟩
    · rw [rows_commit_none h₀] at hk ⊢
      exact hi.parent k d q hk hq
    · rw [hpar]
      exact hi.rooted
  · have hrow := rows_commit (w := w) hp
    have hkept : ∀ q (x : Dept), w.db.rows .depts q = some x →
        (∀ k d, (w.commit l).db.rows .depts k = some d → d.parentId = some q → v = none → q ≠ i) →
        ∀ k (d : Dept), (w.commit l).db.rows .depts k = some d → d.parentId = some q →
          ∃ x : Dept, (w.commit l).db.rows .depts q = some x := by
      intro q x hx hne k d hk hq
      rw [hrow]
      by_cases hqi : q = i
      · rw [if_pos hqi]
        cases hv : v with
        | none => exact absurd hqi (hne k d hk hq hv)
        | some y => exact ⟨y, rfl⟩
      · rw [if_neg hqi]
        exact ⟨x, hx⟩
    have hnc : ∀ q k (d : Dept), (w.commit l).db.rows .depts k = some d → d.parentId = some q →
        v = none → q ≠ i := by
      intro q k d hk hq hv hqi
      subst hv hqi
      rw [hrow] at hk
      split at hk
      · cases hk
      · cases hw with
        | delete _ _ _ hc => exact hc k d hk hq
    refine ⟨fun k d hk ↦ ?_, fun k d q hk hq ↦ ?_, fun k ↦ ?_⟩
    · rw [hrow] at hk
      split at hk
      · next hki =>
        subst hki
        cases hw with
        | create _ _ _ hlt _ => exact hlt
        | keep d₀ _ hd _ => exact hi.below k d₀ hd
        | move d₀ _ _ hd _ _ => exact hi.below k d₀ hd
        | delete => cases hk
      · exact hi.below k d hk
    · have hx : ∃ x : Dept, w.db.rows .depts q = some x := by
        have hk' := hk
        rw [hrow] at hk'
        split at hk'
        · next hki =>
          subst hk'
          exact parent_new hw hi hq
        · exact hi.parent k d q hk' hq
      obtain ⟨x, hx⟩ := hx
      exact hkept q x hx (hnc q) k d hk hq
    · refine rooted_move (a := i) hi.rooted (fun x hx ↦ ?_) (fun b hb ↦ ?_) k
      · rw [parentOf, parentOf, hrow, if_neg hx]
      · rw [parentOf, hrow, if_pos rfl] at hb
        exact not_below_new hi hw hg hb

theorem treeProt_commit (h : TreeTx l w) {r : Resource Table LockName}
    (hr : ∀ m, (r, m) ∉ l.held) : treeProt r w (w.commit l) := by
  rcases h.write with h₀ | ⟨i, v, hw, hp⟩
  · unfold treeProt
    split
    · intro hn
      rw [rows_commit_none h₀]
      exact hn
    · intro k d hk
      exact ⟨d, (rows_commit_none h₀ k).trans hk, rfl⟩
    · intro k d hk hq
      exact ⟨d, (rows_commit_none h₀ k) ▸ hk, hq⟩
    · trivial
  · have hrow := rows_commit (w := w) hp
    unfold treeProt
    split
    · next u =>
      intro hn
      rw [hrow]
      split
      · next hui =>
        subst hui
        cases hw with
        | create _ hown _ _ _ => exact absurd hown (hr _)
        | keep d _ hd _ => rw [hn] at hd; cases hd
        | move d _ _ hd _ _ => rw [hn] at hd; cases hd
        | delete => rfl
      · exact hn
    · intro k d hk
      rw [hrow]
      split
      · next hki =>
        subst hki
        cases hw with
        | create _ _ hn _ _ => rw [hk] at hn; cases hn
        | keep d₀ d' hd he =>
          have hdd : some d = some d₀ := hk.symm.trans hd
          cases hdd
          exact ⟨d', rfl, he⟩
        | move _ _ hl _ _ _ => exact absurd hl (hr _)
        | delete _ hl _ _ => exact absurd hl (hr _)
      · exact ⟨d, hk, rfl⟩
    · next q =>
      intro k d hk hq
      rw [hrow] at hk
      split at hk
      · next hki =>
        subst hki
        cases hw with
        | create _ _ _ _ hpar =>
          cases hk
          obtain ⟨⟨m, hm⟩, -⟩ := hpar q hq
          exact absurd hm (hr m)
        | keep d₀ _ hd he =>
          cases hk
          exact ⟨d₀, hd, he ▸ hq⟩
        | move _ _ _ _ hpar _ =>
          cases hk
          obtain ⟨⟨m, hm⟩, -⟩ := hpar q hq
          exact absurd hm (hr m)
        | delete => cases hk
      · exact ⟨d, hk, hq⟩
    · trivial

theorem moves_commit (hi : TreeInv w) (h : TreeTx l w) (hg : MoveGuard w l.notes) :
    Moves treeProtocol l.held w (w.commit l) :=
  ⟨treeInv_commit hi h hg, trivial, trivial, fun _ hr ↦ treeProt_commit h hr⟩

end AdminPlatform.Dept.TreeTransaction
