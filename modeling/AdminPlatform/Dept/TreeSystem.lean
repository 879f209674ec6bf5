import AdminPlatform.Dept.TreeSafety

namespace AdminPlatform.Dept.TreeSystem

open Model.Schema Model.Service Model.Scope Foundation.Relational Foundation.Transaction
open Foundation.Interleaving Foundation.RelyGuarantee Foundation.Forest
open Service DeptRepository TreeInvariant TreeTransaction TreeSafety

variable {w : Shared} {S : State Table Row LockName Storage Note Failure Unit}

inductive DeptOp
  | create (payload : DeptCreate) (scope : Option DataScope)
  | update (itemId : ℕ) (payload : DeptUpdate) (scope : Option DataScope)
  | delete (itemId : ℕ) (scope : Option DataScope)

def DeptOp.call : DeptOp → Call Unit
  | .create payload scope => do
    let _ ← getSession (Service.create payload scope)
    pure ()
  | .update itemId payload scope => do
    let _ ← getSession (Service.update itemId payload scope)
    pure ()
  | .delete itemId scope => getSession (Service.delete itemId scope)

def moveGuard : Guard Table Row LockName Storage Note := ⟨fun _ _ ↦ True, MoveGuard⟩

theorem safe_call (op : DeptOp) (w : Shared) : safe treeProtocol moveGuard op.call {} w := by
  have hG : ∀ w notes, moveGuard.commit w notes → MoveGuard w notes := fun _ _ h ↦ h
  cases op with
  | create payload scope =>
    exact wp_bind (wp_mono (fun _ _ _ _ ↦ trivial) (fun _ _ _ h ↦ h) (safe_create hG payload scope))
  | update itemId payload scope =>
    exact wp_bind (wp_mono (fun _ _ _ _ ↦ trivial) (fun _ _ _ h ↦ h) (safe_update hG payload scope))
  | delete itemId scope => exact safe_delete hG scope

def IsForest (db : Db) : Prop := ∀ i (d : Dept), db.rows .depts i = some d →
  (∀ p, d.parentId = some p → ∃ d' : Dept, db.rows .depts p = some d') ∧
  ∃ n r, ∃ e : Dept, climb (parentOf db) n i = some r ∧ db.rows .depts r = some e ∧ e.parentId = none

theorem isForest_of_inv (h : TreeInv w) : IsForest w.db := by
  intro i d hd
  refine ⟨fun p ↦ h.parent i d p hd, ?_⟩
  obtain ⟨n, r, hn, hr⟩ := (h.rooted i).climb
  obtain ⟨e, he⟩ := exists_of_climb h hd hn
  refine ⟨n, r, e, hn, he, ?_⟩
  rw [parentOf, he] at hr
  exact hr

theorem treeInv_of_empty (h : ∀ i, w.db.rows .depts i = none) : TreeInv w where
  below i d hd := by rw [h i] at hd; cases hd
  parent i d p hd := by rw [h i] at hd; cases hd
  rooted i := rooted_of_none (by rw [parentOf, h i]; rfl)

/-- The departments stay a forest in every interleaving whose moves are not too deep. -/
theorem forest_of_reach (hw : ∀ i, w.db.rows .depts i = none)
    (h : Reach DeptOp.call .crash moveGuard w S) : IsForest S.world.db :=
  isForest_of_inv (sound_of_reach (P := treeProtocol) (fun op w _ ↦ safe_call op w)
    (treeInv_of_empty hw) h).inv

def oneByOne (ops : List DeptOp) : List (Label DeptOp) :=
  ops.zipIdx.flatMap fun x ↦ .start x.1 :: List.replicate 7 (.step x.2)

def noDepts : Shared where
  now := 0
  next := 0
  ext := ⟨[], []⟩
  db := Store.empty
  log := []

def newDept (k : ℕ) (parentId : Option ℕ) : DeptOp :=
  .create { name := "", code := String.singleton (Char.ofNat (k + 65)), parentId := parentId } none

def checkMoves (w : Shared) (notes : List Note) : Bool :=
  notes.all fun
    | .deptMoved _ p => (climb (parentOf w.db) (_MAX_DEPT_DEPTH + 1) p).isNone
    | _ => true

theorem moveGuard_of_check {notes : List Note} (h : checkMoves w notes = true) :
    MoveGuard w notes := by
  intro i p hm n hn hc
  unfold checkMoves at h
  have hp := List.all_eq_true.1 h _ hm
  have hnone : climb (parentOf w.db) (_MAX_DEPT_DEPTH + 1) p = none := by simpa using hp
  obtain ⟨k, rfl⟩ : ∃ k, n = _MAX_DEPT_DEPTH + 1 + k := ⟨n - (_MAX_DEPT_DEPTH + 1), by omega⟩
  rw [climb_add, hnone] at hc
  cases hc

def smallTree : List DeptOp :=
  [newDept 0 none, newDept 1 none, newDept 2 (some 0), .update 2 { parentId := some (some 1) } none]

theorem forest_of_reach_smallTree : ∃ S, Reach DeptOp.call .crash moveGuard noDepts S ∧
    parentOf S.world.db 2 = some 1 ∧ IsForest S.world.db := by
  have hrun : ∃ S, Reach DeptOp.call .crash moveGuard noDepts S ∧
      decide (parentOf S.world.db 2 = some 1) = true :=
    exists_reach_of_follow checkMoves (oneByOne smallTree) (fun _ _ ↦ trivial)
      (fun _ _ ↦ moveGuard_of_check) (by decide +kernel)
  obtain ⟨S, hS, hp⟩ := hrun
  exact ⟨S, hS, of_decide_eq_true hp, forest_of_reach (fun _ ↦ rfl) hS⟩

section Deep

open Prog

theorem exec_getSession {α : Type} {q : Call α} {a : α} {l : Private} {w' : Shared}
    (h : q.runs {} w = (.ok a, l, w')) : (getSession q).runs {} w = (.ok a, l.commit, w'.commit l) :=
  (runs_bind h).trans rfl

/-- The `k`-th department of a chain. -/
def link (k : ℕ) : Dept where
  parentId := if k = 0 then none else some (k - 1)
  name := ""
  code := String.ofList (List.replicate k 'x')
  sortOrder := 0
  status := .active
  leader := none
  phone := none
  email := none

def addLink (k : ℕ) : DeptCreate where
  name := ""
  code := (link k).code
  parentId := (link k).parentId

/-- The departments are one chain of length `n`. -/
structure IsChain (w : Shared) (n : ℕ) : Prop where
  next : w.next = n
  rows : ∀ k, w.db.rows .depts k = if k < n then some (link k) else none

theorem link_code_inj {j k : ℕ} (h : (link j).code = (link k).code) : j = k := by
  have hl := congrArg String.length h
  simpa [link] using hl

theorem codeTaken_link {n : ℕ} (h : IsChain w n) : codeTaken w.db none (link n).code = false := by
  simp only [codeTaken, Bool.not_eq_false', List.isEmpty_iff]
  refine List.eq_nil_iff_forall_not_mem.2 fun ⟨k, d⟩ hm ↦ ?_
  rw [mem_select, h.rows] at hm
  obtain ⟨hk, hc⟩ := hm
  split at hk
  · next hlt =>
    cases hk
    simp only [ne_eq, reduceCtorEq, not_false_eq_true, true_and, decide_eq_true_eq] at hc
    have he := link_code_inj hc
    omega
  · cases hk

theorem rows_parent {n : ℕ} (h : IsChain w n) (hn : 0 < n) :
    w.db.rows .depts (n - 1) = some (link (n - 1)) := by
  rw [h.rows, if_pos (by omega)]

theorem runs_insert {n : ℕ} (h : IsChain w n) : ∃ l', l'.redo = [⟨.depts, n, some (link n)⟩] ∧
    (DeptRepository.create (addLink n)).runs {} w = (.ok (n, link n), l', { w with next := n + 1 }) := by
  have hn := h.next
  subst hn
  have href : ∃ locks, parentReference (w.view ({} : Private)).db (link w.next).parentId = some locks := by
    by_cases hn : w.next = 0
    · exact ⟨[], by simp [link, hn, parentReference]⟩
    · have hx : (w.view ({} : Private)).db.rows .depts (w.next - 1) = some (link (w.next - 1)) :=
        rows_parent h (Nat.pos_of_ne_zero hn)
      exact ⟨_, by simp only [link, if_neg hn, parentReference, hx, Option.isSome_some, if_true]; rfl⟩
  obtain ⟨locks, href⟩ := href
  have hcode : codeTaken (w.view ({} : Private)).db none (link w.next).code = false :=
    codeTaken_link (w := { w with db := (w.view ({} : Private)).db }) ⟨rfl, h.rows⟩
  let g : Statement := {
    locks := (.named (.unique .depts (link w.next).code), .exclusive) :: locks
    fresh := 1
    writes := [⟨.depts, w.next, some (link w.next)⟩] }
  refine ⟨({} : Private).run g w.next, rfl, runs_query (g := g) ?_⟩
  rw [show (addLink w.next).parentId = (link w.next).parentId from rfl, href]
  simp only [addLink, hcode, Bool.false_eq_true, if_false]
  rfl

theorem runs_addLink {n : ℕ} (h : IsChain w n) : ∃ l', l'.redo = [⟨.depts, n, some (link n)⟩] ∧
    (Service.create (addLink n) none).runs {} w =
      (.ok ⟨n, link n⟩, l', { w with next := n + 1 }) := by
  obtain ⟨l', hl', hinsert⟩ := runs_insert h
  have hcode : codeTaken (w.view ({} : Private)).db none (link n).code = false :=
    codeTaken_link (w := { w with db := (w.view ({} : Private)).db }) ⟨h.next, h.rows⟩
  have hrest : (do
      if ← findByCode (addLink n).code then raise (duplicate (addLink n).code)
      let x ← DeptRepository.create (addLink n)
      pure (⟨x.1, x.2⟩ : DeptRead)).runs {} w = (.ok ⟨n, link n⟩, l', { w with next := n + 1 }) := by
    refine (runs_bind (runs_read _ {} w)).trans ?_
    simp only [addLink, hcode, Bool.false_eq_true, if_false]
    exact (runs_bind hinsert).trans rfl
  refine ⟨l', hl', ?_⟩
  by_cases hn : n = 0
  · subst hn
    exact hrest
  · have hpar : (addLink n).parentId = some (n - 1) := if_neg hn
    unfold Service.create
    rw [hpar]
    refine (runs_bind (runs_read _ {} w)).trans ?_
    have hx : (w.view ({} : Private)).db.rows .depts (n - 1) = some (link (n - 1)) :=
      rows_parent h (Nat.pos_of_ne_zero hn)
    rw [hx]
    exact hrest

theorem exec_addLink {n : ℕ} (h : IsChain w n) :
    IsChain ((DeptOp.call (.create (addLink n) none)).exec w).1 (n + 1) := by
  obtain ⟨l', hl', hrun⟩ := runs_addLink h
  have hexec : ((DeptOp.call (.create (addLink n) none)).exec w).1 =
      ({ w with next := n + 1 } : Shared).commit l' := by
    rw [exec, DeptOp.call, runs_bind (exec_getSession hrun)]
    rfl
  rw [hexec]
  refine ⟨rfl, fun k ↦ ?_⟩
  rw [commit_db, apply_rows, hl', single_write]
  by_cases hk : k = n
  · rw [if_pos hk, if_pos (by omega), hk]
    rfl
  · rw [if_neg hk]
    refine (h.rows k).trans ?_
    by_cases hlt : k < n
    · rw [if_pos hlt, if_pos (by omega)]
    · rw [if_neg hlt, if_neg (by omega)]

theorem reach_chain (n : ℕ) :
    ∃ S, Reach DeptOp.call .crash .free noDepts S ∧ S.Free ∧ IsChain S.world n := by
  induction n with
  | zero => exact ⟨_, .init, free_init _, rfl, fun k ↦ rfl⟩
  | succ n ih =>
    obtain ⟨S, hS, hfree, hn⟩ := ih
    obtain ⟨S', hS', hfree', hw⟩ := reach_exec hS hfree (.create (addLink n) none)
    exact ⟨S', hS', hfree', hw ▸ exec_addLink hn⟩

theorem climb_links {parent : ℕ → Option ℕ} {n k m : ℕ}
    (h : ∀ k, 0 < k → k < n → parent k = some (k - 1)) (hk : k < n) (hm : m ≤ k) :
    climb parent m k = some (k - m) := by
  induction m generalizing k with
  | zero => rfl
  | succ m ih =>
    rw [climb_succ, h k (by omega) hk, Option.bind_some, ih (by omega) (by omega)]
    congr 1
    omega

theorem parentOf_chain {n k : ℕ} (h : IsChain w n) (hk : 0 < k) (hn : k < n) :
    parentOf w.db k = some (k - 1) := by
  rw [parentOf, h.rows, if_pos hn]
  exact if_neg (Nat.ne_of_gt hk)

theorem not_mem_descendants {n : ℕ} (h : IsChain w n) (hn : 65 < n) :
    n - 1 ∉ descendantDeptIds w.db 0 := by
  intro hm
  obtain ⟨-, k, hk, hc⟩ := mem_descendantDeptIds.1 hm
  have hk' : k ≤ 64 := hk
  rw [climb_links (n := n) (fun j hj hjn ↦ parentOf_chain h hj hjn) (by omega) (by omega)] at hc
  have he := Option.some.inj hc
  omega

def moveRoot (n : ℕ) : DeptUpdate where
  parentId := some (some (n - 1))

theorem runs_acquireTreeLock : ∃ l', l'.redo = [] ∧
    acquireTreeLock.runs {} w = (.ok (), l', w) := by
  let g : Statement := { locks := [(.named .deptTree, .exclusive)] }
  exact ⟨({} : Private).run g w.next, rfl, rfl⟩

theorem view_blank {l : Private} (hl : l.redo = []) : w.view l = w.view ({} : Private) := by
  unfold World.view
  rw [hl]

theorem runs_checkMove {n : ℕ} (h : IsChain w n) (hn : 65 < n) : ∃ l', l'.redo = [] ∧
    (checkMove 0 (some (n - 1)) none).runs {} w = (.ok (), l', w) := by
  obtain ⟨l', hl', hlock⟩ := runs_acquireTreeLock (w := w)
  have hdb : IsChain { w with db := (w.view ({} : Private)).db } n := ⟨h.next, h.rows⟩
  have hne : n - 1 ≠ 0 := by omega
  refine ⟨l', hl', (runs_bind hlock).trans ?_⟩
  show (if n - 1 ≠ 0 then _ else _ : Call Unit).runs l' w = _
  rw [if_pos hne]
  refine (runs_bind (runs_read _ l' w)).trans ?_
  have hx : (w.view l').db.rows .depts (n - 1) = some (link (n - 1)) := by
    rw [view_blank hl']
    exact rows_parent h (by omega)
  rw [hx]
  show (checkNoCycle 0 (n - 1)).runs l' w = _
  unfold checkNoCycle
  simp only [if_neg hne]
  refine (runs_bind (runs_read _ l' w)).trans ?_
  rw [view_blank hl', if_neg (not_mem_descendants hdb hn)]
  rfl

theorem runs_moveRoot {n : ℕ} (h : IsChain w n) (hn : 65 < n) : ∃ l',
    l'.redo = [⟨.depts, 0, some { link 0 with parentId := some (n - 1) }⟩] ∧
    (Service.update 0 (moveRoot n) none).runs {} w =
      (.ok ⟨0, { link 0 with parentId := some (n - 1) }⟩, l', w) := by
  obtain ⟨l₁, hl₁, hcheck⟩ := runs_checkMove h hn
  have h0 : (w.view ({} : Private)).db.rows .depts 0 = some (link 0) :=
    (h.rows 0).trans (if_pos (by omega))
  have hp : (w.view ({} : Private)).db.rows .depts (n - 1) = some (link (n - 1)) :=
    rows_parent h (by omega)
  let g : Statement := {
    locks := [(.row .depts (n - 1), .shared)]
    writes := [⟨.depts, 0, some { link 0 with parentId := some (n - 1) }⟩]
    notes := [.deptMoved 0 (n - 1)] }
  refine ⟨l₁.run g w.next, ?_, ?_⟩
  · show l₁.redo ++ g.writes = g.writes
    rw [hl₁, List.nil_append]
  · unfold Service.update
    refine (runs_bind (runs_read _ {} w)).trans ?_
    rw [h0]
    have hcode : (checkCodeUnique (link 0) (moveRoot n)).runs {} w = (.ok (), {}, w) := rfl
    refine (runs_bind hcode).trans ?_
    refine (runs_bind hcheck).trans ?_
    have hq : (DeptRepository.update 0 (link 0) (moveRoot n)).runs l₁ w =
        (.ok { link 0 with parentId := some (n - 1) }, l₁.run g w.next, w.run g) := by
      refine runs_query ?_
      have hdirty : isDirty (link 0) (moveRoot n) = true := rfl
      have hpatch : patch (link 0) (moveRoot n) (link 0) =
          { link 0 with parentId := some (n - 1) } := rfl
      have href : parentReference (w.view ({} : Private)).db (some (n - 1)) =
          some [(.row .depts (n - 1), .shared)] := by
        rw [parentReference, hp]
        rfl
      rw [view_blank hl₁]
      rw [h0]
      simp only [hdirty, hpatch]
      rw [href]
      rfl
    exact (runs_bind hq).trans rfl

theorem exec_moveRoot {n : ℕ} (h : IsChain w n) (hn : 65 < n) :
    let w' := ((DeptOp.call (.update 0 (moveRoot n) none)).exec w).1
    parentOf w'.db 0 = some (n - 1) ∧ ∀ k, 0 < k → k < n → parentOf w'.db k = some (k - 1) := by
  obtain ⟨l', hl', hrun⟩ := runs_moveRoot h hn
  have hexec : ((DeptOp.call (.update 0 (moveRoot n) none)).exec w).1 = w.commit l' := by
    rw [exec, DeptOp.call, runs_bind (exec_getSession hrun)]
    rfl
  intro w'
  have hrow : ∀ k, w'.db.rows .depts k =
      if k = 0 then some { link 0 with parentId := some (n - 1) } else w.db.rows .depts k := by
    intro k
    show (((DeptOp.call (.update 0 (moveRoot n) none)).exec w).1).db.rows .depts k = _
    rw [hexec, commit_db, apply_rows, hl', single_write]
    split <;> rfl
  refine ⟨?_, fun k hk hkn ↦ ?_⟩
  · rw [parentOf, hrow, if_pos rfl]
    rfl
  · have hk' : w'.db.rows .depts k = w.db.rows .depts k := by rw [hrow, if_neg (by omega)]
    rw [parentOf, hk']
    exact parentOf_chain h hk hkn

theorem not_rooted_moveRoot {parent : ℕ → Option ℕ} {n : ℕ} (h0 : parent 0 = some (n - 1))
    (hk : ∀ k, 0 < k → k < n → parent k = some (k - 1)) (hn : 0 < n) : ¬ Rooted parent 0 := by
  obtain ⟨k, rfl⟩ : ∃ k, n = k + 1 := ⟨n - 1, by omega⟩
  have hup : climb parent k k = some (k - k) := climb_links hk (by omega) (Nat.le_refl _)
  refine not_rooted_of_climb (n := k + 1) (by omega) ?_
  rw [climb_succ, h0, Nat.add_sub_cancel, Option.bind_some, hup, Nat.sub_self]

/-- A chain of 66 departments, whose first is then moved under the last. -/
theorem not_isForest_deepMove :
    ∃ S, Reach DeptOp.call .crash .free noDepts S ∧ ¬ IsForest S.world.db := by
  obtain ⟨n, hn⟩ : ∃ n, n = 66 := ⟨_, rfl⟩
  obtain ⟨S, hS, hfree, hchain⟩ := reach_chain n
  obtain ⟨S', hS', -, hw⟩ := reach_exec hS hfree (.update 0 (moveRoot n) none)
  refine ⟨S', hS', fun hforest ↦ ?_⟩
  obtain ⟨h0, hk⟩ := exec_moveRoot hchain (by omega)
  rw [← hw] at h0 hk
  obtain ⟨d, hd, -⟩ := parentOf_eq_some.1 h0
  obtain ⟨-, m, r, e, hm, he, hr⟩ := hforest 0 d hd
  have hroot : parentOf S'.world.db r = none := by rw [parentOf, he]; exact hr
  exact not_rooted_moveRoot h0 hk (by omega) (rooted_of_climb hm hroot)

end Deep

end AdminPlatform.Dept.TreeSystem
