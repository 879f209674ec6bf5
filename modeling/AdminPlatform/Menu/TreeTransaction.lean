import AdminPlatform.Menu.TreeInvariant

namespace AdminPlatform.Menu.TreeTransaction

open Model.Schema Model.Service Foundation.Relational Foundation.Transaction
open Foundation.Interleaving Foundation.RelyGuarantee Foundation.Forest
open Service MenuRepository TreeInvariant

variable {n₀ : ℕ} {w w' : Shared} {l : Private} {i k p : ℕ} {m : Menu} {v : Option Menu}

def LocksTree (l : Private) : Prop := (.named .menuTree, .exclusive) ∈ l.held

def ParentHeld (l : Private) (w : Shared) (m : Menu) : Prop := ∀ p, m.parentId = some p →
  (∃ mode, (.row .menus p, mode) ∈ l.held) ∧ ((w.view l).db.rows .menus p).isSome

/-- What a session's write to a menu may be. -/
inductive MenuWrite (l : Private) (w : Shared) (i : ℕ) : Option Menu → Prop
  | create (m : Menu) : Note.menuCreated i ∈ l.notes → ParentHeld l w m → MenuWrite l w i (some m)
  | keep (m : Menu) : (w.db.rows .menus i).isSome → parentOf w.db i = m.parentId →
      MenuWrite l w i (some m)
  | move (m : Menu) : (w.db.rows .menus i).isSome → ParentHeld l w m →
      LocksTree l ∨ m.parentId = none ∨ Reparented l.notes i → MenuWrite l w i (some m)
  | delete : (w.db.rows .menus i).isSome → (∀ k, parentOf (w.view l).db k ≠ some i) →
      MenuWrite l w i none

/-- What an unfinished transaction has written and noted. -/
structure Written (n₀ : ℕ) (l : Private) (w : Shared) : Prop where
  covered : Covered l
  created : ∀ i, Note.menuCreated i ∈ l.notes →
    (.own i, .exclusive) ∈ l.held ∧ i < w.next ∧ ¬ Born n₀ w i
  writes : ∀ i v, pending l.redo .menus i = some v → MenuWrite l w i v

/-- Whoever keeps or cuts the links seen leaves `i` out of the ancestors of `p`. -/
def Checked (above : List (ℕ × Option ℕ)) (i p : ℕ) : Prop := ∀ parent' : ℕ → Option ℕ,
  (∀ x ∈ above, parent' x.1 = x.2 ∨ parent' x.1 = none) → ¬ Below parent' p i

def Settled (n₀ : ℕ) (w : Shared) (above : List (ℕ × Option ℕ)) : Prop := ∀ x ∈ above,
  Born n₀ w x.1 ∧ (parentOf w.db x.1 = x.2 ∨ parentOf w.db x.1 = none ∨ Reparented w.log x.1)

/-- Why a service may leave `i` with the parent `p`. -/
inductive Reason (n₀ : ℕ) (l : Private) (w : Shared) (i p : ℕ) : Prop
  | created : Note.menuCreated i ∈ l.notes → p ≠ i → Reason n₀ l w i p
  | kept : parentOf w.db i = some p → Reason n₀ l w i p
  | checked (above : List (ℕ × Option ℕ)) : LocksTree l → Note.menuChecked i p above ∈ l.notes →
      Note.menuMoved i p ∈ l.notes → Checked above i p → Settled n₀ w above → Reason n₀ l w i p

def Single (n₀ : ℕ) (l : Private) (w : Shared) : Prop := ∃ i,
  (∀ k, k ≠ i → pending l.redo .menus k = none) ∧
  ∀ m p, pending l.redo .menus i = some (some m) → m.parentId = some p → Reason n₀ l w i p

structure Seeded where
  id : ℕ
  parentId : Option ℕ
  step : SeedStep

def Ordered : List Seeded → Prop
  | [] => True
  | e :: es => (∀ p, e.parentId = some p → ∃ x ∈ es, x.id = p) ∧ Ordered es

/-- Where a seeding run stands. -/
structure SeedTx (n₀ : ℕ) (L : List Seeded) (l : Private) (w : Shared) : Prop where
  noted : ∀ e ∈ L, Note.menuSeeded e.id e.parentId e.step ∈ l.notes
  ordered : Ordered L
  set : ∀ e ∈ L, e.step ≠ .kept →
    ∃ m : Menu, pending l.redo .menus e.id = some (some m) ∧ m.parentId = e.parentId
  placed : ∀ e ∈ L, e.step = .placed → Note.menuCreated e.id ∈ l.notes
  kept : ∀ e ∈ L, e.step = .kept → Born n₀ w e.id ∧
    ∀ m : Menu, pending l.redo .menus e.id = some (some m) → m.parentId = parentOf w.db e.id
  rest : ∀ i, (∀ e ∈ L, e.id ≠ i) → ∀ v, pending l.redo .menus i = some v → v = none

/-- Where an unfinished transaction on menus stands. -/
structure MenuTx (n₀ : ℕ) (l : Private) (w : Shared) : Prop where
  written : Written n₀ l w
  reason : Single n₀ l w ∨ ∃ L, SeedTx n₀ L l w

/-- When a move commits, the menus above the new parent that seeding runs have given another
parent still have the parent the check saw, or none. -/
def MoveGuard (w : Shared) (notes : List Note) : Prop := ∀ i p above,
  Note.menuChecked i p above ∈ notes → Note.menuMoved i p ∈ notes →
    ∀ x ∈ above, Reparented w.log x.1 → parentOf w.db x.1 = x.2 ∨ parentOf w.db x.1 = none

/-- When a seeding run that gives an existing menu another parent commits, the menus it has
left in place still have the parent it found, or none. -/
def SeedGuard (w : Shared) (notes : List Note) : Prop := (∃ i, Reparented notes i) →
  ∀ i a, Note.menuSeeded i a .kept ∈ notes → parentOf w.db i = a ∨ parentOf w.db i = none

theorem view_row (w : Shared) (l : Private) (i : ℕ) : (w.view l).db.rows .menus i =
    (pending l.redo .menus i).getD (w.db.rows .menus i) := rfl

theorem view_parent_of_pending (h : pending l.redo .menus i = some v) :
    parentOf (w.view l).db i = v.bind Menu.parentId := by
  rw [parentOf, view_row, h]
  rfl

theorem view_parent_of_none (h : pending l.redo .menus i = none) :
    parentOf (w.view l).db i = parentOf w.db i := by
  rw [parentOf, view_row, h]
  rfl

section Rely

variable (hr : Rely (menuProtocol n₀) l w w')

include hr

theorem row_rely {mode : Mode} (h : (.row .menus i, mode) ∈ l.held) :
    w'.db.rows .menus i = w.db.rows .menus i := hr.row _ _ _ h

theorem parent_rely {mode : Mode} (h : (.row .menus i, mode) ∈ l.held) :
    parentOf w'.db i = parentOf w.db i := by
  rw [parentOf, parentOf, row_rely hr h]

theorem parentHeld_rely (h : ParentHeld l w m) : ParentHeld l w' m := by
  intro p hp
  obtain ⟨⟨mode, hm⟩, hx⟩ := h p hp
  refine ⟨⟨mode, hm⟩, ?_⟩
  rw [view_row] at hx ⊢
  rw [row_rely hr hm]
  exact hx

theorem menuWrite_rely (h : MenuWrite l w i v) (hi : (.row .menus i, .exclusive) ∈ l.held) :
    MenuWrite l w' i v := by
  have hrow := row_rely hr hi
  cases h with
  | create m hn hp => exact .create m hn (parentHeld_rely hr hp)
  | keep m hx hp =>
    rw [← hrow] at hx
    exact .keep m hx ((parent_rely hr hi).trans hp)
  | move m hx hp hl =>
    rw [← hrow] at hx
    exact .move m hx (parentHeld_rely hr hp) hl
  | delete hx hc =>
    have hprot : NoChildAdded i w w' := hr.prot _ hi
    rw [← hrow] at hx
    refine .delete hx fun k hk ↦ ?_
    cases hpk : pending l.redo .menus k with
    | none =>
      rw [view_parent_of_none hpk] at hk
      have hk' := hprot k hk
      rw [← view_parent_of_none (w := w) hpk] at hk'
      exact hc k hk'
    | some v =>
      rw [view_parent_of_pending hpk] at hk
      exact hc k ((view_parent_of_pending hpk).trans hk)

theorem Written.rely (h : Written n₀ l w) : Written n₀ l w' where
  covered := h.covered
  created i hn := by
    obtain ⟨ho, hlt, hb⟩ := h.created i hn
    have hprot : ¬ Born n₀ w i → ¬ Born n₀ w' i := hr.prot _ ho
    exact ⟨ho, Nat.lt_of_lt_of_le hlt hr.later.next, hprot hb⟩
  writes i v hp := menuWrite_rely hr (h.writes i v hp) (h.covered _ (pending_mem hp))

theorem settled_rely {above : List (ℕ × Option ℕ)} (h : Settled n₀ w above) (hl : LocksTree l) :
    Settled n₀ w' above := by
  intro x hx
  have hk : LinksKept n₀ w w' := hr.prot _ hl
  obtain ⟨hb, he⟩ := h x hx
  refine ⟨hb.mono hk.1, ?_⟩
  rcases hk.2 x.1 hb with he' | hn' | hr'
  · rw [he']
    rcases he with he | hn | hre
    · exact .inl he
    · exact .inr (.inl hn)
    · exact .inr (.inr (hre.mono hk.1))
  · exact .inr (.inl hn')
  · exact .inr (.inr hr')

theorem single_rely (hc : Covered l) (h : Single n₀ l w) : Single n₀ l w' := by
  obtain ⟨i, hk, hi⟩ := h
  refine ⟨i, hk, fun m p hp hm ↦ ?_⟩
  cases hi m p hp hm with
  | created hn hne => exact .created hn hne
  | kept hpar => exact .kept ((parent_rely hr (hc _ (pending_mem hp))).trans hpar)
  | checked above hl hn hn' hch hs => exact .checked above hl hn hn' hch (settled_rely hr hs hl)

theorem seedTx_rely {L : List Seeded} (hc : Covered l) (h : SeedTx n₀ L l w) : SeedTx n₀ L l w' where
  noted := h.noted
  ordered := h.ordered
  set := h.set
  placed := h.placed
  kept e he hs := by
    obtain ⟨hb, hm⟩ := h.kept e he hs
    refine ⟨hb.mono hr.later.log.subset, fun m hp ↦ ?_⟩
    rw [parent_rely hr (hc _ (pending_mem hp))]
    exact hm m hp
  rest := h.rest

theorem MenuTx.rely (h : MenuTx n₀ l w) : MenuTx n₀ l w' where
  written := h.written.rely hr
  reason := by
    rcases h.reason with hs | ⟨L, hL⟩
    · exact .inl (single_rely hr h.written.covered hs)
    · exact .inr ⟨L, seedTx_rely hr h.written.covered hL⟩

end Rely

end AdminPlatform.Menu.TreeTransaction
