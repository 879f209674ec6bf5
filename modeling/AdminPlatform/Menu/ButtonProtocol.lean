import AdminPlatform.Menu.TreeStatements

namespace AdminPlatform.Menu.ButtonProtocol

open Model.Schema Model.Service Model.Scope Foundation.Relational Foundation.Transaction
open Foundation.Interleaving Foundation.RelyGuarantee
open Service MenuRepository

def MayParent (v : Option Menu) : Prop := ∃ m, v = some m ∧ m.menuType ≠ .button

structure Leaves (w : Shared) : Prop where
  below : ∀ i (m : Menu), w.db.rows .menus i = some m → i < w.next
  parent : ∀ i p, parentOf w.db i = some p → MayParent (w.db.rows .menus p)

def TreeKept (w w' : Shared) : Prop :=
  (∀ i, MayParent (w.db.rows .menus i) → MayParent (w'.db.rows .menus i)) ∧
  ∀ i p, parentOf w'.db i = some p → parentOf w.db i = some p

def leafProt : Resource Table LockName → Shared → Shared → Prop
  | .named .menuTree => TreeKept
  | _ => fun _ _ ↦ True

theorem TreeKept.refl (w : Shared) : TreeKept w w := ⟨fun _ h ↦ h, fun _ _ h ↦ h⟩

theorem TreeKept.trans {w w' w'' : Shared} (h : TreeKept w w') (h' : TreeKept w' w'') :
    TreeKept w w'' :=
  ⟨fun i hi ↦ h'.1 i (h.1 i hi), fun i p hp ↦ h.2 i p (h'.2 i p hp)⟩

/-- The agreement among the writers of menus: whoever puts a menu under another, deletes a
parent or turns it into a button holds the tree lock. -/
def leafProtocol : Protocol Table Row LockName Storage Note where
  inv := Leaves
  guar _ _ := True
  change _ _ := True
  prot := leafProt
  guar_refl _ := trivial
  guar_trans _ _ _ _ _ := trivial
  prot_refl r w := by
    unfold leafProt
    split
    · exact TreeKept.refl w
    · trivial
  prot_trans r w w' w'' h h' := by
    unfold leafProt at h h' ⊢
    split
    · exact TreeKept.trans h h'
    · trivial
  quiet w w' h hdb _ _ _ hn := by
    refine ⟨⟨fun i m hm ↦ ?_, fun i p hp ↦ ?_⟩, trivial, trivial, fun r ↦ ?_⟩
    · rw [hdb] at hm
      exact Nat.lt_of_lt_of_le (h.below i m hm) hn
    · rw [hdb] at hp ⊢
      exact h.parent i p hp
    · unfold leafProt
      split
      · refine ⟨fun i hi ↦ ?_, fun i p hp ↦ ?_⟩
        · rwa [hdb]
        · rwa [hdb] at hp
      · trivial

variable {α : Type} {G : Guard Table Row LockName Storage Note} {w w' : Shared} {l l' : Private}
  {i p : ℕ} {v : Option Menu}

def TreeHeld (l : Private) : Prop := (.named .menuTree, .exclusive) ∈ l.held

/-- A menu the session may put in place: a new parent of it is locked and no button, and if it
stops being a possible parent it has no children. -/
structure Fits (l : Private) (w : Shared) (i : ℕ) (v : Option Menu) : Prop where
  held : (.row .menus i, .exclusive) ∈ l.held
  below : v.isSome → i < w.next
  link : ∀ p, v.bind Menu.parentId = some p → parentOf w.db i = some p ∨
    (TreeHeld l ∧ p ≠ i ∧ (.row .menus p, .shared) ∈ l.held ∧ MayParent (w.db.rows .menus p))
  leaf : MayParent v ∨ ¬ MayParent (w.db.rows .menus i) ∨
    (TreeHeld l ∧ ∀ k, parentOf w.db k ≠ some i)

structure LeafTx (l : Private) (w : Shared) : Prop where
  fits : ∀ i v, pending l.redo .menus i = some v → Fits l w i v
  single : ∀ i j v v', pending l.redo .menus i = some v → pending l.redo .menus j = some v' → i = j

theorem treeKept_of_rely (h : Rely leafProtocol l w w') (ht : TreeHeld l) : TreeKept w w' :=
  h.prot _ ht

theorem Fits.rely (h : Fits l w i v) (hr : Rely leafProtocol l w w') : Fits l w' i v where
  held := h.held
  below hv := Nat.lt_of_lt_of_le (h.below hv) hr.later.next
  link p hp := by
    have hi := hr.row .menus i _ h.held
    rcases h.link p hp with ho | ⟨ht, hne, hl, hm⟩
    · refine .inl ?_
      rw [parentOf, hi]
      exact ho
    · refine .inr ⟨ht, hne, hl, ?_⟩
      rw [hr.row .menus p _ hl]
      exact hm
  leaf := by
    have hi := hr.row .menus i _ h.held
    rcases h.leaf with hv | hn | ⟨ht, hc⟩
    · exact .inl hv
    · refine .inr (.inl ?_)
      rwa [hi]
    · exact .inr (.inr ⟨ht, fun k hk ↦ hc k ((treeKept_of_rely hr ht).2 k i hk)⟩)

theorem LeafTx.rely (h : LeafTx l w) (hr : Rely leafProtocol l w w') : LeafTx l w' :=
  ⟨fun i v hp ↦ (h.fits i v hp).rely hr, h.single⟩

theorem commit_rows (w : Shared) (l : Private) (k : ℕ) :
    (w.commit l).db.rows .menus k = (pending l.redo .menus k).getD (w.db.rows .menus k) := by
  rw [commit_db, apply_rows]

/-- A link after the commit is an old one, or the session put it there under the lock. -/
theorem LeafTx.link (h : LeafTx l w) {k : ℕ} (hk : parentOf (w.commit l).db k = some p) :
    parentOf w.db k = some p ∨
      (TreeHeld l ∧ p ≠ k ∧ (pending l.redo .menus k).isSome ∧ MayParent (w.db.rows .menus p)) := by
  rw [parentOf, commit_rows] at hk
  cases hp : pending l.redo .menus k with
  | none =>
    rw [hp] at hk
    exact .inl hk
  | some v =>
    rw [hp] at hk
    rcases (h.fits k v hp).link p hk with ho | ⟨ht, hne, -, hm⟩
    · exact .inl ho
    · exact .inr ⟨ht, hne, rfl, hm⟩

theorem moves_commit (hi : Leaves w) (h : LeafTx l w) : Moves leafProtocol l.held w (w.commit l) := by
  refine ⟨⟨fun k m hm ↦ ?_, fun k p hk ↦ ?_⟩, trivial, trivial, fun r hr ↦ ?_⟩
  · rw [commit_rows] at hm
    cases hp : pending l.redo .menus k with
    | none =>
      rw [hp] at hm
      exact hi.below k m hm
    | some v =>
      rw [hp] at hm
      refine (h.fits k v hp).below ?_
      rw [show v = some m from hm]
      rfl
  · have hlink := h.link hk
    rw [commit_rows]
    cases hp : pending l.redo .menus p with
    | none =>
      rcases hlink with ho | ⟨-, -, -, hm⟩
      · exact hi.parent k p ho
      · exact hm
    | some v =>
      -- the session rewrites the parent itself, so the link is not one it has made
      have ho : parentOf w.db k = some p := by
        rcases hlink with ho | ⟨-, hne, hs, -⟩
        · exact ho
        · obtain ⟨x, hx⟩ := Option.isSome_iff_exists.1 hs
          exact absurd (h.single p k v x hp hx) hne
      rcases (h.fits p v hp).leaf with hv | hn | ⟨-, hc⟩
      · exact hv
      · exact absurd (hi.parent k p ho) hn
      · exact absurd ho (hc k)
  · show leafProt r w (w.commit l)
    unfold leafProt
    split
    · refine ⟨fun k hk ↦ ?_, fun k p hk ↦ ?_⟩
      · rw [commit_rows]
        cases hp : pending l.redo .menus k with
        | none => exact hk
        | some v =>
          rcases (h.fits k v hp).leaf with hv | hn | ⟨ht, -⟩
          · exact hv
          · exact absurd hk hn
          · exact absurd ht (hr _)
      · rcases h.link hk with ho | ⟨ht, -⟩
        · exact ho
        · exact absurd ht (hr _)
    · trivial

end AdminPlatform.Menu.ButtonProtocol
