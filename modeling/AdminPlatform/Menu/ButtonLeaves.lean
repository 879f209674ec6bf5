import AdminPlatform.Menu.ButtonStatements

namespace AdminPlatform.Menu.ButtonLeaves

open Model.Schema Model.Service Model.Scope Foundation.Relational Foundation.Transaction
open Foundation.Interleaving Foundation.RelyGuarantee
open Service MenuRepository ButtonProtocol ButtonStatements
open TreeStatements (wp_guardSecurityFieldsCreate wp_guardSecurityFieldsUpdate)

variable {α : Type} {G : Guard Table Row LockName Storage Note} {w w' : Shared} {l l' : Private}
  {i p : ℕ} {v : Option Menu}

theorem wp_acquireTreeLock {Q : Unit → Private → Shared → Prop} (hl : l.redo = [])
    (hQ : ∀ l' w', l'.redo = [] → TreeHeld l' → Q () l' w') :
    wp leafProtocol G acquireTreeLock Q (fun _ _ _ ↦ True) l w := by
  unfold acquireTreeLock acquireTransactionLock
  refine wp_query fun w' _ _ ↦ ⟨rfl, hQ _ _ ?_ ?_⟩
  · show l.redo ++ [] = []
    rw [hl]
    rfl
  · exact mem_run_locks (List.mem_singleton_self _)

theorem wp_requireParent {Q : Unit → Private → Shared → Prop} {parent : Option Menu}
    (hQ : MayParent parent → Q () l w) :
    wp leafProtocol G (requireParent p parent) Q (fun _ _ _ ↦ True) l w := by
  cases parent with
  | none => trivial
  | some m =>
    simp only [requireParent]
    split
    · trivial
    · next hm => exact hQ ⟨m, rfl, hm⟩

theorem wp_serviceCreate {payload : MenuCreate} {isSuperAdmin : Bool} :
    wp leafProtocol G (Service.create payload isSuperAdmin) (fun _ l w ↦ Ready l w)
      (fun _ _ _ ↦ True) {} w := by
  have hend : ∀ (l : Private) (w : Shared), l.redo = [] →
      (∀ p, payload.parentId = some p → Allowed l w p) →
      wp leafProtocol G (do
        let x ← MenuRepository.create payload
        pure (⟨x.1, x.2⟩ : MenuRead)) (fun _ l w ↦ Ready l w) (fun _ _ _ ↦ True) l w :=
    fun l w hl ha ↦ wp_bind (wp_create hl ha)
  refine wp_bind (wp_guardSecurityFieldsCreate ?_)
  cases hp : payload.parentId with
  | none =>
    refine hend {} w rfl fun p hp' ↦ ?_
    rw [hp] at hp'
    cases hp'
  | some p =>
    refine wp_bind (wp_acquireTreeLock rfl fun l₁ w₁ hl₁ ht ↦ ?_)
    refine wp_bind (wp_read fun w₂ hr₂ ↦ ?_)
    refine wp_bind (wp_requireParent fun hm ↦ ?_)
    rw [view_of_unwritten hl₁] at hm
    refine hend l₁ w₂ hl₁ fun q hq ↦ ?_
    rw [hp] at hq
    cases hq
    exact ⟨ht, hm⟩

theorem wp_checkNoCycle {Q : Unit → Private → Shared → Prop} (hl : l.redo = [])
    (hQ : ∀ l' w', Rely leafProtocol l w w' → l'.redo = [] → l.held ⊆ l'.held → i ≠ p → Q () l' w') :
    wp leafProtocol G (checkNoCycle i p) Q (fun _ _ _ ↦ True) l w := by
  unfold checkNoCycle
  split
  · trivial
  · next hne =>
    refine wp_bind (wp_query fun w' hr _ ↦ ⟨rfl, ?_⟩)
    split
    · trivial
    · refine hQ _ _ (rely_run hr rfl) ?_ (held_run _ _ _) fun he ↦ hne he.symm
      show l.redo ++ [] = []
      rw [hl]
      rfl

/-- What the checks of an update leave for its flush. -/
structure Checked (l : Private) (w : Shared) (i : ℕ) (toButton : Bool) (newParentId : Option ℕ) :
    Prop where
  redo : l.redo = []
  button : toButton = true → Childless l w i
  parent : ∀ p, newParentId = some p → p ≠ i ∧ Allowed l w p

theorem wp_checkParent {existing : Menu} {toButton : Bool} {newParentId : Option ℕ}
    {Q : Unit → Private → Shared → Prop} (hl : l.redo = [])
    (ht : newParentId.isSome → TreeHeld l) (hb : toButton = true → Childless l w i)
    (hQ : ∀ l' w', Checked l' w' i toButton newParentId → Q () l' w') :
    wp leafProtocol G (match newParentId with
      | none => pure ()
      | some p => do
        requireParent p (← getParent i existing p)
        checkNoCycle i p) Q (fun _ _ _ ↦ True) l w := by
  cases newParentId with
  | none => exact hQ l w ⟨hl, hb, fun p hp ↦ by cases hp⟩
  | some p =>
    have htree : TreeHeld l := ht rfl
    by_cases he : p = i
    · -- the menu itself is refused as its own parent
      simp only [getParent, if_pos he]
      refine wp_bind ?_
      show wp leafProtocol G (requireParent p (some existing) >>= fun _ ↦ checkNoCycle i p) _ _ _ _
      refine wp_bind (wp_requireParent fun _ ↦ ?_)
      exact wp_checkNoCycle hl fun _ _ _ _ _ hne ↦ absurd he.symm hne
    · simp only [getParent, if_neg he]
      refine wp_bind (wp_read fun w₁ hr₁ ↦ ?_)
      refine wp_bind (wp_requireParent fun hm ↦ ?_)
      rw [view_of_unwritten hl] at hm
      refine wp_checkNoCycle hl fun l₂ w₂ hr₂ hl₂ hheld _ ↦ hQ l₂ w₂ ⟨hl₂, fun h ↦ ?_, fun q hq ↦ ?_⟩
      · have hc := ((hb h).rely hr₁).rely hr₂
        exact ⟨hheld hc.1, hc.2⟩
      · cases hq
        have ha : Allowed l w₂ p := Allowed.rely ⟨htree, hm⟩ hr₂
        exact ⟨he, hheld ha.1, ha.2⟩

theorem wp_checkTree {existing : Menu} {toButton : Bool} {newParentId : Option ℕ}
    {Q : Unit → Private → Shared → Prop} (hl : l.redo = [])
    (hQ : ∀ l' w', Checked l' w' i toButton newParentId → Q () l' w') :
    wp leafProtocol G (checkTree i existing toButton newParentId) Q (fun _ _ _ ↦ True) l w := by
  unfold checkTree
  cases toButton with
  | true =>
    simp only [Bool.true_or, if_true]
    refine wp_bind (wp_acquireTreeLock hl fun l₁ w₁ hl₁ ht ↦ ?_)
    refine wp_bind (wp_read fun w₂ hr₂ ↦ ?_)
    split
    · trivial
    · next hcount =>
      refine wp_checkParent hl₁ (fun _ ↦ ht) (fun _ ↦ ⟨ht, fun k hk ↦ hcount ?_⟩) hQ
      refine List.length_pos_of_mem (a := k) (TreeInvariant.mem_childIds.2 ?_)
      rw [parentOf, view_of_unwritten hl₁]
      exact hk
  | false =>
    simp only [Bool.false_or, Bool.false_eq_true, if_false]
    split
    · refine wp_bind (wp_acquireTreeLock hl fun l₁ w₁ hl₁ ht ↦ ?_)
      exact wp_checkParent hl₁ (fun _ ↦ ht) (fun h ↦ by cases h) hQ
    · next hnone => exact wp_checkParent hl (fun h ↦ absurd h hnone) (fun h ↦ by cases h) hQ

theorem wp_serviceUpdate {payload : MenuUpdate} {isSuperAdmin : Bool} :
    wp leafProtocol G (Service.update i payload isSuperAdmin) (fun _ l w ↦ Ready l w)
      (fun _ _ _ ↦ True) {} w := by
  refine wp_bind (wp_guardSecurityFieldsUpdate ?_)
  refine wp_bind (wp_read fun w₁ _ ↦ ?_)
  split
  · trivial
  · refine wp_bind (wp_checkTree rfl fun l₂ w₂ hc ↦ ?_)
    refine wp_bind (wp_update hc.redo (fun p hp ↦ ?_) fun hb ↦ hc.button (decide_eq_true hb))
    exact hc.parent p (by rw [hp]; rfl)

theorem wp_serviceDelete :
    wp leafProtocol G (Service.delete i) (fun _ l w ↦ Ready l w) (fun _ _ _ ↦ True) {} w := by
  unfold Service.delete
  refine wp_bind (wp_read fun w₁ hr₁ ↦ ?_)
  split
  · trivial
  · refine wp_bind (wp_acquireTreeLock rfl fun l₂ w₂ hl₂ ht ↦ ?_)
    refine wp_bind (wp_read fun w₃ hr₃ ↦ ?_)
    split
    · trivial
    · next hcount =>
      refine wp_delete hl₂ ⟨ht, fun k hk ↦ hcount ?_⟩
      refine List.length_pos_of_mem (a := k) (TreeInvariant.mem_childIds.2 ?_)
      rw [parentOf, view_of_unwritten hl₂]
      exact hk

theorem safe_getSession {p : Call α} (h : wp leafProtocol G p (fun _ l w ↦ Ready l w)
    (fun _ _ _ ↦ True) l w) : safe leafProtocol G (getSession p) l w := by
  refine wp_bind (wp_mono (fun a l' w' hq ↦ ?_) (fun _ _ _ _ ↦ trivial) h)
  exact wp_bind (wp_save fun w₁ hr _ ↦ ⟨moves_commit hr.inv (hq.2.rely hr), trivial⟩)

inductive MenuRequest
  | create (payload : MenuCreate) (isSuperAdmin : Bool)
  | update (itemId : ℕ) (payload : MenuUpdate) (isSuperAdmin : Bool)
  | delete (itemId : ℕ)

def MenuRequest.call : MenuRequest → Call Unit
  | .create payload isSuperAdmin => getSession (Service.create payload isSuperAdmin) >>= fun _ ↦ pure ()
  | .update itemId payload isSuperAdmin =>
    getSession (Service.update itemId payload isSuperAdmin) >>= fun _ ↦ pure ()
  | .delete itemId => getSession (Service.delete itemId)

theorem safe_call (op : MenuRequest) (w : Shared) : safe leafProtocol G op.call {} w := by
  cases op with
  | create payload isSuperAdmin =>
    exact wp_bind (wp_mono (fun _ _ _ _ ↦ trivial) (fun _ _ _ h ↦ h) (safe_getSession wp_serviceCreate))
  | update itemId payload isSuperAdmin =>
    exact wp_bind (wp_mono (fun _ _ _ _ ↦ trivial) (fun _ _ _ h ↦ h) (safe_getSession wp_serviceUpdate))
  | delete itemId => exact safe_getSession wp_serviceDelete

def NoButtonParent (db : Db) : Prop := ∀ i p (m : Menu), parentOf db i = some p →
  db.rows .menus p = some m → m.menuType ≠ .button

/-- The keys in use are drawn and the parents exist, as the primary and foreign keys have it. -/
structure Consistent (w : Shared) : Prop where
  below : ∀ i (m : Menu), w.db.rows .menus i = some m → i < w.next
  parent : ∀ i p, parentOf w.db i = some p → (w.db.rows .menus p).isSome

/-- Whoever creates, changes and deletes menus in whatever order, buttons stay leaves. -/
theorem noButtonParent_of_reach (w : Shared) (S : State Table Row LockName Storage Note Failure Unit)
    (hw : Consistent w) (hb : NoButtonParent w.db) (h : Reach MenuRequest.call .crash .free w S) :
    NoButtonParent S.world.db := by
  have hstart : Leaves w := by
    refine ⟨hw.below, fun i p hp ↦ ?_⟩
    obtain ⟨m, hm⟩ := Option.isSome_iff_exists.1 (hw.parent i p hp)
    exact ⟨m, hm, hb i p m hp hm⟩
  have hinv : Leaves S.world := (sound_of_reach (fun op w _ ↦ safe_call op w) hstart h).inv
  intro i p m hp hm hbutton
  obtain ⟨q, hq, hne⟩ := hinv.parent i p hp
  rw [hm] at hq
  cases hq
  exact hne hbutton

def folder (name : String) : Menu where
  parentId := none
  name := name
  menuType := .directory
  path := ""
  component := none
  perms := none
  icon := ""
  sortOrder := 0
  visible := true
  status := .active
  seedKey := none

def oneFolder : Shared where
  now := 0
  next := 1
  ext := ⟨[], []⟩
  db := Store.empty.apply [⟨.menus, 0, some (folder "a")⟩]
  log := []

theorem menus_oneFolder {m : Menu} (h : oneFolder.db.rows .menus i = some m) :
    i = 0 ∧ m = folder "a" := by
  have hm := oneFolder.db.complete .menus i m h
  have hk : oneFolder.db.keys .menus = [0] := by decide
  rw [hk, List.mem_singleton] at hm
  subst hm
  exact ⟨rfl, (Option.some.inj h).symm⟩

theorem consistent_oneFolder : Consistent oneFolder where
  below i m hm := by
    rw [(menus_oneFolder hm).1]
    exact Nat.one_pos
  parent i p hp := by
    obtain ⟨m, hm, he⟩ := Option.bind_eq_some_iff.1 hp
    rw [(menus_oneFolder hm).2] at he
    cases he

def createAndRetype : List (Label MenuRequest) :=
  [.start (.create { name := "b", menuType := .button, parentId := some 0 } true),
    .start (.update 0 { menuType := some (some .button) } true), .step 1] ++
    List.replicate 6 (.step 0) ++ List.replicate 4 (.step 1)

theorem noButtonParent_of_reach_createAndRetype :
    ∃ S, Reach MenuRequest.call .crash .free oneFolder S ∧ parentOf S.world.db 1 = some 0 ∧
      NoButtonParent S.world.db := by
  have hrun : ∃ S, Reach MenuRequest.call .crash .free oneFolder S ∧
      decide (parentOf S.world.db 1 = some 0) = true :=
    exists_reach_of_follow (fun _ _ ↦ true) createAndRetype (fun _ _ ↦ trivial) (fun _ _ _ ↦ trivial)
      (by decide +kernel)
  obtain ⟨S, hS, hp⟩ := hrun
  refine ⟨S, hS, of_decide_eq_true hp, noButtonParent_of_reach oneFolder S consistent_oneFolder ?_ hS⟩
  intro i p m _ hm
  rw [(menus_oneFolder hm).2]
  decide

end AdminPlatform.Menu.ButtonLeaves
