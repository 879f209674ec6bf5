import AdminPlatform.Menu.TreeStatements

namespace AdminPlatform.Menu.TreeSafety

open Model.Schema Model.Service Model.Scope Foundation.Relational Foundation.Transaction
open Foundation.Interleaving Foundation.RelyGuarantee Foundation.Forest
open Service MenuRepository TreeInvariant TreeTransaction TreeCommit TreeStatements

variable {α : Type} {n₀ : ℕ} {G : Guard Table Row LockName Storage Note} {w w' : Shared}
  {l l' : Private} {i p : ℕ} {a : Option ℕ}

def Ready (n₀ : ℕ) (l : Private) (w : Shared) : Prop := MenuInv n₀ w ∧ MenuTx n₀ l w

structure Fresh (n₀ : ℕ) (l : Private) (w : Shared) : Prop where
  inv : MenuInv n₀ w
  written : Written n₀ l w
  none : ∀ k, pending l.redo .menus k = none

theorem Fresh.init (h : MenuInv n₀ w) : Fresh n₀ {} w where
  inv := h
  written := ⟨fun x hx ↦ (by cases hx), fun i hi ↦ (by cases hi), fun i v hv ↦ (by cases hv)⟩
  none _ := rfl

theorem Fresh.rely (h : Fresh n₀ l w) (hr : Rely (menuProtocol n₀) l w w') : Fresh n₀ l w' :=
  ⟨hr.inv, h.written.rely hr, h.none⟩

theorem Fresh.passed (h : Fresh n₀ l w) (hp : Passed n₀ l w l' w') : Fresh n₀ l' w' :=
  ⟨hp.inv, hp.written, fun k ↦ (hp.redo k).trans (h.none k)⟩

theorem Fresh.ready (h : Fresh n₀ l w) : Ready n₀ l w :=
  ⟨h.inv, h.written, .inl ⟨0, fun k _ ↦ h.none k, fun m p hm ↦ by rw [h.none] at hm; cases hm⟩⟩

theorem Fresh.view (h : Fresh n₀ l w) : parentOf (w.view l).db = parentOf w.db :=
  funext fun k ↦ view_parent_of_none (h.none k)

theorem ready_of_stepped {v : Option Menu} (h : Fresh n₀ l w) (hs : Stepped n₀ l w i v l' w')
    (hr : ∀ p, v.bind Menu.parentId = some p → Reason n₀ l' w' i p) : Ready n₀ l' w' := by
  refine ⟨hs.inv, hs.written, .inl ⟨i, fun k hk ↦ ?_, fun m p hm hp ↦ hr p ?_⟩⟩
  · rw [hs.redo, if_neg hk]
    exact h.none k
  · rw [hs.redo, if_pos rfl, Option.some.injEq] at hm
    rw [hm]
    exact hp

theorem safe_getSession {q : Call α}
    (hG : ∀ w notes, G.commit w notes → MoveGuard w notes ∧ SeedGuard w notes)
    (h : wp (menuProtocol n₀) G q (fun _ l w ↦ Ready n₀ l w) (fun _ _ _ ↦ True) l w) :
    safe (menuProtocol n₀) G (getSession q) l w := by
  refine wp_bind (wp_mono (fun a l' w' hr ↦ ?_) (fun _ _ _ _ ↦ trivial) h)
  refine wp_bind (wp_save fun w₁ hrely hg ↦ ⟨?_, trivial⟩)
  exact moves_commit hrely.inv (hr.2.rely hrely) (hG _ _ hg).1 (hG _ _ hg).2

/-- The cycle check for a move to `a` has passed and still counts. -/
def Cleared (n₀ : ℕ) (l : Private) (w : Shared) (i : ℕ) (a : Option ℕ) : Prop := ∀ p, a = some p →
  LocksTree l ∧ ∃ above, Note.menuChecked i p above ∈ l.notes ∧ Checked above i p ∧ Settled n₀ w above

theorem cleared_none : Cleared n₀ l w i none := fun p hp ↦ by cases hp

theorem cleared_after (h : Cleared n₀ l w i a) (ha : After (menuProtocol n₀) l w l' w') :
    Cleared n₀ l' w' i a := by
  intro p hp
  obtain ⟨hl, above, hn, hc, hs⟩ := h p hp
  exact ⟨ha.held hl, above, ha.notes hn, hc, settled_rely ha.rely hs hl⟩

/-- Within the depth of the query, a menu that is not below another one in the query's result
is not below it. -/
theorem checked_lineage (hi : MenuInv n₀ w) (hd : Shallow w) (hpi : p ≠ i)
    (hm : p ∉ descendantMenuIds w.db i) :
    Checked (lineage (parentOf w.db) (_MAX_MENU_DEPTH + 1) p) i p := by
  intro parent' h hb
  obtain ⟨k, hk⟩ := below_iff_climb.1 hb
  have hdeep : climb (parentOf w.db) (_MAX_MENU_DEPTH + 1) p = none := climb_of_shallow hi hd
  have hc : climb (parentOf w.db) k p = some i := climb_of_lineage hdeep h hk
  have hle : k ≤ _MAX_MENU_DEPTH := by
    apply Nat.le_of_not_lt
    intro hlt
    obtain ⟨j, rfl⟩ : ∃ j, k = _MAX_MENU_DEPTH + 1 + j := ⟨k - (_MAX_MENU_DEPTH + 1), by omega⟩
    rw [climb_add, hdeep] at hc
    cases hc
  refine hm (mem_descendantMenuIds.2 ⟨?_, k, hle, hc⟩)
  rcases Relation.ReflTransGen.cases_tail (below_iff_climb.2 ⟨k, hc⟩) with he | ⟨c, -, hci⟩
  · exact absurd he.symm hpi
  · exact hi.parent c i hci

theorem settled_lineage (hi : MenuInv n₀ w) (hp : Born n₀ w p) (n : ℕ) :
    Settled n₀ w (lineage (parentOf w.db) n p) := by
  intro x hx
  obtain ⟨he, hc⟩ := mem_lineage hx
  refine ⟨?_, .inl he.symm⟩
  rcases hc with rfl | ⟨c, hc⟩
  · exact hp
  · exact hi.born_of_isSome (hi.parent c x.1 hc)

theorem wp_checkNoCycle {Q : Unit → Private → Shared → Prop}
    (hG : ∀ w f, G.stmt w f → Shallow w) (h : Fresh n₀ l w) (hl : LocksTree l)
    (hp : p ≠ i → Born n₀ w p)
    (hQ : ∀ l' w', Fresh n₀ l' w' → Cleared n₀ l' w' i (some p) → Q () l' w') :
    wp (menuProtocol n₀) G (checkNoCycle i p) Q (fun _ _ _ ↦ True) l w := by
  unfold checkNoCycle
  by_cases hpi : p = i
  · simp only [if_pos hpi]
    trivial
  · simp only [if_neg hpi]
    refine wp_bind (wp_query fun w' hr ↦ ?_)
    intro hg
    refine ⟨rfl, ?_⟩
    have hf := h.rely hr
    have hb : Born n₀ w' p := (hp hpi).mono hr.later.log.subset
    have hview := hf.view
    have hdesc : p ∈ descendantMenuIds (w'.view l).db i ↔ p ∈ descendantMenuIds w'.db i := by
      rw [mem_descendantMenuIds, mem_descendantMenuIds, hview, view_row, h.none]
      rfl
    by_cases hm : p ∈ descendantMenuIds (w'.view l).db i
    · rw [if_pos hm]
      trivial
    · rw [if_neg hm]
      have hpass := passed_run (g := { notes := [.menuChecked i p (lineage (parentOf (w'.view l).db)
        (_MAX_MENU_DEPTH + 1) p)] }) h.written hr rfl (fun _ ↦ rfl)
        (drawsNew_of_not_mem fun j hj ↦ by cases hj; contradiction)
      refine hQ _ _ (h.passed hpass) fun q hq ↦ ?_
      cases hq
      refine ⟨hpass.after.held hl, _, mem_notes_run (List.mem_singleton_self _), ?_, ?_⟩
      · rw [hview]
        exact checked_lineage hr.inv (hG _ _ hg) hpi fun hm' ↦ hm (hdesc.2 hm')
      · rw [hview]
        exact settled_lineage hr.inv hb _

theorem wp_acquireTreeLock {Q : Unit → Private → Shared → Prop} (h : Fresh n₀ l w)
    (hQ : ∀ l' w', Fresh n₀ l' w' → LocksTree l' → After (menuProtocol n₀) l w l' w' → Q () l' w') :
    wp (menuProtocol n₀) G acquireTreeLock Q (fun _ _ _ ↦ True) l w :=
  wp_acquireLock h.written fun l' w' hp _ hl ↦ hQ l' w' (h.passed hp) hl hp.after

theorem wp_requireParent {parent : Option Menu} {Q : Unit → Private → Shared → Prop}
    (hQ : parent.isSome → Q () l w) :
    wp (menuProtocol n₀) G (requireParent p parent) Q (fun _ _ _ ↦ True) l w := by
  cases parent with
  | none => trivial
  | some m =>
    by_cases hm : m.menuType = .button
    · simp only [requireParent, if_pos hm]
      trivial
    · simp only [requireParent, if_neg hm]
      exact hQ rfl

theorem wp_look {q : Snapshot → α} {Q : α → Private → Shared → Prop}
    {E : Failure → Private → Shared → Prop} (h : Fresh n₀ l w)
    (hQ : ∀ w', Rely (menuProtocol n₀) l w w' → Fresh n₀ l w' → Q (q (w'.view l)) l w') :
    wp (menuProtocol n₀) G (.read q) Q E l w :=
  wp_read fun w' hr ↦ hQ w' hr (h.rely hr)

/-- A parent the session has read is born. -/
theorem wp_getParent {existing : Menu} {Q : Option Menu → Private → Shared → Prop}
    (h : Fresh n₀ l w) (hQ : ∀ parent w', Fresh n₀ l w' →
      (parent.isSome → p ≠ i → Born n₀ w' p) → Q parent l w') :
    wp (menuProtocol n₀) G (getParent i existing p) Q (fun _ _ _ ↦ True) l w := by
  unfold getParent
  by_cases hpi : p = i
  · rw [if_pos hpi]
    exact hQ _ w h fun _ hne ↦ absurd hpi hne
  · rw [if_neg hpi]
    refine wp_look h fun w' _ hf ↦ hQ _ w' hf fun hx _ ↦ ?_
    rw [view_row, hf.none] at hx
    exact hf.inv.born_of_isSome hx

theorem wp_checkParent {existing : Menu} {Q : Unit → Private → Shared → Prop}
    (hG : ∀ w f, G.stmt w f → Shallow w) (h : Fresh n₀ l w) (hl : a.isSome → LocksTree l)
    (hQ : ∀ l' w', Fresh n₀ l' w' → Cleared n₀ l' w' i a → Q () l' w') :
    wp (menuProtocol n₀) G (do
      match a with
      | none => pure ()
      | some p => do
        requireParent p (← getParent i existing p)
        checkNoCycle i p) Q (fun _ _ _ ↦ True) l w := by
  cases a with
  | none => exact hQ l w h cleared_none
  | some p =>
    refine wp_bind (wp_getParent h fun parent w' hf' hb ↦ ?_)
    refine wp_bind (wp_requireParent fun hx ↦ ?_)
    exact wp_checkNoCycle hG hf' (hl rfl) (hb hx) hQ

theorem wp_checkCount {existing : Menu} {toButton : Bool} {Q : Unit → Private → Shared → Prop}
    (hG : ∀ w f, G.stmt w f → Shallow w) (h : Fresh n₀ l w) (hl : a.isSome → LocksTree l)
    (hQ : ∀ l' w', Fresh n₀ l' w' → Cleared n₀ l' w' i a → Q () l' w') :
    wp (menuProtocol n₀) G (do
      if toButton then
        if 0 < (← countChildren i) then raise (typeHasChildren i)
      match a with
      | none => pure ()
      | some p => do
        requireParent p (← getParent i existing p)
        checkNoCycle i p) Q (fun _ _ _ ↦ True) l w := by
  cases toButton with
  | false => exact wp_checkParent hG h hl hQ
  | true =>
    refine wp_bind (wp_look h fun w' _ hf' ↦ ?_)
    split
    · trivial
    · exact wp_checkParent hG hf' hl hQ

theorem wp_checkTree {existing : Menu} {toButton : Bool} {Q : Unit → Private → Shared → Prop}
    (hG : ∀ w f, G.stmt w f → Shallow w) (h : Fresh n₀ l w)
    (hQ : ∀ l' w', Fresh n₀ l' w' → Cleared n₀ l' w' i a → Q () l' w') :
    wp (menuProtocol n₀) G (checkTree i existing toButton a) Q (fun _ _ _ ↦ True) l w := by
  unfold checkTree
  by_cases hlock : (toButton || a.isSome) = true
  · simp only [if_pos hlock]
    exact wp_bind (wp_acquireTreeLock h fun l' w' hf hl _ ↦ wp_checkCount hG hf (fun _ ↦ hl) hQ)
  · simp only [if_neg hlock]
    refine wp_checkCount hG h (fun ha ↦ absurd ?_ hlock) hQ
    rw [ha, Bool.or_true]

section Calls

variable (hG : ∀ w notes, G.commit w notes → MoveGuard w notes ∧ SeedGuard w notes)
  (hS : ∀ w f, G.stmt w f → Shallow w)

/-- The update of a menu whose checks have passed. -/
theorem wp_refresh (h : Ready n₀ l w) :
    wp (menuProtocol n₀) G (do
      match ← get i with
      | none => .fail .staleData
      | some m => pure m) (fun _ l w ↦ Ready n₀ l w) (fun _ _ _ ↦ True) l w := by
  refine wp_bind (wp_read fun w' hrely ↦ ?_)
  cases (w'.view l).db.rows .menus i with
  | none => trivial
  | some m => exact ⟨hrely.inv, h.2.rely hrely⟩

theorem wp_update {existing : Menu} {payload : MenuUpdate} (h : Fresh n₀ l w)
    (hc : Cleared n₀ l w i payload.parentId.join) :
    wp (menuProtocol n₀) G (MenuRepository.update i existing payload) (fun _ l w ↦ Ready n₀ l w)
      (fun _ _ _ ↦ True) l w := by
  refine wp_bind (wp_flush h.written (fun j hj ↦ by cases hj) (h.none i) (fun hd ↦ ?_)
    (fun l' w' hp _ _ ↦ wp_refresh (h.passed hp).ready)
    fun m l' w' hs _ hmoved hkept _ ↦ wp_refresh (ready_of_stepped h hs fun p hp ↦ ?_))
  · cases hp : payload.parentId with
    | none =>
      rw [hp] at hd
      cases hd
    | some b =>
      cases b with
      | none => exact .inr (.inl rfl)
      | some p => exact .inl (hc p (by rw [hp]; rfl)).1
  · cases hd : dirty existing.parentId payload.parentId with
    | false => exact .kept ((hkept hd).trans hp)
    | true =>
      obtain ⟨hsent, hnote⟩ := hmoved hd
      have hjoin : payload.parentId.join = some p := by
        rw [hsent]
        exact hp
      obtain ⟨hl, above, hn, hch, hset⟩ := cleared_after hc hs.after p hjoin
      exact .checked above hl hn (hnote p hp) hch hset

include hG

theorem safe_create (hi : MenuInv n₀ w) (payload : MenuCreate) (isSuperAdmin : Bool) :
    safe (menuProtocol n₀) G (getSession (Service.create payload isSuperAdmin)) {} w := by
  refine safe_getSession hG ?_
  have hlast : ∀ l w, Fresh n₀ l w → wp (menuProtocol n₀) G (do
      let x ← MenuRepository.create payload
      pure (⟨x.1, x.2⟩ : MenuRead)) (fun _ l w ↦ Ready n₀ l w) (fun _ _ _ ↦ True) l w := by
    intro l w hf
    refine wp_bind (wp_insert hf.written (fun i j hj ↦ by cases hj) fun i l' w' hs hn _ hne _ ↦ ?_)
    refine ready_of_stepped hf hs fun p hp ↦ .created hn ?_
    rintro rfl
    exact hne hp
  refine wp_bind (wp_guardSecurityFieldsCreate ?_)
  cases payload.parentId with
  | none => exact hlast {} w (.init hi)
  | some p =>
    refine wp_bind (wp_acquireTreeLock (.init hi) fun l' w' hf _ _ ↦ ?_)
    refine wp_bind (wp_look hf fun w₂ _ hf₂ ↦ ?_)
    exact wp_bind (wp_requireParent fun _ ↦ hlast l' w₂ hf₂)

include hS

theorem safe_update (hi : MenuInv n₀ w) (payload : MenuUpdate) (isSuperAdmin : Bool) :
    safe (menuProtocol n₀) G (getSession (Service.update i payload isSuperAdmin)) {} w := by
  refine safe_getSession hG ?_
  refine wp_bind (wp_guardSecurityFieldsUpdate ?_)
  refine wp_bind (wp_look (.init hi) fun w₁ _ hf ↦ ?_)
  cases (w₁.view {}).db.rows .menus i with
  | none => trivial
  | some existing =>
    refine wp_bind (wp_checkTree hS hf fun l' w' hf' hc ↦ ?_)
    exact wp_bind (wp_mono (fun _ _ _ hr ↦ hr) (fun _ _ _ he ↦ he) (wp_update hf' hc))

omit hS in
theorem safe_delete (hi : MenuInv n₀ w) :
    safe (menuProtocol n₀) G (getSession (Service.delete i)) {} w := by
  refine safe_getSession hG (wp_bind (wp_look (.init hi) fun w₁ _ hf ↦ ?_))
  cases (w₁.view {}).db.rows .menus i with
  | none => trivial
  | some existing =>
    refine wp_bind (wp_acquireTreeLock hf fun l₂ w₂ hf₂ _ _ ↦ ?_)
    refine wp_bind (wp_look hf₂ fun w₃ _ hf₃ ↦ ?_)
    split
    · trivial
    · refine wp_delete hf₃.written (hf₃.none i) (fun l' w' hp ↦ (hf₃.passed hp).ready) fun l' w' hs ↦ ?_
      exact ready_of_stepped hf₃ hs fun p hp ↦ by cases hp

end Calls

end AdminPlatform.Menu.TreeSafety
