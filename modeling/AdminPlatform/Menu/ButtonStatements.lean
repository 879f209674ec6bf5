import AdminPlatform.Menu.ButtonProtocol

namespace AdminPlatform.Menu.ButtonStatements

open Model.Schema Model.Service Model.Scope Foundation.Relational Foundation.Transaction
open Foundation.Interleaving Foundation.RelyGuarantee
open Service MenuRepository ButtonProtocol

variable {α : Type} {G : Guard Table Row LockName Storage Note} {w w' : Shared} {l l' : Private}
  {i p : ℕ} {v : Option Menu}

theorem leaves_run (hi : Leaves w) (g : Statement) : Leaves (w.run g) :=
  ⟨fun i m hm ↦ Nat.lt_of_lt_of_le (hi.below i m hm) (Nat.le_add_right _ _), hi.parent⟩

def Ready (l : Private) (w : Shared) : Prop := Leaves w ∧ LeafTx l w

theorem leafTx_of_none (h : ∀ k, pending l.redo .menus k = none) : LeafTx l w where
  fits i v hp := by
    rw [h] at hp
    cases hp
  single i j v v' hp := by
    rw [h] at hp
    cases hp

theorem leafTx_of_one (h : Fits l w i v)
    (hone : ∀ k x, pending l.redo .menus k = some x → k = i ∧ x = v) : LeafTx l w where
  fits k x hp := by
    obtain ⟨rfl, rfl⟩ := hone k x hp
    exact h
  single k j x x' hp hp' := (hone k x hp).1.trans (hone j x' hp').1.symm

theorem pending_one {k n : ℕ} {x : Option Menu} {g : Statement} (hl : l.redo = [])
    (hg : g.writes = [⟨.menus, i, v⟩]) (hp : pending (l.run g n).redo .menus k = some x) :
    k = i ∧ x = v := by
  have hredo : (l.run g n).redo = [⟨.menus, i, v⟩] := by simp only [Local.run, hl, hg, List.nil_append]
  rw [hredo, pending_singleton] at hp
  have hw := Write.at_eq_some hp
  cases hw
  exact ⟨rfl, rfl⟩

theorem view_of_unwritten (hl : l.redo = []) (t : Table) (k : ℕ) :
    (w.view l).db.rows t k = w.db.rows t k := by
  rw [view_db, apply_rows, hl]
  rfl

theorem mem_run_locks {g : Statement} {n : ℕ} {c : Resource Table LockName × Mode}
    (h : c ∈ g.locks) : c ∈ (l.run g n).held :=
  claims_run l g n (List.mem_append_left _ (List.mem_append_left _ h))

theorem mem_run_writes {g : Statement} {n : ℕ} (h : (⟨.menus, i, v⟩ : Write Row) ∈ g.writes) :
    (.row .menus i, .exclusive) ∈ (l.run g n).held :=
  claims_run l g n (List.mem_append_left _ (List.mem_append_right _ (List.mem_map.2 ⟨_, h, rfl⟩)))

theorem reference_row {locks : List (Resource Table LockName × Mode)} {a : Option ℕ} {db : Db}
    (h : parentReference db a = some locks) (ha : a = some p) :
    (.row .menus p, .shared) ∈ locks ∧ (db.rows .menus p).isSome := by
  subst ha
  simp only [parentReference] at h
  split at h
  · next hs =>
    cases h
    exact ⟨List.mem_singleton_self _, hs⟩
  · cases h

/-- The session may put a menu under `p`. -/
def Allowed (l : Private) (w : Shared) (p : ℕ) : Prop := TreeHeld l ∧ MayParent (w.db.rows .menus p)

theorem Allowed.rely (h : Allowed l w p) (hr : Rely leafProtocol l w w') : Allowed l w' p :=
  ⟨h.1, (treeKept_of_rely hr h.1).1 p h.2⟩

/-- The session may turn `i` into a button or delete it. -/
def Childless (l : Private) (w : Shared) (i : ℕ) : Prop :=
  TreeHeld l ∧ ∀ k, parentOf w.db k ≠ some i

theorem Childless.rely (h : Childless l w i) (hr : Rely leafProtocol l w w') : Childless l w' i :=
  ⟨h.1, fun k hk ↦ h.2 k ((treeKept_of_rely hr h.1).2 k i hk)⟩

theorem wp_create {payload : MenuCreate} (hl : l.redo = [])
    (hparent : ∀ p, payload.parentId = some p → Allowed l w p) :
    wp leafProtocol G (MenuRepository.create payload) (fun _ l w ↦ Ready l w) (fun _ _ _ ↦ True) l w := by
  unfold MenuRepository.create MenuRepository.insert
  refine wp_query fun w' hr ↦ ?_
  generalize href : parentReference (w'.view l).db payload.parentId = ref
  cases ref with
  | none => trivial
  | some locks =>
    simp only [seedKeyTaken, Option.isSome_none, Bool.false_and, Bool.false_eq_true, if_false]
    refine fun _ ↦ ⟨trivial, leaves_run hr.inv _, leafTx_of_one ?_ fun k x hp ↦ pending_one hl rfl hp⟩
    have hnew : w'.db.rows .menus w'.next = none := by
      cases hm : w'.db.rows .menus w'.next with
      | none => rfl
      | some m => exact absurd (hr.inv.below _ m hm) (Nat.lt_irrefl _)
    refine ⟨mem_run_writes (List.mem_singleton_self _), fun _ ↦ Nat.lt_succ_self _, fun p hp ↦ ?_, ?_⟩
    · obtain ⟨htree, hmay⟩ := (hparent p hp).rely hr
      refine .inr ⟨held_run _ _ _ htree, ?_, mem_run_locks ?_, hmay⟩
      · rintro rfl
        obtain ⟨m, hm, -⟩ := hmay
        exact absurd (hm.symm.trans hnew) (by simp)
      · exact List.mem_append_right _ (reference_row href hp).1
    · refine .inr (.inl ?_)
      rintro ⟨m, hm, -⟩
      exact absurd (hm.symm.trans hnew) (by simp)

/-- The new parent a statement writes is the stored one or the one that was asked for. -/
theorem patch_parent (loaded d : Menu) (payload : MenuUpdate) :
    (dirty loaded.parentId payload.parentId = false ∧ (patch loaded payload d).parentId = d.parentId) ∨
      dirty loaded.parentId payload.parentId = true ∧
        payload.parentId = some (patch loaded payload d).parentId := by
  cases hd : dirty loaded.parentId payload.parentId with
  | false => exact .inl ⟨rfl, flushed_eq_of_clean hd⟩
  | true => exact .inr ⟨rfl, eq_flushed_of_dirty hd⟩

theorem patch_type {loaded d : Menu} {payload : MenuUpdate} (hn : hasNull payload = false)
    (h : (patch loaded payload d).menuType = .button) :
    d.menuType = .button ∨ payload.menuType = some (some .button) := by
  have hnull : payload.menuType ≠ some none := by
    intro he
    simp [hasNull, he] at hn
  have hp : (flushed (some loaded.menuType) (some d.menuType) payload.menuType).getD d.menuType =
      .button := h
  cases hm : payload.menuType with
  | none =>
    rw [hm] at hp
    exact .inl hp
  | some t =>
    cases t with
    | none => exact absurd hm hnull
    | some t =>
      rw [hm, flushed] at hp
      split at hp
      · exact .inl hp
      · exact .inr (by rw [← show t = .button from hp])

theorem wp_refresh (h : Ready l w) :
    wp leafProtocol G (do
      match ← get i with
      | none => Prog.fail Failure.staleData
      | some m => pure m) (fun _ l w ↦ Ready l w) (fun _ _ _ ↦ True) l w := by
  refine wp_bind (wp_read fun w' hr ↦ ?_)
  split
  · trivial
  · exact ⟨hr.inv, h.2.rely hr⟩

theorem wp_update {loaded : Menu} {payload : MenuUpdate} (hl : l.redo = [])
    (hparent : ∀ p, payload.parentId = some (some p) → p ≠ i ∧ Allowed l w p)
    (hbutton : payload.menuType = some (some .button) → Childless l w i) :
    wp leafProtocol G (MenuRepository.update i loaded payload) (fun _ l w ↦ Ready l w)
      (fun _ _ _ ↦ True) l w := by
  unfold MenuRepository.update
  refine wp_bind (wp_query fun w' hr ↦ ?_)
  by_cases hnull : hasNull payload = true
  · rw [if_pos hnull]
    trivial
  · rw [if_neg hnull]
    by_cases hdirty : isDirty loaded payload = true
    · simp only [hdirty, Bool.not_true, Bool.false_eq_true, if_false]
      cases hd : (w'.view l).db.rows .menus i with
      | none => trivial
      | some d =>
        have hrow : w'.db.rows .menus i = some d := (view_of_unwritten hl .menus i).symm.trans hd
        dsimp only
        generalize href : (if dirty loaded.parentId payload.parentId = true then
          parentReference (w'.view l).db (patch loaded payload d).parentId else some []) = ref
        cases ref with
        | none => trivial
        | some locks =>
          refine fun _ ↦ ⟨rfl, wp_refresh ⟨leaves_run hr.inv _, leafTx_of_one ?_ fun k x hp ↦
            pending_one hl rfl hp⟩⟩
          refine ⟨mem_run_writes (List.mem_singleton_self _), fun _ ↦
            Nat.lt_of_lt_of_le (hr.inv.below i d hrow) (Nat.le_add_right _ _), fun p hp ↦ ?_, ?_⟩
          · have hp' : (patch loaded payload d).parentId = some p := hp
            rcases patch_parent loaded d payload with
              ⟨-, he⟩ | ⟨hm, he⟩
            · refine .inl ?_
              show parentOf w'.db i = some p
              rw [parentOf, hrow]
              exact he.symm.trans hp'
            · rw [hp'] at he
              obtain ⟨hne, hallow⟩ := hparent p he
              obtain ⟨htree, hmay⟩ := hallow.rely hr
              rw [if_pos hm] at href
              exact .inr ⟨held_run _ _ _ htree, hne, mem_run_locks (reference_row href hp').1, hmay⟩
          · by_cases hb : (patch loaded payload d).menuType = .button
            · rcases patch_type (Bool.eq_false_iff.2 hnull) hb with he | he
              · refine .inr (.inl ?_)
                rintro ⟨m, hm, hne⟩
                have hm' : w'.db.rows .menus i = some m := hm
                rw [hrow] at hm'
                cases hm'
                exact hne he
              · obtain ⟨htree, hc⟩ := (hbutton he).rely hr
                exact .inr (.inr ⟨held_run _ _ _ htree, hc⟩)
            · exact .inl ⟨_, rfl, hb⟩
    · have hclean : isDirty loaded payload = false := Bool.eq_false_iff.2 hdirty
      simp only [hclean]
      refine fun _ ↦ ⟨rfl, wp_refresh ⟨leaves_run hr.inv _, leafTx_of_none fun k ↦ ?_⟩⟩
      show pending (l.redo ++ []) .menus k = none
      rw [hl]
      rfl

theorem wp_delete (hl : l.redo = []) (hc : Childless l w i) :
    wp leafProtocol G (MenuRepository.delete i) (fun _ l w ↦ Ready l w) (fun _ _ _ ↦ True) l w := by
  unfold MenuRepository.delete
  refine wp_query fun w' hr ↦ ?_
  split
  · next hq =>
    split at hq
    · cases hq
      obtain ⟨htree, hchild⟩ := hc.rely hr
      refine fun _ ↦ ⟨rfl, leaves_run hr.inv _, ?_⟩
      have hone : ∀ k x, pending (l.redo ++
          ((w'.view l).db.delete .roleMenus (fun _ (r : RoleMenu) ↦ decide (r.menuId = i)) ++
            (w'.view l).db.delete .menus fun k _ ↦ decide (k = i))) .menus k = some x →
          k = i ∧ x = none ∧ (w'.db.rows .menus i).isSome := by
        intro k x hp
        rw [hl, List.nil_append, pending_append, delete_other (by decide : Table.roleMenus ≠ .menus),
          Option.or_none] at hp
        obtain ⟨m, hm, hk, rfl⟩ := pending_delete hp
        have hk' : k = i := of_decide_eq_true hk
        subst hk'
        refine ⟨rfl, rfl, ?_⟩
        rw [← view_of_unwritten hl .menus k, hm]
        rfl
      refine ⟨fun k x hp ↦ ?_, fun k j x x' hp hp' ↦ (hone k x hp).1.trans (hone j x' hp').1.symm⟩
      obtain ⟨rfl, rfl, -⟩ := hone k x hp
      refine ⟨?_, fun hv ↦ (by cases hv), fun p hp ↦ (by cases hp), .inr (.inr ⟨?_, hchild⟩)⟩
      · have hm := pending_mem hp
        rw [Local.run, hl, List.nil_append] at hm
        exact mem_run_writes hm
      · exact held_run _ _ _ htree
    · cases hq
  · trivial

end AdminPlatform.Menu.ButtonStatements
