import AdminPlatform.Menu.TreeCommit

namespace AdminPlatform.Menu.TreeStatements

open Model.Schema Model.Service Model.Scope Foundation.Relational Foundation.Transaction
open Foundation.Interleaving Foundation.RelyGuarantee Foundation.Forest
open Service MenuRepository TreeInvariant TreeTransaction TreeCommit

variable {n₀ : ℕ} {G : Guard Table Row LockName Storage Note} {w w' : Shared} {l l' : Private}
  {i k p : ℕ} {m : Menu} {v : Option Menu} {g : Statement}

/-- What a statement that writes to the menu `i` leaves behind. -/
structure Stepped (n₀ : ℕ) (l : Private) (w : Shared) (i : ℕ) (v : Option Menu) (l' : Private)
    (w' : Shared) : Prop where
  inv : MenuInv n₀ w'
  written : Written n₀ l' w'
  after : After (menuProtocol n₀) l w l' w'
  redo : ∀ k, pending l'.redo .menus k = if k = i then some v else pending l.redo .menus k

/-- What a statement that writes to no menu leaves behind. -/
structure Passed (n₀ : ℕ) (l : Private) (w : Shared) (l' : Private) (w' : Shared) : Prop where
  inv : MenuInv n₀ w'
  written : Written n₀ l' w'
  after : After (menuProtocol n₀) l w l' w'
  redo : ∀ k, pending l'.redo .menus k = pending l.redo .menus k

theorem inv_run (hi : MenuInv n₀ w) : MenuInv n₀ (w.run g) := hi.congr rfl rfl (Nat.le_add_right _ _)

theorem pending_run (n k : ℕ) : pending (l.run g n).redo .menus k =
    (pending g.writes .menus k).or (pending l.redo .menus k) := pending_append _ _ _ _

theorem notes_run (l : Private) (g : Statement) (n : ℕ) : l.notes ⊆ (l.run g n).notes :=
  List.subset_append_left _ _

theorem mem_notes_run {x : Note} {n : ℕ} (h : x ∈ g.notes) : x ∈ (l.run g n).notes :=
  List.mem_append_right _ h

theorem parentHeld_mono (h : ParentHeld l w m) (hl : l.held ⊆ l'.held)
    (hv : ∀ p, m.parentId = some p → ((w.view l).db.rows .menus p).isSome →
      ((w'.view l').db.rows .menus p).isSome) : ParentHeld l' w' m := by
  intro p hp
  obtain ⟨⟨mode, hmode⟩, hx⟩ := h p hp
  exact ⟨⟨mode, hl hmode⟩, hv p hp hx⟩

def DrawsNew (n₀ : ℕ) (l : Private) (w : Shared) (g : Statement) : Prop :=
  ∀ j, Note.menuCreated j ∈ g.notes →
    (.own j, .exclusive) ∈ (l.run g w.next).held ∧ j < (w.run g).next ∧ ¬ Born n₀ w j

theorem created_run (h : Written n₀ l w) (hn : DrawsNew n₀ l w g) {j : ℕ}
    (hj : Note.menuCreated j ∈ (l.run g w.next).notes) :
    (.own j, .exclusive) ∈ (l.run g w.next).held ∧ j < (w.run g).next ∧ ¬ Born n₀ (w.run g) j := by
  rcases List.mem_append.1 hj with hj | hj
  · obtain ⟨ho, hlt, hb⟩ := h.created j hj
    exact ⟨held_run _ _ _ ho, Nat.lt_of_lt_of_le hlt (Nat.le_add_right _ _), hb⟩
  · exact hn j hj

/-- A statement that writes to no menu keeps what has been written. -/
theorem written_pass (h : Written n₀ l w) (hp : ∀ k, pending g.writes .menus k = none)
    (hn : DrawsNew n₀ l w g) : Written n₀ (l.run g w.next) (w.run g) where
  covered := covered_run h.covered _ _
  created _ hj := created_run h hn hj
  writes k u hu := by
    have hview : ∀ k, ((w.run g).view (l.run g w.next)).db.rows .menus k =
        (w.view l).db.rows .menus k := by
      intro k
      rw [view_row, view_row, pending_run, hp]
      rfl
    have hkeep : ∀ m, ParentHeld l w m → ParentHeld (l.run g w.next) (w.run g) m := by
      refine fun m hm ↦ parentHeld_mono hm (held_run _ _ _) fun p _ hx ↦ ?_
      rw [hview]
      exact hx
    rw [pending_run, hp, Option.none_or] at hu
    cases h.writes k u hu with
    | create m hn hm => exact .create m (notes_run _ _ _ hn) (hkeep m hm)
    | keep m hx he => exact .keep m hx he
    | move m hx hm hr =>
      refine .move m hx (hkeep m hm) (hr.imp (fun hl ↦ held_run _ _ _ hl) (Or.imp_right fun hre ↦ ?_))
      exact hre.mono (notes_run _ _ _)
    | delete hx hc =>
      refine .delete hx fun k' hk' ↦ hc k' ?_
      rw [parentOf, hview] at hk'
      exact hk'

/-- A statement that writes to one menu keeps what has been written to the others. -/
theorem written_step (h : Written n₀ l w)
    (hp : ∀ k, pending g.writes .menus k = if k = i then some v else none) (hn : DrawsNew n₀ l w g)
    (hw : MenuWrite (l.run g w.next) (w.run g) i v)
    (hs : ∀ p, v.bind Menu.parentId = some p →
      ((w.view l).db.rows .menus p).isSome ∨ parentOf (w.view l).db i = some p)
    (hd : v = none → ∀ k, parentOf (w.view l).db k ≠ some i) :
    Written n₀ (l.run g w.next) (w.run g) where
  covered := covered_run h.covered _ _
  created _ hj := created_run h hn hj
  writes k u hu := by
    have hself : ((w.run g).view (l.run g w.next)).db.rows .menus i = v := by
      rw [view_row, pending_run, hp, if_pos rfl]
      rfl
    have hother : ∀ k, k ≠ i → ((w.run g).view (l.run g w.next)).db.rows .menus k =
        (w.view l).db.rows .menus k := by
      intro k hk
      rw [view_row, view_row, pending_run, hp, if_neg hk]
      rfl
    by_cases hk : k = i
    · subst hk
      rw [pending_run, hp, if_pos rfl, Option.some_or, Option.some.injEq] at hu
      exact hu ▸ hw
    · rw [pending_run, hp, if_neg hk, Option.none_or] at hu
      have hview := view_parent_of_pending (w := w) hu
      have hkeep : ∀ m, u = some m → ParentHeld l w m → ParentHeld (l.run g w.next) (w.run g) m := by
        intro m hm hpar
        refine parentHeld_mono hpar (held_run _ _ _) fun p hmp hx ↦ ?_
        by_cases hpi : p = i
        · rw [hpi, hself]
          cases v with
          | some _ => rfl
          | none =>
            subst hm
            exact absurd (hview.trans (hpi ▸ hmp)) (hd rfl k)
        · rw [hother p hpi]
          exact hx
      cases h.writes k u hu with
      | create m hn hm => exact .create m (notes_run _ _ _ hn) (hkeep m rfl hm)
      | keep m hx he => exact .keep m hx he
      | move m hx hm hr =>
        refine .move m hx (hkeep m rfl hm)
          (hr.imp (fun hl ↦ held_run _ _ _ hl) (Or.imp_right fun hre ↦ ?_))
        exact hre.mono (notes_run _ _ _)
      | delete hx hc =>
        refine .delete hx fun k' hk' ↦ ?_
        by_cases hki : k' = i
        · rw [parentOf, hki, hself] at hk'
          rcases hs k hk' with hx | hx
          · rw [view_row, hu] at hx
            cases hx
          · exact hc i hx
        · rw [parentOf, hother k' hki] at hk'
          exact hc k' hk'

theorem stepped_run (hr : Rely (menuProtocol n₀) l w w') (hg : g.ext = id)
    (hp : ∀ k, pending g.writes .menus k = if k = i then some v else none)
    (hw : Written n₀ (l.run g w'.next) (w'.run g)) :
    Stepped n₀ l w i v (l.run g w'.next) (w'.run g) where
  inv := inv_run hr.inv
  written := hw
  after := after_run hr hg
  redo k := by
    rw [pending_run, hp]
    split <;> rfl

theorem passed_run (h : Written n₀ l w) (hr : Rely (menuProtocol n₀) l w w') (hg : g.ext = id)
    (hp : ∀ k, pending g.writes .menus k = none) (hn : DrawsNew n₀ l w' g) :
    Passed n₀ l w (l.run g w'.next) (w'.run g) where
  inv := inv_run hr.inv
  written := written_pass (h.rely hr) hp hn
  after := after_run hr hg
  redo k := by rw [pending_run, hp]; rfl

theorem drawsNew_of_not_mem (h : ∀ j, Note.menuCreated j ∉ g.notes) : DrawsNew n₀ l w g :=
  fun j hj ↦ absurd hj (h j)

theorem pending_menus_single (k : ℕ) (v : Option Menu) :
    pending [(⟨.menus, i, v⟩ : Write Row)] .menus k = if k = i then some v else none := by
  rw [pending_singleton]
  by_cases hk : k = i
  · rw [if_pos hk, hk, Write.at_self]
  · rw [if_neg hk, Write.at_id_ne (Ne.symm hk)]

/-- A resolved foreign key finds the parent and holds it. -/
theorem reference_parent {locks : List (Resource Table LockName × Mode)} {a : Option ℕ} {db : Db}
    (h : parentReference db a = some locks) (ha : a = some p) :
    (.row .menus p, .shared) ∈ locks ∧ (db.rows .menus p).isSome := by
  subst ha
  simp only [parentReference] at h
  split at h
  · next hx =>
    cases h
    exact ⟨List.mem_cons_self, hx⟩
  · cases h

/-- A row that is not born has not been written. -/
theorem pending_unborn (hi : MenuInv n₀ w) (h : Written n₀ l w) (hb : ¬ Born n₀ w i)
    (hn : w.next ≤ i) : pending l.redo .menus i = none := by
  cases hv : pending l.redo .menus i with
  | none => rfl
  | some v =>
    cases h.writes _ v hv with
    | create _ hc _ => exact absurd (h.created _ hc).2.1 (Nat.not_lt.2 hn)
    | keep _ hx _ => exact absurd (hi.born_of_isSome hx) hb
    | move _ hx _ _ => exact absurd (hi.born_of_isSome hx) hb
    | delete hx _ => exact absurd (hi.born_of_isSome hx) hb

def insertion (row : Menu) (notes : List Note) (locks : List (Resource Table LockName × Mode))
    (i : ℕ) : Statement where
  locks := locks
  fresh := 1
  writes := [⟨.menus, i, some row⟩]
  notes := .menuCreated i :: notes

theorem stepped_insertion (row : Menu) (notes : List Note)
    (locks : List (Resource Table LockName × Mode)) (h : Written n₀ l w)
    (hr : Rely (menuProtocol n₀) l w w') (hn : ∀ j, Note.menuCreated j ∉ notes)
    (hp : ∀ p, row.parentId = some p →
      (.row .menus p, .shared) ∈ locks ∧ ((w'.view l).db.rows .menus p).isSome) :
    let g := insertion row notes locks w'.next
    Stepped n₀ l w w'.next (some row) (l.run g w'.next) (w'.run g) ∧
      row.parentId ≠ some w'.next ∧ pending l.redo .menus w'.next = none := by
  intro g
  have hw := h.rely hr
  have hb : ¬ Born n₀ w' w'.next := hr.inv.not_born_next
  have hnone := pending_unborn hr.inv hw hb (Nat.le_refl _)
  have hne : row.parentId ≠ some w'.next := by
    intro he
    have hx := (hp _ he).2
    rw [view_row, hnone] at hx
    exact hb (hr.inv.born_of_isSome hx)
  have hdraws : DrawsNew n₀ l w' g := by
    intro j hj
    rcases List.mem_cons.1 hj with he | hj
    · cases he
      refine ⟨?_, Nat.lt_succ_self _, hb⟩
      simp [g, insertion, Local.run, Effect.claims]
    · exact absurd hj (hn j)
  have hcreate : MenuWrite (l.run g w'.next) (w'.run g) w'.next (some row) := by
    refine .create row (mem_notes_run List.mem_cons_self) fun p hrow ↦ ?_
    obtain ⟨hlock, hx⟩ := hp p hrow
    refine ⟨⟨.shared, ?_⟩, ?_⟩
    · simp [g, insertion, Local.run, Effect.claims, hlock]
    · have hpn : p ≠ w'.next := fun he ↦ hne (he ▸ hrow)
      have hpend := pending_menus_single (i := w'.next) p (some row)
      rw [if_neg hpn] at hpend
      have hrun : pending (l.run g w'.next).redo .menus p = pending l.redo .menus p := by
        rw [pending_run]
        show (pending [(⟨.menus, w'.next, some row⟩ : Write Row)] .menus p).or _ = _
        rw [hpend]
        rfl
      rw [view_row] at hx ⊢
      rw [hrun]
      exact hx
  have hpend := fun k ↦ pending_menus_single (i := w'.next) k (some row)
  have hwritten := written_step (g := g) hw hpend hdraws hcreate (fun p hrow ↦ .inl (hp p hrow).2)
    (fun he ↦ by cases he)
  exact ⟨stepped_run hr rfl hpend hwritten, hne, hnone⟩

theorem wp_insert {Q : ℕ × Menu → Private → Shared → Prop} {row : Menu} {note : ℕ → List Note}
    (h : Written n₀ l w) (hn : ∀ i j, Note.menuCreated j ∉ note i)
    (hQ : ∀ i l' w', Stepped n₀ l w i (some row) l' w' → Note.menuCreated i ∈ l'.notes →
      note i ⊆ l'.notes → row.parentId ≠ some i → pending l.redo .menus i = none → Q (i, row) l' w') :
    wp (menuProtocol n₀) G (insert row note) Q (fun _ _ _ ↦ True) l w := by
  refine wp_query fun w' hr ↦ ?_
  cases hp : parentReference (w'.view l).db row.parentId with
  | none => trivial
  | some locks =>
    by_cases hc : seedKeyTaken (w'.view l).db row.seedKey = true
    · simp only [if_pos hc]
    · simp only [if_neg hc]
      intro _
      obtain ⟨hstep, hne, hnone⟩ := stepped_insertion row (note w'.next) ((row.seedKey.map fun k ↦
        (.named (.unique .menus k), .exclusive)).toList ++ locks) h hr (hn w'.next) fun p hrow ↦ by
          obtain ⟨hlock, hx⟩ := reference_parent hp hrow
          exact ⟨List.mem_append_right _ hlock, hx⟩
      refine ⟨trivial, hQ _ _ _ hstep (mem_notes_run List.mem_cons_self) (fun x hx ↦ ?_) hne hnone⟩
      exact mem_notes_run (List.mem_cons_of_mem _ hx)

def rewriting (row : Menu) (notes : List Note) (locks : List (Resource Table LockName × Mode))
    (i : ℕ) : Statement where
  locks := locks
  writes := [⟨.menus, i, some row⟩]
  notes := notes

theorem stepped_rewriting {d row : Menu} (notes : List Note)
    {locks : List (Resource Table LockName × Mode)} (h : Written n₀ l w)
    (hr : Rely (menuProtocol n₀) l w w') (hn : ∀ j, Note.menuCreated j ∉ notes)
    (hpend : pending l.redo .menus i = none) (hd : w'.db.rows .menus i = some d)
    (hp : d.parentId = row.parentId ∨
      (∀ p, row.parentId = some p →
        (.row .menus p, .shared) ∈ locks ∧ ((w'.view l).db.rows .menus p).isSome) ∧
      (LocksTree l ∨ row.parentId = none ∨ Reparented notes i)) :
    Stepped n₀ l w i (some row) (l.run (rewriting row notes locks i) w'.next)
      (w'.run (rewriting row notes locks i)) := by
  have hw := h.rely hr
  have hsingle := fun k ↦ pending_menus_single (i := i) k (some row)
  have hx : (w'.db.rows .menus i).isSome := by rw [hd]; rfl
  have hview : parentOf (w'.view l).db i = d.parentId := by
    rw [view_parent_of_none hpend, parentOf, hd]
    rfl
  refine stepped_run hr rfl hsingle (written_step hw hsingle (drawsNew_of_not_mem hn) ?_ ?_
    fun he ↦ by cases he)
  · rcases hp with he | ⟨hpar, hreason⟩
    · refine .keep row hx ?_
      show parentOf w'.db i = _
      rw [parentOf, hd]
      exact he
    · refine .move row hx (fun p hrow ↦ ?_) ?_
      · obtain ⟨hlock, hxp⟩ := hpar p hrow
        refine ⟨⟨.shared, ?_⟩, ?_⟩
        · simp [rewriting, Local.run, Effect.claims, hlock]
        · rw [view_row, pending_run]
          show ((pending [(⟨.menus, i, some row⟩ : Write Row)] .menus p).or _ |>.getD _).isSome
          rw [hsingle]
          by_cases hpi : p = i
          · rw [if_pos hpi]
            rfl
          · rw [if_neg hpi]
            exact hxp
      · refine hreason.imp (fun hl ↦ held_run _ _ _ hl) (Or.imp_right fun hre ↦ hre.mono ?_)
        exact List.subset_append_right _ _
  · intro p hrow
    rcases hp with he | ⟨hpar, -⟩
    · exact .inr (hview.trans (he.trans hrow))
    · exact .inl (hpar p hrow).2

theorem clean_of_not_isDirty {loaded : Menu} {payload : MenuUpdate}
    (h : isDirty loaded payload = false) : dirty loaded.parentId payload.parentId = false := by
  simp only [isDirty, Bool.or_eq_false_iff] at h
  simp only [h]

theorem wp_flush {Q : Menu → Private → Shared → Prop} {loaded : Menu} {payload : MenuUpdate}
    {note : List Note} (h : Written n₀ l w) (hn : ∀ j, Note.menuCreated j ∉ note)
    (hpend : pending l.redo .menus i = none)
    (hm : dirty loaded.parentId payload.parentId = true →
      LocksTree l ∨ payload.parentId = some none ∨ Reparented note i)
    (hpass : ∀ l' w', Passed n₀ l w l' w' → note ⊆ l'.notes →
      dirty loaded.parentId payload.parentId = false → Q loaded l' w')
    (hstep : ∀ m l' w', Stepped n₀ l w i (some m) l' w' → note ⊆ l'.notes →
      (dirty loaded.parentId payload.parentId = true → payload.parentId = some m.parentId ∧
        ∀ p, m.parentId = some p → Note.menuMoved i p ∈ l'.notes) →
      (dirty loaded.parentId payload.parentId = false → parentOf w'.db i = m.parentId) →
      (w'.db.rows .menus i).isSome → Q m l' w') :
    wp (menuProtocol n₀) G (flush i loaded payload note) Q (fun _ _ _ ↦ True) l w := by
  refine wp_query fun w' hr ↦ ?_
  by_cases hnull : hasNull payload = true
  · rw [if_pos hnull]
    trivial
  · rw [if_neg hnull]
    by_cases hdirty : isDirty loaded payload = true
    · simp only [hdirty, Bool.not_true, Bool.false_eq_true, if_false]
      cases hd : (w'.view l).db.rows .menus i with
      | none => trivial
      | some d =>
        have hrow : w'.db.rows .menus i = some d := by
          rw [view_row, hpend] at hd
          exact hd
        dsimp only
        generalize href : (if dirty loaded.parentId payload.parentId = true then
          parentReference (w'.view l).db (patch loaded payload d).parentId else some []) = ref
        cases ref with
        | none => trivial
        | some locks =>
          intro _
          refine ⟨rfl, ?_⟩
          have hparent : (patch loaded payload d).parentId =
            flushed loaded.parentId d.parentId payload.parentId := rfl
          have hx : (w'.db.rows .menus i).isSome := by rw [hrow]; rfl
          cases hmoved : dirty loaded.parentId payload.parentId with
          | false =>
            have he : d.parentId = (patch loaded payload d).parentId :=
              (flushed_eq_of_clean hmoved).symm
            refine hstep _ _ _ (stepped_rewriting (note ++ []) h hr (fun j hj ↦ ?_) hpend
              hrow (.inl he)) ?_ (fun hc ↦ by cases hmoved.symm.trans hc) (fun _ ↦ ?_) hx
            · exact hn j (by simpa using hj)
            · exact fun x hx ↦ mem_notes_run (List.mem_append_left _ hx)
            · show parentOf w'.db i = _
              rw [parentOf, hrow]
              exact he
          | true =>
            have hsent := eq_flushed_of_dirty (b := d.parentId) hmoved
            rw [hmoved, if_pos rfl] at href
            refine hstep _ _ _ (stepped_rewriting (note ++
              ((patch loaded payload d).parentId.map (Note.menuMoved i)).toList) h hr
              (fun j hj ↦ ?_) hpend hrow (.inr ⟨fun p hp ↦ reference_parent href hp, ?_⟩)) ?_
              (fun _ ↦ ⟨hsent, fun p hp ↦ ?_⟩) (fun hc ↦ by cases hmoved.symm.trans hc) hx
            · rcases List.mem_append.1 hj with hj | hj
              · exact hn j hj
              · cases hq : (patch loaded payload d).parentId <;> simp [hq] at hj
            · rcases hm hmoved with hl | hnone | hre
              · exact .inl hl
              · rw [hsent, Option.some.injEq] at hnone
                exact .inr (.inl hnone)
              · exact .inr (.inr (hre.mono (List.subset_append_left _ _)))
            · exact fun x hx ↦ mem_notes_run (List.mem_append_left _ hx)
            · refine mem_notes_run (List.mem_append_right _ ?_)
              rw [hp]
              exact List.mem_singleton_self _
    · have hclean : isDirty loaded payload = false := Bool.eq_false_iff.2 hdirty
      simp only [hclean]
      intro _
      refine ⟨rfl, hpass _ _ (passed_run h hr rfl (fun _ ↦ rfl) (drawsNew_of_not_mem hn))
        (List.subset_append_right _ _) (clean_of_not_isDirty hclean)⟩

/-- The `DELETE` of one menu. -/
def deletion (db : Db) (i : ℕ) : Statement where
  writes := db.delete .roleMenus (fun _ (r : RoleMenu) ↦ decide (r.menuId = i)) ++
    db.delete .menus fun j _ ↦ decide (j = i)

theorem pending_deletion (db : Db) (i k : ℕ) : pending (deletion db i).writes .menus k =
    if k = i ∧ (db.rows .menus i).isSome then some none else none := by
  unfold deletion
  rw [pending_append, delete_other (show Table.roleMenus ≠ .menus by decide), Option.or_none]
  split
  · next h =>
    obtain ⟨rfl, hx⟩ := h
    obtain ⟨m, hm⟩ := Option.isSome_iff_exists.1 hx
    exact pending_delete_self hm (by simp)
  · next h =>
    cases hk : pending (db.delete .menus fun j _ ↦ decide (j = i)) .menus k with
    | none => rfl
    | some v =>
      obtain ⟨m, hm, hki, -⟩ := pending_delete hk
      have he : k = i := of_decide_eq_true hki
      subst he
      exact absurd ⟨rfl, by rw [hm]; rfl⟩ h

theorem stepped_deletion (h : Written n₀ l w) (hr : Rely (menuProtocol n₀) l w w')
    (hpend : pending l.redo .menus i = none) (hc : ∀ k, parentOf (w'.view l).db k ≠ some i)
    (hx : ((w'.view l).db.rows .menus i).isSome) :
    Stepped n₀ l w i none (l.run (deletion (w'.view l).db i) w'.next)
      (w'.run (deletion (w'.view l).db i)) := by
  have hsingle : ∀ k, pending (deletion (w'.view l).db i).writes .menus k =
      if k = i then some none else none := by
    intro k
    rw [pending_deletion]
    by_cases hki : k = i
    · rw [if_pos ⟨hki, hx⟩, if_pos hki]
    · rw [if_neg fun h ↦ hki h.1, if_neg hki]
  refine stepped_run hr rfl hsingle (written_step (h.rely hr) hsingle
    (drawsNew_of_not_mem fun j hj ↦ by cases hj) (.delete ?_ fun k hk ↦ ?_)
    (fun p hp ↦ by cases hp) fun _ ↦ hc)
  · rw [view_row, hpend] at hx
    exact hx
  · have hrun := pending_run (l := l) (g := deletion (w'.view l).db i) w'.next k
    rw [hsingle] at hrun
    by_cases hki : k = i
    · rw [if_pos hki, Option.some_or] at hrun
      rw [view_parent_of_pending hrun] at hk
      cases hk
    · rw [if_neg hki, Option.none_or] at hrun
      refine hc k ?_
      rw [parentOf, view_row, hrun] at hk
      exact hk

theorem wp_delete {Q : Unit → Private → Shared → Prop} (h : Written n₀ l w)
    (hpend : pending l.redo .menus i = none) (hpass : ∀ l' w', Passed n₀ l w l' w' → Q () l' w')
    (hstep : ∀ l' w', Stepped n₀ l w i none l' w' → Q () l' w') :
    wp (menuProtocol n₀) G (MenuRepository.delete i) Q (fun _ _ _ ↦ True) l w := by
  refine wp_query fun w' hr ↦ ?_
  by_cases hc : childIds (w'.view l).db i = []
  · rw [if_pos hc]
    refine fun _ ↦ ⟨rfl, ?_⟩
    show Q () (l.run (deletion (w'.view l).db i) w'.next) (w'.run (deletion (w'.view l).db i))
    by_cases hx : ((w'.view l).db.rows .menus i).isSome
    · refine hstep _ _ (stepped_deletion h hr hpend (fun k hk ↦ ?_) hx)
      have hm := mem_childIds.2 hk
      rw [hc] at hm
      cases hm
    · refine hpass _ _ (passed_run h hr rfl (fun k ↦ ?_) (drawsNew_of_not_mem fun j hj ↦ by cases hj))
      rw [pending_deletion, if_neg fun h ↦ hx h.2]
  · rw [if_neg hc]
    trivial

theorem wp_acquireLock {name : LockName} {Q : Unit → Private → Shared → Prop} (h : Written n₀ l w)
    (hQ : ∀ l' w', Passed n₀ l w l' w' → l'.notes = l.notes →
      (.named name, .exclusive) ∈ l'.held → Q () l' w') :
    wp (menuProtocol n₀) G (acquireTransactionLock name) Q (fun _ _ _ ↦ True) l w := by
  refine wp_query fun w' hr _ ↦ ⟨rfl, hQ _ _ (passed_run h hr rfl (fun _ ↦ rfl)
    (drawsNew_of_not_mem fun j hj ↦ by cases hj)) (List.append_nil _) ?_⟩
  simp [Local.run, Effect.claims]

theorem wp_guardSecurityFieldsCreate {P : Protocol Table Row LockName Storage Note} {payload : MenuCreate}
    {isSuperAdmin : Bool} {Q : Unit → Private → Shared → Prop} (hQ : Q () l w) :
    wp P G (guardSecurityFieldsCreate payload isSuperAdmin) Q (fun _ _ _ ↦ True) l w := by
  unfold guardSecurityFieldsCreate
  split
  · exact hQ
  · split
    · trivial
    · exact hQ

theorem wp_guardSecurityFieldsUpdate {P : Protocol Table Row LockName Storage Note} {payload : MenuUpdate}
    {isSuperAdmin : Bool} {Q : Unit → Private → Shared → Prop} (hQ : Q () l w) :
    wp P G (guardSecurityFieldsUpdate payload isSuperAdmin) Q (fun _ _ _ ↦ True) l w := by
  unfold guardSecurityFieldsUpdate
  split
  · exact hQ
  · split
    · trivial
    · exact hQ

end AdminPlatform.Menu.TreeStatements
