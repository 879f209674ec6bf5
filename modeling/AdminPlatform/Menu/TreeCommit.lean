import AdminPlatform.Menu.TreeTransaction

namespace AdminPlatform.Menu.TreeCommit

open Model.Schema Model.Service Foundation.Relational Foundation.Transaction
open Foundation.Interleaving Foundation.RelyGuarantee Foundation.Forest
open Service MenuRepository TreeInvariant TreeTransaction

variable {n₀ : ℕ} {w w' : Shared} {l : Private} {i k p : ℕ} {m : Menu} {v : Option Menu}
  {L : List Seeded}

/-- A menu with a child in the session's view is not deleted by the session. -/
theorem isSome_view (hw : Written n₀ l w) (hp : (w.db.rows .menus p).isSome)
    (hk : parentOf (w.view l).db k = some p) : ((w.view l).db.rows .menus p).isSome := by
  rw [view_row]
  cases hv : pending l.redo .menus p with
  | none => exact hp
  | some v =>
    cases hw.writes p v hv with
    | delete _ hc => exact absurd hk (hc k)
    | _ => rfl

/-- In the session's view every parent exists. -/
theorem parent_view (hi : MenuInv n₀ w) (hw : Written n₀ l w)
    (hk : parentOf (w.view l).db k = some p) : ((w.view l).db.rows .menus p).isSome := by
  cases hv : pending l.redo .menus k with
  | none => exact isSome_view hw (hi.parent k p ((view_parent_of_none hv).symm.trans hk)) hk
  | some v =>
    have hm := (view_parent_of_pending (w := w) hv).symm.trans hk
    cases hw.writes k v hv with
    | create m _ hp => exact (hp p hm).2
    | keep m _ he => exact isSome_view hw (hi.parent k p (he.trans hm)) hk
    | move m _ hp _ => exact (hp p hm).2
    | delete => cases hm

/-- A parent other than the committed one was locked for it. -/
theorem parent_of_unlocked (hw : Written n₀ l w) (hp : ∀ mode, (.row .menus p, mode) ∉ l.held)
    (hk : parentOf (w.view l).db k = some p) : parentOf w.db k = some p := by
  cases hv : pending l.redo .menus k with
  | none => exact (view_parent_of_none hv).symm.trans hk
  | some v =>
    have hm := (view_parent_of_pending (w := w) hv).symm.trans hk
    cases hw.writes k v hv with
    | create m _ hpar =>
      obtain ⟨⟨mode, hmode⟩, -⟩ := hpar p hm
      exact absurd hmode (hp mode)
    | keep m _ he => exact he.trans hm
    | move m _ hpar _ =>
      obtain ⟨⟨mode, hmode⟩, -⟩ := hpar p hm
      exact absurd hmode (hp mode)
    | delete => cases hm

theorem not_below_unborn (hi : MenuInv n₀ w) (hb : ¬ Born n₀ w i) (hp : p ≠ i) :
    ¬ Below (parentOf w.db) p i := by
  intro h
  rcases Relation.ReflTransGen.cases_tail h with rfl | ⟨c, -, hc⟩
  · exact hp rfl
  · exact hb (hi.born_of_isSome (hi.parent c i hc))

theorem not_below_parent (hi : MenuInv n₀ w) (hp : parentOf w.db i = some p) :
    ¬ Below (parentOf w.db) p i := by
  intro h
  obtain ⟨n, hc⟩ := below_iff_climb.1 h
  refine not_rooted_of_climb (n := n + 1) (Nat.succ_pos n) ?_ (hi.rooted i)
  rw [climb_succ, hp]
  exact hc

/-- The new parent of the menu a service has written does not lie below it. -/
theorem not_below_reason (hi : MenuInv n₀ w) (hw : Written n₀ l w) (hg : MoveGuard w l.notes)
    (h : Reason n₀ l w i p) : ¬ Below (parentOf w.db) p i := by
  cases h with
  | created hn hne => exact not_below_unborn hi (hw.created i hn).2.2 hne
  | kept hp => exact not_below_parent hi hp
  | checked above hl hn hn' hch hs =>
    refine hch _ fun x hx ↦ ?_
    rcases (hs x hx).2 with he | hnone | hre
    · exact .inl he
    · exact .inr hnone
    · exact hg i p above hn hn' x hx hre

theorem rooted_single (hi : MenuInv n₀ w) (hw : Written n₀ l w) (hg : MoveGuard w l.notes)
    (h : Single n₀ l w) (x : ℕ) : Rooted (parentOf (w.view l).db) x := by
  obtain ⟨i, hk, hm⟩ := h
  refine rooted_move (a := i) hi.rooted (fun k hki ↦ view_parent_of_none (hk k hki)) ?_ x
  intro p hp
  cases hv : pending l.redo .menus i with
  | none => exact not_below_parent hi ((view_parent_of_none hv).symm.trans hp)
  | some v =>
    have hv' := (view_parent_of_pending (w := w) hv).symm.trans hp
    cases v with
    | none => cases hv'
    | some m => exact not_below_reason hi hw hg (hm m p hv hv')

/-- The menus of a list whose parents all come before them are rooted. -/
theorem rooted_ordered {parent : ℕ → Option ℕ} (ho : Ordered L)
    (h : ∀ e ∈ L, Rooted parent e.id ∨ parent e.id = e.parentId ∨ parent e.id = none) :
    ∀ e ∈ L, Rooted parent e.id := by
  induction L with
  | nil =>
    intro e he
    cases he
  | cons e es ih =>
    have hes := ih ho.2 fun x hx ↦ h x (List.mem_cons_of_mem _ hx)
    intro x hx
    rcases List.mem_cons.1 hx with rfl | hx
    · rcases h x List.mem_cons_self with hr | he | hn
      · exact hr
      · cases hp : parent x.id with
        | none => exact rooted_of_none hp
        | some p =>
          obtain ⟨y, hy, rfl⟩ := ho.1 p (he.symm.trans hp)
          exact rooted_of_parent hp (hes y hy)
      · exact rooted_of_none hn
    · exact hes x hx

/-- Cutting links, and changing those of elements that stay rooted, keeps every chain finite. -/
theorem rooted_of_cut {parent parent' : ℕ → Option ℕ} {x : ℕ} (hx : Rooted parent x)
    (h : ∀ y, Rooted parent' y ∨ parent' y = parent y ∨ parent' y = none) : Rooted parent' x := by
  induction hx with
  | intro x _ ih =>
    rcases h x with hr | he | hn
    · exact hr
    · cases hp : parent x with
      | none => exact rooted_of_none (he.trans hp)
      | some p => exact rooted_of_parent (he.trans hp) (ih p hp)
    · exact rooted_of_none hn

theorem view_parent_kept (h : SeedTx n₀ L l w) {e : Seeded} (he : e ∈ L) (hs : e.step = .kept) :
    parentOf (w.view l).db e.id = parentOf w.db e.id ∨ parentOf (w.view l).db e.id = none := by
  cases hv : pending l.redo .menus e.id with
  | none => exact .inl (view_parent_of_none hv)
  | some v =>
    cases v with
    | none => exact .inr (view_parent_of_pending hv)
    | some m => exact .inl ((view_parent_of_pending hv).trans ((h.kept e he hs).2 m hv))

theorem view_parent_rest (h : SeedTx n₀ L l w) (hi : ∀ e ∈ L, e.id ≠ i) :
    parentOf (w.view l).db i = parentOf w.db i ∨ parentOf (w.view l).db i = none := by
  cases hv : pending l.redo .menus i with
  | none => exact .inl (view_parent_of_none hv)
  | some v =>
    have hnone := h.rest i hi v hv
    subst hnone
    exact .inr (view_parent_of_pending hv)

theorem view_parent_set (h : SeedTx n₀ L l w) {e : Seeded} (he : e ∈ L) (hs : e.step ≠ .kept) :
    parentOf (w.view l).db e.id = e.parentId := by
  obtain ⟨m, hm, hp⟩ := h.set e he hs
  exact (view_parent_of_pending hm).trans hp

/-- A run that has given no existing menu another parent. -/
theorem rooted_seed_still (hi : MenuInv n₀ w) (hw : Written n₀ l w) (h : SeedTx n₀ L l w)
    (hs : ∀ e ∈ L, e.step ≠ .reparented) (x : ℕ) : Rooted (parentOf (w.view l).db) x := by
  have hold : ∀ y, Born n₀ w y →
      parentOf (w.view l).db y = parentOf w.db y ∨ parentOf (w.view l).db y = none := by
    intro y hy
    by_cases hL : ∃ e ∈ L, e.id = y
    · obtain ⟨e, he, rfl⟩ := hL
      cases hstep : e.step with
      | kept => exact view_parent_kept h he hstep
      | placed => exact absurd hy (hw.created _ (h.placed e he hstep)).2.2
      | reparented => exact absurd hstep (hs e he)
    · exact view_parent_rest h fun e he hey ↦ hL ⟨e, he, hey⟩
  have hborn : ∀ y, Rooted (parentOf w.db) y → Born n₀ w y → Rooted (parentOf (w.view l).db) y := by
    intro y hy hb
    induction hy with
    | intro y _ ih =>
      rcases hold y hb with he | hn
      · cases hp : parentOf w.db y with
        | none => exact rooted_of_none (he.trans hp)
        | some p => exact rooted_of_parent (he.trans hp) (ih p hp (hi.born_of_isSome (hi.parent y p hp)))
      · exact rooted_of_none hn
  have hlist : ∀ e ∈ L, Rooted (parentOf (w.view l).db) e.id := by
    refine rooted_ordered h.ordered fun e he ↦ ?_
    by_cases hk : e.step = .kept
    · exact .inl (hborn _ (hi.rooted _) (h.kept e he hk).1)
    · exact .inr (.inl (view_parent_set h he hk))
  refine rooted_of_cut (hi.rooted x) fun y ↦ ?_
  by_cases hL : ∃ e ∈ L, e.id = y
  · obtain ⟨e, he, rfl⟩ := hL
    exact .inl (hlist e he)
  · exact .inr (view_parent_rest h fun e he hey ↦ hL ⟨e, he, hey⟩)

/-- A run that has, but whose other menus still have the parent it found. -/
theorem rooted_seed_moving (hi : MenuInv n₀ w) (h : SeedTx n₀ L l w)
    (hk : ∀ e ∈ L, e.step = .kept → parentOf w.db e.id = e.parentId ∨ parentOf w.db e.id = none)
    (x : ℕ) : Rooted (parentOf (w.view l).db) x := by
  have hlist : ∀ e ∈ L, Rooted (parentOf (w.view l).db) e.id := by
    refine rooted_ordered h.ordered fun e he ↦ .inr ?_
    by_cases hs : e.step = .kept
    · rcases view_parent_kept h he hs with hv | hn
      · rw [hv]
        exact hk e he hs
      · exact .inr hn
    · exact .inl (view_parent_set h he hs)
  refine rooted_of_cut (hi.rooted x) fun y ↦ ?_
  by_cases hL : ∃ e ∈ L, e.id = y
  · obtain ⟨e, he, rfl⟩ := hL
    exact .inl (hlist e he)
  · exact .inr (view_parent_rest h fun e he hey ↦ hL ⟨e, he, hey⟩)

theorem rooted_seed (hi : MenuInv n₀ w) (hw : Written n₀ l w) (hg : SeedGuard w l.notes)
    (h : SeedTx n₀ L l w) (x : ℕ) : Rooted (parentOf (w.view l).db) x := by
  by_cases hs : ∃ e ∈ L, e.step = .reparented
  · obtain ⟨e, he, hstep⟩ := hs
    have hnote := h.noted e he
    rw [hstep] at hnote
    refine rooted_seed_moving hi h (fun e' he' hk ↦ hg ⟨e.id, e.parentId, hnote⟩ _ _ ?_) x
    rw [← hk]
    exact h.noted e' he'
  · exact rooted_seed_still hi hw h (fun e he hstep ↦ hs ⟨e, he, hstep⟩) x

theorem menuInv_commit (hi : MenuInv n₀ w) (h : MenuTx n₀ l w) (hg : MoveGuard w l.notes)
    (hg' : SeedGuard w l.notes) : MenuInv n₀ (w.commit l) where
  born i m hm := by
    have hlog : w.log ⊆ (w.commit l).log := List.subset_append_left _ _
    have hrow : (pending l.redo .menus i).getD (w.db.rows .menus i) = some m := hm
    cases hv : pending l.redo .menus i with
    | none =>
      rw [hv] at hrow
      exact (hi.born i m hrow).mono hlog
    | some v =>
      rw [hv] at hrow
      cases h.written.writes i v hv with
      | create _ hn _ => exact .inr (List.mem_append_right _ hn)
      | keep _ hx _ => exact (hi.born_of_isSome hx).mono hlog
      | move _ hx _ _ => exact (hi.born_of_isSome hx).mono hlog
      | delete => cases hrow
  below i hb := by
    rcases hb with hlt | hn
    · exact hi.below i (.inl hlt)
    · rcases List.mem_append.1 hn with hn | hn
      · exact hi.below i (.inr hn)
      · exact (h.written.created i hn).2.1
  parent k p hk := parent_view hi h.written hk
  rooted x := by
    rcases h.reason with hs | ⟨L, hL⟩
    · exact rooted_single hi h.written hg hs x
    · exact rooted_seed hi h.written hg' hL x

/-- Links that change under somebody else's tree lock are cut, or changed by a seeding run. -/
theorem linksKept_commit (hw : Written n₀ l w) (hl : ¬ LocksTree l) :
    LinksKept n₀ w (w.commit l) := by
  refine ⟨List.subset_append_left _ _, fun i hb ↦ ?_⟩
  show parentOf (w.view l).db i = _ ∨ parentOf (w.view l).db i = none ∨ _
  cases hv : pending l.redo .menus i with
  | none => exact .inl (view_parent_of_none hv)
  | some v =>
    have hp := view_parent_of_pending (w := w) hv
    cases hw.writes i v hv with
    | create _ hn _ => exact absurd hb (hw.created i hn).2.2
    | keep _ _ he => exact .inl (hp.trans he.symm)
    | move m _ _ hr =>
      rcases hr with hlock | hnone | hre
      · exact absurd hlock hl
      · exact .inr (.inl (hp.trans hnone))
      · exact .inr (.inr (hre.mono (List.subset_append_right _ _)))
    | delete => exact .inr (.inl hp)

theorem menuProt_commit (hw : Written n₀ l w) {r : Resource Table LockName}
    (hr : ∀ mode, (r, mode) ∉ l.held) : menuProt n₀ r w (w.commit l) := by
  unfold menuProt
  split
  · intro hb hb'
    rcases hb' with hlt | hn
    · exact hb (.inl hlt)
    · rcases List.mem_append.1 hn with hn | hn
      · exact hb (.inr hn)
      · exact hr _ (hw.created _ hn).1
  · exact linksKept_commit hw (hr _)
  · exact fun k hk ↦ parent_of_unlocked hw hr hk
  · trivial

theorem moves_commit (hi : MenuInv n₀ w) (h : MenuTx n₀ l w) (hg : MoveGuard w l.notes)
    (hg' : SeedGuard w l.notes) : Moves (menuProtocol n₀) l.held w (w.commit l) :=
  ⟨menuInv_commit hi h hg hg', trivial, trivial, fun _ hr ↦ menuProt_commit h.written hr⟩

end AdminPlatform.Menu.TreeCommit
