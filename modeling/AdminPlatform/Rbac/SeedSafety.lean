import AdminPlatform.Menu.TreeSafety
import AdminPlatform.Rbac.Seed

namespace AdminPlatform.Rbac.SeedSafety

open Model.Schema Model.Service Model.Scope Foundation.Relational Foundation.Transaction
open Foundation.Interleaving Foundation.RelyGuarantee
open Menu.Service MenuRepository Menu.TreeInvariant Menu.TreeTransaction Menu.TreeCommit
open Menu.TreeStatements Menu.TreeSafety Seed

variable {n₀ : ℕ} {G : Guard Table Row LockName Storage Note} {w w' : Shared} {l l' : Private}
  {i : ℕ} {L : List Seeded} {e : Seeded} {existing : List (ℕ × Menu)} {seen : List String}

structure Loaded (n₀ : ℕ) (existing : List (ℕ × Menu)) (w : Shared) : Prop where
  born : ∀ x ∈ existing, Born n₀ w x.1
  nodup : (existing.map Prod.fst).Nodup

/-- Where a run stands that has been through the keys `seen`. -/
structure Seeding (n₀ : ℕ) (existing : List (ℕ × Menu)) (seen : List String) (L : List Seeded)
    (l : Private) (w : Shared) : Prop where
  inv : MenuInv n₀ w
  written : Written n₀ l w
  tx : SeedTx n₀ L l w
  loaded : Loaded n₀ existing w
  known : ∀ e ∈ L, ∀ m, (e.id, m) ∈ existing → ∃ key, m.seedKey = some key ∧ key ∈ seen
  clean : ∀ i, (∀ e ∈ L, e.id ≠ i) → pending l.redo .menus i = none

theorem Loaded.after (h : Loaded n₀ existing w) (ha : After (menuProtocol n₀) l w l' w') :
    Loaded n₀ existing w' :=
  ⟨fun x hx ↦ (h.born x hx).mono ha.rely.later.log.subset, h.nodup⟩

theorem Seeding.not_listed (h : Seeding n₀ existing seen L l w) {m : Menu} {key : String}
    (hm : (i, m) ∈ existing) (hk : m.seedKey = some key) (hs : key ∉ seen) : ∀ e ∈ L, e.id ≠ i := by
  rintro e he rfl
  obtain ⟨key', hk', hs'⟩ := h.known e he m hm
  rw [hk, Option.some.injEq] at hk'
  exact hs (hk' ▸ hs')

/-- One more menu. -/
theorem seedTx_cons (h : SeedTx n₀ L l w) (ho : ∀ p, e.parentId = some p → ∃ x ∈ L, x.id = p)
    (hne : ∀ x ∈ L, x.id ≠ e.id) (hnotes : l.notes ⊆ l'.notes)
    (hn : Note.menuSeeded e.id e.parentId e.step ∈ l'.notes)
    (hredo : ∀ k, k ≠ e.id → pending l'.redo .menus k = pending l.redo .menus k)
    (hset : e.step ≠ .kept →
      ∃ m : Menu, pending l'.redo .menus e.id = some (some m) ∧ m.parentId = e.parentId)
    (hplaced : e.step = .placed → Note.menuCreated e.id ∈ l'.notes)
    (hkept : e.step = .kept → Born n₀ w e.id ∧
      ∀ m : Menu, pending l'.redo .menus e.id = some (some m) → m.parentId = parentOf w.db e.id) :
    SeedTx n₀ (e :: L) l' w where
  noted x hx := by
    rcases List.mem_cons.1 hx with rfl | hx
    · exact hn
    · exact hnotes (h.noted x hx)
  ordered := ⟨ho, h.ordered⟩
  set x hx hs := by
    rcases List.mem_cons.1 hx with rfl | hx
    · exact hset hs
    · rw [hredo _ (hne x hx)]
      exact h.set x hx hs
  placed x hx hs := by
    rcases List.mem_cons.1 hx with rfl | hx
    · exact hplaced hs
    · exact hnotes (h.placed x hx hs)
  kept x hx hs := by
    rcases List.mem_cons.1 hx with rfl | hx
    · exact hkept hs
    · rw [hredo _ (hne x hx)]
      exact h.kept x hx hs
  rest i hi := by
    rw [hredo i (hi e List.mem_cons_self).symm]
    exact h.rest i fun x hx ↦ hi x (List.mem_cons_of_mem _ hx)

theorem Seeding.cons {key : String} (h : Seeding n₀ existing seen L l w) (hi : MenuInv n₀ w')
    (hw : Written n₀ l' w') (ha : After (menuProtocol n₀) l w l' w')
    (ho : ∀ p, e.parentId = some p → ∃ x ∈ L, x.id = p)
    (hne : ∀ x ∈ L, x.id ≠ e.id) (hn : Note.menuSeeded e.id e.parentId e.step ∈ l'.notes)
    (hredo : ∀ k, k ≠ e.id → pending l'.redo .menus k = pending l.redo .menus k)
    (hset : e.step ≠ .kept →
      ∃ m : Menu, pending l'.redo .menus e.id = some (some m) ∧ m.parentId = e.parentId)
    (hplaced : e.step = .placed → Note.menuCreated e.id ∈ l'.notes)
    (hkept : e.step = .kept → Born n₀ w' e.id ∧
      ∀ m : Menu, pending l'.redo .menus e.id = some (some m) → m.parentId = parentOf w'.db e.id)
    (hknown : ∀ m, (e.id, m) ∈ existing → m.seedKey = some key) :
    Seeding n₀ existing (key :: seen) (e :: L) l' w' where
  inv := hi
  written := hw
  tx := seedTx_cons (seedTx_rely ha.rely h.written.covered h.tx) ho hne ha.notes hn hredo hset
    hplaced hkept
  loaded := h.loaded.after ha
  known x hx m hm := by
    rcases List.mem_cons.1 hx with rfl | hx
    · exact ⟨key, hknown m hm, List.mem_cons_self⟩
    · obtain ⟨k, hk, hs⟩ := h.known x hx m hm
      exact ⟨k, hk, List.mem_cons_of_mem _ hs⟩
  clean i hi := by
    rw [hredo i (hi e List.mem_cons_self).symm]
    exact h.clean i fun x hx ↦ hi x (List.mem_cons_of_mem _ hx)

section Upsert

variable {item : SeedItem} {parentId : Option ℕ} {Q : ℕ → Private → Shared → Prop}
  (h : Seeding n₀ existing seen L l w) (hp : ∀ p, parentId = some p → ∃ x ∈ L, x.id = p)
  (hQ : ∀ e l' w', Seeding n₀ existing (item.seedKey :: seen) (e :: L) l' w' → Q e.id l' w')

include h hp hQ

theorem wp_place :
    wp (menuProtocol n₀) G (do
      let (id, _) ← insert (newMenu item parentId) fun id ↦ [.menuSeeded id parentId .placed]
      pure id) Q (fun _ _ _ ↦ True) l w := by
  refine wp_bind (wp_insert h.written (fun i j hj ↦ ?_) fun i l' w' hs hn hnote _ hnone ↦ ?_)
  · cases List.mem_singleton.1 hj
  · have hb : ¬ Born n₀ w' i := (hs.written.created i hn).2.2
    have htx := seedTx_rely hs.after.rely h.written.covered h.tx
    refine hQ ⟨i, parentId, .placed⟩ l' w' (h.cons hs.inv hs.written hs.after hp ?_ ?_ ?_ ?_ ?_ ?_ ?_)
    · rintro x hx rfl
      cases hstep : x.step with
      | kept => exact hb (htx.kept x hx hstep).1
      | _ =>
        obtain ⟨m, hm, -⟩ := htx.set x hx (by rw [hstep]; exact fun h ↦ by cases h)
        rw [hnone] at hm
        cases hm
    · exact hnote List.mem_cons_self
    · intro k hk
      rw [hs.redo, if_neg hk]
    · intro _
      exact ⟨newMenu item parentId, by rw [hs.redo, if_pos rfl], rfl⟩
    · exact fun _ ↦ hn
    · intro hstep
      cases hstep
    · intro m hm
      exact absurd ((h.loaded.after hs.after).born _ hm) hb

theorem wp_keep {loaded : Menu} (hx : (i, loaded) ∈ existing)
    (hkey : loaded.seedKey = some item.seedKey) (hnew : item.seedKey ∉ seen) :
    wp (menuProtocol n₀) G (do
      let _ ← flush i loaded (assigned item parentId)
        [.menuSeeded i parentId (parentStep loaded parentId)]
      pure i) Q (fun _ _ _ ↦ True) l w := by
  have hlisted := h.not_listed hx hkey hnew
  have hpend := h.clean i hlisted
  have hstep : dirty loaded.parentId (assigned item parentId).parentId = true →
      parentStep loaded parentId = .reparented := by
    intro hd
    have hne : parentId ≠ loaded.parentId := of_decide_eq_true hd
    exact if_neg fun he ↦ hne he.symm
  have hsame : dirty loaded.parentId (assigned item parentId).parentId = false →
      parentStep loaded parentId = .kept := by
    intro hd
    have he : ¬ parentId ≠ loaded.parentId := of_decide_eq_false hd
    exact if_pos (not_not.1 he).symm
  have hknown : ∀ m, (i, m) ∈ existing → m.seedKey = some item.seedKey := by
    intro m hm
    have he := List.inj_on_of_nodup_map h.loaded.nodup hm hx rfl
    cases he
    exact hkey
  refine wp_bind (wp_flush h.written (fun j hj ↦ ?_) hpend (fun hd ↦ .inr (.inr ⟨parentId, ?_⟩)) ?_ ?_)
  · cases List.mem_singleton.1 hj
  · rw [hstep hd]
    exact List.mem_singleton_self _
  · intro l' w' hs hnote hd
    have hlast : pending l'.redo .menus i = none := (hs.redo i).trans hpend
    refine hQ ⟨i, parentId, .kept⟩ l' w' (h.cons hs.inv hs.written hs.after hp hlisted ?_
      (fun k _ ↦ hs.redo k) (fun hne ↦ absurd rfl hne) (fun he ↦ by cases he) (fun _ ↦ ⟨?_, ?_⟩) hknown)
    · rw [← hsame hd]
      exact hnote (List.mem_singleton_self _)
    · exact (h.loaded.after hs.after).born _ hx
    · intro m hm
      rw [hlast] at hm
      cases hm
  · intro m l' w' hs hnote hmoved hkept _
    have hlast : pending l'.redo .menus i = some (some m) := by rw [hs.redo, if_pos rfl]
    have hredo : ∀ k, k ≠ i → pending l'.redo .menus k = pending l.redo .menus k := by
      intro k hk
      rw [hs.redo, if_neg hk]
    refine hQ ⟨i, parentId, parentStep loaded parentId⟩ l' w' (h.cons hs.inv hs.written hs.after hp
      hlisted (hnote (List.mem_singleton_self _)) hredo ?_ ?_ ?_ hknown)
    · intro hne
      cases hd : dirty loaded.parentId (assigned item parentId).parentId with
      | false => exact absurd (hsame hd) hne
      | true => exact ⟨m, hlast, (Option.some.inj (hmoved hd).1).symm⟩
    · intro he
      cases hd : dirty loaded.parentId (assigned item parentId).parentId with
      | false =>
        have hk := (hsame hd).symm.trans he
        cases hk
      | true =>
        have hk := (hstep hd).symm.trans he
        cases hk
    · intro hk
      refine ⟨(h.loaded.after hs.after).born _ hx, fun m' hm' ↦ ?_⟩
      rw [hlast, Option.some.injEq, Option.some.injEq] at hm'
      cases hd : dirty loaded.parentId (assigned item parentId).parentId with
      | false => exact hm' ▸ (hkept hd).symm
      | true =>
        have hc := (hstep hd).symm.trans hk
        cases hc

theorem wp_upsertItem (hnew : item.seedKey ∉ seen) :
    wp (menuProtocol n₀) G (upsertItem existing item parentId) Q (fun _ _ _ ↦ True) l w := by
  unfold upsertItem
  cases hx : byKey existing item.seedKey with
  | none => exact wp_place h hp hQ
  | some x =>
    have hkey : x.2.seedKey = some item.seedKey := by simpa using List.find?_some hx
    exact wp_keep h hp hQ (List.mem_of_find?_eq_some hx) hkey hnew

end Upsert

/-- What going through the keys `keys` adds to a run. -/
def Adds (n₀ : ℕ) (existing : List (ℕ × Menu)) (seen : List String) (L : List Seeded)
    (keys : List String) (Q : Private → Shared → Prop) : Prop := ∀ seen' L' l' w',
  Seeding n₀ existing seen' L' l' w' → (∀ k, k ∈ seen' ↔ k ∈ keys ∨ k ∈ seen) → L ⊆ L' → Q l' w'

mutual

theorem wp_upsert {parentId : Option ℕ} {Q : Private → Shared → Prop} : (n : SeedMenu) →
    ∀ seen L l w, Seeding n₀ existing seen L l w → (keysOf n).Nodup →
    (∀ k ∈ keysOf n, k ∉ seen) → (∀ p, parentId = some p → ∃ x ∈ L, x.id = p) →
    Adds n₀ existing seen L (keysOf n) Q →
    wp (menuProtocol n₀) G (upsert existing parentId n) (fun _ ↦ Q) (fun _ _ _ ↦ True) l w
  | .node item children => by
    intro seen L l w h hd hs hp hQ
    rw [upsert]
    simp only [keysOf, List.nodup_cons] at hd
    refine wp_bind (wp_upsertItem h hp (fun e l' w' h' ↦ ?_) (hs _ List.mem_cons_self))
    refine wp_upsertAll children _ _ _ _ h' hd.2 ?_ ?_ fun seen' L' l'' w'' h'' hk hL ↦ ?_
    · intro k hk hm
      rcases List.mem_cons.1 hm with rfl | hm
      · exact hd.1 hk
      · exact hs k (List.mem_cons_of_mem _ hk) hm
    · rintro p hp'
      exact ⟨e, List.mem_cons_self, Option.some.inj hp'⟩
    · refine hQ seen' L' l'' w'' h'' (fun k ↦ ?_) fun x hx ↦ hL (List.mem_cons_of_mem _ hx)
      rw [hk, keysOf, List.mem_cons, List.mem_cons]
      exact or_left_comm.trans or_assoc.symm

theorem wp_upsertAll {parentId : Option ℕ} {Q : Private → Shared → Prop} : (ns : List SeedMenu) →
    ∀ seen L l w, Seeding n₀ existing seen L l w → (keysOfAll ns).Nodup →
    (∀ k ∈ keysOfAll ns, k ∉ seen) → (∀ p, parentId = some p → ∃ x ∈ L, x.id = p) →
    Adds n₀ existing seen L (keysOfAll ns) Q →
    wp (menuProtocol n₀) G (upsertAll existing parentId ns) (fun _ ↦ Q) (fun _ _ _ ↦ True) l w
  | [] => by
    intro seen L l w h _ _ _ hQ
    exact hQ seen L l w h (fun k ↦ by simp [keysOfAll]) fun _ hx ↦ hx
  | n :: ns => by
    intro seen L l w h hd hs hp hQ
    rw [upsertAll]
    simp only [keysOfAll, List.nodup_append] at hd
    obtain ⟨hn, hns, hdis⟩ := hd
    refine wp_bind (wp_upsert n _ _ _ _ h hn (fun k hk ↦ hs k (List.mem_append_left _ hk)) hp
      fun seen' L' l' w' h' hk' hL' ↦ ?_)
    refine wp_upsertAll ns _ _ _ _ h' hns ?_ ?_ fun seen'' L'' l'' w'' h'' hk'' hL'' ↦ ?_
    · intro k hk hm
      rcases (hk' k).1 hm with hm | hm
      · exact hdis k hm k hk rfl
      · exact hs k (List.mem_append_right _ hk) hm
    · intro p hpp
      obtain ⟨x, hx, he⟩ := hp p hpp
      exact ⟨x, hL' hx, he⟩
    · refine hQ seen'' L'' l'' w'' h'' (fun k ↦ ?_) fun x hx ↦ hL'' (hL' hx)
      rw [hk'', hk', keysOfAll, List.mem_append]
      exact or_left_comm.trans or_assoc.symm

end

/-- Where a run stands that has been through its manifest; `old` is still to be deleted. -/
structure Pruning (n₀ : ℕ) (L : List Seeded) (old : List (ℕ × Menu)) (l : Private) (w : Shared) :
    Prop where
  inv : MenuInv n₀ w
  written : Written n₀ l w
  tx : SeedTx n₀ L l w
  nodup : (old.map Prod.fst).Nodup
  clean : ∀ x ∈ old, pending l.redo .menus x.1 = none
  unlisted : ∀ x ∈ old, ∀ e ∈ L, e.id ≠ x.1

theorem seedTx_keep (h : SeedTx n₀ L l w) (hnotes : l.notes ⊆ l'.notes) (hi : ∀ e ∈ L, e.id ≠ i)
    (hredo : ∀ k, pending l'.redo .menus k = if k = i then some none else pending l.redo .menus k) :
    SeedTx n₀ L l' w where
  noted x hx := hnotes (h.noted x hx)
  ordered := h.ordered
  set x hx hs := by
    rw [hredo, if_neg (hi x hx)]
    exact h.set x hx hs
  placed x hx hs := hnotes (h.placed x hx hs)
  kept x hx hs := by
    rw [hredo, if_neg (hi x hx)]
    exact h.kept x hx hs
  rest k hk v hv := by
    rw [hredo] at hv
    split at hv
    · exact (Option.some.inj hv).symm
    · exact h.rest k hk v hv

theorem seedTx_pass (h : SeedTx n₀ L l w) (hnotes : l.notes ⊆ l'.notes)
    (hredo : ∀ k, pending l'.redo .menus k = pending l.redo .menus k) : SeedTx n₀ L l' w where
  noted x hx := hnotes (h.noted x hx)
  ordered := h.ordered
  set x hx hs := by
    rw [hredo]
    exact h.set x hx hs
  placed x hx hs := hnotes (h.placed x hx hs)
  kept x hx hs := by
    rw [hredo]
    exact h.kept x hx hs
  rest k hk v hv := h.rest k hk v ((hredo k).symm.trans hv)

theorem wp_deleteAll {old leaves : List (ℕ × Menu)} {Q : Unit → Private → Shared → Prop}
    (h : Pruning n₀ L (leaves ++ old) l w) (hQ : ∀ l' w', Pruning n₀ L old l' w' → Q () l' w') :
    wp (menuProtocol n₀) G (deleteAll leaves) Q (fun _ _ _ ↦ True) l w := by
  induction leaves generalizing l w with
  | nil => exact hQ l w h
  | cons x xs ih =>
    have hnd : x.1 ∉ (xs ++ old).map Prod.fst ∧ ((xs ++ old).map Prod.fst).Nodup :=
      List.nodup_cons.1 h.nodup
    have hne : ∀ y ∈ xs ++ old, y.1 ≠ x.1 := by
      intro y hy he
      exact hnd.1 (List.mem_map.2 ⟨y, hy, he⟩)
    have hlist : ∀ y ∈ xs ++ old, y ∈ x :: xs ++ old := fun y hy ↦ List.mem_cons_of_mem _ hy
    refine wp_bind (wp_delete h.written (h.clean x List.mem_cons_self) (fun l' w' hp ↦ ih ?_)
      fun l' w' hs ↦ ih ?_)
    · exact ⟨hp.inv, hp.written, seedTx_pass (seedTx_rely hp.after.rely h.written.covered h.tx)
        hp.after.notes hp.redo, hnd.2, fun y hy ↦ (hp.redo y.1).trans (h.clean y (hlist y hy)),
        fun y hy ↦ h.unlisted y (hlist y hy)⟩
    · refine ⟨hs.inv, hs.written, seedTx_keep (seedTx_rely hs.after.rely h.written.covered h.tx)
        hs.after.notes (h.unlisted x List.mem_cons_self) hs.redo, hnd.2, fun y hy ↦ ?_,
        fun y hy ↦ h.unlisted y (hlist y hy)⟩
      rw [hs.redo, if_neg (hne y hy)]
      exact h.clean y (hlist y hy)

theorem Pruning.perm {old old' : List (ℕ × Menu)} (h : Pruning n₀ L old l w) (hp : old'.Perm old) :
    Pruning n₀ L old' l w where
  inv := h.inv
  written := h.written
  tx := h.tx
  nodup := (hp.map Prod.fst).nodup_iff.2 h.nodup
  clean x hx := h.clean x (hp.subset hx)
  unlisted x hx := h.unlisted x (hp.subset hx)

theorem Pruning.ready {old : List (ℕ × Menu)} (h : Pruning n₀ L old l w) : Ready n₀ l w :=
  ⟨h.inv, h.written, .inr ⟨L, h.tx⟩⟩

theorem wp_prune {rounds : ℕ} {old : List (ℕ × Menu)} {Q : ℕ → Private → Shared → Prop}
    (h : Pruning n₀ L old l w) (hQ : ∀ n l' w', Ready n₀ l' w' → Q n l' w') :
    wp (menuProtocol n₀) G (prune rounds old) Q (fun _ _ _ ↦ True) l w := by
  induction rounds generalizing old l w Q with
  | zero => exact hQ _ l w h.ready
  | succ rounds ih =>
    rw [prune]
    split
    · exact hQ _ l w h.ready
    · have hsplit : (old.filter (fun x ↦ !isParent old x.1) ++
          old.filter fun x ↦ isParent old x.1).Perm old := by
        have hp := List.filter_append_perm (fun x ↦ !isParent old x.1) old
        simpa using hp
      refine wp_bind (wp_deleteAll (h.perm hsplit) fun l' w' h' ↦ ?_)
      exact wp_bind (ih h' fun n l'' w'' hr ↦ hQ _ _ _ hr)

section Roles

variable {α : Type}

/-- A statement that leaves the menus alone. -/
theorem wp_pass {q : Snapshot → Except Failure (Statement × α)} {Q : α → Private → Shared → Prop}
    (h : Fresh n₀ l w) (hq : ∀ v g a, q v = .ok (g, a) → g.ext = id ∧ g.notes = [] ∧
      ∀ k, pending g.writes .menus k = none) (hQ : ∀ a l' w', Fresh n₀ l' w' → Q a l' w') :
    wp (menuProtocol n₀) G (.query q) Q (fun _ _ _ ↦ True) l w := by
  refine wp_query fun w' hr ↦ ?_
  cases hv : q (w'.view l) with
  | error e => trivial
  | ok x =>
    obtain ⟨g, a⟩ := x
    obtain ⟨he, hn, hw⟩ := hq _ g a hv
    refine fun _ ↦ ⟨he, hQ a _ _ (h.passed (passed_run h.written hr he hw ?_))⟩
    refine drawsNew_of_not_mem fun j hj ↦ ?_
    rw [hn] at hj
    cases hj

theorem wp_flushRole {sr : SeedRole} {found : Option (ℕ × Role)} {Q : Unit → Private → Shared → Prop}
    (h : Fresh n₀ l w) (hQ : ∀ l' w', Fresh n₀ l' w' → Q () l' w') :
    wp (menuProtocol n₀) G (flushRole sr found) Q (fun _ _ _ ↦ True) l w := by
  have hroles : ∀ (i k : ℕ) (r : Role), pending [(⟨.roles, i, some r⟩ : Write Row)] .menus k = none := by
    intro i k r
    rw [pending_singleton, Write.at_other (by decide)]
  cases found with
  | none =>
    refine wp_pass h (fun v g a hv ↦ ?_) fun _ ↦ hQ
    split at hv
    · cases hv
    · cases hv
      exact ⟨rfl, rfl, fun k ↦ hroles _ k _⟩
  | some x =>
    refine wp_pass h (fun v g a hv ↦ ?_) fun _ ↦ hQ
    split at hv
    · cases hv
      exact ⟨rfl, rfl, fun k ↦ rfl⟩
    · split at hv
      · cases hv
      · cases hv
        exact ⟨rfl, rfl, fun k ↦ hroles _ k _⟩

theorem wp_findRoles {srs : List SeedRole}
    {Q : List (SeedRole × Option (ℕ × Role)) → Private → Shared → Prop}
    (h : Fresh n₀ l w) (hQ : ∀ found w', Fresh n₀ l w' → Q found l w') :
    wp (menuProtocol n₀) G (findRoles srs) Q (fun _ _ _ ↦ True) l w := by
  induction srs generalizing w Q with
  | nil => exact hQ _ w h
  | cons sr srs ih =>
    refine wp_bind (wp_look h fun w₁ _ h₁ ↦ ?_)
    exact wp_bind (ih h₁ fun found w₂ h₂ ↦ hQ _ w₂ h₂)

theorem wp_flushRoles {found : List (SeedRole × Option (ℕ × Role))}
    {Q : Unit → Private → Shared → Prop} (h : Fresh n₀ l w)
    (hQ : ∀ l' w', Fresh n₀ l' w' → Q () l' w') :
    wp (menuProtocol n₀) G (flushRoles found) Q (fun _ _ _ ↦ True) l w := by
  induction found generalizing l w with
  | nil => exact hQ l w h
  | cons x xs ih => exact wp_bind (wp_flushRole h fun l' w' h' ↦ ih h')

end Roles

theorem loaded_of_fresh (h : Fresh n₀ l w) : Loaded n₀ (seededMenus (w.view l).db) w where
  born x hx := by
    have hrow : (w.view l).db.rows .menus x.1 = some x.2 := (mem_select.1 hx).1
    rw [view_row, h.none] at hrow
    exact h.inv.born x.1 x.2 hrow
  nodup := by
    have hs : ((seededMenus (w.view l).db).map Prod.fst).Sublist
        (((w.view l).db.scan .menus).map Prod.fst) := List.filter_sublist.map Prod.fst
    exact hs.nodup (scan_keys_nodup _ _)

/-- Before the first menu. -/
theorem seeding_of_fresh (h : Fresh n₀ l w) (hl : Loaded n₀ existing w) :
    Seeding n₀ existing [] [] l w where
  inv := h.inv
  written := h.written
  tx := ⟨fun x hx ↦ (by cases hx), trivial, fun x hx ↦ (by cases hx), fun x hx ↦ (by cases hx),
    fun x hx ↦ (by cases hx), fun i _ v hv ↦ (by rw [h.none] at hv; cases hv)⟩
  loaded := hl
  known x hx := by cases hx
  clean i _ := h.none i

/-- What is left of the loaded menus after the manifest. -/
theorem Seeding.pruning (h : Seeding n₀ existing seen L l w) {keys : List String}
    (hk : ∀ k, k ∈ seen → k ∈ keys) : Pruning n₀ L (stale existing keys) l w where
  inv := h.inv
  written := h.written
  tx := h.tx
  nodup := by
    have hs : (stale existing keys).Sublist existing := List.filter_sublist
    exact (hs.map Prod.fst).nodup h.loaded.nodup
  clean x hx := h.clean x.1 fun e he heq ↦ by
    obtain ⟨hm, hstale⟩ := List.mem_filter.1 hx
    obtain ⟨key, hkey, hs⟩ := h.known e he x.2 (heq ▸ hm)
    simp [hkey, hk key hs] at hstale
  unlisted x hx e he heq := by
    obtain ⟨hm, hstale⟩ := List.mem_filter.1 hx
    obtain ⟨key, hkey, hs⟩ := h.known e he x.2 (heq ▸ hm)
    simp [hkey, hk key hs] at hstale

theorem safe_seedRbac (hG : ∀ w notes, G.commit w notes → MoveGuard w notes ∧ SeedGuard w notes)
    (hi : MenuInv n₀ w) (manifest : Manifest) :
    safe (menuProtocol n₀) G (getSession (seedRbac manifest)) {} w := by
  refine safe_getSession hG ?_
  refine wp_bind (wp_acquireLock (Fresh.init hi).written fun l₁ w₁ hp₁ _ _ ↦ ?_)
  have h₁ : Fresh n₀ l₁ w₁ := (Fresh.init hi).passed hp₁
  refine wp_bind (wp_findRoles h₁ fun found w₂ h₂ ↦ ?_)
  refine wp_bind (wp_flushRoles h₂ fun l₃ w₃ h₃ ↦ ?_)
  refine wp_bind (wp_look h₃ fun w₄ _ h₄ ↦ ?_)
  refine wp_bind (wp_upsertAll manifest.menuTree _ _ _ _ (seeding_of_fresh h₄ (loaded_of_fresh h₄))
    manifest.distinct (fun k _ hk ↦ by cases hk) (fun p hp ↦ by cases hp) ?_)
  intro seen L l₅ w₅ h₅ hk _
  refine wp_bind (wp_prune (h₅.pruning fun k hs ↦ ?_) fun n l' w' hr ↦ hr)
  exact ((hk k).1 hs).resolve_right fun h ↦ by cases h

end AdminPlatform.Rbac.SeedSafety
