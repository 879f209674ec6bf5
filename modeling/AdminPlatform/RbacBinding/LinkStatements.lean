import AdminPlatform.RbacBinding.LinkProtocol

namespace AdminPlatform.RbacBinding.LinkStatements

open Model.Schema Model.Service Model.Scope Foundation.Relational Foundation.Transaction
open Foundation.Interleaving Foundation.RelyGuarantee
open Service Links LinkProtocol

variable {α : Type} {w₀ w w' : Shared} {l l' : Private} {t t' : LinkTable} {o k x : ℕ}
  {ids : List ℕ} {G : Guard Table Row LockName Storage Note} {db : Db}

theorem view_run_rows (l : Private) (w : Shared) (g : Statement) (n : ℕ) (s : Table) (k : ℕ) :
    ((w.run g).view (l.run g n)).db.rows s k = ((w.view l).db.apply g.writes).rows s k := by
  show (w.db.apply (l.redo ++ g.writes)).rows s k = _
  exact apply_append_rows w.db l.redo g.writes s k

theorem linkAt_delete_self (t : LinkTable) (db : Db) (o k : ℕ) :
    linkAt t (db.apply (db.delete t.table fun _ r ↦ decide (t.ownerOf r = o))) o k = none := by
  cases hl : linkAt t (db.apply (db.delete t.table fun _ r ↦ decide (t.ownerOf r = o))) o k with
  | none => rfl
  | some x =>
    obtain ⟨r, hr, ho, -⟩ := linkAt_eq_some.1 hl
    have hold : db.rows t.table k = some r := by
      refine apply_of_deletes (fun j v hm ↦ ?_) hr
      obtain ⟨_, _, -, -, he⟩ := mem_delete.1 hm
      cases he
      rfl
    rw [apply_rows, pending_delete_self hold (decide_eq_true ho)] at hr
    cases hr

theorem linkAt_delete_other {o' : ℕ} (ho : o' ≠ o) (k : ℕ) :
    linkAt t (db.apply (db.delete t.table fun _ r ↦ decide (t.ownerOf r = o))) o' k =
      linkAt t db o' k := by
  cases hp : pending (db.delete t.table fun _ r ↦ decide (t.ownerOf r = o)) t.table k with
  | none => exact linkAt_congr (apply_rows_of_none hp)
  | some v =>
    obtain ⟨r, hr, hk, rfl⟩ := pending_delete hp
    have hne : t.ownerOf r ≠ o' := fun he ↦ ho (he.symm.trans (of_decide_eq_true hk))
    rw [linkAt, linkAt, apply_rows, hp, hr]
    exact (if_neg hne).symm

/-- The rows an `INSERT` of the links writes, from the key `n` on. -/
def insertions (t : LinkTable) (o n : ℕ) (ids : List ℕ) : List (Write Row) :=
  ids.zipIdx.map fun x ↦ ⟨t.table, n + x.2, some (t.link o x.1)⟩

theorem pending_insertions {n : ℕ} {v : Option (Row t.table)} :
    pending (insertions t o n ids) t.table k = some v ↔
      ∃ j x, ids[j]? = some x ∧ k = n + j ∧ v = some (t.link o x) := by
  have hmem : ∀ k v, (⟨t.table, k, v⟩ : Write Row) ∈ insertions t o n ids →
      ∃ j x, ids[j]? = some x ∧ k = n + j ∧ v = some (t.link o x) := by
    intro k v hm
    obtain ⟨⟨x, j⟩, hx, he⟩ := List.mem_map.1 hm
    cases he
    exact ⟨j, x, List.mem_zipIdx_iff_getElem?.1 hx, rfl, rfl⟩
  constructor
  · exact fun hp ↦ hmem k v (pending_mem hp)
  · rintro ⟨j, x, hx, rfl, rfl⟩
    have ht : touches (insertions t o n ids) t.table (n + j) :=
      ⟨_, List.mem_map.2 ⟨(x, j), List.mem_zipIdx_iff_getElem?.2 hx, rfl⟩, rfl, rfl⟩
    obtain ⟨v, hv⟩ := Option.isSome_iff_exists.1 (pending_isSome_of_touches ht)
    obtain ⟨j', x', hx', hj, rfl⟩ := hmem _ v (pending_mem hv)
    have he : j = j' := by omega
    subst he
    rw [hx] at hx'
    cases hx'
    exact hv

theorem linkAt_insertions_self {n : ℕ} (ht : t ∈ linkTables) (hnone : ∀ k, linkAt t db o k = none) :
    linkAt t (db.apply (insertions t o n ids)) o k = some x ↔ ∃ j, ids[j]? = some x ∧ k = n + j := by
  have hf := faithful ht
  cases hp : pending (insertions t o n ids) t.table k with
  | none =>
    rw [linkAt_congr (apply_rows_of_none hp), hnone]
    constructor
    · intro h
      cases h
    · rintro ⟨j, hj, hk⟩
      have hs : pending (insertions t o n ids) t.table k = some (some (t.link o x)) :=
        pending_insertions.2 ⟨j, x, hj, hk, rfl⟩
      rw [hp] at hs
      cases hs
  | some v =>
    obtain ⟨j, y, hy, rfl, rfl⟩ := pending_insertions.1 hp
    have hrow : (db.apply (insertions t o n ids)).rows t.table (n + j) = some (t.link o y) := by
      rw [apply_rows, hp]
      rfl
    rw [linkAt_eq_some]
    constructor
    · rintro ⟨r, hr, -, rfl⟩
      rw [hrow] at hr
      cases hr
      rw [hf.target]
      exact ⟨j, hy, rfl⟩
    · rintro ⟨j', hj', he⟩
      have hjj : j = j' := by omega
      subst hjj
      rw [hy] at hj'
      cases hj'
      exact ⟨_, hrow, hf.owner _ _, hf.target _ _⟩

theorem linkAt_insertions_other {n o' : ℕ} (ht : t ∈ linkTables) (ho : o' ≠ o)
    (hlt : ∀ k x, linkAt t db o' k = some x → k < n) (k : ℕ) :
    linkAt t (db.apply (insertions t o n ids)) o' k = linkAt t db o' k := by
  cases hp : pending (insertions t o n ids) t.table k with
  | none => exact linkAt_congr (apply_rows_of_none hp)
  | some v =>
    obtain ⟨j, y, hy, rfl, rfl⟩ := pending_insertions.1 hp
    have hold : linkAt t db o' (n + j) = none := by
      cases hl : linkAt t db o' (n + j) with
      | none => rfl
      | some x =>
        have := hlt _ _ hl
        omega
    have hne : t.ownerOf (t.link o y) ≠ o' := by
      rw [(faithful ht).owner]
      exact fun he ↦ ho he.symm
    rw [hold, linkAt, apply_rows, hp]
    exact if_neg hne

theorem linkInv_run (hi : LinkInv w₀ w) (g : Statement) : LinkInv w₀ (w.run g) :=
  ⟨fun t ht o k x hk ↦ Nat.lt_of_lt_of_le (hi.below t ht o k x hk) (Nat.le_add_right _ _), hi.settled⟩

structure Emptied (t : LinkTable) (o : ℕ) (l : Private) (w : Shared) : Prop where
  writing : Writing t o l w
  empty : ∀ k, linkAt t (w.view l).db o k = none
  notes : l.notes = []

theorem Emptied.rely (h : Emptied t o l w) (ht : t ∈ linkTables) (hr : Rely (linkProtocol w₀) l w w') :
    Emptied t o l w' := by
  have hk := kept_of_rely hr ht h.writing.lock
  refine ⟨h.writing.rely ht hr, fun k ↦ ?_, h.notes⟩
  rw [linkAt_view_of_kept hk, h.empty k]

theorem wp_acquireLock {Q : Unit → Private → Shared → Prop} (hb : Blank l)
    (hQ : ∀ l' w', Blank l' → (.named t.lock, .exclusive) ∈ l'.held → Q () l' w') :
    wp (linkProtocol w₀) G (acquireTransactionLock t.lock) Q (fun _ _ _ ↦ True) l w := by
  unfold acquireTransactionLock
  refine wp_query fun w' hr _ ↦ ⟨rfl, hQ _ _ (hb.run rfl rfl _) ?_⟩
  refine claims_run _ _ _ ?_
  simp [Effect.claims]

theorem emptied_run (hb : Blank l) (hl : (.named t.lock, .exclusive) ∈ l.held) {g : Statement}
    (hg : g.writes = (w.view l).db.delete t.table fun _ r ↦ decide (t.ownerOf r = o))
    (hn : g.notes = []) : Emptied t o (l.run g w.next) (w.run g) := by
  have hempty : ∀ k, linkAt t ((w.run g).view (l.run g w.next)).db o k = none := by
    intro k
    rw [linkAt_congr (view_run_rows l w g _ t.table k), hg]
    exact linkAt_delete_self t (w.view l).db o k
  refine ⟨⟨held_run _ _ _ hl, fun o' k ho ↦ ?_, fun k x hx ↦ ?_, fun s k hs ↦ ?_⟩, hempty, ?_⟩
  · rw [linkAt_congr (view_run_rows l w g _ t.table k), hg]
    exact (linkAt_delete_other ho k).trans (linkAt_congr (hb.view w t.table k))
  · rw [hempty] at hx
    cases hx
  · show pending (l.redo ++ g.writes) s k = none
    rw [hb.redo, List.nil_append, hg]
    exact delete_other hs.symm _ k
  · show l.notes ++ g.notes = []
    rw [hb.notes, hn]
    rfl

theorem wp_deleteLinks {Q : Unit → Private → Shared → Prop} (hb : Blank l)
    (hl : (.named t.lock, .exclusive) ∈ l.held) (hQ : ∀ l' w', Emptied t o l' w' → Q () l' w') :
    wp (linkProtocol w₀) G (t.deleteLinks o) Q (fun _ _ _ ↦ True) l w := by
  unfold LinkTable.deleteLinks
  exact wp_query fun w' hr _ ↦ ⟨rfl, hQ _ _ (emptied_run hb hl rfl rfl)⟩

theorem writing_insert (h : Writing t o l w) (ht : t ∈ linkTables) (hi : LinkInv w₀ w) {g : Statement}
    (hnone : ∀ k, linkAt t (w.view l).db o k = none) (hg : g.writes = insertions t o w.next ids)
    (hf : g.fresh = ids.length) (hnodup : ids.Nodup) :
    Writing t o (l.run g w.next) (w.run g) ∧ Bound t ((w.run g).view (l.run g w.next)).db o ids := by
  have hlt : ∀ o' k x, linkAt t (w.view l).db o' k = some x → k < w.next := by
    intro o' k x hk
    by_cases ho : o' = o
    · subst ho
      exact h.below k x hk
    · rw [h.others o' k ho] at hk
      exact hi.below t ht o' k x hk
  have hself : ∀ k x, linkAt t ((w.run g).view (l.run g w.next)).db o k = some x ↔
      ∃ j, ids[j]? = some x ∧ k = w.next + j := by
    intro k x
    rw [linkAt_congr (view_run_rows l w g _ t.table k), hg]
    exact linkAt_insertions_self ht hnone
  refine ⟨⟨held_run _ _ _ h.lock, fun o' k ho ↦ ?_, fun k x hx ↦ ?_, fun s k hs ↦ ?_⟩, fun x ↦ ?_,
    fun k k' x hx hx' ↦ ?_⟩
  · rw [linkAt_congr (view_run_rows l w g _ t.table k), hg]
    exact (linkAt_insertions_other ht ho (hlt o') k).trans (h.others o' k ho)
  · obtain ⟨j, hj, rfl⟩ := (hself k x).1 hx
    have hjl : j < ids.length := (List.getElem?_eq_some_iff.1 hj).1
    show w.next + j < w.next + g.fresh
    omega
  · show pending (l.redo ++ g.writes) s k = none
    rw [pending_append, h.frame s k hs, Option.or_none, hg]
    refine pending_eq_none ?_
    rintro ⟨y, hy, hs', -⟩
    obtain ⟨z, -, rfl⟩ := List.mem_map.1 hy
    exact hs hs'.symm
  · rw [List.mem_iff_getElem?]
    constructor
    · rintro ⟨j, hj⟩
      exact ⟨w.next + j, (hself _ x).2 ⟨j, hj, rfl⟩⟩
    · rintro ⟨k, hk⟩
      obtain ⟨j, hj, -⟩ := (hself k x).1 hk
      exact ⟨j, hj⟩
  · obtain ⟨j, hj, rfl⟩ := (hself k x).1 hx
    obtain ⟨j', hj', rfl⟩ := (hself k' x).1 hx'
    have hjl : j < ids.length := (List.getElem?_eq_some_iff.1 hj).1
    rw [(List.getElem?_inj hjl hnodup).1 (hj.trans hj'.symm)]

theorem wp_insertLinks {Q : Unit → Private → Shared → Prop} (ht : t ∈ linkTables) (h : Emptied t o l w)
    (hnodup : ids.Nodup)
    (hQ : ∀ l' w', Writing t o l' w' → Bound t (w'.view l').db o ids → l'.notes = [] → Q () l' w') :
    wp (linkProtocol w₀) G (t.insertLinks o ids) Q (fun _ _ _ ↦ True) l w := by
  unfold LinkTable.insertLinks
  refine wp_query fun w' hr ↦ ?_
  have h' := h.rely ht hr
  dsimp only
  by_cases he : ids = []
  · rw [if_pos he]
    refine fun _ ↦ ⟨rfl, ?_⟩
    obtain ⟨hw, hb⟩ := writing_insert (g := {}) h'.writing ht hr.inv h'.empty (by rw [he]; rfl)
      (by rw [he]; rfl) hnodup
    exact hQ _ _ hw hb (by simp [h'.notes])
  · rw [if_neg he]
    by_cases hok : ((w'.view l).db.rows t.ownerTable o).isSome &&
        ((w'.view l).db.select t.table fun _ r ↦ decide (t.ownerOf r = o ∧ t.targetOf r ∈ ids)).isEmpty &&
        ids.all fun i ↦ ((w'.view l).db.rows t.targetTable i).isSome
    · rw [if_pos hok]
      refine fun _ ↦ ⟨rfl, ?_⟩
      obtain ⟨hw, hb⟩ := writing_insert (g := {
        locks := (.row t.ownerTable o, .shared) :: ids.flatMap fun i ↦
          [(.row t.targetTable i, .shared), (.named (.unique t.table s!"{o}-{i}"), .exclusive)]
        fresh := ids.length
        writes := insertions t o w'.next ids }) h'.writing ht hr.inv h'.empty rfl rfl hnodup
      refine hQ _ _ hw hb ?_
      show l.notes ++ [] = []
      rw [h'.notes]
      rfl
    · rw [if_neg hok]
      trivial

theorem wp_replace (ht : t ∈ linkTables) (hb : Blank l) :
    wp (linkProtocol w₀) G (t.replace o ids) (fun _ l w ↦ LinkInv w₀ w ∧ Replaced t o ids l w)
      (fun _ _ _ ↦ True) l w := by
  unfold LinkTable.replace
  refine wp_bind (wp_acquireLock hb fun l₁ w₁ hb₁ hl₁ ↦ ?_)
  refine wp_bind (wp_deleteLinks hb₁ hl₁ fun l₂ w₂ h₂ ↦ ?_)
  refine wp_bind (wp_insertLinks ht h₂ (nodup_eraseDups _) fun l₃ w₃ hw hbound hn ↦ ?_)
  have hkept : ∀ w', Rely (linkProtocol w₀) l₃ w₃ w' → Replaced t o ids
      (l₃.run ({ notes := [.linksReplaced t.table o ids] } : Statement) w'.next) w' := by
    intro w' hr
    have hk := kept_of_rely hr ht hw.lock
    have hw' := hw.rely ht hr
    have hview : ∀ o' k, linkAt t (w'.view (l₃.run ({ notes := [.linksReplaced t.table o ids] } :
        Statement) w'.next)).db o' k = linkAt t (w'.view l₃).db o' k := by
      intro o' k
      refine linkAt_congr ?_
      rw [view_db, view_db]
      show (w'.db.apply (l₃.redo ++ [])).rows t.table k = _
      rw [List.append_nil]
    refine ⟨⟨held_run _ _ _ hw'.lock, fun o' k ho ↦ ?_, fun k x hx ↦ ?_, fun s k hs ↦ ?_⟩, ?_, ?_⟩
    · rw [hview]
      exact hw'.others o' k ho
    · rw [hview] at hx
      exact hw'.below k x hx
    · show pending (l₃.redo ++ []) s k = none
      rw [List.append_nil]
      exact hw'.frame s k hs
    · refine (hbound.congr fun k ↦ ?_)
      rw [hview, linkAt_view_of_kept hk]
    · show l₃.notes ++ _ = _
      rw [hn]
      rfl
  unfold mark
  refine wp_query fun w' hr _ ↦ ⟨rfl, linkInv_run hr.inv _, ?_⟩
  obtain ⟨hw', hb', hn'⟩ := hkept w' hr
  exact ⟨⟨hw'.lock, hw'.others, fun k x hx ↦ hw'.below k x hx, hw'.frame⟩, hb', hn'⟩

end AdminPlatform.RbacBinding.LinkStatements
