import AdminPlatform.Dict.DefaultStatements

namespace AdminPlatform.Dict.DefaultCalls

open Model.Schema Model.Service Model.Scope Foundation.Relational Foundation.Transaction
open Foundation.Interleaving Foundation.RelyGuarantee
open Service DictRepository DefaultProtocol DefaultStatements

variable {α : Type} {w w' : Shared} {l l' : Private} {t i j : ℕ} {typ gone : Option ℕ} {calm : Prop}
  {g : Statement} {G : Guard Table Row LockName Storage Note} {old new : Option DictData}
  {E : Failure → Private → Shared → Prop}

theorem mem_keys : DictKey.default t ∈ old.elim [] keys ↔ rowDefault old = some t := by
  cases old with
  | none => simp [rowDefault]
  | some r =>
    cases hd : r.isDefault with
    | false => simp [keys, rowDefault, hd]
    | true =>
      simp only [Option.elim_some, keys, hd, if_true, List.mem_cons, reduceCtorEq, false_or,
        DictKey.default.injEq, List.not_mem_nil, or_false, rowDefault, Option.bind_some,
        Option.some.injEq]
      exact eq_comm

theorem mem_inserted : DictKey.default t ∈ inserted old new ↔
    rowDefault new = some t ∧ rowDefault old ≠ some t := by
  rw [inserted, List.mem_filter, mem_keys, decide_eq_true_eq, mem_keys]

theorem mem_keyLocks (h : ¬ (rowDefault new = some t ↔ rowDefault old = some t)) :
    (defaultKey t, .exclusive) ∈ keyLocks old new := by
  refine List.mem_map.2 ⟨.default t, List.mem_append.2 ?_, rfl⟩
  by_cases hn : rowDefault new = some t
  · exact .inl (mem_inserted.2 ⟨hn, fun ho ↦ h ⟨fun _ ↦ ho, fun _ ↦ hn⟩⟩)
  · refine .inr (mem_inserted.2 ⟨?_, hn⟩)
    by_contra ho
    exact h ⟨fun hn' ↦ absurd hn' hn, fun ho' ↦ absurd ho' ho⟩

theorem not_taken {db : Db} {r : DictData} (h : taken db i old r = false) (hij : j ≠ i)
    (hj : defaultOf db j = some t) (hr : rowDefault (some r) = some t) : rowDefault old = some t := by
  by_contra ho
  obtain ⟨s, hs, -, -⟩ := defaultOf_eq_some.1 hj
  have hk : DictKey.default t ∈ keys s := by
    have hm : DictKey.default t ∈ (some s).elim [] keys := mem_keys.2 (by rw [← hs]; exact hj)
    exact hm
  have ht : taken db i old r = true := by
    refine List.any_eq_true.2 ⟨(j, s), mem_scan.2 hs, ?_⟩
    rw [Bool.and_eq_true, decide_eq_true_eq]
    exact ⟨hij, List.any_eq_true.2 ⟨_, hk, decide_eq_true (mem_inserted.2 ⟨hr, ho⟩)⟩⟩
  rw [h] at ht
  cases ht

theorem defaultOf_write (db : Db) (i k : ℕ) (v : Option DictData) :
    defaultOf (db.apply [⟨.dictData, i, v⟩]) k = if k = i then rowDefault v else defaultOf db k := by
  rw [defaultOf, apply_one]
  split
  · rfl
  · rfl

theorem unique_write {db : Db} (h : Unique db)
    (hv : ∀ r, new = some r → taken db i (db.rows .dictData i) r = false) :
    Unique (db.apply [⟨.dictData, i, new⟩]) := by
  have hne : ∀ t j, j ≠ i → defaultOf db j = some t → rowDefault new ≠ some t := by
    intro t j hij hj hr
    cases new with
    | none => cases hr
    | some r =>
      have hi : defaultOf db i = some t := not_taken (hv r rfl) hij hj hr
      exact hij (h t j i hj hi)
  intro t a b ha hb
  rw [defaultOf_write] at ha hb
  by_cases hai : a = i
  · rw [if_pos hai] at ha
    by_cases hbi : b = i
    · rw [hai, hbi]
    · rw [if_neg hbi] at hb
      exact absurd ha (hne t b hbi hb)
  · rw [if_neg hai] at ha
    by_cases hbi : b = i
    · rw [if_pos hbi] at hb
      exact absurd hb (hne t a hai ha)
    · rw [if_neg hbi] at hb
      exact h t a b ha hb

/-- One row is written, with the locks and the check of its index records. -/
theorem DefaultTx.write (h : DefaultTx typ gone l w) (n : ℕ) (hw : g.writes = [⟨.dictData, i, new⟩])
    (hk : ∀ x ∈ keyLocks ((w.view l).db.rows .dictData i) new, x ∈ g.locks)
    (hv : ∀ r, new = some r → taken (w.view l).db i ((w.view l).db.rows .dictData i) r = false)
    (hl : ∀ t, defaultOf (w.view l).db i = some t →
      rowDefault new = some t ∨ gone = some i ∨ typ = some t) :
    DefaultTx typ gone (l.run g n) (w.run g) := by
  refine DefaultStatements.DefaultTx.run h n ?_ (fun t k hne ↦ ?_) fun t k hd ↦ ?_
  · rw [hw]
    exact fun hu ↦ unique_write hu hv
  · rw [hw, defaultOf_write] at hne
    by_cases hki : k = i
    · subst hki
      rw [if_pos rfl] at hne
      exact hk _ (mem_keyLocks hne)
    · rw [if_neg hki] at hne
      exact absurd .rfl hne
  · rw [hw, defaultOf_write]
    by_cases hki : k = i
    · subst hki
      rw [if_pos rfl]
      exact hl t hd
    · rw [if_neg hki]
      exact .inl hd

theorem rows_write (hw : g.writes = [⟨.dictData, i, new⟩]) {v : Option DictData}
    (hp : pending g.writes .dictData j = some v) : j = i ∧ v = new := by
  rw [hw, pending_singleton] at hp
  cases Write.at_eq_some hp
  exact ⟨rfl, rfl⟩

theorem rowDefault_unset (r : DictData) : rowDefault (some (unset r)) = none := rfl

/-- A session that may commit as soon as it has noted what it did. -/
structure Ready (typ gone : Option ℕ) (l : Private) (w : Shared) : Prop where
  rows : RowTx l w
  defaults : DefaultTx typ gone l w

theorem Ready.init (h : DefaultInv calm w) : Ready typ gone {} w := ⟨.init, .init h⟩

theorem Ready.rely (h : Ready typ gone l w) (hr : Rely (defaultProtocol calm) l w w') :
    Ready typ gone l w' := ⟨h.rows.rely hr, h.defaults.rely h.rows.covered hr⟩

theorem defaultOf_clear {db : Db} (hdb : ∃ e, defaultOf (db.apply
      (db.update .dictData (isOtherDefault t e) unset)) i = some j) : defaultOf db i = some j := by
  obtain ⟨e, hd⟩ := hdb
  cases hp : pending (db.update .dictData (isOtherDefault t e) unset) .dictData i with
  | none => rwa [defaultOf_congr (apply_rows_of_none hp)] at hd
  | some v =>
    obtain ⟨r, -, -, rfl⟩ := pending_update hp
    rw [defaultOf, apply_rows_of_pending hp, rowDefault_unset] at hd
    cases hd

theorem clear_cases {db : Db} {e : Option ℕ} (hd : defaultOf db i = some j) :
    defaultOf (db.apply (db.update .dictData (isOtherDefault t e) unset)) i = some j ∨
      j = t ∧ e ≠ some i ∧ ∃ r, db.rows .dictData i = some r ∧ isOtherDefault t e i r = true := by
  cases hp : pending (db.update .dictData (isOtherDefault t e) unset) .dictData i with
  | none =>
    rw [defaultOf_congr (apply_rows_of_none hp)]
    exact .inl hd
  | some v =>
    obtain ⟨r, hr, ho, rfl⟩ := pending_update hp
    obtain ⟨r', hr', -, rfl⟩ := defaultOf_eq_some.1 hd
    rw [hr] at hr'
    cases hr'
    have ho' := ho
    simp only [isOtherDefault, Bool.and_eq_true, decide_eq_true_eq] at ho'
    exact .inr ⟨ho'.1.1, ho'.2, r, hr, ho⟩

theorem wp_clearOtherDefaults {e : Option ℕ} {Q : Unit → Private → Shared → Prop}
    (h : Ready (some t) gone l w) (hb : Blank l)
    (hQ : ∀ l' w', Ready (some t) gone l' w' → l'.notes = [] →
      (∀ i, e = some i → pending l'.redo .dictData i = none) → TypesKept w w' → Q () l' w') :
    wp (defaultProtocol calm) G (clearOtherDefaults t e) Q E l w := by
  refine wp_query fun w₁ hr _ ↦ ⟨rfl, ?_⟩
  have h₁ := h.rely hr
  refine hQ _ _ ⟨?_, ?_⟩ ?_ (fun i he ↦ ?_) hr.guar
  · refine DefaultStatements.RowTx.run hr.inv h₁.rows (fun i v hp ↦ ?_) fun i hn ↦ by cases hn
    obtain ⟨r, hr', -, rfl⟩ := pending_update hp
    refine .inl ⟨r, hr', fun he ↦ (by cases he), fun r' he ↦ ?_⟩
    cases he
    rfl
  · refine DefaultStatements.DefaultTx.run h₁.defaults _ (fun hu t' i j hi hj ↦ ?_)
      (fun t' i hne ↦ ?_) fun t' i hd ↦ ?_
    · exact hu t' i j (defaultOf_clear ⟨e, hi⟩) (defaultOf_clear ⟨e, hj⟩)
    · have hd : defaultOf (w₁.view l).db i = some t' := by
        by_contra hd
        exact hne ⟨fun ha ↦ defaultOf_clear ⟨e, ha⟩, fun hd' ↦ absurd hd' hd⟩
      rcases clear_cases (t := t) (e := e) hd with ha | ⟨rfl, -, r, hr', ho⟩
      · exact absurd ⟨fun _ ↦ hd, fun _ ↦ ha⟩ hne
      · refine List.mem_flatMap.2 ⟨(i, r), mem_select.2 ⟨hr', ho⟩, mem_keyLocks ?_⟩
        rw [rowDefault_unset, ← hr']
        intro hf
        cases hf.2 hd
    · rcases clear_cases hd with ha | ⟨ht, -⟩
      · exact .inl ha
      · exact .inr (.inr (by rw [ht]))
  · show l.notes ++ [] = []
    rw [hb.notes, List.append_nil]
  · show pending (l.redo ++ _) .dictData i = none
    rw [hb.redo, List.nil_append]
    cases hp : pending ((w₁.view l).db.update .dictData (isOtherDefault t e) unset) .dictData i with
    | none => rfl
    | some v =>
      obtain ⟨r, -, ho, -⟩ := pending_update hp
      simp only [isOtherDefault, Bool.and_eq_true, decide_eq_true_eq] at ho
      exact absurd he ho.2

def Finished (l : Private) (w : Shared) : Prop :=
  ∃ typ gone, Ready typ gone l w ∧ Noted l w typ gone

theorem Finished.rely (h : Finished l w) (hr : Rely (defaultProtocol calm) l w w') : Finished l w' := by
  obtain ⟨typ, gone, hready, hn⟩ := h
  exact ⟨typ, gone, hready.rely hr, hn.rely hready.rows.covered hr⟩

theorem view_fresh (hi : DefaultInv calm w) (h : RowTx l w) :
    (w.view l).db.rows .dictData w.next = none := by
  cases hr : (w.view l).db.rows .dictData w.next with
  | none => rfl
  | some r => exact absurd (rows_commit hi h hr) (Nat.lt_irrefl _)

theorem wp_insert {payload : DictDataCreate} {Q : DictDataRead → Private → Shared → Prop}
    (h : Ready (if payload.isDefault then some payload.dictTypeId else none) none l w)
    (hn : l.notes = []) (hE : ∀ e l' w', E e l' w') (hQ : ∀ a l' w', Finished l' w' → Q a l' w') :
    wp (defaultProtocol calm) G (DictRepository.createData payload) Q E l w := by
  refine wp_query fun w₁ hr ↦ ?_
  have h₁ := h.rely hr
  have hnext : (w₁.view l).db.rows .dictData (w₁.view l).next = none := view_fresh hr.inv h₁.rows
  split
  · next hq =>
    split at hq
    · cases hq
    · next hf =>
      cases hq
      rw [Bool.or_eq_true, not_or, Bool.not_eq_true, Bool.not_eq_true] at hf
      refine fun _ ↦ ⟨rfl, hQ _ _ _ ⟨if payload.isDefault then some payload.dictTypeId else none, none,
        ⟨?_, ?_⟩, ?_⟩⟩
      · refine DefaultStatements.RowTx.run hr.inv h₁.rows (fun i v hp ↦ ?_) fun i hd ↦ ?_
        · obtain ⟨rfl, rfl⟩ := rows_write rfl hp
          refine .inr ⟨Nat.le_refl _, Nat.lt_succ_self _, fun he ↦ by cases he⟩
        · dsimp only at hd
          split at hd
          · cases List.mem_singleton.1 hd
          · cases hd
      · refine DefaultTx.write h₁.defaults _ rfl (fun x hx ↦ ?_) (fun r he ↦ ?_) fun t hd ↦ ?_
        · rw [hnext] at hx
          exact List.mem_cons_of_mem _ hx
        · cases he
          rw [hnext]
          exact hf.2
        · rw [defaultOf, hnext] at hd
          cases hd
      · have hp : pending (l.redo ++ [⟨.dictData, w₁.next, some payload.row⟩]) .dictData w₁.next =
            some (some payload.row) := by
          rw [pending_append, pending_singleton, Write.at_self]
          rfl
        cases hd : payload.isDefault with
        | false =>
          refine .nothing ?_
          simp only [Local.run, hn, List.nil_append, Bool.false_eq_true, if_false]
        | true =>
          refine .asked payload.dictTypeId w₁.next false ?_ (fun _ ↦ ⟨_, hp, ?_⟩) fun he ↦ by cases he
          · simp only [Local.run, hn, List.nil_append, if_true]
            rfl
          · exact if_pos hd
  · exact hE _ _ _

end AdminPlatform.Dict.DefaultCalls
