import AdminPlatform.Dict.DefaultProtocol

namespace AdminPlatform.Dict.DefaultStatements

open Model.Schema Model.Service Model.Scope Foundation.Relational Foundation.Transaction
open Foundation.Interleaving Foundation.RelyGuarantee
open Service DefaultProtocol

variable {w w' : Shared} {l l' : Private} {t i j : ℕ} {typ gone : Option ℕ} {calm : Prop}
  {g : Statement} {G : Guard Table Row LockName Storage Note}

def Unstale (w : Shared) (notes : List Note) : Prop :=
  ∀ t i, Note.defaultAsked t i true ∈ notes → defaultOf w.db i = some t

/-- What the session notes about the defaults it changes. -/
inductive Noted (l : Private) (w : Shared) : Option ℕ → Option ℕ → Prop
  | asked (t i : ℕ) (b : Bool) : l.notes = [.defaultAsked t i b] →
      (b = false → ∃ r, pending l.redo .dictData i = some r ∧ rowDefault r = some t) →
      (b = true → defaultOf (w.view l).db i = defaultOf w.db i) → Noted l w (some t) none
  | unset (i : ℕ) : l.notes = [.defaultUnset i] → Noted l w none (some i)
  | deleted (i : ℕ) : l.notes = [.dictDataDeleted i] → Noted l w none (some i)
  | nothing : l.notes = [] → Noted l w none none

theorem Noted.rely (h : Noted l w typ gone) (hc : Covered l)
    (hr : Rely (defaultProtocol calm) l w w') : Noted l w' typ gone := by
  cases h with
  | asked t i b hn hf ht =>
    refine .asked t i b hn hf fun hb ↦ ?_
    rcases rely_cases hc hr i with ⟨-, h₂⟩ | ⟨h₁, h₂⟩
    · exact h₂
    · rw [h₁, h₂]
      exact ht hb
  | unset i hn => exact .unset i hn
  | deleted i hn => exact .deleted i hn
  | nothing hn => exact .nothing hn

theorem settled_commit (hi : DefaultInv calm w) (h : DefaultTx typ gone l w) (hn : Noted l w typ gone)
    (hc : calm) (hG : Unstale w l.notes) (ha : asked (w.log ++ l.notes) t = some i) :
    defaultOf (w.view l).db i = some t := by
  have hold : asked w.log t = some i → gone ≠ some i → typ ≠ some t →
      defaultOf (w.view l).db i = some t := by
    intro ha hg ht
    exact (h.lost t i (hi.settled hc t i ha)).resolve_right fun h ↦ h.elim hg ht
  rw [asked_append] at ha
  cases hn with
  | asked t' i' b hn hf ht =>
    rw [hn] at ha
    simp only [List.foldl_cons, List.foldl_nil, ask] at ha
    by_cases he : t' = t
    · rw [if_pos he] at ha
      cases ha
      subst he
      cases b with
      | false =>
        obtain ⟨r, hp, hr⟩ := hf rfl
        rw [defaultOf, view_of_pending hp]
        exact hr
      | true =>
        rw [ht rfl]
        exact hG t' i (by rw [hn]; exact List.mem_cons_self)
    · rw [if_neg he] at ha
      exact hold ha (by simp) fun h ↦ he (Option.some.inj h)
  | unset i' hn =>
    rw [hn] at ha
    simp only [List.foldl_cons, List.foldl_nil, ask] at ha
    split at ha
    · cases ha
    · next hne =>
      rw [ha] at hne
      exact hold ha (fun h ↦ hne h.symm) (by simp)
  | deleted i' hn =>
    rw [hn] at ha
    simp only [List.foldl_cons, List.foldl_nil, ask] at ha
    split at ha
    · cases ha
    · next hne =>
      rw [ha] at hne
      exact hold ha (fun h ↦ hne h.symm) (by simp)
  | nothing hn =>
    rw [hn] at ha
    exact hold ha (by simp) (by simp)

theorem rows_commit (hi : DefaultInv calm w) (h : RowTx l w) {r : DictData}
    (hr : (w.view l).db.rows .dictData i = some r) : i < w.next := by
  cases hp : pending l.redo .dictData i with
  | none =>
    rw [view_of_none hp] at hr
    exact hi.below i r hr
  | some v =>
    rcases h.rows i v hp with ⟨r', hr', -⟩ | ⟨-, -, hlt, -⟩
    · exact hi.below i r' hr'
    · exact hlt

theorem deleted_commit (hi : DefaultInv calm w) (h : RowTx l w)
    (hd : Note.dictDataDeleted i ∈ w.log ++ l.notes) :
    (w.view l).db.rows .dictData i = none ∧ i < w.next := by
  rcases List.mem_append.1 hd with hd | hd
  · obtain ⟨hrow, hlt⟩ := hi.deleted i hd
    refine ⟨?_, hlt⟩
    cases hp : pending l.redo .dictData i with
    | none => rwa [view_of_none hp]
    | some v =>
      rcases h.rows i v hp with ⟨r, hr, -⟩ | ⟨-, hf, -⟩
      · rw [hrow] at hr
        cases hr
      · exact absurd hd hf.deleted
  · obtain ⟨hp, r, hr⟩ := h.deleted i hd
    exact ⟨view_of_pending hp w, hi.below i r hr⟩

theorem typesKept_commit (h : RowTx l w) : TypesKept w (w.commit l) := by
  refine ⟨List.subset_append_left _ _, fun i r hr ↦ ?_⟩
  cases hp : pending l.redo .dictData i with
  | none => exact .inr ⟨r, (view_of_none hp w).trans hr, rfl⟩
  | some v =>
    rcases h.rows i v hp with ⟨r₀, hr₀, hn, ht⟩ | ⟨-, hf, -⟩
    · rw [hr] at hr₀
      cases hr₀
      cases v with
      | none => exact .inl (List.mem_append_right _ (hn rfl))
      | some r' => exact .inr ⟨r', view_of_pending hp w, ht r' rfl⟩
    · rw [hf.row] at hr
      cases hr

theorem fresh_commit (h : RowTx l w) (ho : (.own i, .exclusive) ∉ l.held) (hf : Fresh i w) :
    Fresh i (w.commit l) := by
  refine ⟨?_, fun hd ↦ ?_⟩
  · cases hp : pending l.redo .dictData i with
    | none => exact (view_of_none hp w).trans hf.row
    | some v =>
      rcases h.rows i v hp with ⟨r, hr, -⟩ | ⟨hown, -⟩
      · rw [hf.row] at hr
        cases hr
      · exact absurd hown ho
  · rcases List.mem_append.1 hd with hd | hd
    · exact hf.deleted hd
    · obtain ⟨-, r, hr⟩ := h.deleted i hd
      rw [hf.row] at hr
      cases hr

theorem moves_commit (hi : DefaultInv calm w) (hrow : RowTx l w) (h : DefaultTx typ gone l w)
    (hn : Noted l w typ gone) (hG : calm → Unstale w l.notes) :
    Moves (defaultProtocol calm) l.held w (w.commit l) := by
  refine ⟨⟨h.unique, fun hc t i ha ↦ settled_commit hi h hn hc (hG hc) ha,
    fun i r hr ↦ rows_commit (w := w) (l := l) hi hrow hr, fun i hd ↦ deleted_commit hi hrow hd⟩,
    typesKept_commit hrow, trivial, fun r hr ↦ ?_⟩
  show defaultProt r w (w.commit l)
  unfold defaultProt
  split
  · exact fun i ↦ h.kept _ (hr _) i
  · exact fresh_commit hrow (hr _)
  · trivial

theorem view_run (n k : ℕ) : ((w.run g).view (l.run g n)).db.rows .dictData k =
    ((w.view l).db.apply g.writes).rows .dictData k := by
  rw [view_db, view_db]
  exact apply_append_rows w.db l.redo g.writes .dictData k

theorem defaultOf_view_run (n k : ℕ) : defaultOf ((w.run g).view (l.run g n)).db k =
    defaultOf ((w.view l).db.apply g.writes) k := congrArg rowDefault (view_run n k)

/-- A statement changes rows that are there and inserts rows under the ids it draws. -/
theorem RowTx.run (hi : DefaultInv calm w) (h : RowTx l w)
    (hw : ∀ i v, pending g.writes .dictData i = some v →
      (∃ r, (w.view l).db.rows .dictData i = some r ∧ (v = none → Note.dictDataDeleted i ∈ g.notes) ∧
        ∀ r', v = some r' → r'.dictTypeId = r.dictTypeId) ∨
      (w.next ≤ i ∧ i < w.next + g.fresh ∧ v ≠ none))
    (hd : ∀ i, Note.dictDataDeleted i ∈ g.notes → pending g.writes .dictData i = some none ∧
      ∃ r, w.db.rows .dictData i = some r) : RowTx (l.run g w.next) (w.run g) := by
  refine ⟨covered_run h.covered g _, fun i v hp ↦ ?_, fun i hn ↦ ?_⟩
  · have hp' : (pending g.writes .dictData i).or (pending l.redo .dictData i) = some v := by
      rw [← pending_append]
      exact hp
    rcases Option.or_eq_some_iff.1 hp' with hp | ⟨-, hp⟩
    · rcases hw i v hp with ⟨r, hr, hv, ht⟩ | ⟨hle, hlt, hv⟩
      · have hnote : v = none → Note.dictDataDeleted i ∈ (l.run g w.next).notes := fun he ↦
          List.mem_append_right _ (hv he)
        cases hl : pending l.redo .dictData i with
        | none =>
          rw [view_of_none hl] at hr
          exact .inl ⟨r, hr, hnote, ht⟩
        | some v₀ =>
          rw [view_of_pending hl] at hr
          rcases h.rows i v₀ hl with ⟨r₀, hr₀, -, ht₀⟩ | ⟨ho, hf, hlt, -⟩
          · exact .inl ⟨r₀, hr₀, hnote, fun r' he ↦ (ht r' he).trans (ht₀ r hr)⟩
          · refine .inr ⟨List.mem_append_left _ ho, ⟨hf.row, hf.deleted⟩,
              Nat.lt_of_lt_of_le hlt (Nat.le_add_right _ _), fun he ↦ ?_⟩
            obtain ⟨-, r₁, hr₁⟩ := hd i (hv he)
            rw [hf.row] at hr₁
            cases hr₁
      · refine .inr ⟨claims_run l g _ ?_, ⟨?_, fun hn ↦ ?_⟩, hlt, hv⟩
        · refine List.mem_append_right _ (List.mem_map.2 ⟨i - w.next, List.mem_range.2 ?_, ?_⟩)
          · omega
          · rw [Nat.add_sub_cancel' hle]
        · cases hr : w.db.rows .dictData i with
          | none => exact hr
          | some r =>
            have hb := hi.below i r hr
            omega
        · have hb := (hi.deleted i hn).2
          omega
    · rcases h.rows i v hp with ⟨r, hr, hv, ht⟩ | ⟨ho, hf, hlt, hv⟩
      · exact .inl ⟨r, hr, fun he ↦ List.mem_append_left _ (hv he), ht⟩
      · exact .inr ⟨List.mem_append_left _ ho, ⟨hf.row, hf.deleted⟩,
          Nat.lt_of_lt_of_le hlt (Nat.le_add_right _ _), hv⟩
  · rcases List.mem_append.1 hn with hn | hn
    · obtain ⟨hp, r, hr⟩ := h.deleted i hn
      refine ⟨?_, r, hr⟩
      show pending (l.redo ++ g.writes) .dictData i = some none
      cases hg : pending g.writes .dictData i with
      | none => rw [pending_append, hg, hp]; rfl
      | some v =>
        rcases hw i v hg with ⟨r', hr', -⟩ | ⟨hle, -⟩
        · rw [view_of_pending hp] at hr'
          cases hr'
        · have hb := hi.below i r hr
          omega
    · obtain ⟨hp, hr⟩ := hd i hn
      refine ⟨?_, hr⟩
      show pending (l.redo ++ g.writes) .dictData i = some none
      rw [pending_append, hp]
      rfl

theorem DefaultTx.run (h : DefaultTx typ gone l w) (n : ℕ)
    (hu : Unique (w.view l).db → Unique ((w.view l).db.apply g.writes))
    (hk : ∀ t i, ¬ (defaultOf ((w.view l).db.apply g.writes) i = some t ↔
      defaultOf (w.view l).db i = some t) → (defaultKey t, .exclusive) ∈ g.locks)
    (hl : ∀ t i, defaultOf (w.view l).db i = some t →
      defaultOf ((w.view l).db.apply g.writes) i = some t ∨ gone = some i ∨ typ = some t) :
    DefaultTx typ gone (l.run g n) (w.run g) := by
  refine ⟨fun t i j hi hj ↦ ?_, fun t ht i ↦ ?_, fun t i hi ↦ ?_⟩
  · rw [defaultOf_view_run] at hi hj
    exact hu h.unique t i j hi hj
  · rw [defaultOf_view_run]
    have hg : defaultOf ((w.view l).db.apply g.writes) i = some t ↔
        defaultOf (w.view l).db i = some t := by
      by_contra hne
      exact ht (claims_run l g n (List.mem_append_left _ (List.mem_append_left _ (hk t i hne))))
    exact hg.trans (h.kept t (fun hm ↦ ht (held_run l g n hm)) i)
  · rw [defaultOf_view_run]
    rcases h.lost t i hi with hv | hv
    · exact hl t i hv
    · exact .inr hv

end AdminPlatform.Dict.DefaultStatements
