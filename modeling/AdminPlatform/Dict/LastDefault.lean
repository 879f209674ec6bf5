import AdminPlatform.Dict.DefaultFlush

namespace AdminPlatform.Dict.LastDefault

open Model.Schema Model.Service Model.Scope Foundation.Relational Foundation.Transaction
open Foundation.Interleaving Foundation.RelyGuarantee
open Service DictRepository DefaultProtocol DefaultStatements DefaultCalls DefaultFlush

variable {α : Type} {w w' : Shared} {l l' : Private} {t i : ℕ} {typ gone : Option ℕ} {calm : Prop}
  {G : Guard Table Row LockName Storage Note} {E : Failure → Private → Shared → Prop}

theorem wp_refresh {Q : DictDataRead → Private → Shared → Prop} (h : Finished l w)
    (hE : ∀ e l' w', E e l' w') (hQ : ∀ a l' w', Finished l' w' → Q a l' w') :
    wp (defaultProtocol calm) G (refresh i) Q E l w := by
  refine wp_query fun w₁ hr ↦ ?_
  split
  · next hq =>
    split at hq
    · cases hq
    · cases hq
      refine fun _ ↦ ⟨rfl, ?_⟩
      rw [local_run_empty, world_run_empty]
      exact hQ _ _ _ (h.rely hr)
  · exact hE _ _ _

theorem wp_deleteData {Q : Unit → Private → Shared → Prop}
    (hQ : ∀ l' w', Finished l' w' → Q () l' w') :
    wp (defaultProtocol calm) G (DictRepository.deleteData i) Q E {} w := by
  refine wp_query fun w₁ hr ↦ ?_
  have hview : (w₁.view {}).db.rows .dictData i = w₁.db.rows .dictData i := view_of_none rfl w₁
  cases hrow : (w₁.view {}).db.rows .dictData i with
  | none =>
    refine fun _ ↦ ⟨rfl, ?_⟩
    rw [local_run_empty, world_run_empty]
    exact hQ _ _ ⟨none, none, .init hr.inv, .nothing rfl⟩
  | some r =>
    refine fun _ ↦ ⟨rfl, hQ _ _ ⟨none, some i, ⟨?_, ?_⟩, .deleted i rfl⟩⟩
    · refine DefaultStatements.RowTx.run hr.inv .init (fun k v hp ↦ ?_) fun k hd ↦ ?_
      · obtain ⟨rfl, rfl⟩ := rows_write rfl hp
        exact .inl ⟨r, hrow, fun _ ↦ List.mem_cons_self, fun r' he ↦ by cases he⟩
      · cases List.mem_singleton.1 hd
        refine ⟨?_, r, hview.symm.trans hrow⟩
        rw [pending_singleton, Write.at_self]
    · refine DefaultTx.write (.init hr.inv) _ rfl (fun x hx ↦ ?_) (fun r' he ↦ by cases he)
        fun t _ ↦ .inr (.inl rfl)
      rw [hrow] at hx
      exact hx

section Calls

variable (hG : calm → ∀ w notes, G.commit w notes → Unstale w notes)

include hG

theorem safe_getSession {p : Call α}
    (h : wp (defaultProtocol calm) G p (fun _ l w ↦ Finished l w) (fun _ _ _ ↦ True) l w) :
    safe (defaultProtocol calm) G (getSession p) l w := by
  refine wp_bind (wp_mono (fun a l' w' hf ↦ ?_) (fun _ _ _ _ ↦ trivial) h)
  refine wp_bind (wp_save fun w₁ hr hc ↦ ⟨?_, trivial⟩)
  obtain ⟨typ, gone, hready, hn⟩ := hf.rely hr
  exact moves_commit hr.inv hready.rows hready.defaults hn fun hcalm ↦ hG hcalm w₁ _ hc

theorem safe_create (payload : DictDataCreate) :
    safe (defaultProtocol calm) G (DataOp.create payload).call {} w := by
  refine safe_getSession hG (wp_bind (wp_bind (wp_read fun w₁ hr ↦ ?_)))
  cases (w₁.view {}).db.rows .dictTypes payload.dictTypeId with
  | none => trivial
  | some type =>
    have hready : Ready (if payload.isDefault then some payload.dictTypeId else none) none {} w₁ :=
      .init hr.inv
    have hdone : ∀ a l' w', Finished l' w' → wp (defaultProtocol calm) G
        (pure (some a) : Call (Option DictDataRead)) (fun _ l w ↦ Finished l w)
        (fun _ _ _ ↦ True) l' w' := fun _ _ _ h ↦ h
    cases hd : payload.isDefault with
    | false =>
      refine wp_insert hready rfl (fun _ _ _ ↦ trivial) hdone
    | true =>
      rw [hd, if_pos rfl] at hready
      refine wp_bind (wp_clearOtherDefaults hready .init fun l₂ w₂ h₂ hn _ _ ↦ ?_)
      refine wp_insert ?_ hn (fun _ _ _ ↦ trivial) hdone
      rwa [hd, if_pos rfl]

theorem safe_update (payload : DictDataUpdate) :
    safe (defaultProtocol calm) G (DataOp.update i payload).call {} w := by
  refine safe_getSession hG (wp_bind (wp_bind (wp_read fun w₁ hr ↦ ?_)))
  have hview : (w₁.view {}).db.rows .dictData i = w₁.db.rows .dictData i := view_of_none rfl w₁
  cases hrow : (w₁.view {}).db.rows .dictData i with
  | none => trivial
  | some existing =>
    have hseen : Seen i existing.dictTypeId w₁ := .inr ⟨existing, hview.symm.trans hrow, rfl⟩
    have hupdate : ∀ l w, Ready (clears payload existing) (unsets payload existing i) l w →
        l.notes = [] → pending l.redo .dictData i = none → Seen i existing.dictTypeId w →
        wp (defaultProtocol calm) G (DictRepository.updateData i existing payload)
          (fun a l w ↦ wp (defaultProtocol calm) G (pure (some a) : Call (Option DictDataRead))
            (fun _ l w ↦ Finished l w) (fun _ _ _ ↦ True) l w) (fun _ _ _ ↦ True) l w := by
      intro l w h hn hp hs
      refine wp_bind (wp_flushData h hn hp hs (fun _ _ _ ↦ trivial) fun l' w' hf ↦ ?_)
      exact wp_refresh hf (fun _ _ _ ↦ trivial) fun _ _ _ h ↦ h
    by_cases ha : payload.isDefault = some (some true)
    · have hc : clears payload existing = some existing.dictTypeId := if_pos (by rw [ha]; rfl)
      have hready : Ready (some existing.dictTypeId) (unsets payload existing i) {} w₁ := .init hr.inv
      dsimp only
      rw [if_pos ha]
      refine wp_bind (wp_clearOtherDefaults hready .init fun l₂ w₂ h₂ hn hp hk ↦ ?_)
      refine hupdate l₂ w₂ ?_ hn (hp i rfl) (hseen.later hk)
      rwa [hc]
    · dsimp only
      rw [if_neg ha]
      exact hupdate {} w₁ (.init hr.inv) rfl rfl hseen

theorem safe_delete :
    safe (defaultProtocol calm) G (DataOp.delete i).call {} w := by
  refine safe_getSession hG (wp_bind (wp_bind (wp_read fun w₁ hr ↦ ?_)))
  cases (w₁.view {}).db.rows .dictData i with
  | none => trivial
  | some existing => exact wp_deleteData fun _ _ h ↦ h

theorem safe_call (op : DataOp) (w : Shared) :
    safe (defaultProtocol calm) G op.call {} w := by
  cases op with
  | create payload => exact safe_create hG payload
  | update dataId payload => exact safe_update hG payload
  | delete dataId => exact safe_delete hG

end Calls

section Publishes

open Prog

/-- What a request has logged when it is answered. An update asks for the type its entry had when it was read. -/
def Logs : DataOp → Option DictDataRead → List (View Table Row Storage) → List Note → Prop
  | .create payload, row, _, ns => ∃ id, row = some ⟨id, payload.row⟩ ∧
      ns = if payload.isDefault then [.defaultAsked payload.dictTypeId id false] else []
  | .update dataId payload, _, vs, ns => ∃ v ∈ vs, ∃ existing, v.db.rows .dictData dataId = some existing ∧
      ns = payload.notes existing dataId
  | .delete _, row, _, _ => row = none

variable {vs : List (View Table Row Storage)} {ns : List Note}

theorem gathers_clearOtherDefaults {exceptId : Option ℕ}
    {Q : Unit → List (View Table Row Storage) → List Note → Prop} (hQ : ∀ v, Q () (vs ++ [v]) ns) :
    (clearOtherDefaults t exceptId).Gathers Q (fun _ _ _ ↦ True) vs ns := by
  refine gathers_query (fun v g a h ↦ ?_) fun _ _ _ ↦ trivial
  cases h
  rw [List.append_nil]
  exact hQ v

theorem gathers_createData {payload : DictDataCreate}
    {Q : DictDataRead → List (View Table Row Storage) → List Note → Prop}
    (hQ : ∀ id vs', Q ⟨id, payload.row⟩ vs'
      (ns ++ if payload.isDefault then [.defaultAsked payload.dictTypeId id false] else [])) :
    (DictRepository.createData payload).Gathers Q (fun _ _ _ ↦ True) vs ns := by
  refine gathers_query (fun v g a h ↦ ?_) fun _ _ _ ↦ trivial
  split at h
  · cases h
  · cases h
    exact hQ _ _

theorem gathers_flushData {loaded : DictData} {payload : DictDataUpdate}
    {Q : Unit → List (View Table Row Storage) → List Note → Prop}
    (hQ : ∀ v, Q () (vs ++ [v]) (ns ++ payload.notes loaded i)) :
    (flushData i loaded payload).Gathers Q (fun _ _ _ ↦ True) vs ns := by
  refine gathers_query (fun v g a h ↦ ?_) fun _ _ _ ↦ trivial
  split at h
  · split at h
    · cases h
    · dsimp only at h
      split at h
      · cases h
      · cases h
        exact hQ v
  · cases h
    exact hQ v

theorem publishes_call (op : DataOp) :
    op.call.Publishes (fun r vs ns ↦ ∀ row, r = .ok row → Logs op row vs ns) [] [] := by
  cases op with
  | create payload =>
    refine publishes_getSession (gathers_bind (gathers_bind (gathers_read fun v₁ ↦ ?_)))
    split
    · trivial
    · have hdone : ∀ vs', (DictRepository.createData payload).Gathers
          (fun row vs ns ↦ ∀ row', Except.ok (some row) =
            (Except.ok row' : Except Failure (Option DictDataRead)) → Logs (.create payload) row' vs ns)
          (fun _ _ _ ↦ True) vs' [] := by
        refine fun vs' ↦ gathers_createData fun id vs'' row' h ↦ ?_
        cases h
        exact ⟨id, rfl, rfl⟩
      split
      · exact gathers_bind (gathers_clearOtherDefaults fun v₂ ↦ hdone _)
      · exact hdone _
  | update dataId payload =>
    refine publishes_getSession (gathers_bind (gathers_bind (gathers_read fun v₁ ↦ ?_)))
    split
    · trivial
    · next existing hrow =>
      have hdone : ∀ vs', [v₁] ⊆ vs' → (DictRepository.updateData dataId existing payload).Gathers
          (fun row vs ns ↦ ∀ row', Except.ok (some row) =
            (Except.ok row' : Except Failure (Option DictDataRead)) → Logs (.update dataId payload) row' vs ns)
          (fun _ _ _ ↦ True) vs' [] := by
        intro vs' hv
        refine gathers_bind (gathers_flushData fun v₃ ↦ ?_)
        refine gathers_query (fun v₄ g a h row' h' ↦ ?_) fun _ _ _ ↦ trivial
        split at h
        · cases h
        · cases h
          refine ⟨v₁, ?_, existing, hrow, List.append_nil _⟩
          exact List.mem_append_left _ (List.mem_append_left _ (hv (List.mem_singleton.2 rfl)))
      split
      · exact gathers_bind (gathers_clearOtherDefaults fun v₂ ↦ hdone _ (List.subset_append_left _ _))
      · exact hdone _ fun _ h ↦ h
  | delete dataId =>
    refine publishes_getSession (gathers_bind (gathers_bind (gathers_read fun v₁ ↦ ?_)))
    split
    · trivial
    · refine gathers_query (fun v₂ g a _ row h ↦ ?_) fun _ _ _ ↦ trivial
      cases h
      rfl

end Publishes

/-- The unique index holds and nothing has been logged. -/
structure Start (w : Shared) : Prop where
  unique : Unique w.db
  below : ∀ i r, w.db.rows .dictData i = some r → i < w.next
  log : w.log = []

theorem Start.inv (h : Start w) : DefaultInv calm w where
  unique := h.unique
  settled _ t i ha := by
    rw [h.log] at ha
    cases ha
  below := h.below
  deleted i hd := by
    rw [h.log] at hd
    cases hd

def Honoured (w : Shared) : Prop :=
  ∀ t i, asked w.log t = some i → ∀ j, defaultOf w.db j = some t ↔ j = i

def unstaleGuard : Guard Table Row LockName Storage Note := ⟨fun _ _ ↦ True, Unstale⟩

/-- A type never has two defaults, and it has the one last asked for when no request commits that
found its entry the default and lost it since. A request that is answered has logged what it asked for. -/
theorem last_default_of_reach (w : Shared) (hw : Start w) :
    (∀ S, Reach DataOp.call .crash .free w S → Unique S.world.db) ∧
      (∀ S, Reach DataOp.call .crash unstaleGuard w S → Honoured S.world) ∧
      ∀ S S₁ S' op row l, Reach DataOp.call .crash .free w S →
        S.next DataOp.call .crash (.start op) = some S₁ → Continues DataOp.call .crash .free S₁ S' →
        S'.sessions[S.sessions.length]? = some ⟨.done row, l⟩ →
        ∃ S₂ S₃ vs ns, Continues DataOp.call .crash .free S₁ S₂ ∧
          Commits DataOp.call .crash S.sessions.length (.ok row) ns S₂ S₃ ∧
          Continues DataOp.call .crash .free S₃ S' ∧ Logs op row vs ns ∧
          ∀ v ∈ vs, Looked DataOp.call .crash .free S.sessions.length S₁ S₂ v := by
  refine ⟨fun S h ↦ ?_, fun S h ↦ ?_, fun S S₁ S' op row l h hn hc hdone ↦ ?_⟩
  · have hinv : DefaultInv False S.world :=
      (sound_of_reach (fun op w _ ↦ safe_call (fun hf ↦ hf.elim) op w) hw.inv h).inv
    exact hinv.unique
  · have hinv : DefaultInv True S.world :=
      (sound_of_reach (fun op w _ ↦ safe_call (fun _ _ _ hc ↦ hc) op w) hw.inv h).inv
    intro t i ha j
    have hi := hinv.settled trivial t i ha
    refine ⟨fun hj ↦ hinv.unique t j i hj hi, fun he ↦ ?_⟩
    rw [he]
    exact hi
  · obtain ⟨S₂, S₃, vs, ns, h₂, hcommit, h₃, hlogs, hlook⟩ := commits_of_done (publishes_call op) hn hc hdone
    exact ⟨S₂, S₃, vs, ns, h₂, hcommit, h₃, hlogs row rfl, hlook⟩

def maleAndFemale : Shared where
  now := 0
  next := 3
  ext := ⟨[], []⟩
  db := Store.empty.apply [⟨.dictTypes, 0, some ⟨"sex", "sys_user_sex", .active, false, none⟩⟩,
    ⟨.dictData, 1, some ⟨0, "male", "0", 0, .active, true, none, none⟩⟩,
    ⟨.dictData, 2, some ⟨0, "female", "1", 1, .active, false, none, none⟩⟩]
  log := []

theorem start_maleAndFemale : Start maleAndFemale where
  unique t i j hi hj := by
    have hone : ∀ k, defaultOf maleAndFemale.db k = some t → k = 1 := by
      intro k hk
      obtain ⟨r, hr, hd, -⟩ := defaultOf_eq_some.1 hk
      have hm := maleAndFemale.db.complete .dictData k r hr
      have hk' : k = 1 ∨ k = 2 := by simpa [maleAndFemale, Store.apply, Store.empty] using hm
      rcases hk' with rfl | rfl
      · rfl
      · cases hr
        cases hd
    rw [hone i hi, hone j hj]
  below i r hr := by
    have hm := maleAndFemale.db.complete .dictData i r hr
    have hk : i = 1 ∨ i = 2 := by simpa [maleAndFemale, Store.apply, Store.empty] using hm
    show i < 3
    omega
  log := rfl

def askDefault : DictDataUpdate := { isDefault := some (some true) }

def thereAndBack : List (Label DataOp) :=
  .start (.update 2 askDefault) :: List.replicate 5 (.step 0) ++
    .start (.update 1 askDefault) :: List.replicate 5 (.step 1)

def movedAway : List (Label DataOp) :=
  .start (.update 1 askDefault) :: .step 0 :: .start (.update 2 askDefault) ::
    List.replicate 5 (.step 1) ++ List.replicate 4 (.step 0)

def unstale (w : Shared) (notes : List Note) : Bool :=
  notes.all fun n ↦ match n with
    | .defaultAsked t i true => decide (defaultOf w.db i = some t)
    | _ => true

theorem unstale_spec {notes : List Note} (h : unstale w notes = true) : Unstale w notes := by
  intro t i hm
  exact of_decide_eq_true (List.all_eq_true.1 h _ hm)

theorem last_default_of_reach_thereAndBack :
    ∃ S, Reach DataOp.call .crash unstaleGuard maleAndFemale S ∧
      asked S.world.log 0 = some 1 ∧ ∀ j, defaultOf S.world.db j = some 0 ↔ j = 1 := by
  have hrun : ∃ S, Reach DataOp.call .crash unstaleGuard maleAndFemale S ∧
      decide (asked S.world.log 0 = some 1) = true :=
    exists_reach_of_follow unstale thereAndBack (fun _ _ ↦ trivial) (fun _ _ h ↦ unstale_spec h)
      (by decide +kernel)
  obtain ⟨S, hS, hp⟩ := hrun
  have ha := of_decide_eq_true hp
  exact ⟨S, hS, ha, (last_default_of_reach maleAndFemale start_maleAndFemale).2.1 S hS 0 1 ha⟩

theorem not_honoured_movedAway :
    ¬ ∀ w S, Start w → Reach DataOp.call .crash .free w S → Honoured S.world := by
  intro h
  have hrun : ∃ S, Reach DataOp.call .crash .free maleAndFemale S ∧
      decide (asked S.world.log 0 = some 1 ∧ defaultOf S.world.db 1 = none) = true :=
    exists_reach_of_follow (fun _ _ ↦ true) movedAway (fun _ _ ↦ trivial) (fun _ _ _ ↦ trivial)
      (by decide +kernel)
  obtain ⟨S, hS, hp⟩ := hrun
  obtain ⟨ha, hd⟩ := of_decide_eq_true hp
  have hone := (h maleAndFemale S start_maleAndFemale hS 0 1 ha 1).2 rfl
  rw [hd] at hone
  cases hone

end AdminPlatform.Dict.LastDefault
