import AdminPlatform.Dict.DefaultCalls

namespace AdminPlatform.Dict.DefaultFlush

open Model.Schema Model.Service Model.Scope Foundation.Relational Foundation.Transaction
open Foundation.Interleaving Foundation.RelyGuarantee
open Service DictRepository DefaultProtocol DefaultStatements DefaultCalls

variable {α : Type} {w w' : Shared} {l l' : Private} {t i : ℕ} {typ gone : Option ℕ} {calm : Prop}
  {G : Guard Table Row LockName Storage Note} {E : Failure → Private → Shared → Prop}

def Seen (i t : ℕ) (w : Shared) : Prop :=
  Note.dictDataDeleted i ∈ w.log ∨ ∃ r, w.db.rows .dictData i = some r ∧ r.dictTypeId = t

theorem Seen.later (h : Seen i t w) (hk : TypesKept w w') : Seen i t w' := by
  rcases h with hd | ⟨r, hr, rfl⟩
  · exact .inl (hk.log hd)
  · exact hk.rows i r hr

theorem Seen.type (h : Seen i t w) (hi : DefaultInv calm w) {r : DictData}
    (hr : w.db.rows .dictData i = some r) : r.dictTypeId = t := by
  rcases h with hd | ⟨r', hr', ht⟩
  · rw [(hi.deleted i hd).1] at hr
    cases hr
  · rw [hr] at hr'
    cases hr'
    exact ht

section Flush

variable {payload : DictDataUpdate} {loaded r : DictData}

def clears (payload : DictDataUpdate) (loaded : DictData) : Option ℕ :=
  if payload.isDefault.join = some true then some loaded.dictTypeId else none

def unsets (payload : DictDataUpdate) (loaded : DictData) (i : ℕ) : Option ℕ :=
  if payload.isDefault.join = some false ∧ loaded.isDefault = true then some i else none

theorem rowDefault_applied (h : payload.isDefault.join = none ∨
      ∃ b, payload.isDefault.join = some b ∧ loaded.isDefault = b) :
    rowDefault (some (payload.applied loaded r)) = rowDefault (some r) := by
  have hd : (payload.applied loaded r).isDefault = r.isDefault := by
    rcases h with h | ⟨b, h, hb⟩
    · simp only [DictDataUpdate.applied, h, flushed]
    · simp only [DictDataUpdate.applied, h, flushed, hb, if_true]
  simp only [rowDefault, Option.bind_some, hd]
  rfl

theorem rowDefault_applied_true (h : payload.isDefault.join = some true) (hl : loaded.isDefault = false) :
    rowDefault (some (payload.applied loaded r)) = some r.dictTypeId := by
  have hd : (payload.applied loaded r).isDefault = true := by
    simp only [DictDataUpdate.applied, h, flushed, hl, Bool.true_eq_false, if_false]
  simp only [rowDefault, Option.bind_some, hd, if_true]
  rfl

theorem emits_of_asked (h : payload.isDefault.join = some true) (hl : loaded.isDefault = false) :
    payload.emits loaded = true := by
  have hd : dirty loaded.isDefault payload.isDefault.join = true := by
    simp [h, hl, dirty]
  simp [DictDataUpdate.emits, hd]

theorem lost_applied (hr : r.dictTypeId = loaded.dictTypeId) (hd : rowDefault (some r) = some t) :
    rowDefault (some (payload.applied loaded r)) = some t ∨ unsets payload loaded i = some i ∨
      clears payload loaded = some t := by
  cases hp : payload.isDefault.join with
  | none => exact .inl ((rowDefault_applied (.inl hp)).trans hd)
  | some b =>
    cases b with
    | true =>
      obtain ⟨r', he, -, ht⟩ : ∃ r', some r = some r' ∧ r'.isDefault = true ∧ r'.dictTypeId = t := by
        simp only [rowDefault, Option.bind_some] at hd
        split at hd
        · next h => exact ⟨r, rfl, h, Option.some.inj hd⟩
        · cases hd
      cases he
      refine .inr (.inr ?_)
      rw [clears, if_pos hp, ← hr, ht]
    | false =>
      cases hl : loaded.isDefault with
      | false => exact .inl ((rowDefault_applied (.inr ⟨false, hp, hl⟩)).trans hd)
      | true => exact .inr (.inl (if_pos ⟨hp, hl⟩))

/-- The notes of a flush that leaves the row's default to what it asked. -/
theorem noted_flush (hn : l.notes = payload.notes loaded i)
    (hf : payload.isDefault.join = some true → loaded.isDefault = false →
      ∃ r, pending l.redo .dictData i = some r ∧ rowDefault r = some loaded.dictTypeId)
    (ht : payload.isDefault.join = some true → loaded.isDefault = true →
      defaultOf (w.view l).db i = defaultOf w.db i) :
    Noted l w (clears payload loaded) (unsets payload loaded i) := by
  unfold clears unsets
  cases hp : payload.isDefault.join with
  | none =>
    simp only [DictDataUpdate.notes, hp] at hn
    exact .nothing hn
  | some b =>
    simp only [DictDataUpdate.notes, hp] at hn
    cases b with
    | true => exact .asked _ i loaded.isDefault hn (hf hp) (ht hp)
    | false =>
      cases hl : loaded.isDefault with
      | false =>
        rw [hl] at hn
        exact .nothing hn
      | true =>
        rw [hl] at hn
        exact .unset i hn

theorem deleted_notes {k : ℕ} (h : Note.dictDataDeleted k ∈ payload.notes loaded i) : False := by
  unfold DictDataUpdate.notes at h
  split at h
  · cases List.mem_singleton.1 h
  · split at h
    · cases List.mem_singleton.1 h
    · cases h
  · cases h

theorem wp_flushData {Q : Unit → Private → Shared → Prop}
    (h : Ready (clears payload loaded) (unsets payload loaded i) l w) (hn : l.notes = [])
    (hp : pending l.redo .dictData i = none) (hs : Seen i loaded.dictTypeId w)
    (hE : ∀ e l' w', E e l' w') (hQ : ∀ l' w', Finished l' w' → Q () l' w') :
    wp (defaultProtocol calm) G (flushData i loaded payload) Q E l w := by
  refine wp_query fun w₁ hr ↦ ?_
  have h₁ := h.rely hr
  have hs₁ := hs.later hr.guar
  have hview : (w₁.view l).db.rows .dictData i = w₁.db.rows .dictData i := view_of_none hp w₁
  have hnotes : ∀ (g : Statement), g.notes = payload.notes loaded i →
      (l.run g w₁.next).notes = payload.notes loaded i := by
    intro g hg
    simp only [Local.run, hn, hg, List.nil_append]
  split
  · next hq =>
    split at hq
    · next hem =>
      split at hq
      · cases hq
      · next r hrow =>
        rw [hview] at hrow
        have htype := hs₁.type hr.inv hrow
        dsimp only at hq
        split at hq
        · cases hq
        · next hok =>
          cases hq
          rw [Bool.or_eq_true, not_or, Bool.not_eq_true, Bool.not_eq_true] at hok
          refine fun _ ↦ ⟨rfl, hQ _ _ ⟨_, _, ⟨?_, ?_⟩, noted_flush (hnotes _ rfl) ?_ ?_⟩⟩
          · refine DefaultStatements.RowTx.run hr.inv h₁.rows (fun k v hw ↦ ?_) fun k hd ↦
              (deleted_notes hd).elim
            obtain ⟨rfl, rfl⟩ := rows_write rfl hw
            refine .inl ⟨r, hview.trans hrow, fun he ↦ (by cases he), fun r' he ↦ ?_⟩
            cases he
            rfl
          · refine DefaultTx.write h₁.defaults _ rfl (fun x hx ↦ ?_) (fun r' he ↦ ?_) fun t hd ↦ ?_
            · rw [hview, hrow] at hx
              exact hx
            · cases he
              rw [hview, hrow]
              exact hok.2
            · rw [defaultOf, hview, hrow] at hd
              exact lost_applied htype hd
          · intro ha hl
            refine ⟨_, ?_, (rowDefault_applied_true ha hl).trans (congrArg some htype)⟩
            show pending (l.redo ++ _) .dictData i = _
            rw [pending_append, pending_singleton, Write.at_self]
            rfl
          · intro ha hl
            rw [defaultOf_view_run, defaultOf_write, if_pos rfl, rowDefault_applied (.inr ⟨true, ha, hl⟩),
              ← hrow]
            rfl
    · next hem =>
      cases hq
      refine fun _ ↦ ⟨rfl, hQ _ _ ⟨_, _, ⟨?_, ?_⟩, noted_flush (hnotes _ rfl) ?_ ?_⟩⟩
      · exact DefaultStatements.RowTx.run hr.inv h₁.rows (fun k v hw ↦ by cases hw) fun k hd ↦
          (deleted_notes hd).elim
      · exact DefaultStatements.DefaultTx.run h₁.defaults _ (fun hu ↦ hu) (fun t k hne ↦
          absurd .rfl hne) fun t k hd ↦ .inl hd
      · exact fun ha hl ↦ absurd (emits_of_asked ha hl) hem
      · intro _ _
        rw [defaultOf_view_run]
        exact congrArg rowDefault hview
  · exact hE _ _ _

end Flush

end AdminPlatform.Dict.DefaultFlush
