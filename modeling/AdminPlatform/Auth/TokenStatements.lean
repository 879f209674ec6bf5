import AdminPlatform.Auth.SessionCommit

namespace AdminPlatform.Auth.TokenStatements

open Model.Schema Model.Service Foundation.Relational Foundation.Transaction
open Foundation.Interleaving Foundation.RelyGuarantee RefreshService TokenInvariant TokenTransaction

variable {s : Settings} {strict : Prop} {new old reset : Option ℕ} {l : Private} {w : Shared}
  {i j u f : ℕ} {g : Statement}

theorem mentions_run (h : Mentions (w.run g) u) : Mentions w u := by
  refine Mentions.congr ?_ ?_ h <;> rfl

theorem sole_run (h : Sole l w u) : Sole (l.run g w.next) (w.run g) u where
  own := List.mem_append_left _ h.own
  fresh hm := h.fresh (mentions_run hm)
  below := Nat.lt_of_lt_of_le h.below (Nat.le_add_right _ _)

theorem sole_drawn (hi : TokenInv w) (hg : 0 < g.fresh) :
    Sole (l.run g w.next) (w.run g) w.next where
  own := by
    refine List.mem_append_right _ (List.mem_append_right _ (List.mem_map.2 ⟨0, ?_, rfl⟩))
    simpa using hg
  fresh hm := by
    have hb := hi.below w.next (mentions_run hm)
    omega
  below := Nat.lt_add_of_pos_right hg

theorem locksUser_run (h : LocksUser l u) : LocksUser (l.run g w.next) u :=
  List.mem_append_left _ h

theorem holds_run {r : Resource Table LockName} (h : Holds l r) : Holds (l.run g w.next) r := by
  obtain ⟨m, hm⟩ := h
  exact ⟨m, List.mem_append_left _ hm⟩

theorem note_run {n : Note} (h : n ∈ l.notes) : n ∈ (l.run g w.next).notes :=
  List.mem_append_left _ h

theorem pending_run {t : Table} (hw : pending g.writes t i = none) :
    pending (l.run g w.next).redo t i = pending l.redo t i := by
  show pending (l.redo ++ g.writes) t i = _
  rw [pending_append, hw]
  rfl

/-- After a statement the session sees its old view with the statement's writes on top. -/
theorem view_run (t : Table) (i : ℕ) : ((w.run g).view (l.run g w.next)).db.rows t i =
    (pending g.writes t i).getD ((w.view l).db.rows t i) := by
  rw [view_db, run_db]
  exact apply_append_rows _ _ _ _ _

def KeepsView (l : Private) (w : Shared) (g : Statement) : Prop :=
  ∀ i (r' : RefreshToken), ((w.run g).view (l.run g w.next)).db.rows .refreshTokens i = some r' →
    (∃ r : RefreshToken, (w.view l).db.rows .refreshTokens i = some r ∧ SameToken r r') ∨
    Sole (l.run g w.next) (w.run g) r'.familyId ∧ ∀ u, Note.issued r'.familyId u ∉ l.notes

theorem ended_run (h : Ended l w f) (hv : KeepsView l w g) : Ended (l.run g w.next) (w.run g) f := by
  obtain ⟨u, hl, hi, hrev⟩ := h
  refine ⟨u, locksUser_run hl, ?_, fun i r' hr' hf ↦ ?_⟩
  · rcases hi with hi | ⟨hn, hs⟩
    · exact .inl hi
    · exact .inr ⟨note_run hn, sole_run hs⟩
  · rcases hv i r' hr' with ⟨r, hr, hs⟩ | ⟨hs, hn⟩
    · exact hs.revoked (hrev i r hr (hs.family ▸ hf))
    · rw [hf] at hs hn
      rcases hi with hi | ⟨hi, -⟩
      · exact absurd (.issued u hi) hs.fresh
      · exact absurd hi (hn u)

theorem swept_run {rest : List ℕ} (h : Swept l w u rest) (hv : KeepsView l w g) :
    Swept (l.run g w.next) (w.run g) u rest := by
  refine ⟨locksUser_run h.1, fun i r' hr' hu ↦ ?_⟩
  rcases hv i r' hr' with ⟨r, hr, hs⟩ | ⟨hs, -⟩
  · rcases h.2 i r hr (hs.user ▸ hu) with (hd | hd) | hm | hsole
    · exact .inl (.inl (hs.revoked hd))
    · exact .inl (.inr (by rw [hs.expires]; exact hd))
    · exact .inr (.inl (hs.family ▸ hm))
    · exact .inr (.inr (hs.family ▸ sole_run hsole))
  · exact .inr (.inr hs)

theorem born_run {t : RefreshToken} (h : Born l w old j t)
    (hp : pending g.writes .refreshTokens j = none) (hu : ∀ u, pending g.writes .users u = none) :
    Born (l.run g w.next) (w.run g) old j t where
  pending := (pending_run hp).trans h.pending
  id := sole_run h.id
  jti := sole_run h.jti
  end_ := h.end_
  locked := locksUser_run h.locked
  minted := note_run h.minted
  issued := note_run h.issued
  users := ⟨holds_run h.users.1, h.users.2⟩
  kept := by
    rw [pending_run (hu _)]
    exact h.kept
  clock := h.clock
  expires := h.expires
  opens ho := sole_run (h.opens ho)

theorem rotated_run {t r r' : RefreshToken} (h : Rotated l w i j t r r')
    (hp : pending g.writes .refreshTokens i = none) :
    Rotated (l.run g w.next) (w.run g) i j t r r' :=
  { h with
    pending := (pending_run hp).trans h.pending
    note := note_run h.note }

theorem userWrite_run {v : Option User} (h : UserWrite l w u v) :
    UserWrite (l.run g w.next) (w.run g) u v := by
  cases h with
  | delete x hx => exact .delete x hx
  | keep x x' hx hk => exact .keep x x' hx hk
  | replace x x' y hx hn => exact .replace x x' y hx (note_run hn)
  | create x' h h' => exact .create x' (sole_run h) (sole_run h')

/-- What a note that a statement leaves has to stand for. -/
def NoteOk (l : Private) (w : Shared) : Note → Prop
  | .minted _ _ => True
  | .issued _ _ => True
  | .loginVerified _ _ => True
  | .granted f u h => Note.issued f u ∈ l.notes ∧ Sole l w f ∧
    (Note.loginVerified u h ∈ l.notes ∧ pending l.redo .users u = none ∨
      ∃ x : User, pending l.redo .users u = some (some x) ∧ x.passwordHash = h)
  | .revoked f _ => Ended l w f
  | _ => False

/-- A statement that writes no user and rotates nothing. The token part of the new state is
given, the rest carries over. -/
theorem tx_run {new' : Option ℕ} (h : Tx s new old reset l w)
    (hv : KeepsView l w g) (hu : ∀ u, pending g.writes .users u = none)
    (hn : ∀ n ∈ g.notes, NoteOk (l.run g w.next) (w.run g) n)
    (hd : ∀ i, pending l.redo .refreshTokens i = some none →
      pending (l.run g w.next).redo .refreshTokens i = some none)
    (hk : ∀ i, pending g.writes .refreshTokens i ≠ some none)
    (hw : ∀ i v, pending (l.run g w.next).redo .refreshTokens i = some v → some i ≠ new' →
      some i ≠ old → ∃ r : RefreshToken, w.db.rows .refreshTokens i = some r ∧
        ∀ r' : RefreshToken, v = some r' → SameToken r r' ∧ r'.rotatedToJti = r.rotatedToJti ∧
          r'.lastUsedAt = r.lastUsedAt)
    (hb : ∀ j, new' = some j → ∃ t, Born (l.run g w.next) (w.run g) old j t)
    (ho : ∀ i, old = some i → ∃ j t r r', new' = some j ∧ Born (l.run g w.next) (w.run g) old j t ∧
      Rotated (l.run g w.next) (w.run g) i j t r r')
    (hwin : ∀ j (t : RefreshToken), new' = some j →
      pending (l.run g w.next).redo .refreshTokens j = some (some t) →
        t.lastUsedAt = none ∧ t.expiresAt ≤ t.issuedAt + s.authRefreshIdleTtlSeconds)
    (hmi : ∀ x u, Note.minted x u ∈ (l.run g w.next).notes → ∃ j, ∃ t : RefreshToken, new' = some j ∧
      pending (l.run g w.next).redo .refreshTokens j = some (some t) ∧ t.jti = x ∧ t.userId = u)
    (his : ∀ f u, Note.issued f u ∈ (l.run g w.next).notes → ∃ j, ∃ t : RefreshToken, new' = some j ∧
      pending (l.run g w.next).redo .refreshTokens j = some (some t) ∧ t.familyId = f ∧ t.userId = u) :
    Tx s new' old reset (l.run g w.next) (w.run g) where
  covered := covered_run h.covered g w.next
  weaken := hw
  born := hb
  rotates := ho
  window := hwin
  users u v hp := userWrite_run (h.users u v ((pending_run (hu u)).symm.trans hp))
  gone u hp i r hr hru := hd i (h.gone u ((pending_run (hu u)).symm.trans hp) i r hr hru)
  removed j t ht hp := by
    have hold : pending l.redo .refreshTokens j = some none := by
      cases hg : pending g.writes .refreshTokens j with
      | none => exact (pending_run hg).symm.trans hp
      | some v =>
        have he : pending (l.redo ++ g.writes) .refreshTokens j = some none := hp
        rw [pending_append, hg] at he
        exact absurd (hg.trans he) (hk j)
    obtain ⟨hm, hl⟩ := h.removed j t ht hold
    exact ⟨hm, fun i r hr he ↦ hd i (hl i r hr he)⟩
  minted := hmi
  issued := his
  granted f u y hm := by
    rcases List.mem_append.1 hm with hm | hm
    · obtain ⟨h₁, h₂, h₃⟩ := h.granted f u y hm
      rw [← pending_run (w := w) (hu u)] at h₃
      refine ⟨note_run h₁, sole_run h₂, ?_⟩
      rcases h₃ with ⟨h₃, h₄⟩ | h₃
      · exact .inl ⟨note_run h₃, h₄⟩
      · exact .inr h₃
    · exact hn _ hm
  revoked f x hm := by
    rcases List.mem_append.1 hm with hm | hm
    · exact ended_run (h.revoked f x hm) hv
    · exact hn _ hm
  rotated i f hm := by
    rcases List.mem_append.1 hm with hm | hm
    · exact h.rotated i f hm
    · exact (hn _ hm).elim
  ordered := by
    refine List.pairwise_append.2 ⟨h.ordered, ?_, ?_⟩
    · refine List.pairwise_of_forall_mem_list fun n _ n' hm f x i _ he ↦ ?_
      exact hn _ (he ▸ hm)
    · intro n _ n' hm f x i _ he
      exact hn _ (he ▸ hm)
  replaced u y o n hm := by
    rcases List.mem_append.1 hm with hm | hm
    · obtain ⟨h₁, h₂, ⟨x, x', hx, hxo, hp, hxn⟩, h₄⟩ := h.replaced u y o n hm
      refine ⟨h₁, sole_run h₂, ⟨x, x', hx, hxo, (pending_run (hu u)).trans hp, hxn⟩, fun hy hsp ↦ ?_⟩
      rcases h₄ hy hsp with h₄ | h₄
      · exact .inl h₄
      · exact .inr (swept_run h₄ hv)
    · exact (hn _ hm).elim

theorem keepsView_of_silent (hg : g.writes = []) : KeepsView l w g := by
  intro i r' hr'
  rw [view_run, hg] at hr'
  exact .inl ⟨r', hr', .refl r'⟩

/-- A statement that writes nothing. -/
theorem tx_silent (h : Tx s new old reset l w) (hg : g.writes = [])
    (hn : ∀ n ∈ g.notes, NoteOk (l.run g w.next) (w.run g) n)
    (hmi : ∀ x u, Note.minted x u ∉ g.notes) (his : ∀ f u, Note.issued f u ∉ g.notes) :
    Tx s new old reset (l.run g w.next) (w.run g) := by
  have hp : ∀ t i, pending g.writes t i = none := fun t i ↦ by rw [hg]; rfl
  refine tx_run h (keepsView_of_silent hg) (hp _) hn (fun i hi ↦ (pending_run (hp _ i)).trans hi)
    (fun i hi ↦ by rw [hp] at hi; cases hi) (fun i v hv ↦ ?_) (fun j hj ↦ ?_) (fun i hi ↦ ?_)
    (fun j t hj ht ↦ ?_) (fun x u hm ↦ ?_)
    (fun f u hm ↦ ?_)
  · rw [pending_run (hp _ i)] at hv
    exact h.weaken i v hv
  · obtain ⟨t, ht⟩ := h.born j hj
    exact ⟨t, born_run ht (hp _ j) (hp _)⟩
  · obtain ⟨j, t, r, r', hj, hb, hrot⟩ := h.rotates i hi
    exact ⟨j, t, r, r', hj, born_run hb (hp _ j) (hp _), rotated_run hrot (hp _ i)⟩
  · rw [pending_run (hp _ j)] at ht
    exact h.window j t hj ht
  · obtain ⟨j, t, hj, ht, hx⟩ := h.minted x u ((List.mem_append.1 hm).resolve_right (hmi x u))
    exact ⟨j, t, hj, (pending_run (hp _ j)).trans ht, hx⟩
  · obtain ⟨j, t, hj, ht, hf⟩ := h.issued f u ((List.mem_append.1 hm).resolve_right (his f u))
    exact ⟨j, t, hj, (pending_run (hp _ j)).trans ht, hf⟩

end AdminPlatform.Auth.TokenStatements
