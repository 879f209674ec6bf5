import AdminPlatform.Auth.TokenStatements

namespace AdminPlatform.Auth.TokenPrograms

open Model.Schema Model.Service Foundation.Relational Foundation.Transaction
open Foundation.Interleaving Foundation.RelyGuarantee RefreshService RefreshTokenRepository
open TokenInvariant TokenTransaction TokenStatements

variable {α : Type} {s : Settings} {strict : Prop} {G : Guard Table Row LockName Storage Note}
  {new old reset : Option ℕ} {l l' l'' : Private} {w w' w'' : Shared} {i j u f : ℕ}
  {Q : α → Private → Shared → Prop} {E : Failure → Private → Shared → Prop}

/-- A session moves on within its transaction without writing to a user. -/
structure Onward (s : Settings) (strict : Prop) (l : Private) (w : Shared) (l' : Private)
    (w' : Shared) : Prop where
  after : After (tokenProtocol s strict) l w l' w'
  users : ∀ u, pending l'.redo .users u = pending l.redo .users u

theorem Onward.trans (h : Onward s strict l w l' w') (h' : Onward s strict l' w' l'' w'') :
    Onward s strict l w l'' w'' :=
  ⟨h.after.trans h'.after, fun u ↦ (h'.users u).trans (h.users u)⟩

theorem Onward.locks (h : Onward s strict l w l' w') (hl : LocksUser l u) : LocksUser l' u :=
  h.after.held hl

theorem Onward.sole (h : Onward s strict l w l' w') (hs : Sole l w u) : Sole l' w' u := by
  have hs' := sole_rely hs h.after.rely
  exact ⟨h.after.held hs'.own, hs'.fresh, hs'.below⟩

theorem Onward.log (h : Onward s strict l w l' w') {n : Note} (hn : n ∈ w.log) : n ∈ w'.log :=
  h.after.rely.later.mem_log hn

theorem onward_read (hr : Rely (tokenProtocol s strict) l w w') : Onward s strict l w l w' :=
  ⟨⟨hr, fun _ h ↦ h, fun _ h ↦ h⟩, fun _ ↦ rfl⟩

theorem onward_run (hr : Rely (tokenProtocol s strict) l w w') {g : Statement} (hg : g.ext = id)
    (hu : ∀ u, pending g.writes .users u = none) :
    Onward s strict l w (l.run g w'.next) (w'.run g) :=
  ⟨after_run hr hg, fun u ↦ pending_run (hu u)⟩

theorem wp_look {q : Snapshot → α} (h : Tx s new old reset l w)
    (hQ : ∀ w', Onward s strict l w l w' → Tx s new old reset l w' → Q (q (w'.view l)) l w') :
    wp (tokenProtocol s strict) G (.read q) Q E l w :=
  wp_read fun w' hr ↦ hQ w' (onward_read hr) (h.rely hr)

theorem wp_uuid4 {Q : ℕ → Private → Shared → Prop} (h : Tx s new old reset l w)
    (hQ : ∀ n l' w', Onward s strict l w l' w' → l'.redo = l.redo → l'.notes = l.notes →
      Tx s new old reset l' w' → Sole l' w' n → Q n l' w') :
    wp (tokenProtocol s strict) G uuid4 Q E l w := by
  refine wp_query fun w' hr _ ↦ ⟨rfl, ?_⟩
  refine hQ _ _ _ (onward_run hr rfl fun _ ↦ rfl) (List.append_nil _) (List.append_nil _) ?_ ?_
  · exact tx_silent (h.rely hr) rfl (by simp) (by simp) (by simp)
  · exact sole_drawn hr.inv.1 Nat.one_pos

theorem wp_mark {n : Note} {Q : Unit → Private → Shared → Prop}
    (h : Tx s new old reset l w)
    (hn : ∀ l' w', Onward s strict l w l' w' → n ∈ l'.notes → NoteOk l' w' n)
    (hm : ∀ x u, n ≠ .minted x u) (hi : ∀ f u, n ≠ .issued f u)
    (hQ : ∀ l' w', Onward s strict l w l' w' → l'.redo = l.redo → Tx s new old reset l' w' →
      n ∈ l'.notes → Q () l' w') : wp (tokenProtocol s strict) G (mark n) Q E l w := by
  refine wp_query fun w' hr _ ↦ ⟨rfl, ?_⟩
  let g : Statement := { notes := [n] }
  have ho : Onward s strict l w (l.run g w'.next) (w'.run g) := onward_run hr rfl fun _ ↦ rfl
  have hmem : n ∈ (l.run g w'.next).notes := List.mem_append_right _ List.mem_cons_self
  refine hQ _ _ ho (List.append_nil _) (tx_silent (h.rely hr) rfl (fun n' hn' ↦ ?_)
    (fun x u hx ↦ ?_) fun f u hx ↦ ?_) hmem
  · rw [List.mem_singleton.1 hn']
    exact hn _ _ ho hmem
  · exact hm x u (List.mem_singleton.1 hx).symm
  · exact hi f u (List.mem_singleton.1 hx).symm

theorem wp_acquireUserLock {Q : Unit → Private → Shared → Prop}
    (h : Tx s new old reset l w)
    (hQ : ∀ l' w', Onward s strict l w l' w' → l'.redo = l.redo → l'.notes = l.notes →
      Tx s new old reset l' w' → LocksUser l' u → Q () l' w') :
    wp (tokenProtocol s strict) G (acquireUserLock u) Q E l w := by
  unfold acquireUserLock acquireTransactionLock
  refine wp_query fun w' hr _ ↦ ⟨rfl, ?_⟩
  refine hQ _ _ (onward_run hr rfl fun _ ↦ rfl) (List.append_nil _) (List.append_nil _) ?_ ?_
  · exact tx_silent (h.rely hr) rfl (by simp) (by simp) (by simp)
  · simp [LocksUser, Local.run, Effect.claims]

theorem findByJti_some {db : Db} {x : ℕ} {r : RefreshToken} (h : findByJti db x = some (i, r)) :
    db.rows .refreshTokens i = some r ∧ r.jti = x := by
  have hm := mem_select.1 (List.mem_of_mem_head? h)
  exact ⟨hm.1, by simpa using hm.2⟩

theorem wp_getByJtiForUpdate {x : ℕ} {Q : Option (ℕ × RefreshToken) → Private → Shared → Prop}
    (h : Tx s new old reset l w) (hm : Note.minted x u ∈ w.log ++ l.notes)
    (hnone : ∀ l' w', Onward s strict l w l' w' → l'.redo = l.redo → l'.notes = l.notes →
      Tx s new old reset l' w' → Q none l' w')
    (hsome : ∀ i r l' w', Onward s strict l w l' w' → l'.redo = l.redo →
      l'.notes = l.notes → Tx s new old reset l' w' →
      (w'.view l').db.rows .refreshTokens i = some r → r.jti = x → r.userId = u →
      (.row .refreshTokens i, .exclusive) ∈ l'.held → Q (some (i, r)) l' w') :
    wp (tokenProtocol s strict) G (getByJtiForUpdate x) Q E l w := by
  refine wp_query fun w' hr ↦ ?_
  have htx := h.rely hr
  cases hf : findByJti (w'.view l).db x with
  | none =>
    refine fun _ ↦ ⟨rfl, ?_⟩
    exact hnone _ _ (onward_run hr rfl fun _ ↦ rfl) (List.append_nil _) (List.append_nil _)
      (tx_silent htx rfl (by simp) (by simp) (by simp))
  | some y =>
    obtain ⟨i, r⟩ := y
    refine fun _ ↦ ⟨rfl, ?_⟩
    obtain ⟨hrow, hj⟩ := findByJti_some hf
    have hu : r.userId = u := by
      have hm' := TokenCommit.commit_minted hr.inv.1 htx i r hrow
      rw [hj] at hm'
      refine TokenCommit.commit_minted_fun hr.inv.1 htx x _ _ hm' ?_
      rcases List.mem_append.1 hm with hm | hm
      · exact List.mem_append_left _ (hr.later.mem_log hm)
      · exact List.mem_append_right _ hm
    let g : Statement := { locks := [(.row .refreshTokens i, .exclusive)] }
    have hheld : (.row .refreshTokens i, .exclusive) ∈ (l.run g w'.next).held := by
      simp [g, Local.run, Effect.claims]
    refine hsome i r (l.run g w'.next) (w'.run g) (onward_run hr rfl fun _ ↦ rfl)
      (List.append_nil _) (List.append_nil _) (tx_silent htx rfl (by simp [g]) (by simp [g])
      (by simp [g])) ?_ hj hu hheld
    rw [view_run]
    exact hrow

section Revoke

variable {x : RevokedReason} {n : ℕ} {r r' : RefreshToken}

/-- The statement of `revokeFamily` on a view of the database. -/
abbrev revocation (db : Db) (f : ℕ) (x : RevokedReason) (n : ℕ) : Statement where
  writes := db.update .refreshTokens (fun _ r ↦ inFamily f r) (revokedRow x n)
  notes := [.revoked f x]

theorem same_revokedRow (r : RefreshToken) : SameToken r (revokedRow x n r) :=
  ⟨rfl, rfl, rfl, rfl, rfl, rfl, fun _ ↦ rfl⟩

theorem pending_revocation {db : Db} {v : Option RefreshToken}
    (h : pending (revocation db f x n).writes .refreshTokens i = some v) :
    ∃ r : RefreshToken, db.rows .refreshTokens i = some r ∧ v = some (revokedRow x n r) := by
  obtain ⟨r, hr, -, hv⟩ := pending_update h
  exact ⟨r, hr, hv⟩

theorem revocation_untouched {db : Db}
    (h : pending (revocation db f x n).writes .refreshTokens i = none)
    (hr : db.rows .refreshTokens i = some r) (hf : r.familyId = f) : r.revokedAt.isSome := by
  by_contra hn
  have hp : inFamily f r = true := by
    simp only [inFamily, hf, decide_true, Bool.true_and]
    simpa using hn
  rw [pending_update_self hr hp] at h
  cases h

theorem view_revocation
    (hr : ((w.run (revocation (w.view l).db f x n)).view
      (l.run (revocation (w.view l).db f x n) w.next)).db.rows .refreshTokens i = some r') :
    ∃ r : RefreshToken, (w.view l).db.rows .refreshTokens i = some r ∧ SameToken r r' := by
  rw [view_run] at hr
  cases hp : pending (revocation (w.view l).db f x n).writes .refreshTokens i with
  | none =>
    rw [hp] at hr
    exact ⟨r', hr, .refl r'⟩
  | some v =>
    obtain ⟨r, hv, rfl⟩ := pending_revocation hp
    rw [hp] at hr
    cases hr
    exact ⟨r, hv, same_revokedRow r⟩

theorem keepsView_revocation : KeepsView l w (revocation (w.view l).db f x n) :=
  fun _ _ hr ↦ .inl (view_revocation hr)

theorem revoked_in_view
    (hr : ((w.run (revocation (w.view l).db f x n)).view
      (l.run (revocation (w.view l).db f x n) w.next)).db.rows .refreshTokens i = some r)
    (hf : r.familyId = f) : r.revokedAt.isSome := by
  rw [view_run] at hr
  cases hp : pending (revocation (w.view l).db f x n).writes .refreshTokens i with
  | none =>
    rw [hp] at hr
    exact revocation_untouched hp hr hf
  | some v =>
    obtain ⟨r₀, -, rfl⟩ := pending_revocation hp
    rw [hp] at hr
    cases hr
    rfl

theorem view_of_pending {v : Option RefreshToken}
    (h : pending l.redo .refreshTokens i = some v) : (w.view l).db.rows .refreshTokens i = v :=
  apply_rows_of_pending h

/-- The new token of the session, at most revoked. -/
theorem born_revocation {t : RefreshToken} (h : Born l w old j t) : ∃ t', SameToken t t' ∧
    Born (l.run (revocation (w.view l).db f x n) w.next)
      (w.run (revocation (w.view l).db f x n)) old j t' := by
  cases hp : pending (revocation (w.view l).db f x n).writes .refreshTokens j with
  | none => exact ⟨t, .refl t, born_run h hp (update_other (by decide) _ _)⟩
  | some v =>
    obtain ⟨r, hr, rfl⟩ := pending_revocation hp
    rw [view_of_pending h.pending] at hr
    cases hr
    refine ⟨revokedRow x n t, same_revokedRow t, ?_, sole_run h.id, sole_run h.jti, h.end_,
      locksUser_run h.locked, note_run h.minted, note_run h.issued, ⟨holds_run h.users.1, h.users.2⟩,
      ?_, h.clock, h.expires, fun ho ↦ sole_run (h.opens ho)⟩
    · show pending (l.redo ++ _) .refreshTokens j = _
      rw [pending_append, hp]
      rfl
    · have hu : pending (revocation (w.view l).db f x n).writes .users t.userId = none :=
        update_other (by decide) _ _ _
      exact (pending_run hu).symm ▸ h.kept

theorem tx_revocation (h : Tx s new old reset l w) (hl : LocksUser l u)
    (hi : Note.issued f u ∈ w.log ∨ Note.issued f u ∈ l.notes ∧ Sole l w f) :
    Tx s new old reset (l.run (revocation (w.view l).db f x n) w.next)
      (w.run (revocation (w.view l).db f x n)) := by
  have hnew : ∀ j (t : RefreshToken), new = some j →
      pending l.redo .refreshTokens j = some (some t) → ∃ t', new = some j ∧ SameToken t t' ∧
        pending (l.run (revocation (w.view l).db f x n) w.next).redo .refreshTokens j =
          some (some t') := by
    intro j t hj ht
    obtain ⟨t₀, hb⟩ := h.born j hj
    have he : some (some t) = some (some t₀) := ht.symm.trans hb.pending
    cases he
    obtain ⟨t', hs, hb'⟩ := born_revocation (f := f) (x := x) (n := n) hb
    exact ⟨t', hj, hs, hb'.pending⟩
  refine tx_run h keepsView_revocation (update_other (by decide) _ _) (fun m hm ↦ ?_)
    (fun i hd ↦ ?_) (fun i hd ↦ ?_) (fun i v hv hn ho ↦ ?_) (fun j hj ↦ ?_) (fun i hi ↦ ?_)
    (fun j t' hj ht' ↦ ?_) (fun y u hm ↦ ?_) (fun g u hm ↦ ?_)
  · rw [List.mem_singleton.1 hm]
    refine ⟨u, locksUser_run hl, ?_, fun i r hr hf ↦ revoked_in_view hr hf⟩
    rcases hi with hi | ⟨hi, hs⟩
    · exact .inl hi
    · exact .inr ⟨note_run hi, sole_run hs⟩
  · cases hp : pending (revocation (w.view l).db f x n).writes .refreshTokens i with
    | none => exact (pending_run hp).trans hd
    | some v =>
      obtain ⟨r, hr, -⟩ := pending_revocation hp
      rw [view_of_pending hd] at hr
      cases hr
  · obtain ⟨r, -, he⟩ := pending_revocation hd
    cases he
  · cases hp : pending (revocation (w.view l).db f x n).writes .refreshTokens i with
    | none =>
      rw [pending_run hp] at hv
      exact h.weaken i v hv hn ho
    | some v' =>
      have hv' : v' = v := by
        have he : pending (l.redo ++ _) .refreshTokens i = some v := hv
        rw [pending_append, hp] at he
        exact Option.some.inj he
      subst hv'
      obtain ⟨r, hr, rfl⟩ := pending_revocation hp
      cases hpl : pending l.redo .refreshTokens i with
      | none =>
        rw [view_db, apply_rows_of_none hpl] at hr
        refine ⟨r, hr, fun r' he ↦ ?_⟩
        cases he
        exact ⟨same_revokedRow r, rfl, rfl⟩
      | some v₀ =>
        rw [view_of_pending hpl] at hr
        subst hr
        obtain ⟨r₀, hr₀, hw⟩ := h.weaken i _ hpl hn ho
        refine ⟨r₀, hr₀, fun r' he ↦ ?_⟩
        cases he
        obtain ⟨hs, hrot, huse⟩ := hw r rfl
        exact ⟨hs.trans (same_revokedRow r), hrot, huse⟩
  · obtain ⟨t, ht⟩ := h.born j hj
    obtain ⟨t', -, ht'⟩ := born_revocation ht
    exact ⟨t', ht'⟩
  · obtain ⟨j, t, r, r', hj, hb, hrot⟩ := h.rotates i hi
    obtain ⟨t', hs, hb'⟩ := born_revocation (f := f) (x := x) (n := n) hb
    have hp : pending (revocation (w.view l).db f x n).writes .refreshTokens i = none := by
      cases hp : pending (revocation (w.view l).db f x n).writes .refreshTokens i with
      | none => rfl
      | some v =>
        obtain ⟨q, hq, hin, -⟩ := pending_update hp
        rw [view_of_pending hrot.pending] at hq
        cases hq
        have hrev := hrot.revoked
        simp only [inFamily, Bool.and_eq_true, Option.isNone_iff_eq_none] at hin
        rw [hin.2] at hrev
        cases hrev
    have hrot' := rotated_run hrot hp
    refine ⟨j, t', r, r', hj, hb', { hrot' with
      link := ?_, family := ?_, user := ?_, absolute := ?_, followed := ?_ }⟩
    · rw [hs.jti]
      exact hrot'.link
    · rw [hs.family]
      exact hrot'.family
    · rw [hs.user]
      exact hrot'.user
    · rw [hs.absolute]
      exact hrot'.absolute
    · refine ⟨hrot'.followed.rotated, ?_, ?_, ?_⟩
      · rw [hs.issued]
        exact hrot'.followed.issued
      · rw [hs.issued]
        exact hrot'.followed.used
      · rw [hs.expires]
        exact hrot'.followed.expires
  · obtain ⟨t, ht⟩ := h.born j hj
    obtain ⟨huse, hwin⟩ := h.window j t hj ht.pending
    cases hp : pending (revocation (w.view l).db f x n).writes .refreshTokens j with
    | none =>
      rw [pending_run hp] at ht'
      exact h.window j t' hj ht'
    | some v =>
      obtain ⟨r, hr, rfl⟩ := pending_revocation hp
      rw [view_of_pending ht.pending] at hr
      cases hr
      have he : pending (l.redo ++ _) .refreshTokens j = some (some t') := ht'
      rw [pending_append, hp] at he
      cases he
      exact ⟨huse, hwin⟩
  · obtain ⟨j, t, hj, ht, hy, hu⟩ := h.minted y u ((List.mem_append.1 hm).resolve_right (by simp))
    obtain ⟨t', hj', hs, ht'⟩ := hnew j t hj ht
    exact ⟨j, t', hj', ht', hs.jti.trans hy, hs.user.trans hu⟩
  · obtain ⟨j, t, hj, ht, hy, hu⟩ := h.issued g u ((List.mem_append.1 hm).resolve_right (by simp))
    obtain ⟨t', hj', hs, ht'⟩ := hnew j t hj ht
    exact ⟨j, t', hj', ht', hs.family.trans hy, hs.user.trans hu⟩

theorem swept_revocation {v : ℕ} {rest : List ℕ} (h : Swept l w v (f :: rest)) :
    Swept (l.run (revocation (w.view l).db f x n) w.next)
      (w.run (revocation (w.view l).db f x n)) v rest := by
  obtain ⟨hl, hv⟩ := swept_run h (keepsView_revocation (f := f) (x := x) (n := n))
  refine ⟨hl, fun i r hr hu ↦ ?_⟩
  rcases hv i r hr hu with hd | hm | hs
  · exact .inl hd
  · rcases List.mem_cons.1 hm with hf | hm
    · exact .inl (.inl (revoked_in_view hr hf))
    · exact .inr (.inl hm)
  · exact .inr (.inr hs)

theorem wp_revokeFamily {Q : ℕ → Private → Shared → Prop} (h : Tx s new old reset l w)
    (hl : LocksUser l u) (hi : Note.issued f u ∈ w.log ∨ Note.issued f u ∈ l.notes ∧ Sole l w f)
    (hQ : ∀ m w', Rely (tokenProtocol s strict) l w w' →
      ∀ g, g = revocation (w'.view l).db f x n → Onward s strict l w (l.run g w'.next) (w'.run g) →
      Tx s new old reset l w' → Tx s new old reset (l.run g w'.next) (w'.run g) →
      Q m (l.run g w'.next) (w'.run g)) :
    wp (tokenProtocol s strict) G (revokeFamily f x n) Q E l w := by
  refine wp_query fun w' hr _ ↦ ⟨rfl, ?_⟩
  have hi' : Note.issued f u ∈ w'.log ∨ Note.issued f u ∈ l.notes ∧ Sole l w' f := by
    rcases hi with hi | ⟨hi, hs⟩
    · exact .inl (hr.later.mem_log hi)
    · exact .inr ⟨hi, sole_rely hs hr⟩
  exact hQ _ w' hr _ rfl (onward_run hr rfl (update_other (by decide) _ _)) (h.rely hr)
    (tx_revocation (h.rely hr) hl hi')

end Revoke

section Create

variable {t : RefreshToken}

/-- The statement of `create`. -/
abbrev creation (t : RefreshToken) (next : ℕ) : Statement where
  locks := [(.row .users t.userId, .shared)]
  fresh := 1
  writes := [⟨.refreshTokens, next, some t⟩]
  notes := [.minted t.jti t.userId, .issued t.familyId t.userId]

theorem no_issued (h : Tx s none old reset l w) (f u : ℕ) : Note.issued f u ∉ l.notes := by
  intro hm
  obtain ⟨j, t, hj, -⟩ := h.issued f u hm
  cases hj

theorem no_minted (h : Tx s none old reset l w) (x u : ℕ) : Note.minted x u ∉ l.notes := by
  intro hm
  obtain ⟨j, t, hj, -⟩ := h.minted x u hm
  cases hj

theorem pending_creation : pending (l.run (creation t w.next) w.next).redo .refreshTokens w.next =
    some (some t) := by
  show pending (l.redo ++ [_]) .refreshTokens w.next = _
  rw [pending_append, pending_singleton, Write.at_self]
  rfl

theorem creation_holds : Holds (l.run (creation t w.next) w.next) (.row .users t.userId) :=
  ⟨.shared, by simp [Local.run, Effect.claims]⟩

theorem tx_creation (h : Tx s none none reset l w) (hi : TokenInv w) (hj : Sole l w t.jti)
    (hf : Sole l w t.familyId) (hl : LocksUser l t.userId) (he : t.rotatedToJti = none)
    (hc : t.issuedAt ≤ w.now) (ha : t.expiresAt ≤ t.familyAbsoluteAt)
    (hwin : t.lastUsedAt = none ∧ t.expiresAt ≤ t.issuedAt + s.authRefreshIdleTtlSeconds)
    (hx : ∃ x : User, w.db.rows .users t.userId = some x)
    (hk : pending l.redo .users t.userId ≠ some none) :
    KeepsView l w (creation t w.next) ∧ Tx s (some w.next) none reset
      (l.run (creation t w.next) w.next) (w.run (creation t w.next)) := by
  have hp : ∀ i, i ≠ w.next → pending (creation t w.next).writes .refreshTokens i = none := by
    intro i hne
    rw [pending_singleton]
    exact Write.at_id_ne (Ne.symm hne) _
  have hv : KeepsView l w (creation t w.next) := by
    intro i r' hr'
    rw [view_run] at hr'
    by_cases hne : i = w.next
    · subst hne
      rw [pending_singleton, Write.at_self] at hr'
      cases hr'
      exact .inr ⟨sole_run hf, fun u ↦ no_issued h _ u⟩
    · rw [hp i hne] at hr'
      exact .inl ⟨r', hr', .refl r'⟩
  have hno : ∀ u, pending (creation t w.next).writes .users u = none := by
    intro u
    rw [pending_singleton]
    exact Write.at_other (by decide) _ _ _
  refine ⟨hv, tx_run h hv hno (fun m hm ↦ ?_) (fun i hd ↦ ?_) (fun i hd ↦ ?_) (fun i v hv hn _ ↦ ?_)
    (fun j hj' ↦ ?_) (fun i hi ↦ by cases hi) (fun j t' hj' ht' ↦ ?_) (fun y u hm ↦ ?_)
    (fun g u hm ↦ ?_)⟩
  · rcases List.mem_cons.1 hm with rfl | hm
    · trivial
    · rw [List.mem_singleton.1 hm]
      trivial
  · have hne : i ≠ w.next := by
      rintro rfl
      obtain ⟨r, hr, -⟩ := h.weaken _ _ hd (by simp) (by simp)
      exact Nat.lt_irrefl _ (hi.below _ (.tokenId r hr))
    exact (pending_run (hp i hne)).trans hd
  · cases Write.at_eq_some ((pending_singleton _ _ _).symm.trans hd)
  · have hne : i ≠ w.next := fun he ↦ hn (congrArg some he)
    rw [pending_run (hp i hne)] at hv
    exact h.weaken i v hv (by simp) (by simp)
  · cases hj'
    exact ⟨t, pending_creation, sole_drawn hi Nat.one_pos, sole_run hj, he, locksUser_run hl,
      List.mem_append_right _ (by simp), List.mem_append_right _ (by simp),
      ⟨creation_holds, hx⟩, by rw [pending_run (hno _)]; exact hk, hc, ha, fun _ ↦ sole_run hf⟩
  · cases hj'
    rw [pending_creation] at ht'
    cases ht'
    exact hwin
  · rcases List.mem_append.1 hm with hm | hm
    · exact absurd hm (no_minted h y u)
    · simp only [List.mem_cons, Note.minted.injEq, reduceCtorEq, List.not_mem_nil, or_false] at hm
      exact ⟨w.next, t, rfl, pending_creation, hm.1.symm, hm.2.symm⟩
  · rcases List.mem_append.1 hm with hm | hm
    · exact absurd hm (no_issued h g u)
    · simp only [List.mem_cons, Note.issued.injEq, reduceCtorEq, List.not_mem_nil, or_false,
        false_or] at hm
      exact ⟨w.next, t, rfl, pending_creation, hm.1.symm, hm.2.symm⟩

/-- Inserting the first token of a family. -/
theorem wp_create {Q : Unit → Private → Shared → Prop} (h : Tx s none none reset l w)
    (hj : Sole l w t.jti) (hf : Sole l w t.familyId) (hl : LocksUser l t.userId)
    (he : t.rotatedToJti = none) (hc : t.issuedAt ≤ w.now) (ha : t.expiresAt ≤ t.familyAbsoluteAt)
    (hwin : t.lastUsedAt = none ∧ t.expiresAt ≤ t.issuedAt + s.authRefreshIdleTtlSeconds)
    (hx : pending l.redo .users t.userId = none ∨
      ∃ y o n, Note.passwordReplaced t.userId y o n ∈ l.notes)
    (hE : ∀ l w, E .integrity l w)
    (hQ : ∀ w', Rely (tokenProtocol s strict) l w w' → ∀ g, g = creation t w'.next →
      Onward s strict l w (l.run g w'.next) (w'.run g) →
      Tx s (some w'.next) none reset (l.run g w'.next) (w'.run g) → KeepsView l w' g →
      Q () (l.run g w'.next) (w'.run g)) :
    wp (tokenProtocol s strict) G (create t) Q E l w := by
  refine wp_query fun w' hr ↦ ?_
  cases hu : (w'.view l).db.rows .users t.userId with
  | none => exact hE l w'
  | some x =>
    refine fun _ ↦ ⟨rfl, ?_⟩
    have htx := h.rely hr
    have hx' : ∃ x : User, w'.db.rows .users t.userId = some x := by
      rcases hx with hx | ⟨y, o, n, hn⟩
      · rw [view_db, apply_rows_of_none hx] at hu
        exact ⟨x, hu⟩
      · obtain ⟨-, -, ⟨z, -, hz, -⟩, -⟩ := htx.replaced _ y o n hn
        exact ⟨z, hz⟩
    have hk : pending l.redo .users t.userId ≠ some none := by
      intro hp
      rw [view_db, apply_rows_of_pending hp] at hu
      cases hu
    obtain ⟨hv, ht⟩ := tx_creation htx hr.inv.1 (sole_rely hj hr) (sole_rely hf hr) hl he
      (Nat.le_trans hc hr.later.now) ha hwin hx' hk
    refine hQ w' hr _ rfl (onward_run hr rfl fun u ↦ ?_) ht hv
    rw [pending_singleton]
    exact Write.at_other (by decide) _ _ _

end Create

end AdminPlatform.Auth.TokenPrograms
