import AdminPlatform.Auth.TokenTransaction

namespace AdminPlatform.Auth.TokenCommit

open Model.Schema Model.Service Foundation.Relational Foundation.Transaction
open Foundation.Interleaving Foundation.RelyGuarantee RefreshService TokenInvariant TokenTransaction

variable {s : Settings} {strict : Prop} {new old reset : Option ℕ} {l : Private} {w : Shared}
  {i j u f : ℕ} {r' : RefreshToken}

/-- Where a token of the state after a commit comes from. -/
inductive Origin (l : Private) (w : Shared) (new old : Option ℕ) (i : ℕ) (r' : RefreshToken) : Prop
  | stay (r : RefreshToken) : w.db.rows .refreshTokens i = some r → SameToken r r' →
      r'.rotatedToJti = r.rotatedToJti → r'.lastUsedAt = r.lastUsedAt → Origin l w new old i r'
  | rotated (j : ℕ) (t r : RefreshToken) : old = some i → new = some j → Born l w old j t →
      Rotated l w i j t r r' → Origin l w new old i r'
  | born : new = some i → Born l w old i r' → Origin l w new old i r'

theorem origin (h : Tx s new old reset l w)
    (hr : (w.commit l).db.rows .refreshTokens i = some r') : Origin l w new old i r' := by
  rw [commit_db, apply_rows] at hr
  cases hp : pending l.redo .refreshTokens i with
  | none =>
    rw [hp] at hr
    exact .stay r' hr (.refl r') rfl rfl
  | some v =>
    rw [hp] at hr
    have hv : v = some r' := hr
    subst hv
    by_cases hn : new = some i
    · obtain ⟨t, ht⟩ := h.born i hn
      have he : some (some t) = some (some r') := ht.pending.symm.trans hp
      cases he
      exact .born hn ht
    · by_cases ho : old = some i
      · obtain ⟨j, t, r, r₀, hj, ht, hrot⟩ := h.rotates i ho
        have he : some (some r₀) = some (some r') := hrot.pending.symm.trans hp
        cases he
        exact .rotated j t r ho hj ht hrot
      · obtain ⟨r, hrow, hw⟩ := h.weaken i _ hp (Ne.symm hn) (Ne.symm ho)
        obtain ⟨hs, hl, hu⟩ := hw r' rfl
        exact .stay r hrow hs hl hu

theorem Origin.same (h : Origin l w new old i r') :
    (∃ r : RefreshToken, w.db.rows .refreshTokens i = some r ∧ SameToken r r') ∨
      new = some i ∧ Born l w old i r' := by
  cases h with
  | stay r hr hs he => exact .inl ⟨r, hr, hs⟩
  | rotated j t r ho hn hb hrot => exact .inl ⟨r, hrot.row, hrot.same⟩
  | born hn hb => exact .inr ⟨hn, hb⟩

/-- The family of a new token is its own or that of the token it succeeds. -/
theorem born_family (h : Tx s new old reset l w) {t : RefreshToken} (hn : new = some j)
    (hb : Born l w old j t) : Sole l w t.familyId ∨ ∃ i r r', old = some i ∧ Rotated l w i j t r r' := by
  cases ho : old with
  | none => exact .inl (hb.opens ho)
  | some i =>
    obtain ⟨j', t', r, r', hj, hb', hrot⟩ := h.rotates i ho
    have hjj : some j = some j' := hn.symm.trans hj
    cases hjj
    have he : some (some t) = some (some t') := hb.pending.symm.trans hb'.pending
    cases he
    exact .inr ⟨i, r, r', rfl, hrot⟩

theorem mentions_family (hi : TokenInv w) {r : RefreshToken}
    (hr : w.db.rows .refreshTokens i = some r) : Mentions w r.familyId :=
  .issued _ (hi.issued i r hr)

/-- A family the log has revoked gets no new token. -/
theorem born_not_revoked (hi : TokenInv w) (h : Tx s new old reset l w) {t : RefreshToken}
    {x : RevokedReason} (hn : new = some j) (hb : Born l w old j t) :
    Note.revoked t.familyId x ∉ w.log := by
  intro hx
  rcases born_family h hn hb with hs | ⟨i, r, r', -, hrot⟩
  · exact hs.fresh (.revoked x hx)
  · have hrev := hi.revoked _ x hx i r hrot.row hrot.family.symm
    rw [hrot.unrevoked] at hrev
    cases hrev

/-- The family and the user of an issued token. -/
theorem issued_origin (hi : TokenInv w) (h : Tx s new old reset l w)
    (hn : Note.issued f u ∈ l.notes) : ∃ x : User, w.db.rows .users u = some x ∧
      (Sole l w f ∨ Note.issued f u ∈ w.log) := by
  obtain ⟨j, t, hj, hp, rfl, rfl⟩ := h.issued f u hn
  obtain ⟨t', hb⟩ := h.born j hj
  have he : some (some t) = some (some t') := hp.symm.trans hb.pending
  cases he
  obtain ⟨-, x, hx⟩ := hb.users
  refine ⟨x, hx, ?_⟩
  rcases born_family h hj hb with hs | ⟨i, r, r', -, hrot⟩
  · exact .inl hs
  · rw [hrot.family, hrot.user]
    exact .inr (hi.issued i r hrot.row)

theorem minted_origin (h : Tx s new old reset l w) {x : ℕ}
    (hn : Note.minted x u ∈ l.notes) : ∃ j, ∃ t : RefreshToken, new = some j ∧ Born l w old j t ∧
      t.jti = x ∧ t.userId = u := by
  obtain ⟨j, t, hj, hp, hx, hu⟩ := h.minted x u hn
  obtain ⟨t', hb⟩ := h.born j hj
  have he : some (some t) = some (some t') := hp.symm.trans hb.pending
  cases he
  exact ⟨j, t, hj, hb, hx, hu⟩

theorem mentions_commit (hi : TokenInv w) (h : Tx s new old reset l w)
    (hm : Mentions (w.commit l) u) : Mentions w u ∨ Sole l w u := by
  have hlog : ∀ {n : Note}, n ∈ (w.commit l).log → n ∈ w.log ∨ n ∈ l.notes := List.mem_append.1
  have huser : ∀ {v : ℕ} {x : User}, (w.commit l).db.rows .users v = some x →
      w.db.rows .users v = some x ∨ UserWrite l w v (some x) := by
    intro v x hx
    rw [commit_db, apply_rows] at hx
    cases hp : pending l.redo .users v with
    | none => rw [hp] at hx; exact .inl hx
    | some y =>
      rw [hp] at hx
      have hy : y = some x := hx
      exact .inr (hy ▸ h.users v y hp)
  cases hm with
  | tokenId r hr =>
    rcases (origin h hr).same with ⟨r₀, hr₀, -⟩ | ⟨-, hb⟩
    · exact .inl (.tokenId r₀ hr₀)
    · exact .inr hb.id
  | jti i r hr he =>
    rcases (origin h hr).same with ⟨r₀, hr₀, hs⟩ | ⟨-, hb⟩
    · exact .inl (.jti i r₀ hr₀ (hs.jti ▸ he))
    · exact .inr (he ▸ hb.jti)
  | link i r hr he =>
    cases origin h hr with
    | stay r₀ hr₀ hs hl => exact .inl (.link i r₀ hr₀ (hl ▸ he))
    | rotated j t r₀ ho hn hb hrot =>
      rw [hrot.link] at he
      exact .inr (Option.some.inj he ▸ hb.jti)
    | born hn hb => rw [hb.end_] at he; cases he
  | userId x hx =>
    rcases huser hx with hx | hx
    · exact .inl (.userId x hx)
    · cases hx with
      | keep x₀ _ hx₀ _ => exact .inl (.userId x₀ hx₀)
      | replace x₀ _ _ hx₀ _ => exact .inl (.userId x₀ hx₀)
      | create _ hs _ => exact .inr hs
  | salt v x hx he =>
    rcases huser hx with hx | hx
    · exact .inl (.salt v x hx he)
    · cases hx with
      | keep x₀ _ hx₀ hk => exact .inl (.salt v x₀ hx₀ (hk ▸ he))
      | replace x₀ _ y hx₀ hn => exact .inr (he ▸ (h.replaced v y _ _ hn).2.1)
      | create _ _ hs => exact .inr (he ▸ hs)
  | minted x hn =>
    rcases hlog hn with hn | hn
    · exact .inl (.minted x hn)
    · obtain ⟨j, t, -, hb, rfl, -⟩ := minted_origin h hn
      exact .inr hb.jti
  | issued x hn =>
    rcases hlog hn with hn | hn
    · exact .inl (.issued x hn)
    · obtain ⟨-, -, hs⟩ := issued_origin hi h hn
      rcases hs with hs | hs
      · exact .inr hs
      · exact .inl (.issued x hs)
  | issuedTo x hn =>
    rcases hlog hn with hn | hn
    · exact .inl (.issuedTo x hn)
    · obtain ⟨y, hy, -⟩ := issued_origin hi h hn
      exact .inl (.userId y hy)
  | granted x y hn =>
    rcases hlog hn with hn | hn
    · exact .inl (.granted x y hn)
    · exact .inr (h.granted u x y hn).2.1
  | revoked x hn =>
    rcases hlog hn with hn | hn
    · exact .inl (.revoked x hn)
    · obtain ⟨v, -, hv, -⟩ := h.revoked u x hn
      rcases hv with hv | ⟨-, hs⟩
      · exact .inl (.issued v hv)
      · exact .inr hs
  | rotated i hn =>
    rcases hlog hn with hn | hn
    · exact .inl (.rotated i hn)
    · obtain ⟨-, -, r, hr, hf⟩ := h.rotated i u hn
      exact .inl (hf ▸ mentions_family hi hr)
  | replaced x y o n hn he =>
    rcases hlog hn with hn | hn
    · exact .inl (.replaced x y o n hn he)
    · obtain ⟨-, -, ⟨z, z', hz, hzo, -⟩, -⟩ := h.replaced x y o n hn
      exact .inl (.salt x z hz (hzo ▸ he))

theorem commit_minted (hi : TokenInv w) (h : Tx s new old reset l w) (i : ℕ)
    (r : RefreshToken) (hr : (w.commit l).db.rows .refreshTokens i = some r) :
    Note.minted r.jti r.userId ∈ (w.commit l).log := by
  rcases (origin h hr).same with ⟨r₀, hr₀, hs⟩ | ⟨-, hb⟩
  · rw [hs.jti, hs.user]
    exact List.mem_append_left _ (hi.minted i r₀ hr₀)
  · exact List.mem_append_right _ hb.minted

theorem commit_minted_fun (hi : TokenInv w) (h : Tx s new old reset l w) (x u u' : ℕ)
    (hn : Note.minted x u ∈ (w.commit l).log) (hn' : Note.minted x u' ∈ (w.commit l).log) :
    u = u' := by
  have hmix : ∀ {y z : ℕ}, Note.minted x y ∈ w.log → Note.minted x z ∉ l.notes := by
    intro y z hy hz
    obtain ⟨j, t, -, hb, rfl, -⟩ := minted_origin h hz
    exact hb.jti.fresh (.minted y hy)
  rcases List.mem_append.1 hn with hn | hn <;> rcases List.mem_append.1 hn' with hn' | hn'
  · exact hi.minted_fun x u u' hn hn'
  · exact absurd hn' (hmix hn)
  · exact absurd hn (hmix hn')
  · obtain ⟨j, t, hj, hb, -, rfl⟩ := minted_origin h hn
    obtain ⟨j', t', hj', hb', -, rfl⟩ := minted_origin h hn'
    have hjj : some j = some j' := hj.symm.trans hj'
    cases hjj
    have he : some (some t) = some (some t') := hb.pending.symm.trans hb'.pending
    cases he
    rfl

theorem commit_issued (hi : TokenInv w) (h : Tx s new old reset l w) (i : ℕ)
    (r : RefreshToken) (hr : (w.commit l).db.rows .refreshTokens i = some r) :
    Note.issued r.familyId r.userId ∈ (w.commit l).log := by
  rcases (origin h hr).same with ⟨r₀, hr₀, hs⟩ | ⟨-, hb⟩
  · rw [hs.family, hs.user]
    exact List.mem_append_left _ (hi.issued i r₀ hr₀)
  · exact List.mem_append_right _ hb.issued

/-- A user goes only together with all its tokens. -/
theorem commit_owner (hi : TokenInv w) (h : Tx s new old reset l w) (i : ℕ)
    (r : RefreshToken) (hr : (w.commit l).db.rows .refreshTokens i = some r) :
    ∃ x : User, (w.commit l).db.rows .users r.userId = some x := by
  have hkept : pending l.redo .users r.userId ≠ some none := by
    intro hp
    rcases (origin h hr).same with ⟨r₀, hr₀, hs⟩ | ⟨-, hb⟩
    · rw [commit_db, apply_rows, h.gone _ hp i r₀ hr₀ hs.user.symm] at hr
      cases hr
    · exact hb.kept hp
  have hx : ∃ x : User, w.db.rows .users r.userId = some x := by
    rcases (origin h hr).same with ⟨r₀, hr₀, hs⟩ | ⟨-, hb⟩
    · rw [hs.user]
      exact hi.owner i r₀ hr₀
    · exact hb.users.2
  rw [commit_db, apply_rows]
  cases hp : pending l.redo .users r.userId with
  | none => exact hx
  | some v =>
    cases v with
    | none => exact absurd hp hkept
    | some x => exact ⟨x, rfl⟩

theorem commit_issued_fun (hi : TokenInv w) (h : Tx s new old reset l w) (f u u' : ℕ)
    (hn : Note.issued f u ∈ (w.commit l).log) (hn' : Note.issued f u' ∈ (w.commit l).log) :
    u = u' := by
  have hmix : ∀ {x y : ℕ}, Note.issued f x ∈ w.log → Note.issued f y ∈ l.notes → x = y := by
    intro x y hx hy
    obtain ⟨-, -, hs⟩ := issued_origin hi h hy
    rcases hs with hs | hs
    · exact absurd (.issued x hx) hs.fresh
    · exact hi.issued_fun f x y hx hs
  rcases List.mem_append.1 hn with hn | hn <;> rcases List.mem_append.1 hn' with hn' | hn'
  · exact hi.issued_fun f u u' hn hn'
  · exact hmix hn hn'
  · exact (hmix hn' hn).symm
  · obtain ⟨j, t, hj, hp, -, rfl⟩ := h.issued f u hn
    obtain ⟨j', t', hj', hp', -, rfl⟩ := h.issued f u' hn'
    have hjj : some j = some j' := hj.symm.trans hj'
    cases hjj
    have he : some (some t) = some (some t') := hp.symm.trans hp'
    cases he
    rfl

theorem commit_jti_inj (hi : TokenInv w) (h : Tx s new old reset l w) (i j : ℕ)
    (r t : RefreshToken) (hr : (w.commit l).db.rows .refreshTokens i = some r)
    (ht : (w.commit l).db.rows .refreshTokens j = some t) (he : r.jti = t.jti) : i = j := by
  rcases (origin h hr).same with ⟨r₀, hr₀, hs⟩ | ⟨hni, hbi⟩ <;>
    rcases (origin h ht).same with ⟨t₀, ht₀, hs'⟩ | ⟨hnj, hbj⟩
  · exact hi.jti_inj i j r₀ t₀ hr₀ ht₀ (by rw [← hs.jti, ← hs'.jti, he])
  · exact absurd (.jti i r₀ hr₀ (by rw [← hs.jti, he])) hbj.jti.fresh
  · exact absurd (.jti j t₀ ht₀ (by rw [← hs'.jti, he])) hbi.jti.fresh
  · exact Option.some.inj (hni.symm.trans hnj)

theorem commit_rotated_revoked (hi : TokenInv w) (h : Tx s new old reset l w) (i : ℕ)
    (r : RefreshToken) (hr : (w.commit l).db.rows .refreshTokens i = some r)
    (hs : r.rotatedToJti.isSome) : r.revokedAt.isSome := by
  cases origin h hr with
  | stay r₀ hr₀ hsame hl =>
    rw [hl] at hs
    exact hsame.revoked (hi.rotated_revoked i r₀ hr₀ hs)
  | rotated j t r₀ ho hn hb hrot => exact hrot.revoked
  | born hn hb => rw [hb.end_] at hs; cases hs

/-- The new token is the only end of its family. -/
theorem stay_not_born (hi : TokenInv w) (h : Tx s new old reset l w) {r r₀ t : RefreshToken}
    (hr : (w.commit l).db.rows .refreshTokens i = some r)
    (hr₀ : w.db.rows .refreshTokens i = some r₀) (hs : SameToken r₀ r)
    (hl : r.rotatedToJti = r₀.rotatedToJti) (hn : new = some j) (hb : Born l w old j t)
    (hf : r.familyId = t.familyId) (he : r.rotatedToJti = none) : False := by
  rcases born_family h hn hb with hsole | ⟨k, q, q', ho, hrot⟩
  · exact hsole.fresh (hf ▸ hs.family ▸ mentions_family hi hr₀)
  · have hki : k = i := by
      refine hi.one_end k i q r₀ hrot.row hr₀ ?_ hrot.end_ (hl ▸ he)
      rw [← hrot.family, ← hf, hs.family]
    subst hki
    have hq : q' = r := by
      rw [commit_db, apply_rows, hrot.pending] at hr
      exact Option.some.inj hr
    rw [← hq, hrot.link] at he
    cases he

theorem commit_one_end (hi : TokenInv w) (h : Tx s new old reset l w) (i j : ℕ)
    (r t : RefreshToken) (hr : (w.commit l).db.rows .refreshTokens i = some r)
    (ht : (w.commit l).db.rows .refreshTokens j = some t) (hf : r.familyId = t.familyId)
    (he : r.rotatedToJti = none) (he' : t.rotatedToJti = none) : i = j := by
  cases origin h hr with
  | rotated k q r₀ ho hn hb hrot => rw [hrot.link] at he; cases he
  | stay r₀ hr₀ hs hl =>
    cases origin h ht with
    | rotated k q t₀ ho hn hb hrot => rw [hrot.link] at he'; cases he'
    | stay t₀ ht₀ hs' hl' =>
      refine hi.one_end i j r₀ t₀ hr₀ ht₀ ?_ (hl ▸ he) (hl' ▸ he')
      rw [← hs.family, ← hs'.family, hf]
    | born hn hb => exact (stay_not_born hi h hr hr₀ hs hl hn hb hf he).elim
  | born hn hb =>
    cases origin h ht with
    | rotated k q t₀ ho hn hb hrot => rw [hrot.link] at he'; cases he'
    | stay t₀ ht₀ hs' hl' => exact (stay_not_born hi h ht ht₀ hs' hl' hn hb hf.symm he').elim
    | born hn' hb' => exact Option.some.inj (hn.symm.trans hn')

theorem commit_link_inj (hi : TokenInv w) (h : Tx s new old reset l w) (i j : ℕ)
    (r t : RefreshToken) (x : ℕ) (hr : (w.commit l).db.rows .refreshTokens i = some r)
    (ht : (w.commit l).db.rows .refreshTokens j = some t) (he : r.rotatedToJti = some x)
    (he' : t.rotatedToJti = some x) : i = j := by
  cases origin h hr with
  | born hn hb => rw [hb.end_] at he; cases he
  | stay r₀ hr₀ hs hl =>
    cases origin h ht with
    | born hn hb => rw [hb.end_] at he'; cases he'
    | stay t₀ ht₀ hs' hl' => exact hi.link_inj i j r₀ t₀ x hr₀ ht₀ (hl ▸ he) (hl' ▸ he')
    | rotated k q t₀ ho hn hb hrot =>
      rw [hrot.link] at he'
      exact absurd (.link i r₀ hr₀ (hl ▸ he'.symm ▸ he)) hb.jti.fresh
  | rotated k q r₀ ho hn hb hrot =>
    cases origin h ht with
    | born hn hb => rw [hb.end_] at he'; cases he'
    | stay t₀ ht₀ hs' hl' =>
      rw [hrot.link] at he
      exact absurd (.link j t₀ ht₀ (hl' ▸ he.symm ▸ he')) hb.jti.fresh
    | rotated k' q' t₀ ho' hn' hb' hrot' => exact Option.some.inj (ho.symm.trans ho')

theorem commit_link (hi : TokenInv w) (h : Tx s new old reset l w) (i j : ℕ)
    (r t : RefreshToken) (hr : (w.commit l).db.rows .refreshTokens i = some r)
    (ht : (w.commit l).db.rows .refreshTokens j = some t) (he : r.rotatedToJti = some t.jti) :
    r.familyId = t.familyId ∧ r.userId = t.userId ∧ i < j := by
  cases origin h hr with
  | born hn hb => rw [hb.end_] at he; cases he
  | stay r₀ hr₀ hs hl =>
    rcases (origin h ht).same with ⟨t₀, ht₀, hs'⟩ | ⟨-, hb⟩
    · obtain ⟨hf, hu, hlt⟩ := hi.link i j r₀ t₀ hr₀ ht₀ (by rw [← hl, he, hs'.jti])
      exact ⟨by rw [hs.family, hs'.family, hf], by rw [hs.user, hs'.user, hu], hlt⟩
    · exact absurd (.link i r₀ hr₀ (hl ▸ he)) hb.jti.fresh
  | rotated k q r₀ ho hn hb hrot =>
    rw [hrot.link] at he
    have hq : q.jti = t.jti := Option.some.inj he
    rcases (origin h ht).same with ⟨t₀, ht₀, hs'⟩ | ⟨hn', hb'⟩
    · exact absurd (.jti j t₀ ht₀ (by rw [← hs'.jti, hq])) hb.jti.fresh
    · have hkj : some k = some j := hn.symm.trans hn'
      cases hkj
      have hqt : some (some q) = some (some t) := hb.pending.symm.trans hb'.pending
      cases hqt
      exact ⟨by rw [hrot.same.family, hrot.family], by rw [hrot.same.user, hrot.user], hrot.lt⟩

/-- The token a stored one was rotated to is stored. -/
theorem commit_target (hi : TokenInv w) (h : Tx s new old reset l w) (i : ℕ) (r : RefreshToken) (x : ℕ)
    (hr : (w.commit l).db.rows .refreshTokens i = some r) (he : r.rotatedToJti = some x) :
    ∃ j, ∃ t : RefreshToken, (w.commit l).db.rows .refreshTokens j = some t ∧ t.jti = x := by
  cases origin h hr with
  | born hn hb => rw [hb.end_] at he; cases he
  | rotated k q r₀ ho hn hb hrot =>
    refine ⟨k, q, ?_, Option.some.inj (hrot.link.symm.trans he)⟩
    rw [commit_db, apply_rows, hb.pending]
    rfl
  | stay r₀ hr₀ hs hl =>
    have hlink : r₀.rotatedToJti = some x := hl.symm.trans he
    obtain ⟨j, t, ht, rfl⟩ := hi.target i r₀ x hr₀ hlink
    have hrow : ∃ t' : RefreshToken, (w.commit l).db.rows .refreshTokens j = some t' := by
      rw [commit_db, apply_rows]
      cases hp : pending l.redo .refreshTokens j with
      | none => exact ⟨t, ht⟩
      | some v =>
        cases v with
        | some t' => exact ⟨t', rfl⟩
        | none =>
          have hgone := (h.removed j t ht hp).linked i r₀ hr₀ hlink
          rw [commit_db, apply_rows, hgone] at hr
          cases hr
    obtain ⟨t', ht'⟩ := hrow
    rcases (origin h ht').same with ⟨t₀, ht₀, hs'⟩ | ⟨-, hb⟩
    · cases ht.symm.trans ht₀
      exact ⟨j, t', ht', hs'.jti⟩
    · exact absurd (.tokenId t ht) hb.id.fresh

theorem commit_revoked (hi : TokenInv w) (h : Tx s new old reset l w) (f : ℕ)
    (x : RevokedReason) (hx : Note.revoked f x ∈ (w.commit l).log) (i : ℕ) (r : RefreshToken)
    (hr : (w.commit l).db.rows .refreshTokens i = some r) (hf : r.familyId = f) :
    r.revokedAt.isSome := by
  rcases List.mem_append.1 hx with hx | hx
  · rcases (origin h hr).same with ⟨r₀, hr₀, hs⟩ | ⟨hn, hb⟩
    · exact hs.revoked (hi.revoked f x hx i r₀ hr₀ (hs.family ▸ hf))
    · exact absurd (hf ▸ hx) (born_not_revoked hi h hn hb)
  · obtain ⟨u, -, -, hv⟩ := h.revoked f x hx
    exact hv i r hr hf

theorem commit_final (hi : TokenInv w) (h : Tx s new old reset l w) :
    (w.commit l).log.Pairwise Final := by
  rw [commit_log, List.pairwise_append]
  refine ⟨hi.final, h.ordered, fun n hn n' hn' f x i he he' ↦ ?_⟩
  subst he he'
  obtain ⟨-, ho, r, hr, hf⟩ := h.rotated i f hn'
  obtain ⟨j, t, r₀, r', -, -, hrot⟩ := h.rotates i ho
  have hrev := hi.revoked f x hn i r hr hf
  have he : some r = some r₀ := hr.symm.trans hrot.row
  cases he
  rw [hrot.unrevoked] at hrev
  cases hrev

/-- A finished transaction keeps the token invariant. -/
theorem tokenInv_commit (hi : TokenInv w) (h : Tx s new old reset l w) :
    TokenInv (w.commit l) where
  below u hm := by
    rcases mentions_commit hi h hm with hm | hs
    · exact hi.below u hm
    · exact hs.below
  jti_inj := commit_jti_inj hi h
  minted := commit_minted hi h
  minted_fun := commit_minted_fun hi h
  issued := commit_issued hi h
  owner := commit_owner hi h
  issued_fun := commit_issued_fun hi h
  granted_issued f u y hn := by
    rcases List.mem_append.1 hn with hn | hn
    · exact List.mem_append_left _ (hi.granted_issued f u y hn)
    · exact List.mem_append_right _ (h.granted f u y hn).1
  rotated_revoked := commit_rotated_revoked hi h
  one_end := commit_one_end hi h
  link_inj := commit_link_inj hi h
  link := commit_link hi h
  target := commit_target hi h
  revoked := commit_revoked hi h
  final := commit_final hi h

end AdminPlatform.Auth.TokenCommit
