import AdminPlatform.Auth.TokenCommit

namespace AdminPlatform.Auth.PasswordCommit

open Model.Schema Model.Service Foundation.Relational Foundation.Transaction
open Foundation.Interleaving Foundation.RelyGuarantee RefreshService TokenInvariant TokenTransaction
open TokenCommit

variable {s : Settings} {strict : Prop} {new old reset : Option ℕ} {l : Private} {w : Shared}
  {i j u f : ℕ} {r' : RefreshToken} {y : PasswordHash}

theorem user_origin (h : Tx s new old reset l w) {x' : User}
    (hx : (w.commit l).db.rows .users u = some x') :
    (∃ x : User, w.db.rows .users u = some x ∧ x.passwordHash = x'.passwordHash) ∨
    (∃ (x : User) (z : PasswordWriter), w.db.rows .users u = some x ∧
      Note.passwordReplaced u z x.passwordHash x'.passwordHash ∈ l.notes) ∨
    Sole l w u ∧ Sole l w x'.passwordHash.salt := by
  rw [commit_db, apply_rows] at hx
  cases hp : pending l.redo .users u with
  | none => rw [hp] at hx; exact .inl ⟨x', hx, rfl⟩
  | some v =>
    rw [hp] at hx
    have hv : v = some x' := hx
    subst hv
    cases h.users u _ hp with
    | keep x _ hx hk => exact .inl ⟨x, hx, hk⟩
    | replace x _ z hx hn => exact .inr (.inl ⟨x, z, hx, hn⟩)
    | create _ hs hs' => exact .inr (.inr ⟨hs, hs'⟩)

theorem replaced_guard (h : Tx s new old none l w) (hg : PasswordGuard w l.notes)
    (hsp : s.authRefreshTokenPepper ≠ "") {z : PasswordWriter} {o n : PasswordHash}
    (hn : Note.passwordReplaced u z o n ∈ l.notes) :
    (∀ i (r : RefreshToken), w.db.rows .refreshTokens i = some r → r.userId = u → Dead w.now r) ∨
      Swept l w u [] := by
  cases z with
  | userUpdate => exact .inl (hg.update u o n hn)
  | changePassword => exact .inr (((h.replaced u _ o n hn).2.2.2 rfl hsp).resolve_left (by simp))

/-- A family that is being rotated was opened on the current password. -/
theorem rotating_hash (hp : PasswordInv s w) (h : Tx s new old reset l w)
    (hg : PasswordGuard w l.notes) (hn : Note.rotated i f ∈ l.notes)
    (hgr : Note.granted f u y ∈ w.log) {x : User} (hx : w.db.rows .users u = some x) :
    x.passwordHash = y := by
  obtain ⟨hsp, ho, r, hr, hf⟩ := h.rotated i f hn
  obtain ⟨j, t, r₀, r', -, -, hrot⟩ := h.rotates i ho
  have he : some r = some r₀ := hr.symm.trans hrot.row
  cases he
  by_contra hne
  rcases hp.stale hsp f u y x hgr hx hne i r hr hf with hd | hd
  · rw [hrot.unrevoked] at hd
    cases hd
  · have hlt := hg.rotate i f hn r hr
    omega

theorem commit_stale (hi : TokenInv w) (hp : PasswordInv s w) (h : Tx s new old none l w)
    (hg : PasswordGuard w l.notes) (hsp : s.authRefreshTokenPepper ≠ "")
    (x : User) (hgr : Note.granted f u y ∈ (w.commit l).log)
    (hx : (w.commit l).db.rows .users u = some x) (hne : x.passwordHash ≠ y) (r : RefreshToken)
    (hr : (w.commit l).db.rows .refreshTokens i = some r) (hf : r.familyId = f) :
    Dead w.now r := by
  rcases List.mem_append.1 hgr with hgr | hgr
  · rcases (origin h hr).same with ⟨r₀, hr₀, hs⟩ | ⟨hn, hb⟩
    · have hu : r₀.userId = u := by
        have hiss := hi.issued i r₀ hr₀
        rw [← hs.family, hf] at hiss
        exact hi.issued_fun f _ _ hiss (hi.granted_issued f u y hgr)
      rcases user_origin h hx with ⟨x₀, hx₀, he⟩ | ⟨x₀, z, hx₀, hn⟩ | ⟨hsole, -⟩
      · exact hs.dead (hp.stale hsp f u y x₀ hgr hx₀ (he ▸ hne) i r₀ hr₀ (hs.family ▸ hf))
      · rcases replaced_guard h hg hsp hn with hrev | hsw
        · exact hs.dead (hrev i r₀ hr₀ hu)
        · rcases hsw.2 i r hr (hs.user.trans hu) with hd | hnil | hsole
          · exact hd
          · cases hnil
          · exact absurd (.granted u y (hf ▸ hgr)) hsole.fresh
      · exact absurd (.issuedTo f (hi.granted_issued f u y hgr)) hsole.fresh
    · rcases born_family h hn hb with hsole | ⟨k, q, q', ho, hrot⟩
      · exact absurd (.granted u y (hf ▸ hgr)) hsole.fresh
      · exfalso
        have hnote := hrot.note
        rw [← hrot.family, hf] at hnote
        rcases user_origin h hx with ⟨x₀, hx₀, he⟩ | ⟨x₀, z, hx₀, hn'⟩ | ⟨hsole, -⟩
        · exact hne (he ▸ rotating_hash hp h hg hnote hgr hx₀)
        · have ho' := (h.replaced u z _ _ hn').1
          rw [ho] at ho'
          cases ho'
        · exact hsole.fresh (.issuedTo f (hi.granted_issued f u y hgr))
  · obtain ⟨-, hsole, hlog⟩ := h.granted f u y hgr
    exfalso
    rcases hlog with ⟨hv, hpu⟩ | ⟨x₀, hpu, he⟩
    · rw [commit_db, apply_rows, hpu] at hx
      exact hne (hg.login f u y hgr hv x hx)
    · rw [commit_db, apply_rows, hpu] at hx
      exact hne (Option.some.inj hx ▸ he)

theorem commit_retired (hp : PasswordInv s w) (h : Tx s new old none l w) (u : ℕ)
    (z : PasswordWriter) (o n : PasswordHash) (x : User)
    (hn : Note.passwordReplaced u z o n ∈ (w.commit l).log)
    (hx : (w.commit l).db.rows .users u = some x) : x.passwordHash ≠ o := by
  rcases List.mem_append.1 hn with hn | hn
  · rcases user_origin h hx with ⟨x₀, hx₀, he⟩ | ⟨x₀, z', hx₀, hn'⟩ | ⟨-, hs⟩
    · rw [← he]
      exact hp.retired u z o n x₀ hn hx₀
    · rintro rfl
      exact (h.replaced u z' _ _ hn').2.1.fresh (.replaced u z _ n hn rfl)
    · rintro rfl
      exact hs.fresh (.replaced u z _ n hn rfl)
  · obtain ⟨-, hs, ⟨x₀, x', hx₀, hxo, hpu, hxn⟩, -⟩ := h.replaced u z o n hn
    rw [commit_db, apply_rows, hpu] at hx
    cases hx
    rintro he
    refine hs.fresh (.salt u x₀ hx₀ ?_)
    rw [hxo, ← hxn, he]

theorem commit_fresher (hi : TokenInv w) (hp : PasswordInv s w) (h : Tx s new old none l w)
    (hg : PasswordGuard w l.notes) :
    (w.commit l).log.Pairwise (Fresher (w.commit l).log) := by
  have hold : ∀ {i f u : ℕ} {y : PasswordHash}, Note.rotated i f ∈ l.notes →
      Note.granted f u y ∈ (w.commit l).log → Note.granted f u y ∈ w.log := by
    intro i f u y hn hgr
    rcases List.mem_append.1 hgr with hgr | hgr
    · exact hgr
    · obtain ⟨-, -, r, hr, hf⟩ := h.rotated i f hn
      exact absurd (hf ▸ mentions_family hi hr) (h.granted f u y hgr).2.1.fresh
  rw [commit_log, List.pairwise_append]
  refine ⟨?_, ?_, ?_⟩
  · refine hp.fresher.imp_of_mem fun {n n'} _ hn' hf u z o n₀ i f y he he' hgr ↦ ?_
    rcases List.mem_append.1 hgr with hgr | hgr
    · exact hf u z o n₀ i f y he he' hgr
    · subst he'
      exact absurd (.rotated i hn') (h.granted f u y hgr).2.1.fresh
  · refine List.pairwise_of_forall_mem_list fun n hn n' hn' u z o n₀ i f y he he' hgr ↦ ?_
    subst he he'
    have ho := (h.replaced u z o n₀ hn).1
    rw [(h.rotated i f hn').2.1] at ho
    cases ho
  · intro n hn n' hn' u z o n₀ i f y he he' hgr
    subst he he'
    have hgr := hold hn' hgr
    obtain ⟨-, ho, r, hr, hf⟩ := h.rotated i f hn'
    obtain ⟨j, t, r₀, r', -, hb, hrot⟩ := h.rotates i ho
    have hr₀ : some r = some r₀ := hr.symm.trans hrot.row
    cases hr₀
    obtain ⟨-, x, hx⟩ := hb.users
    have hu : r.userId = u := by
      have hiss := hi.issued i r hr
      rw [hf] at hiss
      exact hi.issued_fun f _ _ hiss (hi.granted_issued f u y hgr)
    rw [hrot.user, hu] at hx
    rw [← rotating_hash hp h hg hn' hgr hx]
    exact hp.retired u z o n₀ x hn hx

theorem passwordInv_commit (hi : TokenInv w) (hp : PasswordInv s w)
    (h : Tx s new old none l w) (hg : PasswordGuard w l.notes) :
    PasswordInv s (w.commit l) where
  stale hsp _ _ _ x hgr hx hne _ r hr hf := commit_stale hi hp h hg hsp x hgr hx hne r hr hf
  retired u z o n x hn hx := commit_retired hp h u z o n x hn hx
  fresher := commit_fresher hi hp h hg

end AdminPlatform.Auth.PasswordCommit
