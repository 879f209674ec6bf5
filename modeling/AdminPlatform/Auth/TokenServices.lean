import AdminPlatform.Auth.TokenRotation
import AdminPlatform.Auth.SessionCap

namespace AdminPlatform.Auth.TokenServices

open Model.Schema Model.Service Foundation.Relational Foundation.Transaction
open Foundation.Interleaving Foundation.RelyGuarantee RefreshService RefreshTokenRepository
open TokenInvariant TokenTransaction SessionCommit TokenStatements TokenPrograms TokenRotation
open SessionCap

variable {α : Type} {s : Settings} {strict : Prop} {G : Guard Table Row LockName Storage Note}
  {new old reset : Option ℕ} {l l' : Private} {w w' : Shared} {i j u f n : ℕ} {r : RefreshToken}

def Err (s : Settings) : Failure → Private → Shared → Prop
  | .app _, l, w => Ready s l w
  | _, _, _ => True

theorem tx_init (w : Shared) : Tx s none none none {} w where
  covered x hx := by cases hx
  weaken i v hv := by cases hv
  born j hj := by cases hj
  rotates i hi := by cases hi
  window j t hj := by cases hj
  users u v hv := by cases hv
  gone u hp := by cases hp
  removed j t _ hp := by cases hp
  minted x u hm := by cases hm
  issued f u hm := by cases hm
  granted f u y hm := by cases hm
  revoked f x hm := by cases hm
  rotated i f hm := by cases hm
  ordered := .nil
  replaced u y o n hm := by cases hm

theorem swept_onward {rest : List ℕ} (h : Swept l w u rest) (ho : Onward s strict l w l' w')
    (hr : l'.redo = l.redo) : Swept l' w' u rest := by
  obtain ⟨hl, hv⟩ := swept_rely h ho.after.rely
  refine ⟨ho.locks hl, fun i r hrow hu ↦ ?_⟩
  rw [view_db, apply_rows, hr] at hrow
  rcases hv i r hrow hu with hd | hm | hs
  · exact .inl hd
  · exact .inr (.inl hm)
  · exact .inr (.inr ⟨ho.after.held hs.own, hs.fresh, hs.below⟩)

theorem opened_onward {t : RefreshToken} (h : Opened s l w j t) (hc : Covered l)
    (ho : Onward s strict l w l' w') (hr : l'.redo = l.redo) : Opened s l' w' j t := by
  have h' := opened_rely h hc ho.after.rely
  have hv : (w'.view l').db = (w'.view l).db := by rw [view_db, view_db, hr]
  refine { h' with pending := ?_, within := ?_, eldest := ?_ }
  · rw [hr]
    exact h'.pending
  · obtain ⟨fs, hfs, hl, hw⟩ := h'.within
    refine ⟨fs, hfs, ho.locks hl, ?_⟩
    rw [hv]
    exact hw
  · rw [hv]
    exact h'.eldest

theorem wp_generateRefreshToken {Q : RawToken × TokenHash → Private → Shared → Prop}
    (h : Tx s new old reset l w)
    (hQ : ∀ t y l' w', Onward s strict l w l' w' → l'.redo = l.redo → l'.notes = l.notes →
      Tx s new old reset l' w' → Sole l' w' t.jti → Q (t, y) l' w') :
    wp (tokenProtocol s strict) G (generateRefreshToken s) Q (Err s) l w := by
  unfold generateRefreshToken
  refine wp_bind (wp_uuid4 h fun x l₁ w₁ ho₁ hr₁ hn₁ h₁ hs₁ ↦ ?_)
  refine wp_bind (wp_uuid4 h₁ fun y l₂ w₂ ho₂ hr₂ hn₂ h₂ hs₂ ↦ ?_)
  unfold hashRefreshSecret
  split
  · trivial
  · exact hQ _ _ _ _ (ho₁.trans ho₂) (hr₂.trans hr₁) (hn₂.trans hn₁) h₂ (ho₂.sole hs₁)

/-- What is known of the first token of a family. -/
structure First (s : Settings) (l : Private) (w : Shared) (u j : ℕ) (x : IssuedRefresh)
    (t : RefreshToken) : Prop where
  pending : pending l.redo .refreshTokens j = some (some t)
  user : t.userId = u
  family : t.familyId = x.familyId
  absolute : t.familyAbsoluteAt = t.issuedAt + s.authRefreshAbsoluteTtlSeconds
  expires : t.expiresAt = min (t.issuedAt + s.authRefreshIdleTtlSeconds) t.familyAbsoluteAt
  unrevoked : t.revokedAt = none
  noted : Note.issued x.familyId u ∈ l.notes
  sole : Sole l w x.familyId

theorem wp_issueRefreshToken {Q : IssuedRefresh → Private → Shared → Prop}
    (h : Tx s none none reset l w) (hl : LocksUser l u)
    (hx : pending l.redo .users u = none ∨ ∃ y o n, Note.passwordReplaced u y o n ∈ l.notes)
    (hQ : ∀ x j t l' w', Onward s strict l w l' w' → Tx s (some j) none reset l' w' →
      (∀ v rest, Swept l w v rest → Swept l' w' v rest) → First s l' w' u j x t →
      ((∀ i, pending l.redo .refreshTokens i = none) → Newest l' w' j t ∧ Alone l' j) → Q x l' w') :
    wp (tokenProtocol s strict) G (issueRefreshToken s u none none) Q (Err s) l w := by
  unfold issueRefreshToken
  refine wp_bind (wp_look h fun w₁ ho₁ h₁ ↦ ?_)
  refine wp_bind (wp_uuid4 h₁ fun fam l₂ w₂ ho₂ hr₂ hn₂ h₂ hf ↦ ?_)
  refine wp_bind (wp_generateRefreshToken h₂ fun tok y l₃ w₃ ho₃ hr₃ hn₃ h₃ hj ↦ ?_)
  have ho := (ho₁.trans ho₂).trans ho₃
  have hx' : pending l₃.redo .users u = none ∨ ∃ y o n, Note.passwordReplaced u y o n ∈ l₃.notes := by
    rw [hr₃, hr₂, hn₃, hn₂]
    exact hx
  have hclock : w₁.now ≤ w₃.now := (ho₂.trans ho₃).after.rely.later.now
  refine wp_bind (wp_create h₃ hj (ho₃.sole hf) (ho.locks hl) rfl hclock (Nat.min_le_right _ _)
    ⟨rfl, Nat.min_le_left _ _⟩ hx' (fun _ _ ↦ trivial) fun w₄ hr g hg ho₄ h₄ hv ↦ ?_)
  subst hg
  refine hQ _ w₄.next _ _ _ (ho.trans ho₄) h₄ (fun v rest hs ↦ ?_) ⟨pending_creation, rfl, rfl, rfl,
    rfl, rfl, List.mem_append_right _ (by simp), ho₄.sole (ho₃.sole hf)⟩ fun hredo ↦ ?_
  · exact swept_run (swept_rely (swept_onward hs ho (hr₃.trans hr₂)) hr) hv
  · refine newest_creation hr.inv.1 (sole_rely (ho₃.sole hf) hr) (ho.locks hl) rfl
      (by rw [hr₃, hr₂]; exact hredo) fun i r hrow hru ↦ ?_
    -- the clock was read under the user's lock, so the user's other tokens were there already
    have hrely : Rely (tokenProtocol s strict) l w₁ w₄ :=
      (ho₂.trans ho₃).after.rely.trans (hr.weaken (ho₂.trans ho₃).after.held)
    obtain ⟨r₀, hr₀, hs⟩ := userProt_rely hl hrely i r hrow (by rw [hru]; rfl)
    rw [hs.issued]
    exact ho₁.after.rely.inv.2.2.issued i r₀ hr₀

/-- When all other sessions of the user have been ended, the limit is met. -/
theorem opened_of_swept {x : IssuedRefresh} {t : RefreshToken} (hi : TokenInv w)
    (h : Tx s (some j) none reset l w) (hsw : Swept l w u []) (ht : First s l w u j x t) :
    Opened s l w j t := by
  have hown : ∀ i (r : RefreshToken), (w.view l).db.rows .refreshTokens i = some r →
      r.userId = t.userId → Dead w.now r ∨ r.familyId = t.familyId := by
    intro i r hv hu
    rcases hsw.2 i r hv (hu.trans ht.user) with hd | hm | hs
    · exact .inl hd
    · cases hm
    · right
      rcases (TokenCommit.origin h hv).same with ⟨r₀, hr₀, hsame⟩ | ⟨hn, hb⟩
      · exact absurd (.issued r₀.userId (hsame.family ▸ hi.issued i r₀ hr₀)) hs.fresh
      · cases hn
        have he : some (some r) = some (some t) := hb.pending.symm.trans ht.pending
        cases he
        rfl
  refine ⟨ht.pending, ht.absolute, ht.expires, ht.unrevoked,
    ⟨[t.familyId], s.maxSessions_ge, ht.user ▸ hsw.1, fun i r hv hu ↦ ?_⟩, ?_⟩
  · rcases hown i r hv hu with hd | hf
    · exact .inl hd
    · exact .inr (List.mem_singleton.2 hf)
  · intro i r r' _ _ _ _ _ _ k q hq hu hd hne
    rcases hown k q hq hu with hd' | hf
    · exact absurd hd' hd
    · exact absurd hf hne

/-- Revoking one family after the other. `I fs` holds while the families `fs` are left. -/
theorem wp_revokeAll {x : RevokedReason} {fs : List ℕ} {Q : Unit → Private → Shared → Prop}
    {I : List ℕ → Private → Shared → Prop}
    (hrely : ∀ fs l w w', Covered l → Rely (tokenProtocol s strict) l w w' → I fs l w → I fs l w')
    (hstep : ∀ f fs l w, Tx s new old reset l w → I (f :: fs) l w →
      I fs (l.run (revocation (w.view l).db f x n) w.next) (w.run (revocation (w.view l).db f x n)))
    (hinv : (tokenProtocol s strict).inv w) (h : Tx s new old reset l w) (hl : LocksUser l u)
    (hi : ∀ f ∈ fs, Note.issued f u ∈ w.log ∨ Note.issued f u ∈ l.notes ∧ Sole l w f)
    (hI : I fs l w)
    (hQ : ∀ l' w', Onward s strict l w l' w' → Tx s new old reset l' w' → I [] l' w' → Q () l' w') :
    wp (tokenProtocol s strict) G (fs.forM fun f ↦ do
      let _ ← revokeFamily f x n
      pure ()) Q (Err s) l w := by
  induction fs generalizing l w with
  | nil => exact hQ l w (onward_read (Rely.refl hinv)) h hI
  | cons f fs ih =>
    show wp (tokenProtocol s strict) G ((revokeFamily f x n >>= fun _ ↦ pure ()) >>= fun _ ↦ _) _ _ _ _
    refine wp_bind (wp_bind (wp_revokeFamily h hl (hi f List.mem_cons_self)
      fun m w₁ hr g hg ho₁ htx h₁ ↦ ?_))
    subst hg
    refine ih ho₁.after.rely.inv h₁ (ho₁.locks hl) (fun g hg ↦ ?_)
      (hstep f fs l w₁ htx (hrely _ l w w₁ h.covered hr hI)) fun l₂ w₂ ho₂ h₂ hI₂ ↦ ?_
    · rcases hi g (List.mem_cons_of_mem _ hg) with hi | ⟨hi, hs⟩
      · exact .inl (ho₁.log hi)
      · exact .inr ⟨ho₁.after.notes hi, ho₁.sole hs⟩
    · exact hQ l₂ w₂ (ho₁.trans ho₂) h₂ hI₂

/-- The family of a token a session sees is known to the log or opened by the session. -/
theorem issued_in_view (hi : TokenInv w) (h : Tx s new old reset l w)
    (hr : (w.view l).db.rows .refreshTokens i = some r) :
    Note.issued r.familyId r.userId ∈ w.log ∨
      Note.issued r.familyId r.userId ∈ l.notes ∧ Sole l w r.familyId := by
  have hm := TokenCommit.commit_issued hi h i r hr
  rcases List.mem_append.1 hm with hm | hm
  · exact .inl hm
  · obtain ⟨-, -, hs⟩ := TokenCommit.issued_origin hi h hm
    rcases hs with hs | hs
    · exact .inr ⟨hm, hs⟩
    · exact .inl hs

theorem issued_of_listed (hi : TokenInv w) (h : Tx s new old reset l w)
    (hf : f ∈ liveFamilies (w.view l).db u n) :
    Note.issued f u ∈ w.log ∨ Note.issued f u ∈ l.notes ∧ Sole l w f := by
  obtain ⟨i, r, hr, ha, rfl⟩ := mem_liveFamilies.1 hf
  rw [← (isActive_iff.1 ha).1]
  exact issued_in_view hi h hr

theorem wp_enforceConcurrencyLimit {Q : Unit → Private → Shared → Prop} {t : RefreshToken}
    (h : Tx s (some j) none reset l w) (ht : Newest l w j t) (ha : Alone l j)
    (hQ : ∀ kept l' w', kept.length ≤ s.authRefreshMaxSessionsPerUser → Onward s strict l w l' w' →
      Tx s (some j) none reset l' w' → (∃ all, Enforcing l' w' j t all kept []) → Q () l' w') :
    wp (tokenProtocol s strict) G (enforceConcurrencyLimit s t.userId) Q (Err s) l w := by
  unfold enforceConcurrencyLimit
  refine wp_bind (wp_look h fun w₁ ho₁ h₁ ↦ ?_)
  refine wp_bind (wp_look h₁ fun w₂ ho₂ h₂ ↦ ?_)
  have hnew : Newest l w₂ j t := newest_rely ht (ho₁.trans ho₂).after.rely
  have hI := enforcing_listed ho₂.after.rely.inv.1 hnew ha s.maxSessions_ge ho₂.after.rely.later.now
  refine wp_revokeAll (I := fun rest l w ↦ Enforcing l w j t _ _ rest)
    (fun _ _ _ _ hc hr hI ↦ enforcing_rely hI hc hr)
    (fun _ _ _ _ htx hI ↦ enforcing_revocation hI htx) ho₂.after.rely.inv h₂ ht.locked
    (fun f hf ↦ issued_of_listed ho₂.after.rely.inv.1 h₂ (List.mem_of_mem_drop hf)) hI
    fun l₃ w₃ ho₃ h₃ hI₃ ↦ ?_
  exact hQ _ l₃ w₃ (List.length_take_le _ _) ((ho₁.trans ho₂).trans ho₃) h₃ ⟨_, hI₃⟩

theorem wp_issueLoginRefresh {Q : IssuedRefresh → Private → Shared → Prop}
    (h : Tx s none none none l w) (hredo : l.redo = [])
    (hQ : ∀ x j l' w', Onward s strict l w l' w' → Tx s (some j) none none l' w' →
      (∃ t, Opened s l' w' j t) → Note.issued x.familyId u ∈ l'.notes → Sole l' w' x.familyId →
      Q x l' w') :
    wp (tokenProtocol s strict) G (issueLoginRefresh s u) Q (Err s) l w := by
  unfold issueLoginRefresh
  refine wp_bind (wp_acquireUserLock h fun l₁ w₁ ho₁ hr₁ _ h₁ hl ↦ ?_)
  have hredo₁ : ∀ (T : Table) k, pending l₁.redo T k = none := by
    intro T k
    rw [hr₁, hredo]
    rfl
  refine wp_bind (wp_issueRefreshToken h₁ hl (.inl (hredo₁ _ u))
    fun x j t l₂ w₂ ho₂ h₂ _ hfirst hnew ↦ ?_)
  obtain ⟨ht, ha⟩ := hnew (hredo₁ _)
  rw [← hfirst.user]
  refine wp_bind (wp_enforceConcurrencyLimit h₂ ht ha fun kept l₃ w₃ hk ho₃ h₃ hI ↦ ?_)
  obtain ⟨all, hI⟩ := hI
  have hopen := opened_of_enforcing hI hk hfirst.absolute hfirst.expires
  exact hQ x j l₃ w₃ ((ho₁.trans ho₂).trans ho₃) h₃ ⟨t, hopen⟩ (ho₃.after.notes hfirst.noted)
    (ho₃.sole hfirst.sole)

theorem wp_issueSuccessor {Q : IssuedRefresh → Private → Shared → Prop}
    (h : Locked s l w i r)
    (hQ : ∀ x t j l' w', Onward s strict l w l' w' → Succeeding s l' w' i j t r →
      x.jti = t.jti → w.now ≤ t.issuedAt → Q x l' w') :
    wp (tokenProtocol s strict) G
      (issueRefreshToken s r.userId (some r.familyId) (some r.familyAbsoluteAt)) Q
      (Err s) l w := by
  unfold issueRefreshToken
  refine wp_bind (wp_look h.tx fun w₁ ho₁ h₁ ↦ ?_)
  refine wp_bind ?_
  show wp _ _ _ _ _ l w₁
  refine wp_bind (wp_generateRefreshToken h₁ fun t y l₂ w₂ ho₂ hr₂ hn₂ h₂ hj ↦ ?_)
  have hL : Locked s l₂ w₂ i r := h.onward (ho₁.trans ho₂) h₂ hr₂ hn₂
  have hclock : w₁.now ≤ w₂.now := ho₂.after.rely.later.now
  have hrow : w₁.db.rows .refreshTokens i = some r := (ho₁.after.rely.row _ _ _ h.held).trans h.row
  have hlife := ho₁.after.rely.inv.2.2
  have hissued := hlife.issued i r hrow
  have hexpires := hlife.expires i r hrow
  have hwindow := hlife.window i r hrow
  refine wp_bind (wp_create_successor hL hj rfl rfl rfl hclock (Nat.min_le_right _ _) rfl
    ⟨rfl, Nat.min_le_left _ _⟩ ⟨hissued, Nat.le_min.2 ⟨hwindow.trans (Nat.add_le_add_right hissued _), hexpires⟩⟩
    (fun _ _ ↦ trivial) fun j l₃ w₃ ho₃ h₃ ↦ ?_)
  exact hQ _ _ j l₃ w₃ ((ho₁.trans ho₂).trans ho₃) h₃ rfl ho₁.after.rely.later.now

theorem wp_rotateLocked {Q : RotationResult → Private → Shared → Prop} {secret : ℕ}
    (h : Tx s none none none l w) (hinv : (tokenProtocol s strict).inv w)
    (hredo : l.redo = []) (hn : l.notes = []) (hrow : w.db.rows .refreshTokens i = some r)
    (hheld : (.row .refreshTokens i, .exclusive) ∈ l.held) (hl : LocksUser l r.userId)
    (hclock : n ≤ w.now)
    (hQ : ∀ x j l' w', Onward s strict l w l' w' → Tx s (some j) (some i) none l' w' →
      x.userId = r.userId → Q x l' w') :
    wp (tokenProtocol s strict) G (rotateLocked s n secret i r) Q (Err s) l w := by
  unfold rotateLocked verifyRefreshSecret hashRefreshSecret
  by_cases hp : s.authRefreshTokenPepper = ""
  · simp only [if_pos hp]
    trivial
  · simp only [if_neg hp, Prog.pure_eq, Prog.done_bind]
    split
    · exact ready_none h
    · split
      · refine wp_bind (wp_revokeFamily h hl (.inl (hinv.1.issued i r hrow)) ?_)
        intro m w' _ g _ _ _ h'
        exact ready_none h'
      · next hreused =>
        split
        · exact ready_none h
        · next hlive =>
          split
          · exact ready_none h
          · have hrev : r.revokedAt = none := by
              cases hc : r.revokedAt with
              | none => rfl
              | some a => simp [hc] at hlive
            have hend : r.rotatedToJti = none := by
              cases hc : r.rotatedToJti with
              | none => rfl
              | some a => simp [wasReused, hc] at hreused
            have hL : Locked s l w i r := ⟨h, hredo, hn, hrow, hheld, hrev, hend, hl⟩
            refine wp_bind (wp_issueSuccessor hL fun x t j l₁ w₁ ho₁ h₁ hx hissued ↦ ?_)
            rw [hx]
            have hlt : n < r.expiresAt := by
              simp only [Bool.or_eq_true, decide_eq_true_eq, not_or] at hlive
              omega
            refine wp_bind (wp_markRotated h₁ hp (Nat.le_trans hclock ho₁.after.rely.later.now) hlt
              (Nat.le_trans hclock hissued) fun l₂ w₂ ho₂ h₂ ↦ ?_)
            exact hQ _ j l₂ w₂ (ho₁.trans ho₂) h₂ rfl

theorem getUserIdByJti_some {v : Snapshot} {x : ℕ}
    (h : (findByJti v.db x).map (fun y ↦ y.2.userId) = some u) :
    ∃ i, ∃ r : RefreshToken, v.db.rows .refreshTokens i = some r ∧ r.jti = x ∧ r.userId = u := by
  rw [Option.map_eq_some_iff] at h
  obtain ⟨⟨i, r⟩, hf, hu⟩ := h
  obtain ⟨hr, hj⟩ := findByJti_some hf
  exact ⟨i, r, hr, hj, hu⟩

theorem wp_rotateRefreshToken {Q : RotationResult → Private → Shared → Prop} (raw : Option RawToken)
    (h : Tx s none none none l w) (hredo : l.redo = []) (hn : l.notes = [])
    (hQ : ∀ x i j l' w', Onward s strict l w l' w' → Tx s (some j) (some i) none l' w' →
      Q x l' w') :
    wp (tokenProtocol s strict) G (rotateRefreshToken s raw) Q (Err s) l w := by
  cases raw with
  | none => exact ready_none h
  | some raw =>
    obtain ⟨jti, secret⟩ := raw
    refine wp_bind (wp_look h fun w₁ ho₁ h₁ ↦ ?_)
    refine wp_bind (wp_look h₁ fun w₂ ho₂ h₂ ↦ ?_)
    cases hu : (findByJti (w₂.view l).db jti).map fun x ↦ x.2.userId with
    | none => exact ready_none h₂
    | some u =>
      obtain ⟨i₀, r₀, hr₀, hj₀, hu₀⟩ := getUserIdByJti_some hu
      have hm : Note.minted jti u ∈ w₂.log := by
        rw [view_db, apply_rows, hredo] at hr₀
        rw [← hj₀, ← hu₀]
        exact ho₂.after.rely.inv.1.minted i₀ r₀ hr₀
      refine wp_bind (wp_acquireUserLock h₂ fun l₃ w₃ ho₃ hr₃ hn₃ h₃ hl ↦ ?_)
      refine wp_bind (wp_getByJtiForUpdate h₃ (List.mem_append_left _ (ho₃.log hm))
        (fun l₄ w₄ ho₄ hr₄ hn₄ h₄ ↦ ?_)
        fun i r l₄ w₄ ho₄ hr₄ hn₄ h₄ hrow hj hru hheld ↦ ?_)
      · exact ready_none h₄
      · have hnotes₄ : l₄.notes = [] := by rw [hn₄, hn₃, hn]
        have hredo₄ : l₄.redo = [] := by rw [hr₄, hr₃, hredo]
        rw [view_db, apply_rows, hredo₄] at hrow
        have hclock : w₁.now ≤ w₄.now := ((ho₂.trans ho₃).trans ho₄).after.rely.later.now
        refine wp_rotateLocked h₄ ho₄.after.rely.inv hredo₄ hnotes₄ hrow hheld
          (hru ▸ ho₄.locks hl) hclock fun x j l₅ w₅ ho₅ h₅ _ ↦ ?_
        exact hQ x i j l₅ w₅ ((((ho₁.trans ho₂).trans ho₃).trans ho₄).trans ho₅) h₅

theorem wp_revokeRefreshToken {Q : Bool → Private → Shared → Prop} (raw : Option RawToken)
    (h : Tx s new old none l w)
    (hQ : ∀ b l' w', Onward s strict l w l' w' → Tx s new old none l' w' → Q b l' w')
    (hinv : (tokenProtocol s strict).inv w) :
    wp (tokenProtocol s strict) G (revokeRefreshToken s raw) Q (Err s) l w := by
  cases raw with
  | none => exact hQ false l w (onward_read (Rely.refl hinv)) h
  | some raw =>
    obtain ⟨jti, secret⟩ := raw
    refine wp_bind (wp_look h fun w₂ ho₂ h₂ ↦ ?_)
    cases hu : (findByJti (w₂.view l).db jti).map fun x ↦ x.2.userId with
    | none => exact hQ false l w₂ ho₂ h₂
    | some u =>
      obtain ⟨i₀, r₀, hr₀, hj₀, hu₀⟩ := getUserIdByJti_some hu
      have hm : Note.minted jti u ∈ w₂.log ++ l.notes := by
        rw [← hj₀, ← hu₀]
        exact TokenCommit.commit_minted ho₂.after.rely.inv.1 h₂ i₀ r₀ hr₀
      refine wp_bind (wp_acquireUserLock h₂ fun l₃ w₃ ho₃ hr₃ hn₃ h₃ hl ↦ ?_)
      have hm₃ : Note.minted jti u ∈ w₃.log ++ l₃.notes := by
        rcases List.mem_append.1 hm with hm | hm
        · exact List.mem_append_left _ (ho₃.log hm)
        · exact List.mem_append_right _ (ho₃.after.notes hm)
      have ho := ho₂.trans ho₃
      refine wp_bind (wp_getByJtiForUpdate h₃ hm₃ (fun l₄ w₄ ho₄ _ _ h₄ ↦ ?_)
        fun i r l₄ w₄ ho₄ _ _ h₄ hrow _ hru _ ↦ ?_)
      · exact hQ false l₄ w₄ (ho.trans ho₄) h₄
      · unfold verifyRefreshSecret hashRefreshSecret
        by_cases hp : s.authRefreshTokenPepper = ""
        · simp only [if_pos hp]
          trivial
        · simp only [if_neg hp, Prog.pure_eq, Prog.done_bind]
          split
          · exact hQ false l₄ w₄ (ho.trans ho₄) h₄
          · refine wp_bind (wp_look h₄ fun w₅ ho₅ h₅ ↦ ?_)
            have hrow₅ := issued_in_view ho₄.after.rely.inv.1 h₄ hrow
            have hi₅ : Note.issued r.familyId r.userId ∈ w₅.log ∨
                Note.issued r.familyId r.userId ∈ l₄.notes ∧ Sole l₄ w₅ r.familyId := by
              rcases hrow₅ with hi | ⟨hi, hs⟩
              · exact .inl (ho₅.log hi)
              · exact .inr ⟨hi, ho₅.sole hs⟩
            refine wp_bind (wp_revokeFamily h₅ (hru ▸ ho₅.locks (ho₄.locks hl)) hi₅
              fun m w₆ _ g _ ho₆ _ h₆ ↦ ?_)
            exact hQ true _ _ (((ho.trans ho₄).trans ho₅).trans ho₆) h₆

end AdminPlatform.Auth.TokenServices
