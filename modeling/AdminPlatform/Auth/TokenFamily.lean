import AdminPlatform.Auth.AccountSystem

namespace AdminPlatform.Auth.TokenFamily

open Model.Schema Model.Service Foundation.Relational Foundation.Transaction
open Foundation.Interleaving RefreshService TokenInvariant AccountSystem

variable {s : Settings} {w : Shared} {S : State Table Row LockName Storage Note Failure Unit}

/-- The tokens of every family form one chain under `rotated_to_jti`, of which at most the
last is unrevoked. No link leads out of the family, or nowhere. -/
structure FamilyChains (db : Db) : Prop where
  live : ∀ i j (r t : RefreshToken), db.rows .refreshTokens i = some r →
    db.rows .refreshTokens j = some t → r.familyId = t.familyId →
    r.revokedAt = none → t.revokedAt = none → i = j
  end_ : ∀ i j (r t : RefreshToken), db.rows .refreshTokens i = some r →
    db.rows .refreshTokens j = some t → r.familyId = t.familyId →
    r.rotatedToJti = none → t.rotatedToJti = none → i = j
  successor : ∀ i j k (r t q : RefreshToken), db.rows .refreshTokens i = some r →
    db.rows .refreshTokens j = some t → db.rows .refreshTokens k = some q →
    r.rotatedToJti = some t.jti → r.rotatedToJti = some q.jti → j = k
  predecessor : ∀ i j (r t : RefreshToken) x, db.rows .refreshTokens i = some r →
    db.rows .refreshTokens j = some t → r.rotatedToJti = some x → t.rotatedToJti = some x → i = j
  link : ∀ i j (r t : RefreshToken), db.rows .refreshTokens i = some r →
    db.rows .refreshTokens j = some t → r.rotatedToJti = some t.jti →
    r.familyId = t.familyId ∧ r.userId = t.userId ∧ i < j
  target : ∀ i (r : RefreshToken) x, db.rows .refreshTokens i = some r → r.rotatedToJti = some x →
    ∃ j, ∃ t : RefreshToken, db.rows .refreshTokens j = some t ∧ t.jti = x ∧ t.familyId = r.familyId ∧
      t.userId = r.userId

theorem family_chains (hw : Start w) (h : Reach (AccountOp.call s) .crash .free w S) :
    FamilyChains S.world.db := by
  have hi := tokenInv_of_reach hw h
  refine ⟨hi.unrevoked_inj, hi.one_end, fun i j k r t q hr ht hq he he' ↦ ?_, hi.link_inj, hi.link,
    fun i r x hr he ↦ ?_⟩
  · have hjti : t.jti = q.jti := Option.some.inj (he.symm.trans he')
    exact hi.jti_inj j k t q ht hq hjti
  · obtain ⟨j, t, ht, rfl⟩ := hi.target i r x hr he
    obtain ⟨hf, hu, -⟩ := hi.link i j r t hr ht he
    exact ⟨j, t, ht, rfl, hf.symm, hu.symm⟩

/-- A committed revocation leaves no unrevoked token of the family, and no rotation in the
family commits after it. -/
theorem revocation_permanent {f : ℕ} {reason : RevokedReason} {before after : List Note}
    (hw : Start w) (h : Reach (AccountOp.call s) .crash .free w S)
    (hlog : S.world.log = before ++ .revoked f reason :: after) :
    (∀ i (r : RefreshToken), S.world.db.rows .refreshTokens i = some r → r.familyId = f →
      r.revokedAt.isSome) ∧ ∀ i, Note.rotated i f ∉ after := by
  have hi := tokenInv_of_reach hw h
  have hmem : Note.revoked f reason ∈ S.world.log := by
    rw [hlog]
    exact List.mem_append_right _ List.mem_cons_self
  refine ⟨hi.revoked f reason hmem, fun i hm ↦ ?_⟩
  have hfinal := hi.final
  rw [hlog, List.pairwise_append, List.pairwise_cons] at hfinal
  exact hfinal.2.1.1 _ hm f reason i rfl rfl

section Revokers

open RefreshService.RefreshTokenRepository Service Prog

variable {α : Type} {vs : List (View Table Row Storage)} {ns : List Note}
  {Q : α → List (View Table Row Storage) → List Note → Prop}
  {E : Failure → List (View Table Row Storage) → List Note → Prop}

theorem publishes_ended {p : Call α} {R : Except Failure Unit → List (View Table Row Storage) → List Note → Prop}
    (h : p.Publishes (fun r vs ns ↦ R (r.map fun _ ↦ ()) vs ns) vs ns) : (ended p).Publishes R vs ns :=
  publishes_map h

theorem publishes_committing {p : Call α}
    {R : Except Failure α → List (View Table Row Storage) → List Note → Prop}
    (h : p.Gathers (fun a vs ns ↦ R (.ok a) vs ns)
      (fun e vs ns ↦ ∀ x, e = .app x → R (.error (.app x)) vs ns) vs ns) : (committing p).Publishes R vs ns := by
  unfold committing caught
  refine publishes_bind (gathers_tryCatch
    (gathers_bind (gathers_mono h (fun a vs ns hr ↦ ?_) fun e vs ns hr ↦ ?_)))
  · exact ⟨.ok a, rfl, hr⟩
  · cases e with
    | app x => exact ⟨.error (.app x), rfl, hr x rfl⟩
    | _ => trivial

theorem gathers_query_unit {g : View Table Row Storage → Statement} {Q : Unit → List (View Table Row Storage) →
    List Note → Prop} (hQ : ∀ v, Q () (vs ++ [v]) (ns ++ (g v).notes)) :
    (.query fun v ↦ .ok (g v, ()) : Call Unit).Gathers Q E vs ns := by
  refine gathers_query (fun v f a h ↦ ?_) fun v e h ↦ by cases h
  cases h
  exact hQ v

theorem gathers_revokeFamily {f n : ℕ} {x : RevokedReason}
    {Q : ℕ → List (View Table Row Storage) → List Note → Prop}
    (hQ : ∀ k v, Q k (vs ++ [v]) (ns ++ [.revoked f x])) : (revokeFamily f x n).Gathers Q E vs ns := by
  refine gathers_query (fun v g a h ↦ ?_) fun v e h ↦ by cases h
  cases h
  exact hQ _ v

/-- A loop that revokes families notes each of them. -/
theorem gathers_forM_revokeFamily {fs : List ℕ} {n : ℕ} {x : RevokedReason}
    {Q : Unit → List (View Table Row Storage) → List Note → Prop}
    (hQ : ∀ vs' ns', vs ⊆ vs' → ns ⊆ ns' → (∀ f ∈ fs, .revoked f x ∈ ns') → Q () vs' ns') :
    (fs.forM fun f ↦ do
      let _ ← revokeFamily f x n
      pure () : Call PUnit).Gathers Q E vs ns := by
  induction fs generalizing vs ns with
  | nil => exact hQ vs ns (fun _ h ↦ h) (fun _ h ↦ h) fun _ h ↦ by cases h
  | cons f fs ih =>
    refine gathers_bind (gathers_bind (gathers_revokeFamily fun k v ↦ ?_))
    refine ih fun vs' ns' hv hn hall ↦ ?_
    refine hQ vs' ns' (fun _ h ↦ hv (List.mem_append_left _ h)) (fun _ h ↦ hn (List.mem_append_left _ h)) ?_
    intro f' hf
    rcases List.mem_cons.1 hf with rfl | hf
    · exact hn (List.mem_append_right _ (List.mem_singleton.2 rfl))
    · exact hall f' hf

theorem gathers_verifyRefreshSecret {secret : ℕ} {h : TokenHash}
    {Q : Bool → List (View Table Row Storage) → List Note → Prop}
    (hQ : Q (decide (⟨s.authRefreshTokenPepper, secret⟩ = h)) vs ns) (hE : E .tokenConfig vs ns) :
    (verifyRefreshSecret s secret h).Gathers Q E vs ns := by
  unfold verifyRefreshSecret hashRefreshSecret
  split
  · exact hE
  · exact hQ

def Found (vs : List (View Table Row Storage)) (jti : ℕ) (x : Option (ℕ × RefreshToken)) : Prop :=
  ∃ v ∈ vs, findByJti v.db jti = x

theorem found_last {v : View Table Row Storage} {jti : ℕ} : Found (vs ++ [v]) jti (findByJti v.db jti) :=
  ⟨v, List.mem_append_right _ (List.mem_singleton.2 rfl), rfl⟩

theorem Found.append {jti : ℕ} {x : Option (ℕ × RefreshToken)} (h : Found vs jti x)
    (vs' : List (View Table Row Storage)) : Found (vs ++ vs') jti x := by
  obtain ⟨v, hv, hx⟩ := h
  exact ⟨v, List.mem_append_left _ hv, hx⟩

theorem gathers_uuid4 {Q : ℕ → List (View Table Row Storage) → List Note → Prop}
    (hQ : ∀ k v, Q k (vs ++ [v]) ns) : uuid4.Gathers Q E vs ns := by
  refine gathers_query (fun v g a h ↦ ?_) fun v e h ↦ by cases h
  cases h
  rw [List.append_nil]
  exact hQ _ v

theorem gathers_create {row : RefreshToken} {Q : Unit → List (View Table Row Storage) → List Note → Prop}
    (hQ : ∀ vs' ns', Q () vs' ns') (hE : ∀ vs' ns', E .integrity vs' ns') :
    (create row).Gathers Q E vs ns := by
  refine gathers_query (fun v g a _ ↦ hQ _ _) fun v e h ↦ ?_
  split at h
  · cases h
    exact hE _ _
  · cases h

/-- Issuing a token commits nothing and raises no error of its own. -/
theorem gathers_issueRefreshToken {userId : ℕ} {familyId absolute : Option ℕ} :
    (issueRefreshToken s userId familyId absolute).Gathers (fun _ _ _ ↦ True)
      (fun e _ _ ↦ ∀ x, e ≠ .app x) vs ns := by
  refine gathers_bind (gathers_read fun v₁ ↦ ?_)
  extract_lets familyAbsolute expiresAt rest
  have hrest : ∀ fam vs ns, (rest fam).Gathers (fun _ _ _ ↦ True) (fun e _ _ ↦ ∀ x, e ≠ .app x) vs ns := by
    intro fam vs ns
    refine gathers_bind (gathers_bind (gathers_uuid4 fun k₁ v₁ ↦ gathers_bind (gathers_uuid4 fun k₂ v₂ ↦ ?_)))
    unfold hashRefreshSecret
    refine gathers_bind ?_
    split
    · exact fun x h ↦ by cases h
    · exact gathers_bind (gathers_create (fun _ _ ↦ trivial) fun _ _ x h ↦ by cases h)
  cases familyId with
  | some f => exact hrest f _ _
  | none => exact gathers_bind (gathers_uuid4 fun k v ↦ hrest k _ _)

theorem gathers_getByJtiForUpdate {jti : ℕ}
    {Q : Option (ℕ × RefreshToken) → List (View Table Row Storage) → List Note → Prop}
    (hQ : ∀ v, Q (findByJti v.db jti) (vs ++ [v]) ns) : (getByJtiForUpdate jti).Gathers Q E vs ns := by
  refine gathers_query (fun v g a h ↦ ?_) fun v e h ↦ ?_
  · have hv := hQ v
    split at h
    · next hnone =>
      cases h
      rw [hnone] at hv
      rwa [List.append_nil]
    · next x hsome =>
      cases h
      rw [hsome] at hv
      rwa [List.append_nil]
  · split at h
    · cases h
    · cases h

theorem gathers_revokeRefreshToken {jti secret : ℕ} : (revokeRefreshToken s (some ⟨jti, secret⟩)).Gathers
    (fun _ vs ns ↦ ∃ x, Found vs jti x ∧ ∀ id row, x = some (id, row) →
      row.tokenHash = ⟨s.authRefreshTokenPepper, secret⟩ → .revoked row.familyId .logout ∈ ns)
    (fun e _ _ ↦ e = .tokenConfig) vs ns := by
  refine gathers_bind (gathers_read fun v₁ ↦ ?_)
  cases hfind : findByJti v₁.db jti with
  | none => exact ⟨_, found_last, fun id row h ↦ by rw [hfind] at h; cases h⟩
  | some x =>
    refine gathers_bind (gathers_query_unit fun v₂ ↦ gathers_bind (gathers_getByJtiForUpdate fun v₃ ↦ ?_))
    have hlast := @found_last (vs ++ [v₁] ++ [v₂]) v₃ jti
    cases hrow : findByJti v₃.db jti with
    | none => exact ⟨_, hlast, fun id row h ↦ by rw [hrow] at h; cases h⟩
    | some y =>
      obtain ⟨id, row⟩ := y
      rw [hrow] at hlast
      refine gathers_bind (gathers_verifyRefreshSecret ?_ rfl)
      by_cases hsecret : (⟨s.authRefreshTokenPepper, secret⟩ : TokenHash) = row.tokenHash
      · rw [decide_eq_true hsecret]
        refine gathers_bind (gathers_read fun v₄ ↦ gathers_bind (gathers_revokeFamily fun k v₅ ↦ ?_))
        refine ⟨_, (hlast.append [v₄]).append [v₅], fun id' row' h _ ↦ ?_⟩
        cases h
        exact List.mem_append_right _ (List.mem_singleton.2 rfl)
      · rw [decide_eq_false hsecret]
        refine ⟨_, hlast, fun id' row' h he ↦ ?_⟩
        cases h
        exact absurd he.symm hsecret

theorem publishes_logout (jti secret : ℕ) : (AccountOp.call s (.logout (some ⟨jti, secret⟩))).Publishes
    (fun _ vs ns ↦ ∃ x, Found vs jti x ∧ ∀ id row, x = some (id, row) →
      row.tokenHash = ⟨s.authRefreshTokenPepper, secret⟩ → .revoked row.familyId .logout ∈ ns) [] [] :=
  publishes_bind (gathers_mono gathers_revokeRefreshToken (fun _ _ _ h ↦ ⟨.ok (), rfl, h⟩) fun _ _ _ _ ↦ trivial)

theorem publishes_forceLogout (sessionId : ℕ) : (AccountOp.call s (.forceLogout sessionId)).Publishes
    (fun r _ ns ↦ r = .ok () ∧ .revoked sessionId .forcedLogout ∈ ns) [] [] := by
  refine publishes_ended (publishes_getSession (gathers_bind (gathers_read fun v₁ ↦ ?_)))
  refine gathers_bind (gathers_read fun v₂ ↦ ?_)
  split
  · trivial
  · refine gathers_bind (gathers_query_unit fun v₃ ↦ gathers_bind (gathers_revokeFamily fun k v₄ ↦ ?_))
    exact ⟨rfl, List.mem_append_right _ (List.mem_singleton.2 rfl)⟩

/-- The families with an active token of the user, as a statement saw them, are all noted as revoked. -/
def Revoking (x : RevokedReason) (userId kept : ℕ) (vs : List (View Table Row Storage)) (ns : List Note) : Prop :=
  ∃ v₀ ∈ vs, ∃ v ∈ vs, ∀ f ∈ (byRecency (v.db.select .refreshTokens fun _ r ↦
    isActive userId v₀.now r)).drop kept, .revoked f x ∈ ns

theorem Revoking.mono {x : RevokedReason} {userId kept : ℕ} {vs vs' : List (View Table Row Storage)}
    {ns ns' : List Note} (h : Revoking x userId kept vs ns) (hv : vs <+: vs') (hn : ns <+: ns') :
    Revoking x userId kept vs' ns' := by
  obtain ⟨v₀, h₀, v, h₁, hall⟩ := h
  exact ⟨v₀, hv.subset h₀, v, hv.subset h₁, fun f hf ↦ hn.subset (hall f hf)⟩

theorem gathers_issueAccessToken {userId : ℕ} {username : String}
    {Q : AccessToken → List (View Table Row Storage) → List Note → Prop} (hQ : ∀ a, Q a vs ns)
    (hE : E .tokenConfig vs ns) : (issueAccessToken s userId username).Gathers Q E vs ns := by
  unfold issueAccessToken
  split
  · exact hE
  · exact hQ _

theorem gathers_issueLoginRefresh {userId : ℕ}
    {Q : IssuedRefresh → List (View Table Row Storage) → List Note → Prop}
    (hQ : ∀ y vs' ns', ns ⊆ ns' → Revoking .concurrencyLimit userId s.authRefreshMaxSessionsPerUser vs' ns' →
      Q y vs' ns') : (issueLoginRefresh s userId).Gathers Q (fun _ _ _ ↦ True) vs ns := by
  refine gathers_bind (gathers_query_unit fun v₁ ↦ gathers_bind ?_)
  refine gathers_mono (gathers_extends gathers_issueRefreshToken) (fun y vs₂ ns₂ h₂ ↦ ?_) fun _ _ _ _ ↦ trivial
  refine gathers_bind (gathers_bind (gathers_read fun v₃ ↦ gathers_bind (gathers_read fun v₄ ↦ ?_)))
  refine gathers_forM_revokeFamily fun vs' ns' hv hn hall ↦ hQ y vs' ns' ?_ ⟨v₃, hv ?_, v₄, hv ?_, hall⟩
  · exact fun n hm ↦ hn (h₂.2.2.subset (List.mem_append_left _ hm))
  · exact List.mem_append_left _ (List.mem_append_right _ (List.mem_singleton.2 rfl))
  · exact List.mem_append_right _ (List.mem_singleton.2 rfl)

theorem gathers_loginSession {username password : String} (hpepper : s.authRefreshTokenPepper ≠ "") :
    (loginSession s username password).Gathers (fun a vs ns ↦ a.isSome → ∃ userId h,
      .loginVerified userId h ∈ ns ∧ Revoking .concurrencyLimit userId s.authRefreshMaxSessionsPerUser vs ns)
      (fun _ _ _ ↦ True) vs ns := by
  refine gathers_bind (gathers_read fun v₁ ↦ ?_)
  split
  · exact fun h ↦ by cases h
  · next id user hfind =>
    split
    · refine gathers_bind (gathers_query_unit fun v₂ ↦
        gathers_bind (gathers_issueAccessToken (fun a ↦ ?_) trivial))
      refine gathers_bind (gathers_issueLoginRefresh fun y vs' ns' hn hrev ↦ ?_)
      refine gathers_bind (gathers_query_unit fun v ↦ fun _ ↦ ⟨id, user.passwordHash, ?_, ?_⟩)
      · exact List.mem_append_left _ (hn (List.mem_append_right _ (List.mem_singleton.2 rfl)))
      · exact hrev.mono (List.prefix_append _ _) (List.prefix_append _ _)
    · exact fun h ↦ by cases h

/-- A login with a refresh token evicts the sessions of the user that are over the cap. -/
theorem publishes_login (guard : Except AppError Unit) (username password : String)
    (hpepper : s.authRefreshTokenPepper ≠ "") : (AccountOp.call s (.login guard username password)).Publishes
      (fun r vs ns ↦ r = .ok () → ∃ userId h, .loginVerified userId h ∈ ns ∧
        Revoking .concurrencyLimit userId s.authRefreshMaxSessionsPerUser vs ns) [] [] := by
  refine publishes_ended ?_
  cases guard with
  | error e => trivial
  | ok x =>
    refine publishes_bind (gathers_mono (gathers_loginSession hpepper) (fun a vs ns h ↦ ?_) fun _ _ _ _ ↦ trivial)
    cases a with
    | none => exact ⟨.error (.app loginFailed), rfl, fun h ↦ by cases h⟩
    | some y => exact ⟨.ok (response s y.1 y.2), rfl, fun _ ↦ h rfl⟩

theorem gathers_validateNewPassword {newPassword username oldPassword : String}
    {Q : Unit → List (View Table Row Storage) → List Note → Prop} (hQ : Q () vs ns) (hE : ∀ e, E (.app e) vs ns) :
    (validateNewPassword newPassword username oldPassword).Gathers Q E vs ns := by
  unfold validateNewPassword
  split
  · exact hE _
  · split
    · exact hE _
    · exact hQ

theorem gathers_setPasswordHash {userId : ℕ} {h : PasswordHash}
    {Q : Unit → List (View Table Row Storage) → List Note → Prop} (hQ : ∀ vs' ns', Q () vs' ns')
    (hE : ∀ vs' ns', E .staleData vs' ns') : (setPasswordHash userId h).Gathers Q E vs ns := by
  refine gathers_query (fun v g a _ ↦ hQ _ _) fun v e h ↦ ?_
  split at h
  · cases h
    exact hE _ _
  · cases h

theorem gathers_reissue {userId : ℕ} {h : PasswordHash} :
    (reissue s userId h).Gathers (fun _ vs ns ↦ Revoking .passwordChanged userId 0 vs ns)
      (fun e _ _ ↦ ∀ x, e ≠ .app x) vs ns := by
  refine gathers_bind (gathers_query_unit fun v₁ ↦ ?_)
  refine gathers_bind (gathers_read fun v₂ ↦ gathers_bind (gathers_read fun v₃ ↦ gathers_bind ?_))
  refine gathers_forM_revokeFamily fun vs₄ ns₄ hv hn hall ↦ ?_
  have hrev : Revoking .passwordChanged userId 0 vs₄ ns₄ := by
    refine ⟨v₂, hv ?_, v₃, hv ?_, hall⟩
    · exact List.mem_append_left _ (List.mem_append_right _ (List.mem_singleton.2 rfl))
    · exact List.mem_append_right _ (List.mem_singleton.2 rfl)
  refine gathers_bind (gathers_mono (gathers_extends gathers_issueRefreshToken) (fun y vs₅ ns₅ h₅ ↦ ?_)
    fun e _ _ he ↦ he.1)
  refine gathers_bind (gathers_query_unit fun v₆ ↦ ?_)
  exact (hrev.mono h₅.2.1 h₅.2.2).mono (List.prefix_append _ _) (List.prefix_append _ _)

/-- A password change that opens a new session ends all the sessions of the user. -/
theorem publishes_changePassword (userId : ℕ) (oldPassword newPassword : String)
    (hpepper : s.authRefreshTokenPepper ≠ "") :
    (AccountOp.call s (.changePassword userId oldPassword newPassword)).Publishes
      (fun r vs ns ↦ r = .ok () → Revoking .passwordChanged userId 0 vs ns) [] [] := by
  refine publishes_ended (publishes_committing (gathers_bind (gathers_read fun v₁ ↦ ?_)))
  split
  · exact fun x _ h ↦ by cases h
  · split
    · exact fun x _ h ↦ by cases h
    · split
      · exact fun x _ h ↦ by cases h
      · refine gathers_bind (gathers_validateNewPassword ?_ fun e x _ h ↦ by cases h)
        refine gathers_bind (gathers_bind (gathers_uuid4 fun salt v₂ ↦ ?_))
        refine gathers_bind (gathers_setPasswordHash (fun vs' ns' ↦ ?_) fun vs' ns' x h ↦ by cases h)
        refine gathers_bind (gathers_issueAccessToken (fun a ↦ ?_) fun x h ↦ by cases h)
        exact gathers_bind (gathers_mono gathers_reissue (fun y vs ns h _ ↦ h) fun e vs ns h x he ↦
          absurd he (h x))

theorem gathers_rotateLocked {now secret id : ℕ} {row : RefreshToken} :
    (rotateLocked s now secret id row).Gathers (fun _ _ _ ↦ True) (fun e vs' ns' ↦ e = .app reused →
      wasReused row = true ∧ vs <+: vs' ∧ .revoked row.familyId .reuseDetected ∈ ns') vs ns := by
  unfold rotateLocked
  refine gathers_bind (gathers_verifyRefreshSecret ?_ fun h ↦ by cases h)
  split
  · exact fun h ↦ absurd h (by decide)
  · split
    · next hreused =>
      refine gathers_bind (gathers_revokeFamily fun k v _ ↦ ?_)
      exact ⟨hreused, List.prefix_append _ _, List.mem_append_right _ (List.mem_singleton.2 rfl)⟩
    · split
      · exact fun h ↦ absurd h (by decide)
      · split
        · exact fun h ↦ absurd h (by decide)
        · refine gathers_bind (gathers_mono gathers_issueRefreshToken (fun y vs' ns' _ ↦ ?_)
            fun e _ _ h he ↦ absurd he (h _))
          refine gathers_bind (gathers_query (fun _ _ _ _ ↦ trivial) fun v e h he ↦ ?_)
          subst he
          split at h
          · cases h
          · cases h

theorem gathers_rotateRefreshToken {jti secret : ℕ} :
    (rotateRefreshToken s (some ⟨jti, secret⟩)).Gathers (fun _ _ _ ↦ True) (fun e vs ns ↦ e = .app reused →
      ∃ id row, Found vs jti (some (id, row)) ∧ wasReused row = true ∧
        .revoked row.familyId .reuseDetected ∈ ns) vs ns := by
  have hinvalid : Failure.app invalid ≠ .app reused := by decide
  refine gathers_bind (gathers_read fun v₁ ↦ gathers_bind (gathers_read fun v₂ ↦ ?_))
  cases findByJti v₂.db jti with
  | none => exact fun h ↦ absurd h hinvalid
  | some x =>
    refine gathers_bind (gathers_query_unit fun v₃ ↦ gathers_bind (gathers_getByJtiForUpdate fun v₄ ↦ ?_))
    have hlast := @found_last (vs ++ [v₁] ++ [v₂] ++ [v₃]) v₄ jti
    cases hrow : findByJti v₄.db jti with
    | none => exact fun h ↦ absurd h hinvalid
    | some y =>
      obtain ⟨id, row⟩ := y
      rw [hrow] at hlast
      refine gathers_mono gathers_rotateLocked (fun _ _ _ _ ↦ trivial) fun e vs' ns' h he ↦ ?_
      obtain ⟨hreused, ⟨vs'', rfl⟩, hm⟩ := h he
      exact ⟨id, row, hlast.append vs'', hreused, hm⟩

/-- A token that was rotated before ends its family when it is presented again. -/
theorem publishes_reused (jti secret : ℕ) : (AccountOp.call s (.refresh (some ⟨jti, secret⟩))).Publishes
    (fun r vs ns ↦ r = .error (.app reused) → ∃ id row, Found vs jti (some (id, row)) ∧ wasReused row = true ∧
      .revoked row.familyId .reuseDetected ∈ ns) [] [] := by
  have hrefused : ∀ vs ns, (revokeRefreshToken s (some ⟨jti, secret⟩) >>= fun _ ↦
      (raise loginFailed : Call LoginResponse)).Gathers (fun _ _ _ ↦ True)
      (fun e _ _ ↦ e ≠ .app reused) vs ns := by
    intro vs ns
    refine gathers_bind (gathers_mono gathers_revokeRefreshToken (fun _ _ _ _ ↦ ?_) fun e _ _ h ↦ ?_)
    · exact (by decide : Failure.app loginFailed ≠ .app reused)
    · subst h
      decide
  have hused : ∀ e (vs : List (View Table Row Storage)) (ns : List Note), e ≠ Failure.app reused →
      ∀ x, e = .app x →
      (Except.error (.app x) : Except Failure LoginResponse).map (fun _ ↦ ()) = .error (.app reused) →
      ∃ id row, Found vs jti (some (id, row)) ∧ wasReused row = true ∧
        Note.revoked row.familyId .reuseDetected ∈ ns := by
    intro e vs ns hne x he h
    subst he
    exact absurd (Except.error.inj h) hne
  refine publishes_ended (publishes_committing (gathers_bind ?_))
  refine gathers_mono gathers_rotateRefreshToken (fun y vs ns _ ↦ ?_) fun e vs ns h x he hx ↦ ?_
  · refine gathers_bind (gathers_read fun v ↦ ?_)
    split
    · exact gathers_mono (hrefused _ _) (fun _ _ _ _ h ↦ by cases h) hused
    · split
      · refine gathers_bind (gathers_issueAccessToken (fun a h ↦ ?_) fun x h ↦ by cases h)
        cases h
      · exact gathers_mono (hrefused _ _) (fun _ _ _ _ h ↦ by cases h) hused
  · subst he
    exact h (Except.error.inj hx)

/-- A call that was answered after it noted the end of a family has left no unrevoked token of it. -/
theorem ended_of_done {S₁ S' : State Table Row LockName Storage Note Failure Unit} {op : AccountOp} {f : ℕ}
    {x : RevokedReason} {l : Private} {R : Except Failure Unit → List (View Table Row Storage) → List Note → Prop}
    (hw : Start w) (h : Reach (AccountOp.call s) .crash .free w S)
    (hn : S.next (AccountOp.call s) .crash (.start op) = some S₁)
    (hc : Continues (AccountOp.call s) .crash .free S₁ S') (hp : (op.call s).Publishes R [] [])
    (hR : ∀ vs ns, R (.ok ()) vs ns → .revoked f x ∈ ns)
    (hdone : S'.sessions[S.sessions.length]? = some ⟨.done (), l⟩) :
    ∀ i (r : RefreshToken), S'.world.db.rows .refreshTokens i = some r → r.familyId = f → r.revokedAt.isSome := by
  obtain ⟨S₂, S₃, vs, ns, -, hcommit, hafter, hr, -⟩ := commits_of_done hp hn hc hdone
  have hS' : Reach (AccountOp.call s) .crash .free w S' :=
    reach_continues (.step _ h (admits_free _ _) hn) hc
  refine (tokenInv_of_reach hw hS').revoked f x ?_
  have hlog : .revoked f x ∈ S₃.world.log := by
    rw [hcommit.log]
    exact List.mem_append_right _ (hR vs ns hr)
  exact (log_of_continues hafter).subset hlog

theorem forced_logout_ends {S₁ S' : State Table Row LockName Storage Note Failure Unit} {sessionId : ℕ}
    {l : Private} (hw : Start w) (h : Reach (AccountOp.call s) .crash .free w S)
    (hn : S.next (AccountOp.call s) .crash (.start (.forceLogout sessionId)) = some S₁)
    (hc : Continues (AccountOp.call s) .crash .free S₁ S')
    (hdone : S'.sessions[S.sessions.length]? = some ⟨.done (), l⟩) :
    ∀ i (r : RefreshToken), S'.world.db.rows .refreshTokens i = some r → r.familyId = sessionId →
      r.revokedAt.isSome :=
  ended_of_done hw h hn hc (publishes_forceLogout sessionId) (fun _ _ hr ↦ hr.2) hdone

end Revokers

section Example

def someSettings : Settings where
  authJwtSecret := "secret"
  authAccessTokenTtlSeconds := 900
  authRefreshTokenPepper := "pepper"
  authRefreshIdleTtlSeconds := 604800
  authRefreshAbsoluteTtlSeconds := 2592000
  authRefreshMaxSessionsPerUser := 5
  idleTtl_ge := by decide
  absoluteTtl_ge := by decide
  maxSessions_ge := Nat.le_add_left 1 4

def alice : User where
  username := "alice"
  passwordHash := ⟨"old", 1⟩
  nickname := "Alice"
  status := .active
  isSuperAdmin := false
  deptId := none

def aliceOnly : Shared where
  now := 0
  next := 2
  ext := ⟨[], []⟩
  db := Store.empty.apply [⟨.users, 0, some alice⟩]
  log := []

theorem start_aliceOnly : Start aliceOnly where
  tokens i := rfl
  log := rfl
  users i x hx := by
    cases i with
    | zero =>
      cases hx
      decide
    | succ i => cases hx

theorem exists_reach_aliceOnly (as : List (Label AccountOp))
    {p : State Table Row LockName Storage Note Failure Unit → Bool}
    (h : ((State.init aliceOnly).follow (AccountOp.call someSettings) .crash (fun _ _ ↦ true) as).any
      p = true) : ∃ S, Reach (AccountOp.call someSettings) .crash .free aliceOnly S ∧ p S = true :=
  exists_reach_of_follow _ as (fun _ _ ↦ trivial) (fun _ _ _ ↦ trivial) h

/-- Alice logs in with her first password. Her first token is `⟨3, 4⟩` of family `2`. -/
def aliceLogsIn : List (Label AccountOp) :=
  .start (.login (.ok ()) "alice" "old") :: List.replicate 20 (.step 0)

def aliceRefreshes : List (Label AccountOp) :=
  aliceLogsIn ++ .start (.refresh (some ⟨3, 4⟩)) :: List.replicate 20 (.step 1)

theorem family_chains_aliceRefreshes : ∃ S, Reach (AccountOp.call someSettings) .crash .free
    aliceOnly S ∧ (S.world.db.scan .refreshTokens).length = 2 ∧ FamilyChains S.world.db := by
  obtain ⟨S, hS, hp⟩ := exists_reach_aliceOnly aliceRefreshes
    (p := fun S ↦ decide ((S.world.db.scan .refreshTokens).length = 2)) (by decide +kernel)
  exact ⟨S, hS, of_decide_eq_true hp, family_chains start_aliceOnly hS⟩

def aliceReuses : List (Label AccountOp) :=
  aliceRefreshes ++ .start (.refresh (some ⟨3, 4⟩)) :: List.replicate 20 (.step 2) ++
    .start (.login (.ok ()) "alice" "old") :: List.replicate 20 (.step 3)

theorem revocation_permanent_aliceReuses : ∃ S, Reach (AccountOp.call someSettings) .crash .free
    aliceOnly S ∧ S.world.log.length = 12 ∧
    (∀ i (r : RefreshToken), S.world.db.rows .refreshTokens i = some r → r.familyId = 2 →
      r.revokedAt.isSome) ∧ ∀ i, Note.rotated i 2 ∉ S.world.log.drop 8 := by
  obtain ⟨S, hS, hp⟩ := exists_reach_aliceOnly aliceReuses
    (p := fun S ↦ decide (S.world.log.length = 12) && decide (S.world.log =
      S.world.log.take 7 ++ .revoked 2 .reuseDetected :: S.world.log.drop 8)) (by decide +kernel)
  rw [Bool.and_eq_true, decide_eq_true_eq, decide_eq_true_eq] at hp
  exact ⟨S, hS, hp.1, revocation_permanent start_aliceOnly hS hp.2⟩

end Example

end AdminPlatform.Auth.TokenFamily
