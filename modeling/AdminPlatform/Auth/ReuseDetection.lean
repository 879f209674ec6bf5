import AdminPlatform.Auth.TokenFamily

namespace AdminPlatform.Auth.ReuseDetection

open Model.Schema Model.Service Foundation.Relational Foundation.Transaction
open Foundation.Interleaving RefreshService RefreshTokenRepository Service Prog
open TokenInvariant TokenPrograms AccountSystem TokenFamily

variable {α : Type} {s : Settings} {l l' : Private} {w w' : Shared} {i : ℕ} {r : RefreshToken}
  {S : State Table Row LockName Storage Note Failure Unit}

/-- The presented secret passes `verifyRefreshSecret`. -/
def SecretMatches (s : Settings) (secret : ℕ) (r : RefreshToken) : Prop :=
  s.authRefreshTokenPepper ≠ "" ∧ r.tokenHash = ⟨s.authRefreshTokenPepper, secret⟩

def FamilyRevoked (db : Db) (f : ℕ) : Prop := ∀ i (r : RefreshToken),
  db.rows .refreshTokens i = some r → r.familyId = f → r.revokedAt.isSome

theorem findByJti_eq {db : Db} (hr : db.rows .refreshTokens i = some r)
    (hu : ∀ j (t : RefreshToken), db.rows .refreshTokens j = some t → t.jti = r.jti → j = i) :
    findByJti db r.jti = some (i, r) := by
  have hm : (i, r) ∈ db.select .refreshTokens fun _ (t : RefreshToken) ↦ decide (t.jti = r.jti) :=
    mem_select.2 ⟨hr, by simp⟩
  cases hh : findByJti db r.jti with
  | none =>
    rw [findByJti, List.head?_eq_none_iff] at hh
    rw [hh] at hm
    cases hm
  | some x =>
    obtain ⟨j, t⟩ := x
    obtain ⟨ht, hj⟩ := findByJti_some hh
    have hji := hu j t ht hj
    subst hji
    have he : some t = some r := ht.symm.trans hr
    cases he
    rfl

theorem runs_verifyRefreshSecret {secret : ℕ} (h : SecretMatches s secret r) :
    (verifyRefreshSecret s secret r.tokenHash).runs l w = (.ok true, l, w) := by
  unfold verifyRefreshSecret hashRefreshSecret
  rw [if_neg h.1, h.2]
  simp [runs]

theorem runs_revokeFamily (f : ℕ) (x : RevokedReason) (n : ℕ) :
    ∃ m, (revokeFamily f x n).runs l w =
      (.ok m, l.run (revocation (w.view l).db f x n) w.next, w) := ⟨_, rfl⟩

theorem view_of_redo (h : l'.redo = l.redo) : w.view l' = w.view l := by
  unfold World.view
  rw [h]

theorem runs_acquireUserLock (u : ℕ) :
    ∃ l', l'.redo = l.redo ∧ (acquireUserLock u).runs l w = (.ok (), l', w) := by
  let g : Statement := { locks := [(.named (refreshUserLockName u), .exclusive)] }
  exact ⟨l.run g w.next, List.append_nil _, rfl⟩

theorem runs_getByJtiForUpdate {x : ℕ} (h : findByJti (w.view l).db x = some (i, r)) :
    ∃ l', l'.redo = l.redo ∧ (getByJtiForUpdate x).runs l w = (.ok (some (i, r)), l', w) := by
  let g : Statement := { locks := [(.row .refreshTokens i, .exclusive)] }
  refine ⟨l.run g w.next, List.append_nil _, runs_query (g := g) ?_⟩
  rw [h]

/-- Locking the presented token. -/
theorem runs_rotateRefreshToken (secret : ℕ) (h : findByJti (w.view l).db r.jti = some (i, r)) :
    ∃ l', l'.redo = l.redo ∧ (rotateRefreshToken s (some ⟨r.jti, secret⟩)).runs l w =
      (rotateLocked s w.now secret i r).runs l' w := by
  obtain ⟨l₁, hl₁, hlock⟩ := runs_acquireUserLock (l := l) (w := w) r.userId
  obtain ⟨l₂, hl₂, hget⟩ := runs_getByJtiForUpdate ((view_of_redo hl₁).symm ▸ h)
  refine ⟨l₂, hl₂.trans hl₁, ?_⟩
  refine (runs_bind (runs_read View.now l w)).trans ((runs_bind (runs_read _ l w)).trans ?_)
  rw [h]
  exact (runs_bind hlock).trans (runs_bind hget)

theorem runs_revokeRefreshToken {secret : ℕ} (hs : SecretMatches s secret r)
    (h : findByJti (w.view l).db r.jti = some (i, r)) : ∃ l',
    l'.redo = l.redo ++ (revocation (w.view l).db r.familyId .logout w.now).writes ∧
      (revokeRefreshToken s (some ⟨r.jti, secret⟩)).runs l w = (.ok true, l', w) := by
  obtain ⟨l₁, hl₁, hlock⟩ := runs_acquireUserLock (l := l) (w := w) r.userId
  obtain ⟨l₂, hl₂, hget⟩ := runs_getByJtiForUpdate ((view_of_redo hl₁).symm ▸ h)
  obtain ⟨m, hm⟩ := runs_revokeFamily (l := l₂) (w := w) r.familyId .logout w.now
  refine ⟨l₂.run (revocation (w.view l₂).db r.familyId .logout w.now) w.next, ?_, ?_⟩
  · rw [← view_of_redo hl₁, ← view_of_redo hl₂, ← hl₁, ← hl₂]
    rfl
  · refine (runs_bind (runs_read _ l w)).trans ?_
    rw [h]
    refine (runs_bind hlock).trans ((runs_bind hget).trans ?_)
    refine (runs_bind (runs_verifyRefreshSecret hs)).trans ?_
    exact (runs_bind (runs_read View.now l₂ w)).trans (runs_bind hm)

theorem familyRevoked_commit {f n : ℕ} {x : RevokedReason}
    (h : l'.redo = l.redo ++ (revocation (w.view l).db f x n).writes) :
    FamilyRevoked (w.commit l').db f := by
  intro i r hr hf
  refine revoked_in_view (l := l) (w := w) (f := f) (x := x) (n := n) (i := i) ?_ hf
  rw [commit_db, h] at hr
  exact hr

theorem exec_committing {p : Call α} {e : AppError} (h : p.runs {} w = (.error (.app e), l', w')) :
    (committing p).exec w = (w'.commit l', .error (.app e)) := by
  have hc : (caught p).runs {} w = (.ok (.error e), l', w') :=
    (runs_tryCatch_error (runs_bind_error h)).trans rfl
  have hr : (committing p).runs {} w = (.error (.app e), l'.commit, w'.commit l') :=
    (runs_bind hc).trans rfl
  rw [exec, hr]

theorem findByJti_of_inv (h : TokenInv w) (hr : w.db.rows .refreshTokens i = some r)
    (hl : l.redo = []) : findByJti (w.view l).db r.jti = some (i, r) := by
  have hrows : ∀ j, (w.view l).db.rows .refreshTokens j = w.db.rows .refreshTokens j := by
    intro j
    rw [view_db, apply_rows, hl]
    rfl
  refine findByJti_eq ((hrows i).trans hr) fun j t ht hj ↦ ?_
  rw [hrows] at ht
  exact h.jti_inj j i t r ht hr hj

/-- Presenting a rotated token ends its family, whatever the client is told. -/
theorem refresh_rotated {secret : ℕ} (h : TokenInv w)
    (hr : w.db.rows .refreshTokens i = some r) (hs : SecretMatches s secret r)
    (hrot : r.rotatedToJti.isSome) :
    ((refresh s (some ⟨r.jti, secret⟩)).exec w).2 = .error (.app reused) ∧
      FamilyRevoked ((refresh s (some ⟨r.jti, secret⟩)).exec w).1.db r.familyId := by
  obtain ⟨l', hl', hrun⟩ := runs_rotateRefreshToken (s := s) (l := {}) secret
    (findByJti_of_inv h hr rfl)
  let g := revocation (w.view l').db r.familyId .reuseDetected w.now
  have hlock : (rotateLocked s w.now secret i r).runs l' w =
      (.error (.app reused), l'.run g w.next, w) := by
    refine (runs_bind (runs_verifyRefreshSecret hs)).trans ?_
    have hw : wasReused r = true := by simp [wasReused, hrot]
    simp only [hw, Bool.not_true, Bool.false_eq_true, if_false, if_true]
    obtain ⟨m, hm⟩ := runs_revokeFamily (l := l') (w := w) r.familyId .reuseDetected w.now
    exact runs_bind hm
  have hsession : (refreshSession s (some ⟨r.jti, secret⟩)).runs {} w =
      (.error (.app reused), l'.run g w.next, w) := runs_bind_error (hrun.trans hlock)
  rw [refresh, exec_committing hsession]
  exact ⟨rfl, familyRevoked_commit rfl⟩

/-- The token can be exchanged: neither rotated nor revoked nor expired. -/
structure Valid (now : ℕ) (r : RefreshToken) : Prop where
  notReused : wasReused r = false
  unrevoked : r.revokedAt = none
  unexpired : now < r.expiresAt
  family : now < r.familyAbsoluteAt

/-- The successor that the rotation of `r` inserts. -/
def successor (s : Settings) (w : Shared) (r : RefreshToken) : RefreshToken where
  jti := w.next
  familyId := r.familyId
  userId := r.userId
  tokenHash := ⟨s.authRefreshTokenPepper, w.next + 1⟩
  issuedAt := w.now
  expiresAt := min (w.now + s.authRefreshIdleTtlSeconds) r.familyAbsoluteAt
  familyAbsoluteAt := r.familyAbsoluteAt

theorem runs_uuid4 : ∃ l', l'.redo = l.redo ∧
    uuid4.runs l w = (.ok w.next, l', { w with next := w.next + 1 }) := by
  let g : Statement := { fresh := 1 }
  exact ⟨l.run g w.next, List.append_nil _, rfl⟩

theorem runs_generateRefreshToken (hs : s.authRefreshTokenPepper ≠ "") : ∃ l',
    l'.redo = l.redo ∧ (generateRefreshToken s).runs l w =
      (.ok (⟨w.next, w.next + 1⟩, ⟨s.authRefreshTokenPepper, w.next + 1⟩), l',
        { w with next := w.next + 2 }) := by
  let w₁ : Shared := { w with next := w.next + 1 }
  let w₂ : Shared := { w with next := w.next + 2 }
  obtain ⟨l₁, hl₁, hjti⟩ := runs_uuid4 (l := l) (w := w)
  obtain ⟨l₂, hl₂, hsecret⟩ := runs_uuid4 (l := l₁) (w := w₁)
  have hhash : (hashRefreshSecret s (w.next + 1)).runs l₂ w₂ =
      (.ok ⟨s.authRefreshTokenPepper, w.next + 1⟩, l₂, w₂) := by
    rw [hashRefreshSecret, if_neg hs]
    rfl
  refine ⟨l₂, hl₂.trans hl₁, ?_⟩
  refine (runs_bind hjti).trans ((runs_bind hsecret).trans ?_)
  exact (runs_bind hhash).trans rfl

theorem runs_issueSuccessor {x : User} (hs : s.authRefreshTokenPepper ≠ "")
    (hx : w.db.rows .users r.userId = some x) (hl : l.redo = []) : ∃ l' y,
    l'.redo = [⟨.refreshTokens, w.next + 2, some (successor s w r)⟩] ∧ y.jti = w.next ∧
      (issueRefreshToken s r.userId (some r.familyId) (some r.familyAbsoluteAt)).runs l w =
        (.ok y, l', { w with next := w.next + 3 }) := by
  obtain ⟨l₁, hl₁, hgen⟩ := runs_generateRefreshToken (l := l) (w := w) hs
  let w₂ : Shared := { w with next := w.next + 2 }
  let l₂ := l₁.run (creation (successor s w r) (w.next + 2)) (w.next + 2)
  have hcreate : (create (successor s w r)).runs l₁ w₂ =
      (.ok (), l₂, { w with next := w.next + 3 }) := by
    have hx₂ : (w₂.view l₁).db.rows .users (successor s w r).userId = some x := by
      rw [view_db, apply_rows, hl₁, hl]
      exact hx
    refine runs_query (g := creation (successor s w r) (w.next + 2)) ?_
    rw [hx₂]
    rfl
  let issued : IssuedRefresh := {
    token := ⟨w.next, w.next + 1⟩
    jti := w.next
    expiresIn := ((successor s w r).expiresAt : ℤ) - w.now
    familyId := r.familyId }
  refine ⟨l₂, issued, ?_, rfl, ?_⟩
  · simp [l₂, Local.run, hl₁, hl]
  · refine (runs_bind (runs_read View.now l w)).trans ?_
    have hfam : (pure r.familyId : Call ℕ).runs l w = (.ok r.familyId, l, w) := rfl
    exact (runs_bind hfam).trans ((runs_bind hgen).trans ((runs_bind hcreate).trans rfl))

theorem runs_markRotated {x n : ℕ} (hr : (w.view l).db.rows .refreshTokens i = some r) :
    ∃ l', l'.redo = l.redo ++ [⟨.refreshTokens, i, some (rotatedRow x n r)⟩] ∧
      (markRotated i x n).runs l w = (.ok (), l', w) := by
  let g : Statement := {
    writes := [⟨.refreshTokens, i, some (rotatedRow x n r)⟩]
    notes := [.rotated i r.familyId] }
  refine ⟨l.run g w.next, rfl, runs_query (g := g) ?_⟩
  rw [hr]

/-- A valid token is exchanged for its successor. -/
theorem runs_rotateLocked {secret : ℕ} {x : User} (hi : i < w.next)
    (hr : w.db.rows .refreshTokens i = some r) (hx : w.db.rows .users r.userId = some x)
    (hs : SecretMatches s secret r) (hv : Valid w.now r) (hl : l.redo = []) : ∃ l' y,
    l'.redo = [⟨.refreshTokens, w.next + 2, some (successor s w r)⟩,
        ⟨.refreshTokens, i, some (rotatedRow w.next w.now r)⟩] ∧ y.userId = r.userId ∧
      (rotateLocked s w.now secret i r).runs l w = (.ok y, l', { w with next := w.next + 3 }) := by
  obtain ⟨l₁, issued, hl₁, hjti, hissue⟩ := runs_issueSuccessor (l := l) hs.1 hx hl
  have hrow : (({ w with next := w.next + 3 } : Shared).view l₁).db.rows .refreshTokens i = some r := by
    rw [view_db, apply_rows, hl₁, pending_singleton, Write.at_id_ne (by omega)]
    exact hr
  obtain ⟨l₂, hl₂, hmark⟩ := runs_markRotated (x := w.next) (n := w.now) hrow
  refine ⟨l₂, ⟨issued, r.userId⟩, ?_, rfl, ?_⟩
  · rw [hl₂, hl₁]
    rfl
  · refine (runs_bind (runs_verifyRefreshSecret hs)).trans ?_
    have hlive : (r.revokedAt.isSome || decide (r.expiresAt ≤ w.now)) = false := by
      have hlt := hv.unexpired
      simp only [hv.unrevoked, Option.isSome_none, Bool.false_or, decide_eq_false_iff_not]
      omega
    have habs : ¬ r.familyAbsoluteAt ≤ w.now := by
      have hlt := hv.family
      omega
    simp only [hv.notReused, hlive, habs, Bool.not_true, Bool.false_eq_true, if_false]
    refine (runs_bind hissue).trans ?_
    rw [hjti]
    exact (runs_bind hmark).trans rfl

/-- Exchanging a valid token of a user who may not log in ends its family, the successor
the exchange has just inserted included. -/
theorem refresh_refused {secret : ℕ} (h : TokenInv w) (hr : w.db.rows .refreshTokens i = some r)
    (hs : SecretMatches s secret r) (hv : Valid w.now r)
    (hx : ∀ x : User, w.db.rows .users r.userId = some x → x.status ≠ .active) :
    ((refresh s (some ⟨r.jti, secret⟩)).exec w).2 = .error (.app loginFailed) ∧
      FamilyRevoked ((refresh s (some ⟨r.jti, secret⟩)).exec w).1.db r.familyId ∧
      ((refresh s (some ⟨r.jti, secret⟩)).exec w).1.db.rows .refreshTokens (w.next + 2) =
        some (revokedRow .logout w.now (successor s w r)) := by
  obtain ⟨x, hu⟩ := h.owner i r hr
  have hi : i < w.next := h.below i (.tokenId r hr)
  have hj : r.jti < w.next := h.below r.jti (.jti i r hr rfl)
  let w₃ : Shared := { w with next := w.next + 3 }
  obtain ⟨l₁, hl₁, hrotate⟩ := runs_rotateRefreshToken (s := s) (l := {}) secret
    (findByJti_of_inv h hr rfl)
  obtain ⟨l₂, y, hl₂, hy, hlock⟩ := runs_rotateLocked hi hr hu hs hv hl₁
  have hpend : ∀ t k, pending l₂.redo t k =
      ((⟨.refreshTokens, i, some (rotatedRow w.next w.now r)⟩ : Write Row).at t k).or
        ((⟨.refreshTokens, w.next + 2, some (successor s w r)⟩ : Write Row).at t k) := by
    intro t k
    rw [hl₂, pending_cons, pending_singleton]
  have hold : (w₃.view l₂).db.rows .refreshTokens i = some (rotatedRow w.next w.now r) := by
    rw [view_db, apply_rows, hpend, Write.at_self]
    rfl
  have hnew : (w₃.view l₂).db.rows .refreshTokens (w.next + 2) = some (successor s w r) := by
    rw [view_db, apply_rows, hpend, Write.at_self, Write.at_id_ne (by omega)]
    rfl
  have hfind : findByJti (w₃.view l₂).db r.jti = some (i, rotatedRow w.next w.now r) := by
    refine findByJti_eq (r := rotatedRow w.next w.now r) hold fun j t ht hjti ↦ ?_
    by_contra hne
    rw [view_db, apply_rows, hpend, Write.at_id_ne (fun he ↦ hne he.symm), Option.none_or] at ht
    by_cases hj' : w.next + 2 = j
    · subst hj'
      rw [Write.at_self] at ht
      cases ht
      have hjw : w.next = r.jti := hjti
      omega
    · rw [Write.at_id_ne hj'] at ht
      exact hne (h.jti_inj j i t r ht hr hjti)
  have huser : (w₃.view l₂).db.rows .users y.userId = some x := by
    rw [view_db, apply_rows, hpend, Write.at_other (by decide), Write.at_other (by decide), hy]
    exact hu
  have hs' : SecretMatches s secret (rotatedRow w.next w.now r) := hs
  obtain ⟨l₃, hl₃, hrevoke⟩ := runs_revokeRefreshToken hs' hfind
  have hsession : (refreshSession s (some ⟨r.jti, secret⟩)).runs {} w =
      (.error (.app loginFailed), l₃, w₃) := by
    refine (runs_bind (hrotate.trans hlock)).trans ((runs_bind (runs_read _ l₂ w₃)).trans ?_)
    rw [huser]
    simp only [hx x hu, if_false]
    exact (runs_bind hrevoke).trans rfl
  rw [refresh, exec_committing hsession]
  refine ⟨rfl, familyRevoked_commit hl₃, ?_⟩
  have hself : pending (revocation (w₃.view l₂).db r.familyId .logout w.now).writes .refreshTokens
      (w.next + 2) = some (some (revokedRow .logout w.now (successor s w r))) :=
    pending_update_self hnew (by simp [inFamily, successor])
  rw [commit_db, apply_rows, hl₃, pending_append]
  show ((pending (revocation (w₃.view l₂).db r.familyId .logout w.now).writes _ _).or _).getD _ = _
  rw [hself]
  rfl

/-- A refresh that is refused leaves no living token behind. -/
theorem refresh_ends_family (secret : ℕ) (hw : Start w)
    (hS : Reach (AccountOp.call s) .crash .free w S)
    (hr : S.world.db.rows .refreshTokens i = some r) (hs : SecretMatches s secret r) :
    let out := (refresh s (some ⟨r.jti, secret⟩)).exec S.world
    (r.rotatedToJti.isSome →
      out.2 = .error (.app reused) ∧ FamilyRevoked out.1.db r.familyId) ∧
    (Valid S.world.now r →
      (∀ x : User, S.world.db.rows .users r.userId = some x → x.status ≠ .active) →
      out.2 = .error (.app loginFailed) ∧ FamilyRevoked out.1.db r.familyId ∧
        out.1.db.rows .refreshTokens (S.world.next + 2) =
          some (revokedRow .logout S.world.now (successor s S.world r))) := by
  have h := tokenInv_of_reach hw hS
  exact ⟨refresh_rotated h hr hs, refresh_refused h hr hs⟩

def aliceDisabled : List (Label AccountOp) :=
  aliceLogsIn ++ .start (.updateUser 0 { status := some (some .disabled) } none) ::
    List.replicate 20 (.step 1)

def aliceToken : RefreshToken where
  jti := 3
  familyId := 2
  userId := 0
  tokenHash := ⟨"pepper", 4⟩
  issuedAt := 0
  expiresAt := 604800
  familyAbsoluteAt := 2592000

theorem refresh_ends_family_alice :
    (∃ S, Reach (AccountOp.call someSettings) .crash .free aliceOnly S ∧
      ((refresh someSettings (some ⟨3, 4⟩)).exec S.world).2 = .error (.app reused) ∧
      FamilyRevoked ((refresh someSettings (some ⟨3, 4⟩)).exec S.world).1.db 2) ∧
    ∃ S, Reach (AccountOp.call someSettings) .crash .free aliceOnly S ∧
      ((refresh someSettings (some ⟨3, 4⟩)).exec S.world).2 = .error (.app loginFailed) ∧
      FamilyRevoked ((refresh someSettings (some ⟨3, 4⟩)).exec S.world).1.db 2 := by
  constructor
  · obtain ⟨S, hS, hp⟩ := exists_reach_aliceOnly aliceRefreshes
      (p := fun S ↦ decide (S.world.db.rows .refreshTokens 5 =
        some (rotatedRow 6 0 aliceToken))) (by decide +kernel)
    exact ⟨S, hS, (refresh_ends_family 4 start_aliceOnly hS (of_decide_eq_true hp)
      ⟨by decide, rfl⟩).1 rfl⟩
  · obtain ⟨S, hS, hp⟩ := exists_reach_aliceOnly aliceDisabled
      (p := fun S ↦ decide (S.world.db.rows .refreshTokens 5 = some aliceToken) &&
        decide (S.world.db.rows .users 0 = some { alice with status := .disabled }) &&
        decide (S.world.now = 0)) (by decide +kernel)
    simp only [Bool.and_eq_true, decide_eq_true_eq] at hp
    obtain ⟨⟨hr, hx⟩, hn⟩ := hp
    have h := (refresh_ends_family 4 start_aliceOnly hS hr ⟨by decide, rfl⟩).2
      ⟨rfl, rfl, by rw [hn]; decide, by rw [hn]; decide⟩ fun x hx' ↦ by
        rw [show aliceToken.userId = 0 from rfl, hx] at hx'
        cases hx'
        decide
    exact ⟨S, hS, h.1, h.2.1⟩

end AdminPlatform.Auth.ReuseDetection
