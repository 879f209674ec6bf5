import AdminPlatform.Auth.SessionLifetime

namespace AdminPlatform.Auth.SessionLimit

open Model.Schema Model.Service Foundation.Relational Foundation.Transaction
open Foundation.Interleaving RefreshService RefreshTokenRepository TokenInvariant SessionCommit
open AccountSystem TokenFamily SessionLifetime

/-- What the step from `S` to `S'` leaves that commits a login with the token `t`: no more live
sessions than the limit, the new one among them until its own token expires, and the sessions
it has evicted were last active no later than the others it has kept. -/
structure KeepsLimit (s : Settings) (S S' : SystemState) (t : RefreshToken) : Prop where
  cap : (liveFamilies S'.world.db t.userId S'.world.now).length ≤ s.authRefreshMaxSessionsPerUser
  newest : t.familyId ∈ liveFamilies S'.world.db t.userId S'.world.now ↔
    S'.world.now < min (t.issuedAt + s.authRefreshIdleTtlSeconds)
      (t.issuedAt + s.authRefreshAbsoluteTtlSeconds)
  eldest : ∀ r, Evicted S.world S'.world r → r.userId = t.userId → ∀ k (q : RefreshToken),
    S'.world.db.rows .refreshTokens k = some q → isActive t.userId S'.world.now q = true →
    q.familyId ≠ t.familyId → r.issuedAt ≤ q.issuedAt

variable {s : Settings} {w : Shared} {S S₁ : SystemState} {label : Label AccountOp}
  {t : RefreshToken}

theorem mem_liveFamilies_opened (hi : TokenInv S₁.world) (h : Opening s S.world S₁.world t)
    (hrow : ∃ j, S₁.world.db.rows .refreshTokens j = some t) :
    t.familyId ∈ liveFamilies S₁.world.db t.userId S₁.world.now ↔
      S₁.world.now < min (t.issuedAt + s.authRefreshIdleTtlSeconds)
        (t.issuedAt + s.authRefreshAbsoluteTtlSeconds) := by
  rw [← h.absolute, ← h.expires]
  obtain ⟨j, hj⟩ := hrow
  constructor
  · intro hm
    obtain ⟨i, r, hr, ha, hf⟩ := mem_liveFamilies.1 hm
    simp only [isActive, Bool.and_eq_true, decide_eq_true_eq, Option.isNone_iff_eq_none] at ha
    have hij := hi.unrevoked_inj i j r t hr hj hf ha.1.2 h.unrevoked
    subst hij
    cases hr.symm.trans hj
    exact ha.2
  · intro hlt
    refine mem_liveFamilies.2 ⟨j, t, hj, ?_, rfl⟩
    simp [isActive, h.unrevoked, hlt]

theorem login_keeps_limit (hw : Start w) (h : Reach (AccountOp.call s) .crash .free w S)
    (hn : S.next (AccountOp.call s) .crash label = some S₁) (ho : OpensFamily S S₁ t) :
    KeepsLimit s S S₁ t := by
  obtain ⟨j, hj⟩ := ho.row
  have hopen := (tokenChange_of_step hw h hn).opened j t hj ho.new
  have hi := tokenInv_of_reach hw (.step label h (admits_free S label) hn)
  exact ⟨hopen.cap, mem_liveFamilies_opened hi hopen ho.row, hopen.eldest⟩

section Example

def aliceArrives : List (Label AccountOp) :=
  .start (.login (.ok ()) "alice" "old") :: List.replicate 11 (.step 0)

theorem exists_arrival (d : ℕ) {p : SystemState → Bool}
    (h : (((State.init aliceOnly).follow (AccountOp.call someSettings) .crash (fun _ _ ↦ true)
      (aliceArrives ++ [.tick d])).any fun S ↦
        (S.next (AccountOp.call someSettings) .crash (.step 0)).any fun S₁ ↦
          decide (S.world.log = []) &&
          decide (S₁.world.db.rows .refreshTokens 5 = some aliceToken) && p S₁) = true) :
    ∃ S S₁, Reach (AccountOp.call someSettings) .crash .free aliceOnly S ∧
      S.next (AccountOp.call someSettings) .crash (.step 0) = some S₁ ∧
      OpensFamily S S₁ aliceToken ∧ p S₁ = true := by
  obtain ⟨S, S₁, hS, hn, hp⟩ := exists_step_aliceOnly someSettings (aliceArrives ++ [.tick d])
    (.step 0) h
  simp only [Bool.and_eq_true, decide_eq_true_eq] at hp
  refine ⟨S, S₁, hS, hn, ⟨fun u hm ↦ ?_, 5, hp.1.2⟩, hp.2⟩
  rw [hp.1.1] at hm
  cases hm

def oneSession : Settings :=
  { someSettings with authRefreshMaxSessionsPerUser := 1, maxSessions_ge := Nat.one_pos }

def aliceReturns : List (Label AccountOp) :=
  aliceLogsIn ++ .tick 60 :: .start (.login (.ok ()) "alice" "old") :: List.replicate 12 (.step 1)

def aliceSecondToken : RefreshToken where
  jti := 7
  familyId := 6
  userId := 0
  tokenHash := ⟨"pepper", 8⟩
  issuedAt := 60
  expiresAt := 604860
  familyAbsoluteAt := 2592060

def unissued (S : SystemState) (f : ℕ) : Bool :=
  S.world.log.all fun n ↦ match n with
    | .issued f' _ => decide (f' ≠ f)
    | _ => true

theorem unissued_spec {f : ℕ} (h : unissued S f = true) (u : ℕ) : Note.issued f u ∉ S.world.log :=
  fun hm ↦ of_decide_eq_true (List.all_eq_true.1 h _ hm) rfl

/-- The second session takes the place of the first. -/
theorem login_keeps_limit_aliceReturns : ∃ S S₁, Reach (AccountOp.call oneSession) .crash .free
    aliceOnly S ∧ S.next (AccountOp.call oneSession) .crash (.step 1) = some S₁ ∧
    liveFamilies S.world.db 0 S.world.now = [2] ∧ liveFamilies S₁.world.db 0 S₁.world.now = [6] ∧
    KeepsLimit oneSession S S₁ aliceSecondToken := by
  obtain ⟨S, S₁, hS, hn, hp⟩ := exists_step_aliceOnly oneSession aliceReturns (.step 1)
    (p := fun S S₁ ↦ unissued S 6 && decide (S₁.world.db.rows .refreshTokens 9 = some aliceSecondToken) &&
      decide (liveFamilies S.world.db 0 S.world.now = [2] ∧ liveFamilies S₁.world.db 0 S₁.world.now = [6]))
    (by decide +kernel)
  simp only [Bool.and_eq_true, decide_eq_true_eq] at hp
  obtain ⟨⟨hnew, hrow⟩, hbefore, hafter⟩ := hp
  exact ⟨S, S₁, hS, hn, hbefore, hafter, login_keeps_limit start_aliceOnly hS hn ⟨unissued_spec hnew, 9, hrow⟩⟩

/-- A login that takes longer than its token lives leaves a session that is not live. -/
theorem not_live_aliceLingers : ∃ S S₁ t, Reach (AccountOp.call someSettings) .crash .free
    aliceOnly S ∧ S.next (AccountOp.call someSettings) .crash (.step 0) = some S₁ ∧
    OpensFamily S S₁ t ∧ t.familyId ∉ liveFamilies S₁.world.db t.userId S₁.world.now := by
  obtain ⟨S, S₁, hS, hn, ho, hp⟩ := exists_arrival 604800
    (p := fun S₁ ↦ decide (2 ∉ liveFamilies S₁.world.db 0 S₁.world.now)) (by decide +kernel)
  exact ⟨S, S₁, aliceToken, hS, hn, ho, of_decide_eq_true hp⟩

end Example

end AdminPlatform.Auth.SessionLimit
