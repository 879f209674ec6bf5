import AdminPlatform.Auth.TokenFamily

namespace AdminPlatform.Auth.SessionLifetime

open Model.Schema Model.Service Foundation.Relational Foundation.Transaction
open Foundation.Interleaving RefreshService TokenInvariant AccountSystem TokenFamily

abbrev SystemState : Type := State Table Row LockName Storage Note Failure Unit

/-- The step from `S` to `S'` commits the first token of a family. -/
structure OpensFamily (S S' : SystemState) (t : RefreshToken) : Prop where
  new : ∀ u, Note.issued t.familyId u ∉ S.world.log
  row : ∃ j, S'.world.db.rows .refreshTokens j = some t

/-- The step from `S` to `S'` commits the rotation of the token `r`, which becomes `r'`. -/
structure Rotates (S S' : SystemState) (r r' : RefreshToken) : Prop where
  rows : ∃ i, S.world.db.rows .refreshTokens i = some r ∧ S'.world.db.rows .refreshTokens i = some r'
  before : r.rotatedToJti = none
  after : r'.rotatedToJti.isSome

/-- Every token of the family ends with the lifetime `absolute` that the family was given. -/
def Anchored (S : SystemState) (f absolute : ℕ) : Prop := ∀ i (r : RefreshToken),
  S.world.db.rows .refreshTokens i = some r → r.familyId = f →
    r.familyAbsoluteAt = absolute ∧ r.expiresAt ≤ absolute

/-- No rotation of a token of the family succeeds at or after the token's expiry or the end
of the family. -/
def InLifetime (S S' : SystemState) (f : ℕ) : Prop := ∀ r r', Rotates S S' r r' → r.familyId = f →
  S.world.now < r.expiresAt ∧ S.world.now < r.familyAbsoluteAt

/-- The clock that a rotation in the family has read was overtaken by the token's expiry
before the rotation commits. -/
def Overtaken (S S' : SystemState) (f : ℕ) : Prop := ∃ r r' n, Rotates S S' r r' ∧ r.familyId = f ∧
  r'.lastUsedAt = some n ∧ n < r.expiresAt ∧ r.expiresAt ≤ S.world.now

variable {s : Settings} {w : Shared} {S S₁ S₂ S₃ : SystemState} {label label' : Label AccountOp}
  {t : RefreshToken}

theorem inLifetime_iff (hw : Start w) (h : Reach (AccountOp.call s) .crash .free w S) (f : ℕ)
    (hn : S.next (AccountOp.call s) .crash label = some S₁) :
    InLifetime S S₁ f ↔ ¬ Overtaken S S₁ f := by
  constructor
  · rintro hl ⟨r, r', n, hrot, hf, -, -, hle⟩
    have hlt := (hl r r' hrot hf).1
    omega
  · intro ho r r' hrot hf
    obtain ⟨i, hr, hr'⟩ := hrot.rows
    obtain ⟨n, hread, -, hlt⟩ := (tokenChange_of_step hw h hn).rotated i r r' hr hrot.before hr'
      hrot.after
    have hexp := (lifetimeInv_of_reach hw h).expires i r hr
    have hin : S.world.now < r.expiresAt := by
      by_contra hc
      exact ho ⟨r, r', n, hrot, hf, hread, hlt, by omega⟩
    exact ⟨hin, by omega⟩

theorem anchored_of_opens (hw : Start w) (h : Reach (AccountOp.call s) .crash .free w S)
    (hn : S.next (AccountOp.call s) .crash label = some S₁) (ho : OpensFamily S S₁ t)
    (hc : Continues (AccountOp.call s) .crash .free S₁ S₂) :
    Anchored S₂ t.familyId (t.issuedAt + s.authRefreshAbsoluteTtlSeconds) := by
  have h₁ : Reach (AccountOp.call s) .crash .free w S₁ := .step label h (admits_free S label) hn
  obtain ⟨j, hj⟩ := ho.row
  have hissued := (tokenInv_of_reach hw h₁).issued j t hj
  -- the family has no other token yet
  have hfirst : ∀ i (r : RefreshToken), S₁.world.db.rows .refreshTokens i = some r →
      r.familyId = t.familyId →
      r.familyAbsoluteAt = t.issuedAt + s.authRefreshAbsoluteTtlSeconds := by
    intro i r hr hf
    have hopen := tokenChange_of_step hw h hn
    have hr' := hopen.opened i r hr (hf ▸ ho.new)
    have ht := hopen.opened j t hj ho.new
    have hij := (tokenInv_of_reach hw h₁).unrevoked_inj i j r t hr hj hf hr'.unrevoked ht.unrevoked
    subst hij
    cases hr.symm.trans hj
    exact ht.absolute
  intro i r hr hf
  obtain ⟨k, r₁, hr₁, hf₁, ha₁⟩ := (tokenGuar_of_continues hw h₁ hc).anchor i _ r hr
    (hf.symm ▸ hissued)
  have ha := hfirst k r₁ hr₁ (hf₁.trans hf)
  have hexp := (lifetimeInv_of_reach hw (reach_continues h₁ hc)).expires i r hr
  rw [ha₁] at ha
  exact ⟨ha, ha ▸ hexp⟩

/-- The lifetime of a session is anchored at its login. A rotation in it succeeds in time
exactly when the clock does not pass the token's expiry while the rotation waits. -/
theorem session_lifetime (hw : Start w) (h : Reach (AccountOp.call s) .crash .free w S)
    (hn : S.next (AccountOp.call s) .crash label = some S₁) (ho : OpensFamily S S₁ t)
    (hc : Continues (AccountOp.call s) .crash .free S₁ S₂)
    (hn' : S₂.next (AccountOp.call s) .crash label' = some S₃) :
    Anchored S₂ t.familyId (t.issuedAt + s.authRefreshAbsoluteTtlSeconds) ∧
      (InLifetime S₂ S₃ t.familyId ↔ ¬ Overtaken S₂ S₃ t.familyId) := by
  have h₁ : Reach (AccountOp.call s) .crash .free w S₁ := .step label h (admits_free S label) hn
  exact ⟨anchored_of_opens hw h hn ho hc, inLifetime_iff hw (reach_continues h₁ hc) _ hn'⟩

section Example

def briefSettings : Settings :=
  { someSettings with
    authRefreshIdleTtlSeconds := 300
    authRefreshAbsoluteTtlSeconds := 300
    idleTtl_ge := by decide
    absoluteTtl_ge := by decide }

theorem exists_step_aliceOnly (s : Settings) (as : List (Label AccountOp)) (a : Label AccountOp)
    {p : SystemState → SystemState → Bool}
    (h : (((State.init aliceOnly).follow (AccountOp.call s) .crash (fun _ _ ↦ true) as).any fun S ↦
      (S.next (AccountOp.call s) .crash a).any (p S)) = true) :
    ∃ S S₁, Reach (AccountOp.call s) .crash .free aliceOnly S ∧
      S.next (AccountOp.call s) .crash a = some S₁ ∧ p S S₁ = true := by
  obtain ⟨S, hS, hp⟩ := (Option.any_eq_true _ _).1 h
  obtain ⟨S₁, hS₁, hp⟩ := (Option.any_eq_true _ _).1 hp
  exact ⟨S, S₁, reach_follow (fun _ _ ↦ trivial) (fun _ _ _ ↦ trivial) .init hS, hS₁, hp⟩

/-- Alice's token waits to be rotated while she logs in a second time, and expires meanwhile.
The next step commits its rotation. -/
def aliceWaits : List (Label AccountOp) :=
  aliceLogsIn ++ .start (.login (.ok ()) "alice" "old") :: List.replicate 5 (.step 1) ++
    .start (.refresh (some ⟨3, 4⟩)) :: .step 2 :: .step 2 :: .tick 300 ::
    List.replicate 12 (.step 1) ++ List.replicate 8 (.step 2)

def rotatesLate (S S₁ : SystemState) : Bool :=
  (S.world.db.rows .refreshTokens 5).any fun (r : RefreshToken) ↦
    (S₁.world.db.rows .refreshTokens 5).any fun (r' : RefreshToken) ↦
      decide (r.familyId = 2) && decide (r.rotatedToJti = none) && r'.rotatedToJti.isSome &&
        decide (r.familyAbsoluteAt ≤ S.world.now)

theorem not_inLifetime_of_rotatesLate (h : rotatesLate S S₁ = true) : ¬ InLifetime S S₁ 2 := by
  intro hl
  obtain ⟨r, hr, h⟩ := (Option.any_eq_true _ _).1 h
  obtain ⟨r', hr', h⟩ := (Option.any_eq_true _ _).1 h
  simp only [Bool.and_eq_true, decide_eq_true_eq] at h
  have hlt := (hl r r' ⟨⟨5, hr, hr'⟩, h.1.1.2, h.1.2⟩ h.1.1.1).2
  omega

theorem not_inLifetime_aliceWaits : ∃ S S₁, Reach (AccountOp.call briefSettings) .crash .free
    aliceOnly S ∧ S.next (AccountOp.call briefSettings) .crash (.step 2) = some S₁ ∧
    ¬ InLifetime S S₁ 2 := by
  obtain ⟨S, S₁, hS, hn, hp⟩ := exists_step_aliceOnly briefSettings aliceWaits (.step 2)
    (p := rotatesLate) (by decide +kernel)
  exact ⟨S, S₁, hS, hn, not_inLifetime_of_rotatesLate hp⟩

def aliceToken : RefreshToken where
  jti := 3
  familyId := 2
  userId := 0
  tokenHash := ⟨"pepper", 4⟩
  issuedAt := 0
  expiresAt := 604800
  familyAbsoluteAt := 2592000

def aliceRotates : List (Label AccountOp) :=
  List.replicate 8 (.step 0) ++ .start (.refresh (some ⟨3, 4⟩)) :: .tick 60 ::
    List.replicate 10 (.step 1)

theorem session_lifetime_aliceRotates : ∃ S₂ S₃,
    Reach (AccountOp.call someSettings) .crash .free aliceOnly S₂ ∧
    S₂.next (AccountOp.call someSettings) .crash (.step 1) = some S₃ ∧
    S₃.world.log.length = S₂.world.log.length + 3 ∧ Anchored S₂ 2 2592000 ∧
    (InLifetime S₂ S₃ 2 ↔ ¬ Overtaken S₂ S₃ 2) := by
  obtain ⟨S, S₁, hS, hn, hp⟩ := exists_step_aliceOnly someSettings
    (.start (.login (.ok ()) "alice" "old") :: List.replicate 11 (.step 0)) (.step 0)
    (p := fun S S₁ ↦ decide (S.world.log = []) &&
      decide (S₁.world.db.rows .refreshTokens 5 = some aliceToken) &&
      (S₁.follow (AccountOp.call someSettings) .crash (fun _ _ ↦ true) aliceRotates).any fun S₂ ↦
        (S₂.next (AccountOp.call someSettings) .crash (.step 1)).any fun S₃ ↦
          decide (S₃.world.log.length = S₂.world.log.length + 3)) (by decide +kernel)
  simp only [Bool.and_eq_true, decide_eq_true_eq] at hp
  obtain ⟨S₂, hS₂, hp₂⟩ := (Option.any_eq_true _ _).1 hp.2
  obtain ⟨S₃, hS₃, hp₃⟩ := (Option.any_eq_true _ _).1 hp₂
  have hc := continues_follow .refl hS₂
  have ho : OpensFamily S S₁ aliceToken := by
    refine ⟨fun u hm ↦ ?_, 5, hp.1.2⟩
    rw [hp.1.1] at hm
    cases hm
  have hl := session_lifetime start_aliceOnly hS hn ho hc hS₃
  have h₁ : Reach (AccountOp.call someSettings) .crash .free aliceOnly S₁ :=
    .step (.step 0) hS (admits_free S _) hn
  exact ⟨S₂, S₃, reach_continues h₁ hc, hS₃, of_decide_eq_true hp₃, hl.1, hl.2⟩

end Example

end AdminPlatform.Auth.SessionLifetime
