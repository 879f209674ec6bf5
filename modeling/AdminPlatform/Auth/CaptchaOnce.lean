import AdminPlatform.Auth.LoginRuns

namespace AdminPlatform.Auth.CaptchaOnce

open Model.Service Function LoginGuard LoginRuns

variable {s : GuardSettings} {S S' : State} {a a' : Attempt} {r : Redis} {i j : ℕ} {id : String}
  {reply : Reply} {verdict : Verdict}

def Reached (a : Attempt) : Prop := a.stage = .verifyPassword ∨ a.verdict ≠ none

/-- All reads of `pre_check` have answered, and below every limit. -/
def PassedReads (s : GuardSettings) (a : Attempt) : Prop :=
  a.seenLock = some false ∧
  (∃ n, a.seenUserFails = some n ∧ n < s.authLoginCaptchaThreshold) ∧
  ∀ ip, given a.clientIp = some ip → ∃ m, a.seenIpFails = some m ∧ m < s.authLoginIpLimit

def NotBarred (s : GuardSettings) (a : Attempt) : Prop :=
  a.seenLock ≠ some true ∧ ∀ m, a.seenIpFails = some m → m < s.authLoginIpLimit

def PassedCaptcha (S : State) (i : ℕ) (a : Attempt) (id : String) : Prop :=
  ∃ answer stored, given a.captchaId = some id ∧ given a.captchaAnswer = some answer ∧
    ⟨i, id, stored⟩ ∈ S.compared ∧ (id, stored) ∈ S.issued ∧ stored = strip answer

/-- What a login has seen by the stage it is in. -/
def StageInv (s : GuardSettings) (S : State) (i : ℕ) (a : Attempt) : Prop :=
  match a.stage with
  | .getLock => a.seenLock = none ∧ a.seenUserFails = none ∧ a.seenIpFails = none ∧ a.verdict = none
  | .getUserFails =>
    a.seenLock = some false ∧ a.seenUserFails = none ∧ a.seenIpFails = none ∧ a.verdict = none
  | .getIpFails n => a.seenLock = some false ∧ a.seenUserFails = some n ∧ a.seenIpFails = none ∧
    (given a.clientIp).isSome ∧ a.verdict = none
  | .getdelCaptcha => NotBarred s a ∧ a.verdict = none ∧
    (given a.captchaId).isSome ∧ (given a.captchaAnswer).isSome
  | _ => Reached a → PassedReads s a ∨ NotBarred s a ∧ ∃ id, PassedCaptcha S i a id

/-- The captchas and the comparisons of a run. -/
structure CaptchaInv (s : GuardSettings) (S : State) : Prop where
  stage : ∀ i a, S.attempts[i]? = some a → StageInv s S i a
  stored : ∀ id e, S.redis.captcha id = some e → (id, e.value) ∈ S.issued
  gone : ∀ c ∈ S.compared, S.redis.captcha c.captchaId = none
  issued : ∀ c ∈ S.compared, (c.captchaId, c.stored) ∈ S.issued
  once : (S.compared.map Comparison.captchaId).Nodup

theorem PassedCaptcha.mono (h : PassedCaptcha S i a id) (hc : S.compared ⊆ S'.compared)
    (hi : S.issued ⊆ S'.issued) : PassedCaptcha S' i a id := by
  obtain ⟨answer, stored, hid, ha, hm, hs, he⟩ := h
  exact ⟨answer, stored, hid, ha, hc hm, hi hs, he⟩

theorem StageInv.mono (h : StageInv s S i a) (hc : S.compared ⊆ S'.compared)
    (hi : S.issued ⊆ S'.issued) : StageInv s S' i a := by
  unfold StageInv at *
  split at h
  · exact h
  · exact h
  · exact h
  · exact h
  · intro hr
    refine (h hr).imp_right fun ⟨hb, id, hp⟩ ↦ ⟨hb, id, hp.mono hc hi⟩

/-- The stages of `pre_check` and `verify_captcha`. -/
def early : Stage → Bool
  | .getLock | .getUserFails | .getIpFails _ | .getdelCaptcha => true
  | _ => false

theorem stage_of_late (hs : early a.stage = false)
    (h : Reached a → PassedReads s a ∨ NotBarred s a ∧ ∃ id, PassedCaptcha S i a id) :
    StageInv s S i a := by
  unfold StageInv
  split
  · next he => rw [he] at hs; cases hs
  · next he => rw [he] at hs; cases hs
  · next he => rw [he] at hs; cases hs
  · next he => rw [he] at hs; cases hs
  · exact h

theorem passed_of_late (hs : early a.stage = false) (h : StageInv s S i a) (hr : Reached a) :
    PassedReads s a ∨ NotBarred s a ∧ ∃ id, PassedCaptcha S i a id := by
  unfold StageInv at h
  split at h
  · next he => rw [he] at hs; cases hs
  · next he => rw [he] at hs; cases hs
  · next he => rw [he] at hs; cases hs
  · next he => rw [he] at hs; cases hs
  · exact h hr

theorem stage_ended {result : Result} (hv : a.verdict = none) : StageInv s S i (a.ended result) := by
  refine stage_of_late rfl fun hr ↦ ?_
  rcases hr with h | h
  · cases h
  · exact absurd hv h

theorem stage_requireCaptcha (h : NotBarred s a) (hv : a.verdict = none) :
    StageInv s S i a.requireCaptcha := by
  unfold Attempt.requireCaptcha
  split
  · next hg =>
    obtain ⟨hid, ha⟩ := Bool.and_eq_true_iff.1 hg
    exact ⟨h, hv, hid, ha⟩
  · exact stage_ended hv

theorem stage_decideCheck {n m : ℕ} (hl : a.seenLock = some false) (hu : a.seenUserFails = some n)
    (hip : (given a.clientIp).isSome → a.seenIpFails = some m)
    (hno : (given a.clientIp).isSome = false → a.seenIpFails = none) (hv : a.verdict = none) :
    StageInv s S i (a.decideCheck s n m) := by
  unfold Attempt.decideCheck
  by_cases hlimit : ((given a.clientIp).isSome && decide (s.authLoginIpLimit ≤ m)) = true
  · rw [if_pos hlimit]
    exact stage_ended hv
  · rw [if_neg hlimit]
    have hlt : (given a.clientIp).isSome = true → m < s.authLoginIpLimit := by
      intro hx
      rw [hx, Bool.true_and, decide_eq_true_eq] at hlimit
      omega
    split
    · refine stage_requireCaptcha ⟨by rw [hl]; decide, fun m' hm' ↦ ?_⟩ hv
      cases hx : (given a.clientIp).isSome with
      | false =>
        rw [hno hx] at hm'
        cases hm'
      | true =>
        rw [hip hx, Option.some.injEq] at hm'
        exact hm' ▸ hlt hx
    · next hn =>
      intro _
      refine .inl ⟨hl, ⟨n, hu, Nat.lt_of_not_le hn⟩, fun ip h ↦ ?_⟩
      have hx : (given a.clientIp).isSome = true := by rw [h]; rfl
      exact ⟨m, hip hx, hlt hx⟩

/-- After `pre_check` a login learns nothing more but its verdict. -/
theorem stage_later {stage : Stage} (hs : early a.stage = false) (h : StageInv s S i a)
    (hl : early stage = false) (hv : stage = .verifyPassword → Reached a) :
    StageInv s S i { a with stage := stage } := by
  refine stage_of_late hl fun hr ↦ ?_
  have hreached : Reached a := by
    rcases hr with he | hne
    · exact hv he
    · exact .inr hne
  have hp := passed_of_late hs h hreached
  exact hp

theorem stage_verdict {stage : Stage} {v : Verdict} (hs : a.stage = .verifyPassword)
    (h : StageInv s S i a) (hl : early stage = false) :
    StageInv s S i { a with stage := stage, verdict := some v } := by
  have hlate : early a.stage = false := by rw [hs]; rfl
  have hp := passed_of_late hlate h (.inl hs)
  exact stage_of_late hl fun _ ↦ hp

theorem stage_lockOrFail {n : ℕ} (hs : early a.stage = false) (h : StageInv s S i a) :
    StageInv s S i (a.lockOrFail s n) := by
  unfold Attempt.lockOrFail
  split
  · exact stage_later hs h rfl fun he ↦ by cases he
  · exact stage_later hs h rfl fun he ↦ by cases he

/-- What one step of a login does to what it has seen, up to the captcha. -/
theorem stage_read (h : StageInv s S i a) (he : early a.stage = true) (hn : a.stage ≠ .getdelCaptcha)
    (r : Redis) : StageInv s S i (a.next s r reply verdict).2 := by
  unfold StageInv at h
  cases hs : a.stage with
  | getLock =>
    rw [hs] at h
    obtain ⟨hl, hu, hip, hv⟩ := h
    cases reply with
    | raised applied =>
      simp only [Attempt.next, hs]
      exact stage_requireCaptcha ⟨by rw [hl]; decide, fun m hm ↦ by rw [hip] at hm; cases hm⟩ hv
    | answered =>
      simp only [Attempt.next, hs]
      split
      · refine stage_of_late rfl fun hr ↦ ?_
        rcases hr with hr | hr
        · cases hr
        · exact absurd hv hr
      · exact ⟨rfl, hu, hip, hv⟩
  | getUserFails =>
    rw [hs] at h
    obtain ⟨hl, hu, hip, hv⟩ := h
    cases reply with
    | raised applied =>
      simp only [Attempt.next, hs]
      exact stage_requireCaptcha ⟨by rw [hl]; decide, fun m hm ↦ by rw [hip] at hm; cases hm⟩ hv
    | answered =>
      simp only [Attempt.next, hs]
      cases hx : (given a.clientIp).isSome with
      | true => exact ⟨hl, rfl, hip, hx, hv⟩
      | false => exact stage_decideCheck hl rfl (fun h ↦ by cases hx.symm.trans h) (fun _ ↦ hip) hv
  | getIpFails n =>
    rw [hs] at h
    obtain ⟨hl, hu, hip, hx, hv⟩ := h
    cases reply with
    | raised applied =>
      simp only [Attempt.next, hs]
      exact stage_requireCaptcha ⟨by rw [hl]; decide, fun m hm ↦ by rw [hip] at hm; cases hm⟩ hv
    | answered =>
      simp only [Attempt.next, hs]
      exact stage_decideCheck hl hu (fun _ ↦ rfl) (fun h ↦ by cases hx.symm.trans h) hv
  | getdelCaptcha => exact absurd hs hn
  | _ =>
    rw [hs] at he
    cases he

theorem stage_late (h : StageInv s S i a) (he : early a.stage = false) (r : Redis) :
    StageInv s S i (a.next s r reply verdict).2 := by
  cases hs : a.stage with
  | verifyPassword =>
    simp only [Attempt.next, hs]
    cases verdict with
    | passed => exact stage_verdict hs h rfl
    | rejected => exact stage_verdict hs h rfl
    | crashed =>
      have hc : StageInv s S i { a with stage := .ended .crashed, verdict := some .crashed } :=
        stage_verdict hs h rfl
      exact hc
  | incrUser =>
    simp only [Attempt.next, hs]
    split <;> exact stage_later he h rfl fun hc ↦ by cases hc
  | expireUser n =>
    simp only [Attempt.next, hs]
    split
    · split
      · exact stage_later he h rfl fun hc ↦ by cases hc
      · exact stage_lockOrFail he h
    · exact stage_later he h rfl fun hc ↦ by cases hc
  | incrIp n =>
    simp only [Attempt.next, hs]
    split <;> exact stage_later he h rfl fun hc ↦ by cases hc
  | expireIp n =>
    simp only [Attempt.next, hs]
    split
    · exact stage_lockOrFail he h
    · exact stage_later he h rfl fun hc ↦ by cases hc
  | setexLock =>
    simp only [Attempt.next, hs]
    exact stage_later he h rfl fun hc ↦ by cases hc
  | deleteFails =>
    simp only [Attempt.next, hs]
    split <;> exact stage_later he h rfl fun hc ↦ by cases hc
  | deleteLock =>
    simp only [Attempt.next, hs]
    exact stage_later he h rfl fun hc ↦ by cases hc
  | ended result =>
    simp only [Attempt.next, hs]
    exact h
  | _ =>
    rw [hs] at he
    cases he

/-- A captcha that was in the store when a login's `GETDEL` answered. -/
theorem stage_getdel (h : StageInv s S i a) (hs : a.stage = .getdelCaptcha)
    (hc : ∀ c, comparison r i a reply = some c → c ∈ S.compared ∧ (c.captchaId, c.stored) ∈ S.issued) :
    StageInv s S i (a.next s r reply verdict).2 := by
  unfold StageInv at h
  rw [hs] at h
  obtain ⟨hb, hv, hid, ha⟩ := h
  obtain ⟨id, hid⟩ := Option.isSome_iff_exists.1 hid
  obtain ⟨answer, ha⟩ := Option.isSome_iff_exists.1 ha
  cases reply with
  | raised applied =>
    simp only [Attempt.next, hs]
    exact stage_ended hv
  | answered =>
    simp only [Attempt.next, hs, hid, ha, Option.getD_some]
    cases hst : r.getCaptcha id with
    | none => exact stage_ended hv
    | some stored =>
      dsimp only
      by_cases he : stored = strip answer
      · rw [if_pos he]
        have hcomp : comparison r i a .answered = some ⟨i, id, stored⟩ := by
          simp only [comparison, hs, if_true, hid, Option.getD_some, hst, Option.map_some]
        obtain ⟨hm, hi⟩ := hc _ hcomp
        exact stage_of_late rfl fun _ ↦ .inr ⟨hb, id, answer, stored, hid, ha, hm, hi, he⟩
      · rw [if_neg he]
        exact stage_ended hv

theorem stage_next (h : StageInv s S i a)
    (hc : ∀ c, comparison r i a reply = some c → c ∈ S.compared ∧ (c.captchaId, c.stored) ∈ S.issued) :
    StageInv s S i (a.next s r reply verdict).2 := by
  cases he : early a.stage with
  | false => exact stage_late h he r
  | true =>
    by_cases hs : a.stage = .getdelCaptcha
    · exact stage_getdel h hs hc
    · exact stage_read h he hs r

theorem write_captcha {f : Redis → Redis} (hf : ∀ r, (f r).captcha = r.captcha) (r : Redis) :
    (reply.write f r).captcha = r.captcha := by
  unfold Reply.write
  split
  · exact hf r
  · rfl

def idOf (a : Attempt) : String := (given a.captchaId).getD ""

/-- The captchas a login's step leaves in the store. -/
theorem captcha_next (s : GuardSettings) (a : Attempt) (r : Redis) (reply : Reply) (verdict : Verdict) :
    (a.next s r reply verdict).1.captcha = r.captcha ∨ a.stage = .getdelCaptcha ∧
      (a.next s r reply verdict).1.captcha = update r.captcha (idOf a) none := by
  cases hs : a.stage with
  | getLock =>
    refine .inl ?_
    cases reply with
    | answered =>
      simp only [Attempt.next, hs]
      split <;> rfl
    | raised applied => simp only [Attempt.next, hs]
  | getUserFails =>
    refine .inl ?_
    cases reply <;> simp only [Attempt.next, hs]
  | getIpFails n =>
    refine .inl ?_
    cases reply <;> simp only [Attempt.next, hs]
  | getdelCaptcha =>
    cases reply with
    | answered =>
      simp only [Attempt.next, hs]
      split
      · exact .inl rfl
      · exact .inr ⟨trivial, rfl⟩
    | raised applied =>
      simp only [Attempt.next, hs]
      cases applied with
      | true => exact .inr ⟨trivial, rfl⟩
      | false => exact .inl rfl
  | verifyPassword =>
    refine .inl ?_
    cases verdict <;> simp only [Attempt.next, hs]
  | ended result => exact .inl (by simp only [Attempt.next, hs])
  | _ =>
    refine .inl ?_
    simp only [Attempt.next, hs]
    apply write_captcha
    intro r
    rfl

/-- A comparison takes a captcha that was in the store out of it. -/
theorem comparison_next {c : Comparison} (s : GuardSettings) (verdict : Verdict)
    (h : comparison r i a reply = some c) :
    c.login = i ∧ r.getCaptcha c.captchaId = some c.stored ∧
      (a.next s r reply verdict).1.captcha = update r.captcha c.captchaId none := by
  cases reply with
  | raised applied => cases h
  | answered =>
    simp only [comparison] at h
    split at h
    · next hs =>
      obtain ⟨stored, hst, rfl⟩ := Option.map_eq_some_iff.1 h
      refine ⟨rfl, hst, ?_⟩
      simp only [Attempt.next, hs, hst]
      rfl
    · cases h

theorem captchaInv_start (h : Start S) : CaptchaInv s S where
  stage i a ha := by rw [h.attempts] at ha; cases ha
  stored id e he := by rw [h.captcha] at he; cases he
  gone c hc := by rw [h.compared] at hc; cases hc
  issued c hc := by rw [h.compared] at hc; cases hc
  once := by rw [h.compared]; exact List.nodup_nil

theorem stored_of_live {now : ℕ} {e : Option (Entry String)} {x : String} (h : live now e = some x) :
    ∃ e', e = some e' ∧ e'.value = x := by
  obtain ⟨e', he, hx⟩ := Option.bind_eq_some_iff.1 h
  split at hx
  · exact ⟨e', he, Option.some.inj hx⟩
  · cases hx

theorem captchaInv_step (h : CaptchaInv s S) (ha : S.attempts[i]? = some a) (reply : Reply)
    (verdict : Verdict) : CaptchaInv s { S with
      redis := (a.next s S.redis reply verdict).1
      attempts := S.attempts.set i (a.next s S.redis reply verdict).2
      compared := S.compared ++ (comparison S.redis i a reply).toList } := by
  have hcmp : ∀ c, comparison S.redis i a reply = some c →
      (c.captchaId, c.stored) ∈ S.issued ∧ ∃ e, S.redis.captcha c.captchaId = some e := by
    intro c hc
    obtain ⟨-, hst, -⟩ := comparison_next s verdict hc
    obtain ⟨e, he, hv⟩ := stored_of_live hst
    exact ⟨hv ▸ h.stored _ e he, e, he⟩
  have hkept : ∀ id e, (a.next s S.redis reply verdict).1.captcha id = some e →
      S.redis.captcha id = some e := by
    intro id e he
    rcases captcha_next s a S.redis reply verdict with hc | ⟨-, hc⟩
    · rw [hc] at he
      exact he
    · rw [hc] at he
      by_cases hid : id = idOf a
      · rw [hid, update_self] at he
        cases he
      · rw [update_of_ne hid] at he
        exact he
  refine ⟨fun j b hb ↦ ?_, fun id e he ↦ h.stored id e (hkept id e he), fun c hc ↦ ?_,
    fun c hc ↦ ?_, ?_⟩
  · have hmono : ∀ {k : ℕ} {x : Attempt}, StageInv s S k x → StageInv s { S with
        redis := (a.next s S.redis reply verdict).1
        attempts := S.attempts.set i (a.next s S.redis reply verdict).2
        compared := S.compared ++ (comparison S.redis i a reply).toList } k x :=
      fun hx ↦ hx.mono (List.subset_append_left _ _) fun _ hx ↦ hx
    rw [List.getElem?_set] at hb
    split at hb
    · next hij =>
      subst hij
      split at hb
      · cases hb
        refine stage_next (hmono (h.stage i a ha)) fun c hc ↦ ⟨?_, (hcmp c hc).1⟩
        exact List.mem_append_right _ (by rw [hc]; exact List.mem_singleton_self _)
      · cases hb
    · exact hmono (h.stage j b hb)
  · rcases List.mem_append.1 hc with hc | hc
    · have hgone := h.gone c hc
      rcases captcha_next s a S.redis reply verdict with hx | ⟨-, hx⟩
      · exact (congrFun hx _).trans hgone
      · show (a.next s S.redis reply verdict).1.captcha c.captchaId = none
        rw [hx]
        by_cases hid : c.captchaId = idOf a
        · rw [hid, update_self]
        · rw [update_of_ne hid]
          exact hgone
    · have hx := Option.mem_toList.1 hc
      obtain ⟨-, -, hdrop⟩ := comparison_next s verdict hx
      show (a.next s S.redis reply verdict).1.captcha c.captchaId = none
      rw [hdrop, update_self]
  · rcases List.mem_append.1 hc with hc | hc
    · exact h.issued c hc
    · exact (hcmp c (Option.mem_toList.1 hc)).1
  · rw [List.map_append, List.nodup_append]
    refine ⟨h.once, ?_, ?_⟩
    · cases comparison S.redis i a reply <;> simp
    · intro x hx y hy
      obtain ⟨c, hc, rfl⟩ := List.mem_map.1 hx
      obtain ⟨c', hc', rfl⟩ := List.mem_map.1 hy
      obtain ⟨-, e, he⟩ := hcmp c' (Option.mem_toList.1 hc')
      intro heq
      have hgone := h.gone c hc
      rw [heq, he] at hgone
      cases hgone

theorem captchaInv_next {label : Label} (h : CaptchaInv s S) (hn : S.next s label = some S') :
    CaptchaInv s S' := by
  cases label with
  | arrive username captchaId captchaAnswer clientIp =>
    cases hn
    refine ⟨fun i a ha ↦ ?_, h.stored, h.gone, h.issued, h.once⟩
    rw [List.getElem?_append] at ha
    split at ha
    · exact (h.stage i a ha).mono (fun _ hx ↦ hx) fun _ hx ↦ hx
    · rw [List.getElem?_singleton] at ha
      split at ha
      · cases ha
        exact ⟨rfl, rfl, rfl, rfl⟩
      · cases ha
  | step i reply verdict =>
    obtain ⟨a, ha, rfl⟩ := Option.map_eq_some_iff.1 hn
    exact captchaInv_step h ha reply verdict
  | issue captchaId x y reply =>
    simp only [State.next] at hn
    split at hn
    · cases hn
    · next hnew =>
      cases hn
      have hold : ∀ id answer, (id, answer) ∈ S.issued → id ≠ captchaId := by
        rintro id answer hm rfl
        exact hnew (.inr (List.mem_map.2 ⟨_, hm, rfl⟩))
      have hsub : S.issued ⊆ S.issued ++ [(captchaId, answerText x y)] := List.subset_append_left _ _
      have hother : ∀ id, id ≠ captchaId → (reply.write (fun r ↦ r.setexCaptcha s.authCaptchaTtlSeconds
          captchaId (answerText x y)) S.redis).captcha id = S.redis.captcha id := by
        intro id hid
        unfold Reply.write
        split
        · exact update_of_ne hid _ _
        · rfl
      refine ⟨fun i a ha ↦ (h.stage i a ha).mono (fun _ hx ↦ hx) hsub, fun id e he ↦ ?_,
        fun c hc ↦ (hother _ (hold _ _ (h.issued c hc))).trans (h.gone c hc),
        fun c hc ↦ hsub (h.issued c hc), h.once⟩
      by_cases hid : id = captchaId
      · subst hid
        unfold Reply.write at he
        split at he
        · simp only [Redis.setexCaptcha, update_self] at he
          cases he
          exact List.mem_append_right _ (List.mem_singleton_self _)
        · exact hsub (h.stored _ e he)
      · exact hsub (h.stored _ e ((hother id hid).symm.trans he))
  | tick d =>
    cases hn
    exact ⟨fun i a ha ↦ (h.stage i a ha).mono (fun _ hx ↦ hx) fun _ hx ↦ hx, h.stored, h.gone,
      h.issued, h.once⟩

theorem captchaInv_runs {P : State → Label → State → Prop} (hS : Start S) (h : Runs s P S S') :
    CaptchaInv s S' := by
  induction h with
  | refl => exact captchaInv_start hS
  | step label _ hn _ ih => exact captchaInv_next ih hn

theorem CaptchaInv.reached (h : CaptchaInv s S) (ha : S.attempts[i]? = some a) (hr : Reached a) :
    PassedReads s a ∨ NotBarred s a ∧ ∃ id, PassedCaptcha S i a id := by
  have hlate : early a.stage = false := by
    have hst := h.stage i a ha
    unfold StageInv at hst
    have hverdict : a.verdict = none → a.stage = .verifyPassword := fun hv ↦ hr.resolve_right fun hne ↦ hne hv
    split at hst
    · next he => exact absurd (hverdict hst.2.2.2) (by rw [he]; decide)
    · next he => exact absurd (hverdict hst.2.2.2) (by rw [he]; decide)
    · next he => exact absurd (hverdict hst.2.2.2.2) (by rw [he]; exact fun hc ↦ by cases hc)
    · next he => exact absurd (hverdict hst.2.1) (by rw [he]; decide)
    · next h₁ h₂ h₃ h₄ =>
      unfold early
      split
      · next he => exact absurd he h₁
      · next he => exact absurd he h₂
      · next n he => exact absurd he (h₃ n)
      · next he => exact absurd he h₄
      · rfl
  exact passed_of_late hlate (h.stage i a ha) hr

theorem CaptchaInv.eq_of_captcha (h : CaptchaInv s S) {c c' : Comparison} (hc : c ∈ S.compared)
    (hc' : c' ∈ S.compared) (he : c.captchaId = c'.captchaId) : c = c' :=
  List.inj_on_of_nodup_map h.once hc hc' he

theorem login_guard_closed (hS : Start S) (h : Runs s (fun _ _ _ ↦ True) S S') :
    (∀ i a, S'.attempts[i]? = some a → Reached a →
      PassedReads s a ∨ NotBarred s a ∧ ∃ id, PassedCaptcha S' i a id) ∧
    (∀ c ∈ S'.compared, S'.redis.captcha c.captchaId = none ∧
      ∀ j b, PassedCaptcha S' j b c.captchaId → j = c.login) ∧
    ∀ id i j a b, PassedCaptcha S' i a id → PassedCaptcha S' j b id → i = j := by
  have hinv := captchaInv_runs hS h
  have hone : ∀ c ∈ S'.compared, ∀ j b, PassedCaptcha S' j b c.captchaId → j = c.login := by
    rintro c hc j b ⟨answer, stored, -, -, hm, -, -⟩
    exact (congrArg Comparison.login (hinv.eq_of_captcha hm hc rfl))
  refine ⟨fun i a ha hr ↦ hinv.reached ha hr, fun c hc ↦ ⟨hinv.gone c hc, hone c hc⟩, ?_⟩
  rintro id i j a b hi ⟨answer, stored, -, -, hm, -, -⟩
  exact hone _ hm i a hi

/-- The read of the lock fails; the login brings the right answer to a captcha. A second one
with the same answer comes too late. -/
def twoAnswers : List Label :=
  [.issue "k" 2 4 .answered,
    .arrive "alice" (some "k") (some " 8") none, .arrive "bob" (some "k") (some "8") none,
    .step 0 (.raised false) .rejected, .step 1 (.raised false) .rejected,
    .step 0 .answered .rejected, .step 1 .answered .rejected]

theorem login_guard_closed_twoAnswers :
    ∃ S, Runs defaults (fun _ _ _ ↦ True) emptyStore S ∧
      (∃ a, S.attempts[0]? = some a ∧ Reached a ∧ PassedCaptcha S 0 a "k") ∧
      ∀ b, ¬ PassedCaptcha S 1 b "k" := by
  have hrun : ∃ S, Runs defaults (fun _ _ _ ↦ True) emptyStore S ∧
      decide ((S.attempts.map fun a ↦ (a.stage, a.seenLock)) =
        [(.verifyPassword, none), (.ended (.refused captchaRequired none), none)] ∧
        S.compared = [⟨0, "k", "8"⟩]) = true :=
    exists_runs_of_follow (fun _ _ _ ↦ true) twoAnswers (fun _ _ _ _ ↦ trivial) (by decide +kernel)
  obtain ⟨S, hS, hp⟩ := hrun
  obtain ⟨hstages, hcomp⟩ := of_decide_eq_true hp
  obtain ⟨hreach, hone, -⟩ := login_guard_closed start_emptyStore hS
  have hk : ∀ j b, PassedCaptcha S j b "k" → j = 0 :=
    (hone ⟨0, "k", "8"⟩ (by rw [hcomp]; exact List.mem_singleton_self _)).2
  have hmap := congrArg (fun l ↦ l[0]?) hstages
  rw [List.getElem?_map] at hmap
  obtain ⟨a, ha, hst⟩ := Option.map_eq_some_iff.1 hmap
  obtain ⟨hverify, hlock⟩ := Prod.mk.inj hst
  have hr : Reached a := .inl hverify
  refine ⟨S, hS, ⟨a, ha, hr, ?_⟩, fun b hb ↦ absurd (hk 1 b hb) Nat.one_ne_zero⟩
  rcases hreach 0 a ha hr with hp | ⟨-, id, hp⟩
  · have hfalse := hlock.symm.trans hp.1
    cases hfalse
  · have hp' := hp
    obtain ⟨answer, stored, -, -, hm, -, -⟩ := hp
    rw [hcomp, List.mem_singleton] at hm
    obtain rfl : id = "k" := congrArg Comparison.captchaId hm
    exact hp'

end AdminPlatform.Auth.CaptchaOnce
