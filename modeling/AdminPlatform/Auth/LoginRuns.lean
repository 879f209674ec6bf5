import AdminPlatform.Auth.LoginGuard

namespace AdminPlatform.Auth.LoginRuns

open Model.Service LoginGuard

/-- A comparison: the login, the captcha and the answer its `GETDEL` returned. -/
structure Comparison where
  login : ℕ
  captchaId : String
  stored : String
  deriving DecidableEq

/-- The store, the logins so far, and what has been issued and compared. -/
structure State where
  redis : Redis
  attempts : List Attempt
  issued : List (String × String)
  compared : List Comparison

abbrev _MAX_OPERAND : ℕ := 9

inductive Label
  | arrive (username : String) (captchaId captchaAnswer clientIp : Option String)
  | step (i : ℕ) (reply : Reply) (verdict : Verdict)
  | issue (captchaId : String) (x y : Fin _MAX_OPERAND) (reply : Reply)
  | tick (d : ℕ)

/-- What a `GETDEL` about to run returns, if it answers. -/
def comparison (r : Redis) (i : ℕ) (a : Attempt) : Reply → Option Comparison
  | .answered =>
    if a.stage = .getdelCaptcha then
      (r.getCaptcha ((given a.captchaId).getD "")).map (⟨i, (given a.captchaId).getD "", ·⟩)
    else none
  | .raised _ => none

def answerText (x y : Fin _MAX_OPERAND) : String := toString (x.val + 1 + (y.val + 1))

/-- A captcha is issued under an id that has not been issued before. -/
def State.next (s : GuardSettings) (S : State) : Label → Option State
  | .arrive username captchaId captchaAnswer clientIp =>
    some { S with attempts := S.attempts ++ [{
      username := username
      captchaId := captchaId
      captchaAnswer := captchaAnswer
      clientIp := clientIp }] }
  | .step i reply verdict =>
    (S.attempts[i]?).map fun a ↦ { S with
      redis := (a.next s S.redis reply verdict).1
      attempts := S.attempts.set i (a.next s S.redis reply verdict).2
      compared := S.compared ++ (comparison S.redis i a reply).toList }
  | .issue captchaId x y reply =>
    if captchaId = "" ∨ captchaId ∈ S.issued.map Prod.fst then none
    else some { S with
      redis := reply.write (fun r ↦ r.setexCaptcha s.authCaptchaTtlSeconds captchaId (answerText x y))
        S.redis
      issued := S.issued ++ [(captchaId, answerText x y)] }
  | .tick d => some { S with redis := { S.redis with now := S.redis.now + d } }

/-- The states a run reaches through steps with the property `P`. -/
inductive Runs (s : GuardSettings) (P : State → Label → State → Prop) (S : State) : State → Prop
  | refl : Runs s P S S
  | step {S' S'' : State} (label : Label) : Runs s P S S' → S'.next s label = some S'' →
      P S' label S'' → Runs s P S S''

def State.follow (s : GuardSettings) (check : State → Label → State → Bool) (S : State) :
    List Label → Option State
  | [] => some S
  | a :: as => (S.next s a).bind fun S' ↦ if check S a S' then S'.follow s check as else none

theorem runs_follow {s : GuardSettings} {P : State → Label → State → Prop}
    {check : State → Label → State → Bool} {S S' S'' : State} {as : List Label}
    (hP : ∀ S a S', check S a S' = true → P S a S') (h : Runs s P S S')
    (hf : S'.follow s check as = some S'') : Runs s P S S'' := by
  induction as generalizing S' with
  | nil =>
    cases hf
    exact h
  | cons a as ih =>
    obtain ⟨S₁, h₁, h₂⟩ := Option.bind_eq_some_iff.1 hf
    split at h₂
    · next hc => exact ih (.step a h h₁ (hP _ _ _ hc)) h₂
    · cases h₂

/-- A schedule that ends in a state with property `p` is a run to such a state. -/
theorem exists_runs_of_follow {s : GuardSettings} {P : State → Label → State → Prop} {S : State}
    {p : State → Bool} (check : State → Label → State → Bool) (as : List Label)
    (hP : ∀ S a S', check S a S' = true → P S a S') (h : (S.follow s check as).any p = true) :
    ∃ S', Runs s P S S' ∧ p S' = true := by
  obtain ⟨S', hS, hp⟩ := (Option.any_eq_true _ _).1 h
  exact ⟨S', runs_follow hP .refl hS, hp⟩

/-- Where runs start: no login and no captcha yet, the counters and locks as they may be. -/
structure Start (S : State) : Prop where
  attempts : S.attempts = []
  issued : S.issued = []
  compared : S.compared = []
  captcha : ∀ id, S.redis.captcha id = none

/-- The default settings. -/
def defaults : GuardSettings where
  authCaptchaTtlSeconds := 120
  authLoginFailWindowSeconds := 600
  authLoginCaptchaThreshold := 3
  authLoginLockThreshold := 5
  authLoginLockSeconds := 600
  authLoginIpLimit := 30
  captchaTtl_ge := by decide
  failWindow_ge := by decide
  captchaThreshold_ge := by decide
  lockThreshold_ge := by decide
  lockSeconds_ge := by decide
  ipLimit_ge := by decide

def emptyStore : State where
  redis := ⟨0, fun _ ↦ none, fun _ ↦ none, fun _ ↦ none, fun _ ↦ none⟩
  attempts := []
  issued := []
  compared := []

theorem start_emptyStore : Start emptyStore := ⟨rfl, rfl, rfl, fun _ ↦ rfl⟩

end AdminPlatform.Auth.LoginRuns
