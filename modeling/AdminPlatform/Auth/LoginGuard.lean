import AdminPlatform.Auth.Service
import Mathlib.Logic.Function.Basic

namespace AdminPlatform.Auth.LoginGuard

open Model.Service Function

/-- The settings of the guard, with the bounds their fields are declared with. -/
structure GuardSettings where
  authCaptchaTtlSeconds : ℕ
  authLoginFailWindowSeconds : ℕ
  authLoginCaptchaThreshold : ℕ
  authLoginLockThreshold : ℕ
  authLoginLockSeconds : ℕ
  authLoginIpLimit : ℕ
  captchaTtl_ge : 30 ≤ authCaptchaTtlSeconds
  failWindow_ge : 60 ≤ authLoginFailWindowSeconds
  captchaThreshold_ge : 1 ≤ authLoginCaptchaThreshold
  lockThreshold_ge : 1 ≤ authLoginLockThreshold
  lockSeconds_ge : 60 ≤ authLoginLockSeconds
  ipLimit_ge : 1 ≤ authLoginIpLimit

structure Entry (α : Type) where
  value : α
  expiresAt : Option ℕ
  deriving DecidableEq

variable {α : Type}

def live (now : ℕ) (e : Option (Entry α)) : Option α :=
  e.bind fun x ↦ if x.expiresAt.all fun t ↦ decide (now < t) then some x.value else none

/-- `INCR`: a missing counter starts without an expiry. -/
def incr (now : ℕ) (e : Option (Entry ℕ)) : Entry ℕ :=
  match live now e with
  | none => ⟨1, none⟩
  | some n => ⟨n + 1, e.bind Entry.expiresAt⟩

/-- `EXPIRE`: nothing happens to a missing key. -/
def expire (now window : ℕ) (e : Option (Entry α)) : Option (Entry α) :=
  match live now e with
  | none => e
  | some x => some ⟨x, some (now + window)⟩

/-- The keys of the guard, in seconds. A lock has no content but its presence. -/
structure Redis where
  now : ℕ
  failUser : String → Option (Entry ℕ)
  failIp : String → Option (Entry ℕ)
  lockUser : String → Option (Entry Unit)
  captcha : String → Option (Entry String)

/-- How a Redis call ends. One that raises may still have been carried out. -/
inductive Reply
  | answered
  | raised (applied : Bool)
  deriving DecidableEq

def Reply.applied : Reply → Bool
  | .answered => true
  | .raised a => a

/-- The outcome of the part of a login that checks the password and issues the tokens. -/
inductive Verdict
  | passed
  | rejected
  | crashed
  deriving DecidableEq

inductive Result
  | refused (e : AppError) (retryAfter : Option ℕ)
  | loggedIn
  | crashed
  deriving DecidableEq

/-- The next thing a login does. -/
inductive Stage
  | getLock
  | getUserFails
  | getIpFails (userFails : ℕ)
  | getdelCaptcha
  | verifyPassword
  | incrUser
  | expireUser (userFails : ℕ)
  | incrIp (userFails : ℕ)
  | expireIp (userFails : ℕ)
  | setexLock
  | deleteFails
  | deleteLock
  | ended (result : Result)
  deriving DecidableEq

/-- A login, with what its reads have answered so far. -/
structure Attempt where
  username : String
  captchaId : Option String := none
  captchaAnswer : Option String := none
  clientIp : Option String := none
  stage : Stage := .getLock
  seenLock : Option Bool := none
  seenUserFails : Option ℕ := none
  seenIpFails : Option ℕ := none
  taken : Option String := none
  verdict : Option Verdict := none
  deriving DecidableEq

def loginRateLimited : AppError where
  code := "auth.LOGIN_RATE_LIMITED"
  title := "Too many attempts"
  detail := some "请求过于频繁，请稍后再试"
  statusCode := 429

def captchaRequired : AppError where
  code := "auth.CAPTCHA_REQUIRED"
  title := "Captcha required"
  detail := some "请先通过验证码"
  statusCode := 403

def given (x : Option String) : Option String := x.filter fun s ↦ decide (s ≠ "")

def isSpace (c : Char) : Bool :=
  let n := c.toNat
  (9 ≤ n && n ≤ 13) || (28 ≤ n && n ≤ 32) || n = 0x85 || n = 0xa0 || n = 0x1680 ||
    (0x2000 ≤ n && n ≤ 0x200a) || n = 0x2028 || n = 0x2029 || n = 0x202f || n = 0x205f || n = 0x3000

def strip (s : String) : String :=
  String.ofList (((s.toList.dropWhile isSpace).reverse.dropWhile isSpace).reverse)

namespace Attempt

variable (s : GuardSettings) (a : Attempt)

def ended (result : Result) : Attempt := { a with stage := .ended result }

def failed : Attempt := a.ended (.refused Service.loginFailed none)

/-- The start of `verify_captcha`: without an id or an answer nothing is consumed. -/
def requireCaptcha : Attempt :=
  if (given a.captchaId).isSome && (given a.captchaAnswer).isSome then
    { a with stage := .getdelCaptcha }
  else a.ended (.refused captchaRequired none)

/-- The end of `pre_check`, all reads answered. -/
def decideCheck (userFails ipFails : ℕ) : Attempt :=
  if (given a.clientIp).isSome && decide (s.authLoginIpLimit ≤ ipFails) then
    a.ended (.refused loginRateLimited (some s.authLoginLockSeconds))
  else if s.authLoginCaptchaThreshold ≤ userFails then a.requireCaptcha
  else { a with stage := .verifyPassword }

/-- The end of `record_failure`. -/
def lockOrFail (userFails : ℕ) : Attempt :=
  if s.authLoginLockThreshold ≤ userFails then { a with stage := .setexLock } else a.failed

end Attempt

namespace Redis

variable (r : Redis)

def getLock (username : String) : Bool := (live r.now (r.lockUser username)).isSome

/-- `_safe_int`; the counters hold numbers only. -/
def userFails (username : String) : ℕ := (live r.now (r.failUser username)).getD 0

def ipFails (ip : String) : ℕ := (live r.now (r.failIp ip)).getD 0

def getCaptcha (id : String) : Option String := live r.now (r.captcha id)

def dropCaptcha (id : String) : Redis := { r with captcha := update r.captcha id none }

def incrUser (username : String) : Redis :=
  { r with failUser := update r.failUser username (some (incr r.now (r.failUser username))) }

def expireUser (window : ℕ) (username : String) : Redis :=
  { r with failUser := update r.failUser username (expire r.now window (r.failUser username)) }

def incrIp (ip : String) : Redis :=
  { r with failIp := update r.failIp ip (some (incr r.now (r.failIp ip))) }

def expireIp (window : ℕ) (ip : String) : Redis :=
  { r with failIp := update r.failIp ip (expire r.now window (r.failIp ip)) }

def setexLock (seconds : ℕ) (username : String) : Redis :=
  { r with lockUser := update r.lockUser username (some ⟨(), some (r.now + seconds)⟩) }

def deleteFails (username : String) : Redis :=
  { r with failUser := update r.failUser username none }

def deleteLock (username : String) : Redis :=
  { r with lockUser := update r.lockUser username none }

def setexCaptcha (seconds : ℕ) (id answer : String) : Redis :=
  { r with captcha := update r.captcha id (some ⟨answer, some (r.now + seconds)⟩) }

end Redis

/-- A write whose reply `r` was. -/
def Reply.write (reply : Reply) (f : Redis → Redis) (r : Redis) : Redis :=
  if reply.applied then f r else r

/-- One step of a login: a Redis call with its reply, or the password check. A read that
raises in `pre_check` leads to the captcha; whatever raises in `record_failure` and
`clear_on_success` ends them. -/
def Attempt.next (s : GuardSettings) (r : Redis) (a : Attempt) (reply : Reply) (verdict : Verdict) :
    Redis × Attempt :=
  match a.stage, reply with
  | .getLock, .answered =>
    if r.getLock a.username then (r, { a with seenLock := some true, stage := .incrUser })
    else (r, { a with seenLock := some false, stage := .getUserFails })
  | .getLock, .raised _ => (r, a.requireCaptcha)
  | .getUserFails, .answered =>
    let n := r.userFails a.username
    let a := { a with seenUserFails := some n }
    (r, if (given a.clientIp).isSome then { a with stage := .getIpFails n } else a.decideCheck s n 0)
  | .getUserFails, .raised _ => (r, a.requireCaptcha)
  | .getIpFails n, .answered =>
    let m := r.ipFails ((given a.clientIp).getD "")
    (r, { a with seenIpFails := some m }.decideCheck s n m)
  | .getIpFails _, .raised _ => (r, a.requireCaptcha)
  | .getdelCaptcha, .answered =>
    let id := (given a.captchaId).getD ""
    match r.getCaptcha id with
    | none => (r, a.ended (.refused captchaRequired none))
    | some stored =>
      let a := { a with taken := some stored }
      (r.dropCaptcha id, if stored = strip ((given a.captchaAnswer).getD "") then
        { a with stage := .verifyPassword } else a.ended (.refused captchaRequired none))
  | .getdelCaptcha, .raised _ =>
    (reply.write (fun r ↦ r.dropCaptcha ((given a.captchaId).getD "")) r,
      a.ended (.refused captchaRequired none))
  | .verifyPassword, _ =>
    let a := { a with verdict := some verdict }
    match verdict with
    | .passed => (r, { a with stage := .deleteFails })
    | .rejected => (r, { a with stage := .incrUser })
    | .crashed => (r, a.ended .crashed)
  | .incrUser, _ =>
    let r := reply.write (fun r ↦ r.incrUser a.username) r
    (r, if reply = .answered then { a with stage := .expireUser (r.userFails a.username) }
      else a.failed)
  | .expireUser n, _ =>
    (reply.write (fun r ↦ r.expireUser s.authLoginFailWindowSeconds a.username) r,
      if reply = .answered then
        if (given a.clientIp).isSome then { a with stage := .incrIp n } else a.lockOrFail s n
      else a.failed)
  | .incrIp n, _ =>
    (reply.write (fun r ↦ r.incrIp ((given a.clientIp).getD "")) r,
      if reply = .answered then { a with stage := .expireIp n } else a.failed)
  | .expireIp n, _ =>
    (reply.write (fun r ↦ r.expireIp s.authLoginFailWindowSeconds ((given a.clientIp).getD "")) r,
      if reply = .answered then a.lockOrFail s n else a.failed)
  | .setexLock, _ =>
    (reply.write (fun r ↦ r.setexLock s.authLoginLockSeconds a.username) r, a.failed)
  | .deleteFails, _ =>
    (reply.write (fun r ↦ r.deleteFails a.username) r,
      if reply = .answered then { a with stage := .deleteLock } else a.ended .loggedIn)
  | .deleteLock, _ => (reply.write (fun r ↦ r.deleteLock a.username) r, a.ended .loggedIn)
  | .ended _, _ => (r, a)

end AdminPlatform.Auth.LoginGuard
