import AdminPlatform.Auth.RefreshService
import AdminPlatform.User.Service

namespace AdminPlatform.Auth.Service

open Model.Schema Model.Service Model.Scope Foundation.Relational Foundation.Transaction
open RefreshService RefreshTokenRepository
open User.Service (verifyPassword hashPassword)

structure AccessToken where
  userId : ℕ
  username : String
  deriving DecidableEq, Repr

structure LoginResponse where
  accessToken : AccessToken
  expiresIn : ℕ
  refreshToken : Option RawToken
  refreshExpiresIn : Option ℤ
  deriving DecidableEq, Repr

def issueAccessToken (s : Settings) (userId : ℕ) (username : String) : Call AccessToken :=
  if s.authJwtSecret = "" then .fail .tokenConfig else pure ⟨userId, username⟩

def loginFailed : AppError where
  code := "auth.LOGIN_FAILED"
  title := "Login failed"
  statusCode := 401

def passwordIncorrect : AppError where
  code := "auth.PASSWORD_INCORRECT"
  title := "Current password incorrect"
  detail := some "当前密码不正确"
  statusCode := 400

def passwordTooWeak (detail : String) : AppError where
  code := "auth.PASSWORD_TOO_WEAK"
  title := "Weak password"
  detail := some detail
  statusCode := 422

def response (s : Settings) (access : AccessToken) (issued : Option IssuedRefresh) :
    LoginResponse where
  accessToken := access
  expiresIn := s.authAccessTokenTtlSeconds
  refreshToken := issued.map IssuedRefresh.token
  refreshExpiresIn := issued.map IssuedRefresh.expiresIn

/-- The database part of a login: `none` when it is refused. -/
def loginSession (s : Settings) (username password : String) :
    Call (Option (AccessToken × Option IssuedRefresh)) := do
  match ← User.Service.UserRepository.findByUsername username with
  | none => pure none
  | some (id, user) =>
    if user.status = .active && verifyPassword password user.passwordHash then
      mark (.loginVerified id user.passwordHash)
      let token ← issueAccessToken s id user.username
      if s.authRefreshTokenPepper = "" then
        pure (some (token, none))
      else
        let issued ← issueLoginRefresh s id
        mark (.granted issued.familyId id user.passwordHash)
        pure (some (token, some issued))
    else
      pure none

/-- `guard` is the verdict of the rate limit, the account lock and the captcha. -/
def login (s : Settings) (guard : Except AppError Unit) (username password : String) :
    Call LoginResponse := do
  match guard with
  | .error e => raise e
  | .ok () =>
    let r ← loginSession s username password
    .save
    match r with
    | none => raise loginFailed
    | some (token, issued) => pure (response s token issued)

def refreshSession (s : Settings) (rawToken : Option RawToken) : Call LoginResponse := do
  let result ← rotateRefreshToken s rawToken
  match ← User.Service.UserRepository.get result.userId with
  | none =>
    let _ ← revokeRefreshToken s rawToken
    raise loginFailed
  | some user =>
    if user.status = .active then
      let access ← issueAccessToken s result.userId user.username
      pure (response s access (some result.refresh))
    else
      let _ ← revokeRefreshToken s rawToken
      raise loginFailed

/-- Business errors are caught inside the transaction, so that what was done before them
is committed, and raised again after the commit. -/
def committing {α : Type} (p : Call α) : Call α := do
  let r ← caught p
  .save
  match r with
  | .error e => raise e
  | .ok a => pure a

def refresh (s : Settings) (rawToken : Option RawToken) : Call LoginResponse :=
  committing (refreshSession s rawToken)

def logout (s : Settings) (rawToken : Option RawToken) : Call Unit := do
  let _ ← revokeRefreshToken s rawToken
  .save

def validateNewPassword (newPassword username oldPassword : String) : Call Unit :=
  if newPassword = username then raise (passwordTooWeak "新密码不能与用户名相同")
  else if newPassword = oldPassword then raise (passwordTooWeak "新密码不能与原密码相同")
  else pure ()

/-- `user.password_hash = …; flush()`. -/
def setPasswordHash (userId : ℕ) (h : PasswordHash) : Call Unit :=
  .query fun v ↦
    match v.db.rows .users userId with
    | none => .error .staleData
    | some u => .ok ({
        writes := [⟨.users, userId, some { u with passwordHash := h }⟩]
        notes := [.passwordReplaced userId .changePassword u.passwordHash h] }, ())

/-- Ends every session of the user and opens one on the new password. -/
def reissue (s : Settings) (userId : ℕ) (passwordHash : PasswordHash) : Call IssuedRefresh := do
  acquireUserLock userId
  let now ← now
  (← listActiveFamilies userId now).forM fun familyId ↦ do
    let _ ← revokeFamily familyId .passwordChanged now
    pure ()
  let issued ← issueRefreshToken s userId none none
  mark (.granted issued.familyId userId passwordHash)
  pure issued

def changePasswordSession (s : Settings) (userId : ℕ) (oldPassword newPassword : String) :
    Call LoginResponse := do
  match ← User.Service.UserRepository.get userId with
  | none => raise loginFailed
  | some user =>
    if user.status ≠ .active then
      raise loginFailed
    else if !verifyPassword oldPassword user.passwordHash then
      raise passwordIncorrect
    else
      validateNewPassword newPassword user.username oldPassword
      let passwordHash ← hashPassword newPassword
      setPasswordHash userId passwordHash
      let access ← issueAccessToken s userId user.username
      if s.authRefreshTokenPepper = "" then
        pure (response s access none)
      else
        pure (response s access (some (← reissue s userId passwordHash)))

def changePassword (s : Settings) (userId : ℕ) (oldPassword newPassword : String) :
    Call LoginResponse :=
  committing (changePasswordSession s userId oldPassword newPassword)

def getOnlineSession (sessionId now : ℕ) : Call (Option (ℕ × String)) :=
  .read fun v ↦
    let rows := v.db.select .refreshTokens fun _ (r : RefreshToken) ↦ decide (r.familyId = sessionId)
    if rows.any fun x ↦ x.2.revokedAt.isNone && decide (now < x.2.expiresAt) then
      (rows.filterMap fun x ↦
        (v.db.rows .users x.2.userId).map fun u ↦ (x.2.userId, User.username u)).head?
    else none

def onlineNotFound : AppError where
  code := "monitor.ONLINE_SESSION_NOT_FOUND"
  title := "Online session not found"
  statusCode := 404

def forceLogout (sessionId : ℕ) : Call String := do
  let now ← now
  match ← getOnlineSession sessionId now with
  | none => raise onlineNotFound
  | some (userId, username) =>
    acquireUserLock userId
    let _ ← revokeFamily sessionId .forcedLogout now
    pure username

end AdminPlatform.Auth.Service
