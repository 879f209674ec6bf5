import AdminPlatform.Model.Service
import Mathlib.Data.List.Sort

namespace AdminPlatform.Auth.RefreshService

open Model.Schema Model.Service Foundation.Relational Foundation.Transaction

/-- The plain text `rt_<jti>.<secret>`; a string of another shape is `none` below. -/
structure RawToken where
  jti : ℕ
  secret : ℕ
  deriving DecidableEq, Repr

structure IssuedRefresh where
  token : RawToken
  jti : ℕ
  expiresIn : ℤ
  familyId : ℕ
  deriving DecidableEq, Repr

structure RotationResult where
  refresh : IssuedRefresh
  userId : ℕ
  deriving DecidableEq, Repr

def _REFRESH_USER_LOCK_BUCKETS : ℕ := 4096

def refreshUserLockName (userId : ℕ) : LockName :=
  .refreshUser (userId % _REFRESH_USER_LOCK_BUCKETS)

def hashRefreshSecret (s : Settings) (secret : ℕ) : Call TokenHash :=
  if s.authRefreshTokenPepper = "" then .fail .tokenConfig
  else pure ⟨s.authRefreshTokenPepper, secret⟩

def verifyRefreshSecret (s : Settings) (secret : ℕ) (tokenHash : TokenHash) : Call Bool := do
  let h ← hashRefreshSecret s secret
  pure (decide (h = tokenHash))

def generateRefreshToken (s : Settings) : Call (RawToken × TokenHash) := do
  let jti ← uuid4
  let secret ← uuid4
  let tokenHash ← hashRefreshSecret s secret
  pure (⟨jti, secret⟩, tokenHash)

namespace RefreshTokenRepository

def acquireUserLock (userId : ℕ) : Call Unit := acquireTransactionLock (refreshUserLockName userId)

/-- `INSERT`; the foreign key takes a shared lock on the user's row. -/
def create (row : RefreshToken) : Call Unit :=
  .query fun v ↦
    match v.db.rows .users row.userId with
    | none => .error .integrity
    | some _ => .ok ({
        locks := [(.row .users row.userId, .shared)]
        fresh := 1
        writes := [⟨.refreshTokens, v.next, some row⟩]
        notes := [.minted row.jti row.userId, .issued row.familyId row.userId] }, ())

def findByJti (db : Db) (jti : ℕ) : Option (ℕ × RefreshToken) :=
  (db.select .refreshTokens fun _ (r : RefreshToken) ↦ decide (r.jti = jti)).head?

def getByJtiForUpdate (jti : ℕ) : Call (Option (ℕ × RefreshToken)) :=
  .query fun v ↦
    match findByJti v.db jti with
    | none => .ok ({}, none)
    | some x => .ok ({ locks := [(.row .refreshTokens x.1, .exclusive)] }, some x)

def getUserIdByJti (jti : ℕ) : Call (Option ℕ) :=
  .read fun v ↦ (findByJti v.db jti).map fun x ↦ x.2.userId

def rotatedRow (newJti now : ℕ) (r : RefreshToken) : RefreshToken :=
  { r with
    rotatedToJti := some newJti, revokedAt := some now,
    revokedReason := some .rotated, lastUsedAt := some now }

/-- The flush of the changed columns; an `UPDATE` that meets no row fails. -/
def markRotated (id newJti now : ℕ) : Call Unit :=
  .query fun v ↦
    match v.db.rows .refreshTokens id with
    | none => .error .staleData
    | some r => .ok ({
        writes := [⟨.refreshTokens, id, some (rotatedRow newJti now r)⟩]
        notes := [.rotated id r.familyId] }, ())

def inFamily (familyId : ℕ) (r : RefreshToken) : Bool :=
  decide (r.familyId = familyId) && r.revokedAt.isNone

def revokedRow (reason : RevokedReason) (now : ℕ) (r : RefreshToken) : RefreshToken :=
  { r with revokedAt := some now, revokedReason := some reason }

def revokeFamily (familyId : ℕ) (reason : RevokedReason) (now : ℕ) : Call ℕ :=
  .query fun v ↦
    let writes := v.db.update .refreshTokens (fun _ r ↦ inFamily familyId r) (revokedRow reason now)
    .ok ({ writes := writes, notes := [.revoked familyId reason] }, writes.length)

def isActive (userId now : ℕ) (r : RefreshToken) : Bool :=
  decide (r.userId = userId) && r.revokedAt.isNone && decide (now < r.expiresAt)

def byRecency (rows : List (ℕ × RefreshToken)) : List ℕ :=
  let recent (f : ℕ) : ℕ := ((rows.filter fun x ↦ x.2.familyId = f).map fun x ↦ x.2.issuedAt).max?.getD 0
  let recentId (f : ℕ) : ℕ := ((rows.filter fun x ↦ x.2.familyId = f).map fun x ↦ x.1).max?.getD 0
  (rows.map fun x ↦ x.2.familyId).dedup.insertionSort fun f g ↦
    recent g < recent f ∨ recent f = recent g ∧ recentId g ≤ recentId f

def listActiveFamilies (userId now : ℕ) : Call (List ℕ) :=
  .read fun v ↦ byRecency (v.db.select .refreshTokens fun _ r ↦ isActive userId now r)

def deleteExpired (before : Option ℕ) : Call ℕ :=
  .query fun v ↦
    let writes := v.db.delete .refreshTokens fun _ (r : RefreshToken) ↦
      decide (r.expiresAt ≤ before.getD v.now)
    .ok ({ writes := writes }, writes.length)

end RefreshTokenRepository

open RefreshTokenRepository

def issueRefreshToken (s : Settings) (userId : ℕ) (familyId familyAbsoluteAt : Option ℕ) :
    Call IssuedRefresh := do
  let now ← now
  let fam ← match familyId with
    | some f => pure f
    | none => uuid4
  let familyAbsolute := familyAbsoluteAt.getD (now + s.authRefreshAbsoluteTtlSeconds)
  let expiresAt := min (now + s.authRefreshIdleTtlSeconds) familyAbsolute
  let (token, tokenHash) ← generateRefreshToken s
  create {
    jti := token.jti
    familyId := fam
    userId := userId
    tokenHash := tokenHash
    issuedAt := now
    expiresAt := expiresAt
    familyAbsoluteAt := familyAbsolute }
  pure { token := token, jti := token.jti, expiresIn := (expiresAt : ℤ) - now, familyId := fam }

def enforceConcurrencyLimit (s : Settings) (userId : ℕ) : Call Unit := do
  let now ← now
  let families ← listActiveFamilies userId now
  (families.drop s.authRefreshMaxSessionsPerUser).forM fun fam ↦ do
    let _ ← revokeFamily fam .concurrencyLimit now
    pure ()

def issueLoginRefresh (s : Settings) (userId : ℕ) : Call IssuedRefresh := do
  acquireUserLock userId
  let issued ← issueRefreshToken s userId none none
  enforceConcurrencyLimit s userId
  pure issued

def invalid : AppError where
  code := "auth.REFRESH_TOKEN_INVALID"
  title := "Refresh token invalid"
  detail := some "refresh token 无效或已过期，请重新登录"
  statusCode := 401

def reused : AppError where
  code := "auth.REFRESH_TOKEN_REUSED"
  title := "Refresh token reused"
  detail := some "refresh token 重复使用，该会话已全部失效，请重新登录"
  statusCode := 401

def wasReused (row : RefreshToken) : Bool :=
  row.rotatedToJti.isSome || decide (row.revokedReason = some .reuseDetected)

/-- From the locked row on. The clock was read before the locks were taken. -/
def rotateLocked (s : Settings) (now secret id : ℕ) (row : RefreshToken) : Call RotationResult := do
  if !(← verifyRefreshSecret s secret row.tokenHash) then
    raise invalid
  else if wasReused row then do
    let _ ← revokeFamily row.familyId .reuseDetected now
    raise reused
  else if row.revokedAt.isSome || decide (row.expiresAt ≤ now) then
    raise invalid
  else if row.familyAbsoluteAt ≤ now then
    raise invalid
  else do
    let new ← issueRefreshToken s row.userId (some row.familyId) (some row.familyAbsoluteAt)
    markRotated id new.jti now
    pure { refresh := new, userId := row.userId }

def rotateRefreshToken (s : Settings) : Option RawToken → Call RotationResult
  | none => raise invalid
  | some ⟨jti, secret⟩ => do
    let now ← now
    match ← getUserIdByJti jti with
    | none => raise invalid
    | some userId =>
      acquireUserLock userId
      match ← getByJtiForUpdate jti with
      | none => raise invalid
      | some (id, row) => rotateLocked s now secret id row

def revokeRefreshToken (s : Settings) : Option RawToken → Call Bool
  | none => pure false
  | some ⟨jti, secret⟩ => do
    match ← getUserIdByJti jti with
    | none => pure false
    | some userId =>
      acquireUserLock userId
      match ← getByJtiForUpdate jti with
      | none => pure false
      | some (_, row) =>
        if !(← verifyRefreshSecret s secret row.tokenHash) then
          pure false
        else
          let now ← now
          let _ ← revokeFamily row.familyId .logout now
          pure true

end AdminPlatform.Auth.RefreshService
