import AdminPlatform.Auth.AccountServices

namespace AdminPlatform.Auth.AccountSystem

open Model.Schema Model.Service Model.Scope Foundation.Relational Foundation.Transaction
open Foundation.Interleaving Foundation.RelyGuarantee RefreshService RefreshTokenRepository
open TokenInvariant TokenTransaction AccountServices Service
open User.Service (UserCreate UserUpdate)

/-- The calls that touch users and refresh tokens. -/
inductive AccountOp
  | login (guard : Except AppError Unit) (username password : String)
  | refresh (raw : Option RawToken)
  | logout (raw : Option RawToken)
  | changePassword (userId : ℕ) (oldPassword newPassword : String)
  | forceLogout (sessionId : ℕ)
  | deleteExpired (before : Option ℕ)
  | issueLoginRefresh (userId : ℕ)
  | rotateRefreshToken (raw : Option RawToken)
  | createUser (payload : UserCreate) (scope : Option DataScope)
  | updateUser (userId : ℕ) (payload : UserUpdate) (scope : Option DataScope)
  | deleteUser (userId : ℕ) (scope : Option DataScope)

def ended {α : Type} (p : Call α) : Call Unit := p >>= fun _ ↦ pure ()

def AccountOp.call (s : Settings) : AccountOp → Call Unit
  | .login guard username password => ended (Service.login s guard username password)
  | .refresh raw => ended (Service.refresh s raw)
  | .logout raw => Service.logout s raw
  | .changePassword userId old new => ended (Service.changePassword s userId old new)
  | .forceLogout sessionId => ended (getSession (Service.forceLogout sessionId))
  | .deleteExpired before => ended (getSession (RefreshTokenRepository.deleteExpired before))
  | .issueLoginRefresh userId => ended (getSession (RefreshService.issueLoginRefresh s userId))
  | .rotateRefreshToken raw => ended (getSession (RefreshService.rotateRefreshToken s raw))
  | .createUser payload scope => ended (getSession (User.Service.create payload scope))
  | .updateUser userId payload scope =>
    ended (getSession (User.Service.update userId payload scope))
  | .deleteUser userId scope => getSession (User.Service.delete userId scope)

structure Start (w : Shared) : Prop where
  tokens : ∀ i, w.db.rows .refreshTokens i = none
  log : w.log = []
  users : ∀ i (x : User), w.db.rows .users i = some x → i < w.next ∧ x.passwordHash.salt < w.next

variable {s : Settings} {strict : Prop} {G : Guard Table Row LockName Storage Note} {w : Shared}
  {S : State Table Row LockName Storage Note Failure Unit}

theorem Start.tokenInv (h : Start w) : TokenInv w where
  below u hu := by
    have hno := h.tokens
    have hl := h.log
    cases hu with
    | userId x hx => exact (h.users u x hx).1
    | salt i x hx he => exact he ▸ (h.users i x hx).2
    | _ => simp_all
  jti_inj i _ _ _ hr := by rw [h.tokens i] at hr; cases hr
  minted i _ hr := by rw [h.tokens i] at hr; cases hr
  minted_fun _ _ _ hm := by rw [h.log] at hm; cases hm
  issued i _ hr := by rw [h.tokens i] at hr; cases hr
  owner i _ hr := by rw [h.tokens i] at hr; cases hr
  issued_fun _ _ _ hm := by rw [h.log] at hm; cases hm
  granted_issued _ _ _ hm := by rw [h.log] at hm; cases hm
  rotated_revoked i _ hr := by rw [h.tokens i] at hr; cases hr
  one_end i _ _ _ hr := by rw [h.tokens i] at hr; cases hr
  link_inj i _ _ _ _ hr := by rw [h.tokens i] at hr; cases hr
  link i _ _ _ hr := by rw [h.tokens i] at hr; cases hr
  target i _ _ hr := by rw [h.tokens i] at hr; cases hr
  revoked _ _ hm := by rw [h.log] at hm; cases hm
  final := by rw [h.log]; exact .nil

theorem Start.passwordInv (h : Start w) : PasswordInv s w where
  stale _ _ _ _ _ hm := by rw [h.log] at hm; cases hm
  retired _ _ _ _ _ hm := by rw [h.log] at hm; cases hm
  fresher := by rw [h.log]; exact .nil

theorem Start.lifetimeInv (h : Start w) : LifetimeInv s w where
  issued i _ hr := by rw [h.tokens i] at hr; cases hr
  expires i _ hr := by rw [h.tokens i] at hr; cases hr
  window i _ hr := by rw [h.tokens i] at hr; cases hr
  unused i _ hr := by rw [h.tokens i] at hr; cases hr
  followed i _ _ _ hr := by rw [h.tokens i] at hr; cases hr

theorem Start.inv (h : Start w) : (tokenProtocol s strict).inv w :=
  ⟨h.tokenInv, fun _ ↦ h.passwordInv, h.lifetimeInv⟩

theorem safe_ended {α : Type} {p : Call α} {l : Private}
    (h : safe (tokenProtocol s strict) G p l w) : safe (tokenProtocol s strict) G (ended p) l w :=
  wp_bind (wp_mono (fun _ _ _ _ ↦ trivial) (fun _ _ _ _ ↦ trivial) h)

theorem safe_call (hG : strict → ∀ w notes, G.commit w notes → PasswordGuard w notes)
    (op : AccountOp) (w : Shared) (hinv : (tokenProtocol s strict).inv w) :
    safe (tokenProtocol s strict) G (op.call s) {} w := by
  cases op with
  | login guard username password => exact safe_ended (safe_login hG)
  | refresh raw => exact safe_ended (safe_refresh hG raw)
  | logout raw => exact safe_logout hG hinv raw
  | changePassword userId old new => exact safe_ended (safe_changePassword hG userId old new)
  | forceLogout sessionId => exact safe_ended (safe_forceLogout hG sessionId)
  | deleteExpired before => exact safe_ended (safe_deleteExpired hG before)
  | issueLoginRefresh userId => exact safe_ended (safe_issueLoginRefresh hG userId)
  | rotateRefreshToken raw => exact safe_ended (safe_rotateRefreshToken hG raw)
  | createUser payload scope => exact safe_ended (safe_createUser hG payload scope)
  | updateUser userId payload scope => exact safe_ended (safe_updateUser hG userId payload scope)
  | deleteUser userId scope => exact safe_deleteUser hG userId scope

theorem sound_tokens (hw : Start w) (h : Reach (AccountOp.call s) .crash .free w S) :
    Sound (tokenProtocol s False) .free S :=
  sound_of_reach (safe_call fun hs ↦ hs.elim) hw.inv h

theorem tokenInv_of_reach (hw : Start w)
    (h : Reach (AccountOp.call s) .crash Guard.free w S) : TokenInv S.world :=
  (sound_tokens hw h).inv.1

theorem lifetimeInv_of_reach (hw : Start w) (h : Reach (AccountOp.call s) .crash .free w S) :
    LifetimeInv s S.world :=
  (sound_tokens hw h).inv.2.2

theorem tokenChange_of_step {label : Label AccountOp}
    {S' : State Table Row LockName Storage Note Failure Unit} (hw : Start w)
    (h : Reach (AccountOp.call s) .crash .free w S)
    (hn : S.next (AccountOp.call s) .crash label = some S') : TokenChange s S.world S'.world :=
  (sound_tokens hw h).across (R := TokenChange s) (fun _ _ _ _ _ hm ↦ hm.change)
    (admits_free S label) hn

theorem tokenGuar_of_continues {S' : State Table Row LockName Storage Note Failure Unit}
    (hw : Start w) (h : Reach (AccountOp.call s) .crash .free w S)
    (hc : Continues (AccountOp.call s) .crash .free S S') : TokenGuar S.world S'.world :=
  (guar_of_continues (safe_call fun hs ↦ hs.elim) (sound_tokens hw h) hc).2

theorem passwordInv_of_reach (hw : Start w)
    (h : Reach (AccountOp.call s) .crash ⟨fun _ _ ↦ True, PasswordGuard⟩ w S) :
    TokenInv S.world ∧ PasswordInv s S.world := by
  have hinv := (sound_of_reach (P := tokenProtocol s True) (safe_call fun _ _ _ h ↦ h) hw.inv h).inv
  exact ⟨hinv.1, hinv.2.1 trivial⟩

end AdminPlatform.Auth.AccountSystem
