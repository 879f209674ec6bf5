import Mathlib.Data.Nat.Notation

namespace AdminPlatform.Frontend.ApiSession

structure Tokens where
  accessToken : String
  refreshToken : String
  deriving DecidableEq, Repr

inductive Settlement
  | resolved (accessToken : String)
  | rejected
  deriving DecidableEq, Repr

/-- What `refreshOnce` returns: the refresh token that went out with the request, if one went
out, and how the promise has settled. -/
structure Flight where
  request : Option String
  settlement : Option Settlement
  deriving DecidableEq, Repr

/-- The variables of the module, the stored refresh token, every promise it has made, and how
often it has signalled that the session is over. -/
structure Session where
  accessToken : Option String := none
  refreshToken : Option String := none
  inflight : Option ℕ := none
  flights : List Flight := []
  expired : ℕ := 0
  deriving DecidableEq, Repr

/-- `!value` is false. -/
def truthy (value : Option String) : Bool := value.any fun s ↦ decide (s ≠ "")

namespace Session

variable (s : Session)

def setTokens (tokens : Tokens) : Session :=
  { s with accessToken := some tokens.accessToken, refreshToken := some tokens.refreshToken }

def clearTokens : Session := { s with accessToken := none, refreshToken := none }

def emitSessionExpired : Session := { s with expired := s.expired + 1 }

def hasRefresh : Bool := truthy s.refreshToken

def pending (p : ℕ) : Bool := s.flights[p]?.any fun f ↦ f.settlement.isNone

/-- The answer to the request of a promise: the `try`, `catch` and `finally` after the `await`. -/
def settle (p : ℕ) (response : Option Tokens) : Session :=
  if s.pending p then
    match response with
    | some tokens => { s.setTokens tokens with
        inflight := none
        flights := s.flights.modify p fun f ↦ { f with settlement := some (.resolved tokens.accessToken) } }
    | none => { s.clearTokens.emitSessionExpired with
        inflight := none
        flights := s.flights.modify p fun f ↦ { f with settlement := some .rejected } }
  else s

/-- The body of the asynchronous function up to its first `await`. Without a refresh token it
runs to its end. -/
def startFlight : Session :=
  if truthy s.refreshToken then { s with flights := s.flights ++ [⟨s.refreshToken, none⟩] }
  else { s.clearTokens.emitSessionExpired with
    inflight := none
    flights := s.flights ++ [⟨none, some .rejected⟩] }

def refreshOnce : Session × ℕ :=
  match s.inflight with
  | some p => (s, p)
  | none => ({ s.startFlight with inflight := some s.flights.length }, s.flights.length)

end Session

/-- What happens to the session: a 401 response, or another caller, asks for a refresh; a
refresh request is answered; a login or a logout completes; a replayed request is refused. -/
inductive Event
  | refresh
  | answer (p : ℕ) (response : Option Tokens)
  | login (tokens : Tokens)
  | logout
  | expire
  deriving DecidableEq, Repr

def Session.step (s : Session) : Event → Session
  | .refresh => s.refreshOnce.1
  | .answer p response => s.settle p response
  | .login tokens => s.setTokens tokens
  | .logout => s.clearTokens
  | .expire => s.clearTokens.emitSessionExpired

/-- The sessions that events lead to which all meet the condition `c`. -/
inductive Reached (c : Session → Event → Prop) : Session → Prop
  | start (stored : Option String) : Reached c { refreshToken := stored }
  | step {s : Session} (e : Event) : Reached c s → c s e → Reached c (s.step e)

variable {s : Session} {p : ℕ}

theorem pending_iff : s.pending p = true ↔ ∃ f, s.flights[p]? = some f ∧ f.settlement = none := by
  rw [Session.pending, Option.any_eq_true]
  simp only [Option.isNone_iff_eq_none]

end AdminPlatform.Frontend.ApiSession
