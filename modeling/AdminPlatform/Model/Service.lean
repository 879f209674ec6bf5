import AdminPlatform.Model.Schema

namespace AdminPlatform.Model.Service

open Schema Foundation.Transaction

/-- A business error as the handlers render it. -/
structure AppError where
  code : String
  title : String
  detail : Option String := none
  statusCode : ℕ := 400
  deriving DecidableEq, Repr

/-- How a call can end without a result. Services catch `app` errors, and the executor one `duplicate` and
the `deadlock` it is a victim of; these, `integrity` and `staleData` come from the database and `tokenConfig`
from an empty secret. -/
inductive Failure
  | app (e : AppError)
  | duplicate (index : String)
  | integrity
  | staleData
  | deadlock
  | tokenConfig
  | crash
  deriving DecidableEq, Repr

abbrev Call (α : Type) := Prog Table Row LockName Storage Note Failure α

def raise {α : Type} (e : AppError) : Call α := .fail (.app e)

/-- `try … except AppError`. -/
def caught {α : Type} (p : Call α) : Call (Except AppError α) :=
  (p >>= fun a ↦ pure (.ok a)).tryCatch fun
    | .app e => pure (.error e)
    | e => .fail e

def now : Call ℕ := .read View.now

def uuid4 : Call ℕ := .query fun v ↦ .ok ({ fresh := 1 }, v.next)

def mark (n : Note) : Call Unit := .query fun _ ↦ .ok ({ notes := [n] }, ())

def acquireTransactionLock (k : LockName) : Call Unit :=
  .query fun _ ↦ .ok ({ locks := [(.named k, .exclusive)] }, ())

def getSession {α : Type} (p : Call α) : Call α := do
  let a ← p
  .save
  pure a

theorem publishes_getSession {α : Type} {p : Call α} {vs : List (View Table Row Storage)} {ns : List Note}
    {R : Except Failure α → List (View Table Row Storage) → List Note → Prop}
    (h : p.Gathers (fun a vs ns ↦ R (.ok a) vs ns) (fun _ _ _ ↦ True) vs ns) :
    (getSession p).Publishes R vs ns :=
  Prog.publishes_bind (Prog.gathers_mono h (fun a _ _ hr ↦ ⟨.ok a, rfl, hr⟩) fun _ _ _ _ ↦ trivial)

/-- The settings the modelled services read, with the bounds their fields are declared with. -/
structure Settings where
  authJwtSecret : String
  authAccessTokenTtlSeconds : ℕ
  authRefreshTokenPepper : String
  authRefreshIdleTtlSeconds : ℕ
  authRefreshAbsoluteTtlSeconds : ℕ
  authRefreshMaxSessionsPerUser : ℕ
  idleTtl_ge : 300 ≤ authRefreshIdleTtlSeconds
  absoluteTtl_ge : 300 ≤ authRefreshAbsoluteTtlSeconds
  maxSessions_ge : 1 ≤ authRefreshMaxSessionsPerUser

end AdminPlatform.Model.Service
