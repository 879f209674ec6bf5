import AdminPlatform.Foundation.RowLocks
import Mathlib.Logic.Function.Basic

namespace AdminPlatform.Locks.SentinelRows

open Foundation.RowLocks

def _LOCK_NAME_MAX_LENGTH : ℕ := 191

def _LOCK_RETRY_LIMIT : ℕ := 3

def _validateLockName (name : String) : Bool :=
  decide (name ≠ "") && decide (name.length ≤ _LOCK_NAME_MAX_LENGTH)

/-- The transaction of a session, the short one that a call opens beside it, or one from outside. -/
inductive Owner
  | session (t : ℕ)
  | short (t : ℕ)
  | outside (o : ℕ)
  deriving DecidableEq, Repr

/-- Where the call of a session stands. `left` counts the rounds of its loop that are still to come. -/
inductive Phase
  | idle
  | entered (name : String)
  | guardShort (name : String)
  | shortSelect (name : String) (attempt : ℕ)
  | shortInsert (name : String) (attempt : ℕ)
  | shortCommit (name : String) (attempt : ℕ)
  | shortDone (name : String)
  | guardCurrent (name : String) (left : ℕ)
  | insertCurrent (name : String) (left : ℕ)
  | inserted (name : String) (left : ℕ)
  | select (name : String) (left : ℕ)
  | answered (name : String) (left : ℕ) (found : Bool)
  deriving DecidableEq, Repr

/-- The name that a call is about. -/
def Phase.name : Phase → Option String
  | .idle => none
  | .entered name => some name
  | .guardShort name => some name
  | .shortSelect name _ => some name
  | .shortInsert name _ => some name
  | .shortCommit name _ => some name
  | .shortDone name => some name
  | .guardCurrent name _ => some name
  | .insertCurrent name _ => some name
  | .inserted name _ => some name
  | .select name _ => some name
  | .answered name _ _ => some name

inductive Outcome
  | returned
  | raised
  deriving DecidableEq, Repr

structure State where
  /-- The table `app_locks`. -/
  rows : KeyTable Owner String
  /-- `_KNOWN_LOCK_ROWS` of each process. -/
  known : List (ℕ × String)
  /-- `_ENSURE_ROW_GUARDS`: who is in the guard of a name, for each event loop. -/
  guards : List (ℕ × String × ℕ)
  /-- The sessions that have checked out their connection. -/
  connected : ℕ → Bool
  phase : ℕ → Phase
  /-- How the last call of each session ended. -/
  outcome : ℕ → Option Outcome
  /-- The names for which a call of the running transaction has returned. -/
  acquired : List (ℕ × String)

/-- `deadlock` breaks the short transaction of a call, `victim` the transaction of the session, which
the database then rolls back; `fail` is any other exception. -/
inductive Action
  | call (t : ℕ) (name : String)
  | advance (t : ℕ)
  | fail (t : ℕ)
  | deadlock (t : ℕ)
  | victim (t : ℕ)
  | query (t : ℕ)
  | commit (t : ℕ)
  | rollback (t : ℕ)
  | delete (o : ℕ) (name : String)
  | outsideCommit (o : ℕ)
  | outsideRollback (o : ℕ)
  deriving DecidableEq, Repr

namespace State

variable (S : State) (t : ℕ) (name : String)

def goto (phase : Phase) : State := { S with phase := Function.update S.phase t phase }

def finish (outcome : Outcome) : State :=
  { S.goto t .idle with outcome := Function.update S.outcome t (some outcome) }

def isKnown (process : ℕ) : Bool := decide ((process, name) ∈ S.known)

def remember (process : ℕ) : State := { S with known := (process, name) :: S.known }

def forget (process : ℕ) : State := { S with known := S.known.filter fun x ↦ decide (x ≠ (process, name)) }

def guarded (loop : ℕ) : Bool := S.guards.any fun x ↦ decide (x.1 = loop ∧ x.2.1 = name)

def enter (loop : ℕ) : State := { S with guards := (loop, name, t) :: S.guards }

def leave : State := { S with guards := S.guards.filter fun x ↦ decide (x.2.2 ≠ t) }

def connect : State := { S with connected := Function.update S.connected t true }

/-- The head of the loop, `left` rounds before its end. -/
def rounds (left : ℕ) : State :=
  match left with
  | 0 => S.finish t .raised
  | left + 1 => S.goto t (.select name left)

def abandon : State := ({ S with rows := S.rows.rollback (.short t) }.leave t).finish t .raised

def ended (rows : KeyTable Owner String) : State :=
  { S with
    rows := rows
    connected := Function.update S.connected t false
    acquired := S.acquired.filter fun x ↦ decide (x.1 ≠ t) }

/-- The database has rolled the transaction of a session back. The session keeps the connection that its
statement was sent on. -/
def lost : State := ((S.abandon t).ended t (S.rows.rollback (.session t))).connect t

end State

section

variable (process loop : ℕ → ℕ)

/-- The next step of a call; `none` when it waits. -/
def advance (S : State) (t : ℕ) : Option State :=
  match S.phase t with
  | .idle => none
  | .entered name =>
    if S.isKnown name (process t) then some (S.rounds t name 2)
    else if S.connected t then some (S.goto t (.guardCurrent name 2))
    else some (S.goto t (.guardShort name))
  | .guardShort name =>
    if S.guarded name (loop t) then none else some ((S.enter t name (loop t)).goto t (.shortSelect name 0))
  | .shortSelect name attempt =>
    if name ∈ S.rows.committed then some (S.goto t (.shortDone name))
    else some (S.goto t (.shortInsert name attempt))
  | .shortInsert name attempt =>
    (S.rows.insertIgnore (.short t) name).map fun rows ↦ { S with rows := rows }.goto t (.shortCommit name attempt)
  | .shortCommit name _ => some ({ S with rows := S.rows.commit (.short t) }.goto t (.shortDone name))
  | .shortDone name => some (((S.remember name (process t)).leave t).rounds t name 2)
  | .guardCurrent name left =>
    if S.guarded name (loop t) then none
    else if S.isKnown name (process t) then some (S.rounds t name left)
    else some ((S.enter t name (loop t)).goto t (.insertCurrent name left))
  | .insertCurrent name left =>
    (S.rows.insertIgnore (.session t) name).map fun rows ↦
      ({ S with rows := rows }.connect t).goto t (.inserted name left)
  | .inserted name left => some (((S.remember name (process t)).leave t).rounds t name left)
  | .select name left =>
    (S.rows.selectForUpdate (.session t) name).map fun answer ↦
      ({ S with rows := answer.1 }.connect t).goto t (.answered name left answer.2)
  | .answered name left found =>
    if found then
      some { (S.remember name (process t)).finish t .returned with acquired := (t, name) :: S.acquired }
    else some ((S.forget name (process t)).goto t (.guardCurrent name left))

def retry (S : State) (t : ℕ) (name : String) (attempt : ℕ) : State :=
  if attempt = _LOCK_RETRY_LIMIT - 1 then S.abandon t
  else { S with rows := S.rows.rollback (.short t) }.goto t (.shortSelect name (attempt + 1))

def step (S : State) : Action → Option State
  | .call t name =>
    if S.phase t ≠ .idle then none
    else if _validateLockName name then some (S.goto t (.entered name)) else some (S.finish t .raised)
  | .advance t => advance process loop S t
  | .fail t => if S.phase t = .idle then none else some (S.abandon t)
  | .deadlock t =>
    match S.phase t with
    | .shortSelect name attempt => some (retry S t name attempt)
    | .shortInsert name attempt => some (retry S t name attempt)
    | .shortCommit name attempt => some (retry S t name attempt)
    | _ => none
  | .victim t =>
    match S.phase t with
    | .insertCurrent _ _ => some (S.lost t)
    | .select _ _ => some (S.lost t)
    | _ => none
  | .query t => if S.phase t = .idle then some (S.connect t) else none
  | .commit t => if S.phase t = .idle then some (S.ended t (S.rows.commit (.session t))) else none
  | .rollback t => if S.phase t = .idle then some (S.ended t (S.rows.rollback (.session t))) else none
  | .delete o name => (S.rows.delete (.outside o) name).map fun rows ↦ { S with rows := rows }
  | .outsideCommit o => some { S with rows := S.rows.commit (.outside o) }
  | .outsideRollback o => some { S with rows := S.rows.rollback (.outside o) }

/-- Any rows and any caches to begin with, but no open transaction. -/
structure Start (S : State) : Prop where
  changes : S.rows.changes = []
  locks : S.rows.locks = []
  phase : ∀ t, S.phase t = .idle
  acquired : S.acquired = []

inductive Reach : State → Prop
  | start {S : State} (h : Start S) : Reach S
  | step {S S' : State} (a : Action) (h : Reach S) (hs : step process loop S a = some S') : Reach S'

end

end AdminPlatform.Locks.SentinelRows
