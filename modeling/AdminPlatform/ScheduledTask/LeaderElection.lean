import Mathlib.Data.List.Basic
import Mathlib.Logic.Function.Basic

namespace AdminPlatform.ScheduledTask.LeaderElection

/-- A lock of `GET_LOCK`. It belongs to a session, which may take it more than once. -/
structure NamedLock where
  owner : Option ℕ := none
  depth : ℕ := 0
  deriving DecidableEq, Repr

namespace NamedLock

variable (l : NamedLock) (c : ℕ)

/-- `GET_LOCK` with a timeout of zero. -/
def getLock : NamedLock × Bool :=
  match l.owner with
  | none => (⟨some c, 1⟩, true)
  | some d => if d = c then (⟨some c, l.depth + 1⟩, true) else (l, false)

def releaseLock : NamedLock :=
  if l.owner = some c then
    if l.depth ≤ 1 then {} else ⟨some c, l.depth - 1⟩
  else l

/-- `IS_USED_LOCK(:name) = CONNECTION_ID()` -/
def isUsedLock : Bool := decide (l.owner = some c)

def endSession : NamedLock := if l.owner = some c then {} else l

end NamedLock

/-- What the controller waits for; from `drain` on it is `stop` that waits. -/
inductive Phase
  | idle
  | connect
  | getLock (conn : ℕ)
  | commitLock (conn : ℕ) (got : Bool)
  | close (conn : ℕ) (failed : Bool)
  | reconcile
  | sleep
  | isUsedLock
  | commitVerify (ownsLock : Bool)
  | invalidate
  | drain
  | releaseLock
  | commitRelease
  | closeLeader
  | stopped
  deriving DecidableEq, Repr

/-- A worker with its controller and its connection pool. `reply` is what the server has answered
to the statement that is waited for. `lost` are the connections that the worker let go of and whose
sessions may still hold the lock, or come to hold it. `cycles` counts the rounds of `_loop`. -/
structure Worker where
  isLeader : Bool := false
  leaderConn : Option ℕ := none
  scheduler : Bool := false
  loopTask : Bool := false
  phase : Phase := .idle
  reply : Option Bool := none
  pool : List ℕ := []
  lost : List ℕ := []
  cycles : ℕ := 0
  deriving DecidableEq, Repr

namespace Worker

variable (w : Worker)

def await (phase : Phase) : Worker := { w with phase := phase, reply := none }

/-- `stop`, up to its wait for the jobs that are running. -/
def stop : Worker := { w with loopTask := false, scheduler := false }.await .drain

/-- `start` or a round of `_loop` is through. -/
def returned : Worker := { w with loopTask := true }.await .sleep

/-- `_loop` logs an exception and goes on, while one out of `start` ends the startup. -/
def raised : Worker := if w.loopTask then w.await .sleep else w.stop

/-- The connection of the statement that is waited for. -/
def statementConn : Option ℕ :=
  match w.phase with
  | .getLock conn => some conn
  | .commitLock conn _ => some conn
  | .isUsedLock => w.leaderConn
  | .commitVerify _ => w.leaderConn
  | .releaseLock => w.leaderConn
  | .commitRelease => w.leaderConn
  | _ => none

/-- `_try_acquire_leader` has the lock and starts the scheduler. -/
def acquired (conn : ℕ) : Worker :=
  { w with leaderConn := some conn, isLeader := true, scheduler := true }.await .reconcile

/-- `_demote` up to `invalidate`, and from there on. -/
def demote : Worker := { w with scheduler := false }.await .invalidate

def demoted : Worker :=
  { w with leaderConn := none, isLeader := false, lost := w.leaderConn.toList ++ w.lost }.await .sleep

def finished : Worker := { w with leaderConn := none, isLeader := false }.await .stopped

def drained : Worker := if w.leaderConn.isSome then w.await .releaseLock else w.finished

/-- One round of `_loop` begins. -/
def wake : Option Worker :=
  match w.phase with
  | .sleep =>
    let w := { w with cycles := w.cycles + 1 }
    if w.isLeader then
      match w.leaderConn with
      | none => some ({ w with isLeader := false }.await .sleep)
      | some _ => some (w.await .isUsedLock)
    else some (w.await .connect)
  | _ => none

/-- What is waited for has come. -/
def resume : Option Worker :=
  match w.phase, w.reply with
  | .getLock conn, some got => some (w.await (.commitLock conn got))
  | .commitLock conn got, some _ => some (if got then w.acquired conn else w.await (.close conn false))
  | .reconcile, _ => some w.returned
  | .isUsedLock, some ownsLock => some (w.await (.commitVerify ownsLock))
  | .commitVerify ownsLock, some _ => some (if ownsLock then w.await .reconcile else w.demote)
  | .invalidate, _ => some w.demoted
  | .drain, _ => some w.drained
  | .releaseLock, some _ => some (w.await .commitRelease)
  | .commitRelease, some _ => some (w.await .closeLeader)
  | _, _ => none

/-- What is waited for raises: a lost connection, a timeout, an error of the server. -/
def raise : Option Worker :=
  match w.phase with
  | .connect => some w.raised
  | .getLock conn => some ({ w with lost := conn :: w.lost }.await (.close conn true))
  | .commitLock conn _ => some ({ w with lost := conn :: w.lost }.await (.close conn true))
  | .close _ _ => some w.raised
  | .reconcile => some w.raised
  | .isUsedLock => some w.demote
  | .commitVerify _ => some w.demote
  | .invalidate => some w.demoted
  | .releaseLock => some ({ w with lost := w.leaderConn.toList ++ w.lost }.await .closeLeader)
  | .commitRelease => some ({ w with lost := w.leaderConn.toList ++ w.lost }.await .closeLeader)
  | .closeLeader => some w.finished
  | _ => none

def pooled (conn : ℕ) (keep : Bool) : Worker := if keep then { w with pool := conn :: w.pool } else w

/-- `close` is through; the pool keeps the connection unless it is broken. -/
def closed (keep : Bool) : Option Worker :=
  match w.phase, w.leaderConn with
  | .close conn failed, _ => some (if failed then (w.pooled conn keep).raised else (w.pooled conn keep).returned)
  | .closeLeader, some conn => some (w.pooled conn keep).finished
  | _, _ => none

/-- The application shuts down and `stop` cancels `_loop` where it waits. Nobody closes the
connection that an attempt has open then. -/
def shutdown : Option Worker :=
  match w.phase with
  | .getLock conn => some { w with lost := conn :: w.lost }.stop
  | .commitLock conn _ => some { w with lost := conn :: w.lost }.stop
  | .connect => some w.stop
  | .close _ _ => some w.stop
  | .reconcile => some w.stop
  | .sleep => some w.stop
  | .isUsedLock => some w.stop
  | .commitVerify _ => some w.stop
  | .invalidate => some w.stop
  | _ => none

def crash : Worker where
  lost := w.statementConn.toList ++ (w.leaderConn.toList ++ w.lost)
  phase := .stopped
  cycles := w.cycles

end Worker

/-- `opened` has the worker that opened each session of the server, `alive` is whether the session goes on. -/
structure State where
  lock : NamedLock := {}
  opened : List ℕ := []
  alive : ℕ → Bool := fun _ ↦ false
  workers : ℕ → Worker := fun _ ↦ {}

/-- What may happen next: to a controller, to the statement it waits for, to a session. `stray` is
a `GET_LOCK` on a lost connection that only now gets to the server. -/
inductive Label
  | start (i : ℕ)
  | wake (i : ℕ)
  | connected (i : ℕ) (reused : Option ℕ)
  | serve (i : ℕ)
  | resume (i : ℕ)
  | raise (i : ℕ)
  | closed (i : ℕ) (keep : Bool)
  | shutdown (i : ℕ)
  | crash (i : ℕ)
  | endSession (conn : ℕ)
  | stray (i conn : ℕ)
  deriving DecidableEq, Repr

namespace State

variable (S : State)

def put (i : ℕ) (w : Worker) : State := { S with workers := Function.update S.workers i w }

/-- A connection of the pool, if it is alive, or a new one. -/
def connected (i : ℕ) (reused : Option ℕ) : Option State :=
  let w := S.workers i
  match w.phase, reused with
  | .connect, none => some { S.put i (w.await (.getLock S.opened.length)) with
      opened := S.opened ++ [i]
      alive := Function.update S.alive S.opened.length true }
  | .connect, some conn =>
    if conn ∈ w.pool ∧ S.alive conn = true then
      some (S.put i ({ w with pool := w.pool.erase conn }.await (.getLock conn)))
    else none
  | _, _ => none

/-- The server executes the statement that a controller waits for. -/
def serve (i : ℕ) : Option State :=
  let w := S.workers i
  match w.statementConn with
  | none => none
  | some conn =>
    if S.alive conn = true ∧ w.reply = none then
      match w.phase with
      | .getLock _ => some { S.put i { w with reply := some (S.lock.getLock conn).2 } with
          lock := (S.lock.getLock conn).1 }
      | .isUsedLock => some (S.put i { w with reply := some (S.lock.isUsedLock conn) })
      | .releaseLock => some { S.put i { w with reply := some true } with lock := S.lock.releaseLock conn }
      | _ => some (S.put i { w with reply := some true })
    else none

def next : Label → Option State
  | .start i => if (S.workers i).phase = .idle then some (S.put i ((S.workers i).await .connect)) else none
  | .wake i => (S.workers i).wake.map (S.put i)
  | .connected i reused => S.connected i reused
  | .serve i => S.serve i
  | .resume i => (S.workers i).resume.map (S.put i)
  | .raise i => (S.workers i).raise.map (S.put i)
  | .closed i keep => ((S.workers i).closed keep).map (S.put i)
  | .shutdown i => (S.workers i).shutdown.map (S.put i)
  | .crash i => some (S.put i (S.workers i).crash)
  | .endSession conn => some { S with
      lock := S.lock.endSession conn
      alive := Function.update S.alive conn false }
  | .stray i conn =>
    if conn ∈ (S.workers i).lost ∧ S.alive conn = true then some { S with lock := (S.lock.getLock conn).1 }
    else none

def follow (S : State) : List Label → Option State
  | [] => some S
  | a :: as => (S.next a).bind fun S' ↦ S'.follow as

end State

inductive Runs (S : State) : State → Prop
  | refl : Runs S S
  | step {S' S'' : State} (label : Label) : Runs S S' → S'.next label = some S'' → Runs S S''

def Reach (S : State) : Prop := Runs {} S

theorem runs_follow {S S₁ S₂ : State} {as : List Label} (h : Runs S S₁) (hS : S₁.follow as = some S₂) :
    Runs S S₂ := by
  induction as generalizing S₁ with
  | nil =>
    cases hS
    exact h
  | cons a as ih =>
    obtain ⟨S', h₁, h₂⟩ := Option.bind_eq_some_iff.1 hS
    apply ih _ h₂
    exact .step a h h₁

theorem Runs.trans {S S' S'' : State} (h : Runs S S') (h' : Runs S' S'') : Runs S S'' := by
  induction h' with
  | refl => exact h
  | step label _ hn ih => exact .step label ih hn

end AdminPlatform.ScheduledTask.LeaderElection
