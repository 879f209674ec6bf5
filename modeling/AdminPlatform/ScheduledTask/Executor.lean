import Mathlib.Algebra.Group.Nat.Defs
import AdminPlatform.Model.Service
import AdminPlatform.ScheduledTask.Cron

namespace AdminPlatform.ScheduledTask.Executor

open Model.Schema Model.Service Foundation.Relational Foundation.Transaction Cron

/-- A registered handler, by what is asked of its parameters. -/
structure HandlerSpec where
  paramsSchema : Option (String → Except String String)
  allowManual : Bool

/-- The process: the cron library, the handler registry, the printed list of its keys, and
the redaction of log texts. -/
structure Environment where
  cron : CronLibrary
  registry : String → Option HandlerSpec
  keys : String
  redact : String → String

/-- How a handler's coroutine ends. -/
inductive HandlerResult
  | returned (summary : Option String)
  | raised (typeName message : String)
  | timedOut
  deriving DecidableEq, Repr

def _ERR_MSG_MAX : ℕ := 1024
def _SUMMARY_MAX : ℕ := 1024
def _DEFAULT_STALE_SECONDS : ℕ := 3600
def _MANUAL_RUN_MAX_TIMEOUT : ℕ := 300
def _CLAIM_UNIQUE_INDEX : String := "uq_scheduled_task_logs_schedule_claim"
def _CLAIM_LOCK_RETRY_LIMIT : ℕ := 3

/-- `value or default`. -/
def orElse (value : Option ℕ) (default : ℕ) : ℕ :=
  match value with
  | some (n + 1) => n + 1
  | _ => default

/-- A `DATETIME` column keeps whole seconds. -/
def stored (time : ℕ) : ℕ := (time + second / 2) / second * second

def minuteOf (time : ℕ) : ℕ := time / (60 * second) * (60 * second)

namespace ScheduledTaskRepository

def get (taskId : ℕ) : Call (Option ScheduledTask) := .read fun v ↦ v.db.rows .scheduledTasks taskId

def getForUpdate (taskId : ℕ) : Call (Option ScheduledTask) :=
  .query fun v ↦ .ok ({ locks := [(.row .scheduledTasks taskId, .exclusive)] },
    v.db.rows .scheduledTasks taskId)

def getLog (logId : ℕ) : Call (Option ScheduledTaskLog) :=
  .read fun v ↦ v.db.rows .scheduledTaskLogs logId

def runningSince (db : Db) (taskId since : ℕ) : List (ℕ × ScheduledTaskLog) :=
  db.select .scheduledTaskLogs fun _ (r : ScheduledTaskLog) ↦
    decide (r.taskId = some taskId ∧ r.status = .running) && r.startedAt.any fun s ↦ decide (since ≤ s)

def countRunning (taskId since : ℕ) : Call ℕ := .read fun v ↦ (runningSince v.db taskId since).length

def scheduleClaim (r : ScheduledTaskLog) : Option ℕ :=
  if r.triggerType = .schedule then r.scheduledAt else none

def claimTaken (db : Db) (taskId time : ℕ) : Bool :=
  !(db.select .scheduledTaskLogs fun _ (r : ScheduledTaskLog) ↦
    decide (r.taskId = some taskId ∧ scheduleClaim r = some time)).isEmpty

def claimKey (taskId time : ℕ) : LockName :=
  .unique .scheduledTaskLogs (toString taskId ++ " " ++ toString time)

/-- The `INSERT` of a log of an existing task. -/
def createLog (taskId : ℕ) (log : ScheduledTaskLog) (notes : ℕ → List Note) : Call ℕ :=
  .query fun v ↦
    let insert (locks : List (Resource Table LockName × Mode)) : Statement := {
      locks := locks
      fresh := 1
      writes := [⟨.scheduledTaskLogs, v.next, some { log with taskId := some taskId }⟩]
      notes := notes v.next }
    if log.triggerType = .schedule && log.scheduledAt.isNone then .error .integrity
    else
      match scheduleClaim log with
      | none => .ok (insert [], v.next)
      | some time =>
        if claimTaken v.db taskId time then .error (.duplicate _CLAIM_UNIQUE_INDEX)
        else .ok (insert [(.named (claimKey taskId time), .exclusive)], v.next)

end ScheduledTaskRepository

open ScheduledTaskRepository

/-- What a claim is asked for. `fired` is the tick a schedule trigger went off for; no
program reads it. -/
structure ClaimRequest where
  taskId : ℕ
  triggerType : TriggerType
  scheduledAt : Option ℕ
  actorUserId : Option ℕ
  workerId : String
  fired : Option ℕ

structure Claim where
  logId : ℕ
  handlerKey : String
  paramsJson : String
  timeoutSeconds : Option ℕ
  skipped : Bool

structure ExecutionOutcome where
  executionId : Option ℕ
  status : LogStatus
  logId : Option ℕ

variable (env : Environment)

def dueTime (task : ScheduledTask) (now : ℕ) : Option ℕ :=
  match scheduledTickAt env.cron task.cronExpression task.cronTimezone now
      (task.misfireGraceSeconds + 60) with
  | .ok .endless => none
  | .ok (.found tick) => some (tick.getD (minuteOf now))
  | .error _ => some (minuteOf now)

/-- The time a claim is keyed by. A worker whose search does not end hangs until it is killed. -/
def claimTime (task : ScheduledTask) (req : ClaimRequest) (now : ℕ) : Call (Option ℕ) :=
  if req.triggerType = .schedule && req.scheduledAt.isNone then
    match dueTime env task now with
    | none => .fail .crash
    | some tick => pure (some (stored tick))
  else pure (req.scheduledAt.map stored)

def staleSeconds (task : ScheduledTask) : ℕ := orElse task.timeoutSeconds _DEFAULT_STALE_SECONDS

/-- The statements at which the database may choose a claim to break a deadlock. -/
inductive ClaimStatement
  | lock
  | task
  | count
  | insert
  deriving DecidableEq, Repr

def unlessVictim {α : Type} (victim : Option ClaimStatement) (statement : ClaimStatement) (p : Call α) : Call α :=
  if victim = some statement then .fail .deadlock else p

def concurrencySkip (victim : Option ClaimStatement) (taskId : ℕ) (task : ScheduledTask) (since : ℕ) : Call Bool :=
  if task.allowConcurrent then pure false
  else do
    let running ← unlessVictim victim .count (countRunning taskId since)
    pure (decide (0 < running))

def claimNotes (req : ClaimRequest) (clock checked : ℕ) (skip : Bool) (logId : ℕ) : List Note :=
  (if req.triggerType = .schedule then [.taskClaimed logId req.taskId req.fired clock] else []) ++
    if skip then [] else [.executionStarted logId req.taskId checked]

def newLog (task : ScheduledTask) (req : ClaimRequest) (executionId : ℕ) (scheduledAt : Option ℕ)
    (skip : Bool) (time : ℕ) : ScheduledTaskLog where
  taskId := some req.taskId
  executionId := executionId
  triggerType := req.triggerType
  scheduledAt := scheduledAt
  handlerKey := task.handlerKey
  paramsJson := task.paramsJson
  status := if skip then .skipped else .running
  startedAt := if skip then none else some (stored time)
  finishedAt := if skip then some (stored time) else none
  durationMs := none
  errorCode := none
  errorMessage := none
  resultSummary := none
  workerId := some req.workerId
  actorUserId := req.actorUserId

/-- The block of a claim's session. -/
def claimSession (req : ClaimRequest) (executionId : ℕ) (victim : Option ClaimStatement) :
    Call (Option Claim) := do
  unlessVictim victim .lock (acquireTransactionLock (.scheduledTaskClaim req.taskId))
  let task? ← unlessVictim victim .task (getForUpdate req.taskId)
  match task? with
  | none =>
    .save
    pure none
  | some task =>
    let clock ← now
    let scheduledAt ← claimTime env task req clock
    let checked ← now
    let skip ← concurrencySkip victim req.taskId task (checked - staleSeconds task * second)
    let time ← now
    let log := newLog task req executionId scheduledAt skip time
    let logId ← (unlessVictim victim .insert
      (createLog req.taskId log (claimNotes req clock checked skip))).tryCatch fun e ↦ do
        if e = .duplicate _CLAIM_UNIQUE_INDEX then
          mark (.claimRefused req.taskId req.fired clock scheduledAt)
        .fail e
    .save
    pure (some ⟨logId, task.handlerKey, task.paramsJson, task.timeoutSeconds, skip⟩)

/-- A claim that another worker has taken is no claim; its session, which has written nothing, is
rolled back. -/
def _claimOnce (req : ClaimRequest) (executionId : ℕ) (victim : Option ClaimStatement) :
    Call (Option Claim) :=
  (claimSession env req executionId victim).tryCatch fun e ↦
    if e = .duplicate _CLAIM_UNIQUE_INDEX then do
      .save
      pure none
    else .fail e

/-- The attempts that are left, of which the first ones are deadlock victims at the given statements. -/
def claimAttempts (req : ClaimRequest) (executionId : ℕ) : ℕ → List ClaimStatement → Call (Option Claim)
  | 0, _ => pure none
  | left + 1, deadlocks =>
    (_claimOnce env req executionId deadlocks.head?).tryCatch fun e ↦
      if e ≠ .deadlock ∨ left = 0 then .fail e
      else do
        .save
        claimAttempts req executionId left deadlocks.tail

def _claim (req : ClaimRequest) (executionId : ℕ) (deadlocks : List ClaimStatement) : Call (Option Claim) :=
  claimAttempts env req executionId _CLAIM_LOCK_RETRY_LIMIT deadlocks

structure Outcome where
  status : LogStatus
  errorCode : Option String
  errorMessage : Option String
  resultSummary : Option String
  deriving DecidableEq, Repr

def cut (s : String) (length : ℕ) : String := String.ofList (s.toList.take length)

/-- Runs the handler outside any transaction. -/
def _invoke (handlerKey : String) (timeoutSeconds : Option ℕ) (result : HandlerResult) : Outcome :=
  match env.registry handlerKey with
  | none => ⟨.failure, some "scheduled_task.HANDLER_NOT_REGISTERED",
      some ("handler 已下线: " ++ handlerKey), none⟩
  | some _ =>
    match result with
    | .timedOut => ⟨.failure, some "scheduled_task.TIMEOUT",
        some ("执行超时(> " ++ timeoutSeconds.elim "None" toString ++ "s)"), none⟩
    | .raised typeName message =>
      ⟨.failure, some typeName, some (cut (env.redact message) _ERR_MSG_MAX), none⟩
    | .returned summary =>
      ⟨.success, none, none, (summary.filter (· ≠ "")).map fun s ↦ cut (env.redact s) _SUMMARY_MAX⟩

/-- The whole number nearest to `n / d`, the even one of two. -/
def roundHalfEven (n d : ℕ) : ℕ :=
  if 2 * (n % d) < d then n / d
  else if d < 2 * (n % d) then n / d + 1
  else n / d + n / d % 2

/-- The double nearest to `n / d`, a fraction from `2 ^ -20` to `2 ^ 52`, as a whole number over a
power of two. -/
def toDouble (n d : ℕ) : ℕ × ℕ :=
  let shift := 72 - Nat.log2 (n * 2 ^ 20 / d)
  (roundHalfEven (n * 2 ^ shift) d, 2 ^ shift)

/-- `int(delta.total_seconds() * 1000)`. -/
def milliseconds (delta : ℤ) : ℤ :=
  let seconds := toDouble delta.natAbs second
  let product := toDouble (seconds.1 * 1000) seconds.2
  delta.sign * (product.1 / product.2 : ℕ)

/-- Both products are rounded: a run of 1.001 seconds takes 1000 milliseconds. -/
example : milliseconds 1001000 = 1000 ∧ milliseconds 1002000 = 1002 ∧ milliseconds (-1500000) = -1500 := by
  decide +kernel

/-- The `UPDATE` of a log by its outcome. -/
def updateLog (logId : ℕ) (loaded : ScheduledTaskLog) (outcome : Outcome) (time : ℕ) : Call Unit :=
  .query fun v ↦
    match v.db.rows .scheduledTaskLogs logId with
    | none => .error .staleData
    | some r =>
      let new : ScheduledTaskLog := { r with
        status := outcome.status
        finishedAt := some (stored time)
        errorCode := outcome.errorCode
        errorMessage := outcome.errorMessage
        resultSummary := outcome.resultSummary
        durationMs := match loaded.startedAt with
          | none => r.durationMs
          | some s => some (milliseconds ((time : ℤ) - s)) }
      .ok ({ writes := [⟨.scheduledTaskLogs, logId, some new⟩] }, ())

def markTaskLastRun (taskId : ℕ) (loaded : ScheduledTask) (status : LogStatus) (time : ℕ) :
    Call Unit :=
  .query fun v ↦
    match v.db.rows .scheduledTasks taskId with
    | none => .error .staleData
    | some t =>
      let new : ScheduledTask := { t with
        lastRunAt := if loaded.lastRunAt = some time then t.lastRunAt else some (stored time)
        lastStatus := if loaded.lastStatus = some status then t.lastStatus else some status }
      .ok ({ writes := [⟨.scheduledTasks, taskId, some new⟩] }, ())

/-- The flush writes the task before the log. -/
def _finish (logId taskId : ℕ) (outcome : Outcome) : Call Unit := do
  let time ← now
  mark (.executionFinished logId)
  let log? ← getLog logId
  let task? ← get taskId
  match task? with
  | none => pure ()
  | some task => markTaskLastRun taskId task outcome.status time
  match log? with
  | none => pure ()
  | some log => updateLog logId log outcome time
  .save

def run (req : ClaimRequest) (deadlocks : List ClaimStatement) (result : HandlerResult) :
    Call (Option ExecutionOutcome) := do
  let executionId ← uuid4
  let claim? ← _claim env req executionId deadlocks
  match claim? with
  | none => pure none
  | some claim =>
    if claim.skipped then pure (some ⟨some executionId, .skipped, some claim.logId⟩)
    else
      let effectiveTimeout :=
        if req.triggerType = .manual then
          some (min (orElse claim.timeoutSeconds _MANUAL_RUN_MAX_TIMEOUT) _MANUAL_RUN_MAX_TIMEOUT)
        else claim.timeoutSeconds
      let outcome := _invoke env claim.handlerKey effectiveTimeout result
      _finish claim.logId req.taskId outcome
      pure (some ⟨some executionId, outcome.status, some claim.logId⟩)

end AdminPlatform.ScheduledTask.Executor
