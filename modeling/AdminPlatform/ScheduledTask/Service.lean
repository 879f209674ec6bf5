import AdminPlatform.Model.Scope
import AdminPlatform.ScheduledTask.Executor

namespace AdminPlatform.ScheduledTask.Service

open Model.Schema Model.Service Model.Scope Foundation.Relational Foundation.Transaction
open Cron Executor

structure ScheduledTaskCreate where
  name : String
  handlerKey : String
  params : String := "\x7b\x7d"
  cronExpression : String
  cronTimezone : String := "Asia/Shanghai"
  status : TaskStatus := .disabled
  allowConcurrent : Bool := false
  misfireGraceSeconds : ℕ := 300
  timeoutSeconds : Option ℕ := none
  remark : Option String := none

/-- A field sent as `null` counts as not sent, but for the last two. -/
structure ScheduledTaskUpdate where
  name : Option String := none
  handlerKey : Option String := none
  params : Option String := none
  cronExpression : Option String := none
  cronTimezone : Option String := none
  status : Option TaskStatus := none
  allowConcurrent : Option Bool := none
  misfireGraceSeconds : Option ℕ := none
  timeoutSeconds : PatchField (Option ℕ) := none
  remark : PatchField (Option String) := none

structure ScheduledTaskRead where
  id : ℕ
  task : ScheduledTask
  nextRunAt : Option ℕ
  deriving DecidableEq, Repr

structure ScheduledTaskLogRead where
  id : ℕ
  log : ScheduledTaskLog
  deriving DecidableEq, Repr

def notFound : AppError where
  code := "scheduled_task.NOT_FOUND"
  title := "Task not found"
  statusCode := 404

def nameDuplicate : AppError where
  code := "scheduled_task.NAME_DUPLICATE"
  title := "Name exists"
  statusCode := 409

def handlerUnknown (handlerKey keys : String) : AppError where
  code := "scheduled_task.HANDLER_UNKNOWN"
  title := "Unknown handler"
  detail := some ("handler_key 未注册: " ++ handlerKey ++ "（可选：" ++ keys ++ "）")
  statusCode := 422

def paramsInvalid (detail : String) : AppError where
  code := "scheduled_task.PARAMS_INVALID"
  title := "Invalid params"
  detail := some detail
  statusCode := 422

def cronInvalid (detail : String) : AppError where
  code := "scheduled_task.CRON_INVALID"
  title := "Invalid cron"
  detail := some detail
  statusCode := 422

def handlerOffline : AppError where
  code := "scheduled_task.HANDLER_OFFLINE"
  title := "Handler offline"
  statusCode := 409

def manualNotAllowed : AppError where
  code := "scheduled_task.MANUAL_NOT_ALLOWED"
  title := "Manual trigger not allowed"
  statusCode := 409

def runConflict : AppError where
  code := "scheduled_task.RUN_CONFLICT"
  title := "Task vanished during run"
  statusCode := 409

def logNotFound : AppError where
  code := "scheduled_task.LOG_NOT_FOUND"
  title := "Execution log not found"
  statusCode := 404

namespace ScheduledTaskRepository

def nameTaken (db : Db) (taskId : Option ℕ) (name : String) : Bool :=
  !(db.select .scheduledTasks fun i (t : ScheduledTask) ↦
    decide (some i ≠ taskId ∧ t.name = name)).isEmpty

def getByName (name : String) : Call Bool := .read fun v ↦ nameTaken v.db none name

def nameKey (name : String) : Resource Table LockName × Mode :=
  (.named (.unique .scheduledTasks name), .exclusive)

def create (task : ScheduledTask) : Call ℕ :=
  .query fun v ↦
    if nameTaken v.db none task.name then .error .integrity
    else .ok ({
      locks := [nameKey task.name]
      fresh := 1
      writes := [⟨.scheduledTasks, v.next, some task⟩] }, v.next)

/-- What a call sets on the task it has loaded; a column is written if it was changed. -/
structure Changes where
  name : PatchField String := none
  handlerKey : PatchField String := none
  paramsJson : PatchField String := none
  cronExpression : PatchField String := none
  cronTimezone : PatchField String := none
  status : PatchField TaskStatus := none
  allowConcurrent : PatchField Bool := none
  misfireGraceSeconds : PatchField ℕ := none
  timeoutSeconds : PatchField (Option ℕ) := none
  remark : PatchField (Option String) := none

def Changes.isDirty (c : Changes) (loaded : ScheduledTask) : Bool :=
  dirty loaded.name c.name || dirty loaded.handlerKey c.handlerKey ||
    dirty loaded.paramsJson c.paramsJson || dirty loaded.cronExpression c.cronExpression ||
    dirty loaded.cronTimezone c.cronTimezone || dirty loaded.status c.status ||
    dirty loaded.allowConcurrent c.allowConcurrent ||
    dirty loaded.misfireGraceSeconds c.misfireGraceSeconds ||
    dirty loaded.timeoutSeconds c.timeoutSeconds || dirty loaded.remark c.remark

def Changes.written (c : Changes) (loaded : ScheduledTask) : List TaskColumn :=
  (if dirty loaded.handlerKey c.handlerKey then [.handlerKey] else []) ++
    (if dirty loaded.paramsJson c.paramsJson then [.paramsJson] else []) ++
    (if dirty loaded.cronExpression c.cronExpression then [.cronExpression] else []) ++
    if dirty loaded.cronTimezone c.cronTimezone then [.cronTimezone] else []

def Changes.flush (c : Changes) (loaded t : ScheduledTask) : ScheduledTask :=
  { t with
    name := flushed loaded.name t.name c.name
    handlerKey := flushed loaded.handlerKey t.handlerKey c.handlerKey
    paramsJson := flushed loaded.paramsJson t.paramsJson c.paramsJson
    cronExpression := flushed loaded.cronExpression t.cronExpression c.cronExpression
    cronTimezone := flushed loaded.cronTimezone t.cronTimezone c.cronTimezone
    status := flushed loaded.status t.status c.status
    allowConcurrent := flushed loaded.allowConcurrent t.allowConcurrent c.allowConcurrent
    misfireGraceSeconds := flushed loaded.misfireGraceSeconds t.misfireGraceSeconds c.misfireGraceSeconds
    timeoutSeconds := flushed loaded.timeoutSeconds t.timeoutSeconds c.timeoutSeconds
    remark := flushed loaded.remark t.remark c.remark }

/-- The flush of the changed columns and the reload of the row; the note keeps the row as it was
loaded. -/
def update (taskId : ℕ) (loaded : ScheduledTask) (c : Changes) : Call ScheduledTask :=
  .query fun v ↦
    match v.db.rows .scheduledTasks taskId with
    | none => .error .staleData
    | some t =>
      if !c.isDirty loaded then .ok ({}, t)
      else
        let new := c.flush loaded t
        let renamed := dirty loaded.name c.name
        if renamed && nameTaken v.db (some taskId) new.name then .error .integrity
        else .ok ({
          locks := if renamed then [nameKey new.name] else []
          writes := [⟨.scheduledTasks, taskId, some new⟩]
          notes := [.taskPatched taskId loaded (c.written loaded)] }, new)

/-- `DELETE`: the logs stay, without their task. -/
def delete (taskId : ℕ) : Call Unit :=
  .query fun v ↦
    match v.db.rows .scheduledTasks taskId with
    | none => .error .staleData
    | some _ => .ok ({
        writes := v.db.update .scheduledTaskLogs
            (fun _ (r : ScheduledTaskLog) ↦ decide (r.taskId = some taskId))
            (fun r ↦ { r with taskId := none }) ++ [⟨.scheduledTasks, taskId, none⟩]
        notes := [.taskDeleted taskId] }, ())

end ScheduledTaskRepository

variable (env : Environment)

def _requireHandler (handlerKey : String) : Call HandlerSpec :=
  match env.registry handlerKey with
  | none => raise (handlerUnknown handlerKey env.keys)
  | some spec => pure spec

/-- `registry.validate_params`: a handler without a schema takes no parameters. -/
def validateParams (spec : HandlerSpec) (handlerKey params : String) : Except String String :=
  match spec.paramsSchema with
  | none =>
    if params = "\x7b\x7d" then .ok params
    else .error ("handler " ++ handlerKey ++ " 是零参，不接受 params")
  | some schema => schema params

def _validateParams (spec : HandlerSpec) (handlerKey params : String) : Call String :=
  match validateParams spec handlerKey params with
  | .ok params => pure params
  | .error detail => raise (paramsInvalid detail)

def _validateCron (expr timezone : String) : Call Unit :=
  match validateCron env.cron expr timezone with
  | .ok () => pure ()
  | .error detail => raise (cronInvalid detail)

def _toRead (id : ℕ) (task : ScheduledTask) : Call ScheduledTaskRead :=
  if task.status = .enabled then do
    let time ← now
    match nextRunAfter env.cron task.cronExpression task.cronTimezone time with
    | .ok next => pure ⟨id, task, next⟩
    | .error _ => pure ⟨id, task, none⟩
  else pure ⟨id, task, none⟩

def create (payload : ScheduledTaskCreate) : Call ScheduledTaskRead := do
  let spec ← _requireHandler env payload.handlerKey
  let params ← _validateParams spec payload.handlerKey payload.params
  _validateCron env payload.cronExpression payload.cronTimezone
  if ← ScheduledTaskRepository.getByName payload.name then raise nameDuplicate
  else
    let task : ScheduledTask := {
      name := payload.name
      handlerKey := payload.handlerKey
      paramsJson := params
      cronExpression := payload.cronExpression
      cronTimezone := payload.cronTimezone
      status := payload.status
      allowConcurrent := payload.allowConcurrent
      misfireGraceSeconds := payload.misfireGraceSeconds
      timeoutSeconds := payload.timeoutSeconds
      lastRunAt := none
      lastStatus := none
      remark := payload.remark }
    let id ← ScheduledTaskRepository.create task
    _toRead env id task

def handlerChanges (task : ScheduledTask) (payload : ScheduledTaskUpdate) :
    Call (PatchField String × PatchField String) := do
  if payload.handlerKey.isSome || payload.params.isSome then
    let effHandler := payload.handlerKey.getD task.handlerKey
    let spec ← _requireHandler env effHandler
    let params ← _validateParams spec effHandler (payload.params.getD task.paramsJson)
    pure (some effHandler, some params)
  else pure (none, none)

def cronChanges (task : ScheduledTask) (payload : ScheduledTaskUpdate) :
    Call (PatchField String × PatchField String) := do
  if payload.cronExpression.isSome || payload.cronTimezone.isSome then
    let effCron := payload.cronExpression.getD task.cronExpression
    let effTz := payload.cronTimezone.getD task.cronTimezone
    _validateCron env effCron effTz
    pure (some effCron, some effTz)
  else pure (none, none)

def nameChange (task : ScheduledTask) (payload : ScheduledTaskUpdate) : Call (PatchField String) :=
  match payload.name with
  | none => pure none
  | some name =>
    if name = task.name then pure none
    else do
      if ← ScheduledTaskRepository.getByName name then raise nameDuplicate
      else pure (some name)

def update (taskId : ℕ) (payload : ScheduledTaskUpdate) : Call ScheduledTaskRead := do
  match ← Executor.ScheduledTaskRepository.get taskId with
  | none => raise notFound
  | some task =>
    let (handlerKey, paramsJson) ← handlerChanges env task payload
    let (cronExpression, cronTimezone) ← cronChanges env task payload
    let name ← nameChange task payload
    let row ← ScheduledTaskRepository.update taskId task {
      name := name
      handlerKey := handlerKey
      paramsJson := paramsJson
      cronExpression := cronExpression
      cronTimezone := cronTimezone
      status := payload.status
      allowConcurrent := payload.allowConcurrent
      misfireGraceSeconds := payload.misfireGraceSeconds
      timeoutSeconds := payload.timeoutSeconds
      remark := payload.remark }
    _toRead env taskId row

def delete (taskId : ℕ) : Call Unit := do
  match ← Executor.ScheduledTaskRepository.get taskId with
  | none => raise notFound
  | some _ => ScheduledTaskRepository.delete taskId

/-- The read of the task belongs to the request's transaction, which locks nothing; the
executor opens its own. -/
def manualRun (taskId actorUserId : ℕ) (workerId : String) (deadlocks : List ClaimStatement)
    (result : HandlerResult) : Call ScheduledTaskLogRead := do
  match ← Executor.ScheduledTaskRepository.get taskId with
  | none => raise notFound
  | some task =>
    match env.registry task.handlerKey with
    | none => raise handlerOffline
    | some spec =>
      if !spec.allowManual then raise manualNotAllowed
      else
        let outcome ← run env ⟨taskId, .manual, none, some actorUserId, workerId, none⟩ deadlocks result
        match outcome.bind ExecutionOutcome.logId with
        | none => raise runConflict
        | some logId =>
          match ← Executor.ScheduledTaskRepository.getLog logId with
          | none => raise logNotFound
          | some log => pure ⟨logId, log⟩

/-- The scheduler's job, gone off for `tick`. -/
def _fire (taskId tick : ℕ) (workerId : String) (deadlocks : List ClaimStatement) (result : HandlerResult) :
    Call Unit := do
  let _ ← run env ⟨taskId, .schedule, none, none, workerId, some tick⟩ deadlocks result
  pure ()

/-- The calls on scheduled tasks and their executions; `deadlocks` are the statements at which attempts
at the claim are chosen to break a deadlock. -/
inductive TaskOp
  | create (payload : ScheduledTaskCreate)
  | update (taskId : ℕ) (payload : ScheduledTaskUpdate)
  | delete (taskId : ℕ)
  | manualRun (taskId actorUserId : ℕ) (workerId : String) (deadlocks : List ClaimStatement)
    (result : HandlerResult)
  | fire (taskId tick : ℕ) (workerId : String) (deadlocks : List ClaimStatement) (result : HandlerResult)

def TaskOp.call : TaskOp → Call Unit
  | .create payload => do
    let _ ← getSession (Service.create env payload)
    pure ()
  | .update taskId payload => do
    let _ ← getSession (Service.update env taskId payload)
    pure ()
  | .delete taskId => getSession (Service.delete taskId)
  | .manualRun taskId actorUserId workerId deadlocks result => do
    let _ ← getSession (Service.manualRun env taskId actorUserId workerId deadlocks result)
    pure ()
  | .fire taskId tick workerId deadlocks result => _fire env taskId tick workerId deadlocks result

end AdminPlatform.ScheduledTask.Service
