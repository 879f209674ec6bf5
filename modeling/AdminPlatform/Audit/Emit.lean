import AdminPlatform.Model.Service

namespace AdminPlatform.Audit.Emit

open Model.Service

inductive EventType
  | permissionDenied
  | loginFailed
  | rbacWrite
  | refreshReused
  | loginSuccess
  | passwordChange
  deriving DecidableEq

inductive Status
  | success
  | failure
  | denied
  deriving DecidableEq

structure AuditActor where
  userId : Option ℕ := none
  username : Option String := none
  isSuperAdmin : Bool := false
  deriving DecidableEq

structure AuditTarget where
  type : Option String := none
  id : Option String := none
  display : Option String := none
  deriving DecidableEq

structure AuditResult where
  status : Status
  httpStatus : Option ℕ := none
  errorCode : Option String := none
  deriving DecidableEq

structure AuditEvent where
  eventId : String
  eventType : EventType
  action : String
  title : String
  actor : AuditActor
  target : AuditTarget
  result : AuditResult
  riskLevel : String
  deriving DecidableEq

/-- A row of `audit_events`. -/
structure AuditEventLog where
  eventId : String
  eventType : EventType
  action : String
  title : String
  actorUserId : Option ℕ
  actorUsername : Option String
  actorIsSuperAdmin : Bool
  targetType : Option String
  targetId : Option String
  targetDisplay : Option String
  resultStatus : Status
  resultHttpStatus : Option ℕ
  resultErrorCode : Option String
  riskLevel : String
  payload : AuditEvent
  deriving DecidableEq

def trunc (value : String) (maxlen : ℕ) : String := String.ofList (value.toList.take maxlen)

/-- The columns are cut to their widths; the payload keeps the whole event. -/
def AuditEventLog.fromEnvelope (event : AuditEvent) : AuditEventLog where
  eventId := event.eventId
  eventType := event.eventType
  action := trunc event.action 128
  title := trunc event.title 256
  actorUserId := event.actor.userId
  actorUsername := event.actor.username.map fun s ↦ trunc s 64
  actorIsSuperAdmin := event.actor.isSuperAdmin
  targetType := event.target.type.map fun s ↦ trunc s 64
  targetId := event.target.id.map fun s ↦ trunc s 128
  targetDisplay := event.target.display.map fun s ↦ trunc s 255
  resultStatus := event.result.status
  resultHttpStatus := event.result.httpStatus
  resultErrorCode := event.result.errorCode.map fun s ↦ trunc s 128
  riskLevel := event.riskLevel
  payload := event

inductive DbError
  | integrity
  | other
  deriving DecidableEq

inductive Raised
  | app (e : AppError)
  | db (e : DbError)
  | other
  deriving DecidableEq

/-- A session's changes: those the database has taken, and those it has not been sent. -/
structure Session (κ : Type) where
  written : List κ := []
  pending : List κ := []

/-- What one request holds: its session, whether `current_request_session` knows it, the audit rows
written in that session's transaction, and the buffer of the middleware. -/
structure Request (κ : Type) where
  session : Session κ := {}
  bound : Bool := true
  rows : List AuditEventLog := []
  buffer : List AuditEvent := []

/-- The database's answers: to a flush of pending changes after those it has taken, to the insert of
an audit row, to the commit, and to the insert of buffered events in a transaction of their own. -/
structure Database (κ : Type) where
  flush : List κ → List κ → Option DbError
  insertAudit : AuditEventLog → Option DbError
  commit : List κ → Option DbError
  sink : Option (List AuditEventLog → Option DbError)

abbrev Coroutine (κ α : Type) := ExceptT Raised (StateM (Session κ)) α

abbrev Handler (κ α : Type) := ExceptT Raised (StateM (Request κ)) α

section Coroutines

variable {σ α β : Type} (p : ExceptT Raised (StateM σ) α) (s : σ)

@[simp] theorem bind_apply (f : α → ExceptT Raised (StateM σ) β) : (p >>= f) s =
    match p s with
    | (.ok a, s') => f a s'
    | (.error e, s') => (.error e, s') := by
  change (match p s with
    | (x, s') => (ExceptT.bindCont f x : StateM σ _) s') = _
  obtain ⟨x, s'⟩ := p s
  cases x <;> rfl

@[simp] theorem tryCatch_apply (handler : Raised → ExceptT Raised (StateM σ) α) :
    (tryCatch p handler) s =
    match p s with
    | (.ok a, s') => (.ok a, s')
    | (.error e, s') => handler e s' := by
  obtain ⟨x, s', hp⟩ : ∃ x s', p s = (x, s') := ⟨_, _, rfl⟩
  simp only [tryCatch, tryCatchThe, MonadExceptOf.tryCatch, ExceptT.tryCatch, ExceptT.mk, bind, StateT.bind, hp]
  cases x <;> rfl

@[simp] theorem pure_apply (a : α) : (pure a : ExceptT Raised (StateM σ) α) s = (.ok a, s) := rfl

@[simp] theorem throw_apply (e : Raised) :
    (throw e : ExceptT Raised (StateM σ) α) s = (.error e, s) := rfl

@[simp] theorem get_apply : (get : ExceptT Raised (StateM σ) σ) s = (.ok s, s) := rfl

@[simp] theorem set_apply (s' : σ) :
    (set s' : ExceptT Raised (StateM σ) PUnit) s = (.ok ⟨⟩, s') := rfl

@[simp] theorem modify_apply (f : σ → σ) :
    (modify f : ExceptT Raised (StateM σ) PUnit) s = (.ok ⟨⟩, f s) := rfl

end Coroutines

variable {κ α : Type}

def onSession (p : Coroutine κ α) : Handler κ α := fun q ↦
  let (a, s) := p q.session
  (a, { q with session := s })

variable (db : Database κ)

/-- `session.add`, `session.delete`: the change waits for the next flush. -/
def add (change : κ) : Coroutine κ Unit := modify fun s ↦ { s with pending := s.pending ++ [change] }

/-- `session.flush`. -/
def flush : Coroutine κ Unit := do
  let s ← get
  if s.pending.isEmpty then pure ()
  else
    match db.flush s.written s.pending with
    | none => set { s with written := s.written ++ s.pending, pending := [] }
    | some e => throw (.db e)

def persistAuditInSession (event : AuditEvent) : Handler κ Unit := do
  onSession (flush db)
  match db.insertAudit (.fromEnvelope event) with
  | none => modify fun q ↦ { q with rows := q.rows ++ [.fromEnvelope event] }
  | some _ => pure ()

def emitAudit (event : AuditEvent) : Handler κ Unit :=
  modify fun q ↦ { q with buffer := q.buffer ++ [event] }

def recordAuditCommitted (event : AuditEvent) : Handler κ Unit := do
  if (← get).bound then persistAuditInSession db event else emitAudit event

def rbacWrite (eventId : String) (actor : AuditActor) (action : String) (target : AuditTarget)
    (result : AuditResult) : AuditEvent where
  eventId := eventId
  eventType := .rbacWrite
  action := action
  title := "RBAC 写操作"
  actor := actor
  target := target
  result := result
  riskLevel := "medium"

def emitRbacWrite (event : AuditEvent) : Handler κ Unit :=
  if event.result.status = .success then recordAuditCommitted db event else emitAudit event

/-- The rows that a flush of the buffer leaves. -/
def flushAuditEvents (events : List AuditEvent) : List AuditEventLog :=
  match db.sink with
  | none => []
  | some persist =>
    if events.isEmpty then []
    else
      let rows := events.map AuditEventLog.fromEnvelope
      match persist rows with
      | none => rows
      | some _ => []

end AdminPlatform.Audit.Emit
