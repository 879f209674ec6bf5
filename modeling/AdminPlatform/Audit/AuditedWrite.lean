import AdminPlatform.Audit.Emit

namespace AdminPlatform.Audit.AuditedWrite

open Model.Service Emit

variable {κ α : Type}

/-- The arguments of `audited_write` other than the coroutine; `resultId` and `display` read the
result. -/
structure Attempt (α : Type) where
  eventId : String
  actor : AuditActor
  action : String
  targetType : String
  targetId : Option String := none
  resultId : α → Option String := fun _ ↦ none
  display : Option (α → Option String) := none
  successStatus : ℕ := 200

def Attempt.failed (t : Attempt α) (httpStatus : ℕ) (errorCode : String) : AuditEvent :=
  rbacWrite t.eventId t.actor t.action { type := some t.targetType, id := t.targetId }
    { status := .failure, httpStatus := some httpStatus, errorCode := some errorCode }

def Attempt.succeeded (t : Attempt α) (result : α) : AuditEvent :=
  let target : AuditTarget := {
    type := some t.targetType
    id := t.targetId.or (t.resultId result)
    display := t.display.bind fun f ↦ f result }
  rbacWrite t.eventId t.actor t.action target { status := .success, httpStatus := some t.successStatus }

def auditedWrite (db : Database κ) (t : Attempt α) (coro : Coroutine κ α) : Handler κ α := do
  let result ← tryCatch (onSession coro) fun
    | .app e => do
      emitRbacWrite db (t.failed e.statusCode e.code)
      throw (.app e)
    | .db .integrity => do
      emitRbacWrite db (t.failed 409 "framework.CONFLICT")
      throw (.db .integrity)
    | e => throw e
  emitRbacWrite db (t.succeeded result)
  pure result

/-- How a request ends: what is committed of its changes, if anything, and the audit rows that are
there afterwards. -/
structure Outcome (κ : Type) where
  committed : Option (List κ)
  rows : List AuditEventLog

/-- The request around it: one transaction, rolled back when an exception passes through it and
committed otherwise, and the middleware that flushes the buffer. -/
def handle (db : Database κ) (t : Attempt α) (coro : Coroutine κ α) : Outcome κ :=
  let (result, q) := (auditedWrite db t coro).run {}
  let buffered := flushAuditEvents db q.buffer
  match result with
  | .error _ => ⟨none, buffered⟩
  | .ok _ =>
    match flush db q.session with
    | (.error _, _) => ⟨none, buffered⟩
    | (.ok _, s) =>
      match db.commit s.written with
      | none => ⟨some s.written, q.rows ++ buffered⟩
      | some _ => ⟨none, buffered⟩

/-- One `rbac_write` event stands for the attempt, and says what became of it. -/
def Complete (o : Outcome κ) : Prop :=
  ∃ row, o.rows = [row] ∧ row.eventType = .rbacWrite ∧
    row.resultStatus = if o.committed.isSome then .success else .failure

def flushed (db : Database κ) (s : Session κ) : Option (List κ) :=
  if s.pending.isEmpty then some s.written
  else if (db.flush s.written s.pending).isNone then some (s.written ++ s.pending) else none

def Stored (db : Database κ) (event : AuditEvent) : Prop :=
  ∃ persist, db.sink = some persist ∧ persist [.fromEnvelope event] = none

/-- A coroutine that returns leaves nothing that the database still refuses, at the flush of what is
pending or at the commit, and the event is taken with it; one that raises does so with an error that
is recorded, and the event is taken on its own. -/
def Recorded (db : Database κ) (t : Attempt α) (coro : Coroutine κ α) : Prop :=
  match coro {} with
  | (.ok result, s) => (∃ written, flushed db s = some written ∧ db.commit written = none) ∧
      db.insertAudit (.fromEnvelope (t.succeeded result)) = none
  | (.error (.app e), _) => Stored db (t.failed e.statusCode e.code)
  | (.error (.db .integrity), _) => Stored db (t.failed 409 "framework.CONFLICT")
  | (.error _, _) => False

theorem flush_eq (db : Database κ) (s : Session κ) : flush db s =
    match flushed db s with
    | some written => (.ok (), ⟨written, []⟩)
    | none => (.error (.db ((db.flush s.written s.pending).getD .other)), s) := by
  obtain ⟨written, pending⟩ := s
  cases pending with
  | nil => rfl
  | cons change pending =>
    cases hf : db.flush written (change :: pending) <;> simp [flush, flushed, hf]

theorem flushAuditEvents_nil (db : Database κ) : flushAuditEvents db [] = [] := by
  cases h : db.sink <;> simp [flushAuditEvents, h]

theorem flushAuditEvents_singleton (db : Database κ) (event : AuditEvent) :
    (Stored db event ∧ flushAuditEvents db [event] = [.fromEnvelope event]) ∨
      (¬ Stored db event ∧ flushAuditEvents db [event] = []) := by
  cases h : db.sink with
  | none =>
    refine .inr ⟨fun ⟨persist, hp, _⟩ ↦ ?_, by simp [flushAuditEvents, h]⟩
    rw [h] at hp
    cases hp
  | some persist =>
    cases hp : persist [.fromEnvelope event] with
    | none => exact .inl ⟨⟨persist, h, hp⟩, by simp [flushAuditEvents, h, hp]⟩
    | some e =>
      refine .inr ⟨fun ⟨persist', hp', hn⟩ ↦ ?_, by simp [flushAuditEvents, h, hp]⟩
      rw [h] at hp'
      cases hp'
      rw [hp] at hn
      cases hn

def failure (t : Attempt α) : Raised → List AuditEvent
  | .app e => [t.failed e.statusCode e.code]
  | .db .integrity => [t.failed 409 "framework.CONFLICT"]
  | _ => []

variable {db : Database κ} {t : Attempt α} {coro : Coroutine κ α} {s : Session κ}

theorem handle_raised {e : Raised} (h : coro {} = (.error e, s)) :
    handle db t coro = ⟨none, flushAuditEvents db (failure t e)⟩ := by
  have hon : onSession coro ({} : Request κ) = (.error e, { session := s }) := by
    simp only [onSession, h]
  have hwrite : auditedWrite db t coro {} =
      (.error e, { session := s, buffer := failure t e }) := by
    simp only [auditedWrite, bind_apply, tryCatch_apply, hon]
    rcases e with e | e | _
    · simp [emitRbacWrite, emitAudit, failure, Attempt.failed, rbacWrite]
    · cases e <;> simp [emitRbacWrite, emitAudit, failure, Attempt.failed, rbacWrite]
    · rfl
  simp only [handle, ExceptT.run, hwrite]

/-- What is pending after the coroutine has returned is flushed outside its `try`. -/
theorem handle_refused {a : α} (h : coro {} = (.ok a, s)) (hf : flushed db s = none) :
    handle db t coro = ⟨none, []⟩ := by
  have hon : onSession coro ({} : Request κ) = (.ok a, { session := s }) := by
    simp only [onSession, h]
  have hflush := flush_eq db s
  simp only [hf] at hflush
  have hwrite : ∃ e, auditedWrite db t coro {} = (.error e, { session := s }) := by
    have hstatus : (t.succeeded a).result.status = .success := rfl
    refine ⟨.db ((db.flush s.written s.pending).getD .other), ?_⟩
    simp only [auditedWrite, bind_apply, tryCatch_apply, hon, emitRbacWrite, hstatus, if_pos,
      recordAuditCommitted, get_apply, persistAuditInSession]
    simp only [onSession, hflush]
  obtain ⟨e, hwrite⟩ := hwrite
  simp only [handle, ExceptT.run, hwrite, flushAuditEvents_nil]

theorem handle_returned {a : α} {written : List κ} (h : coro {} = (.ok a, s))
    (hf : flushed db s = some written) : handle db t coro =
    match db.commit written with
    | none => ⟨some written, if (db.insertAudit (.fromEnvelope (t.succeeded a))).isNone then
        [.fromEnvelope (t.succeeded a)] else []⟩
    | some _ => ⟨none, []⟩ := by
  have hon : onSession coro ({} : Request κ) = (.ok a, { session := s }) := by
    simp only [onSession, h]
  have hflush := flush_eq db s
  simp only [hf] at hflush
  have hwrite : auditedWrite db t coro {} = (.ok a, {
      session := ⟨written, []⟩
      rows := if (db.insertAudit (.fromEnvelope (t.succeeded a))).isNone then
        [.fromEnvelope (t.succeeded a)] else [] }) := by
    have hstatus : (t.succeeded a).result.status = .success := rfl
    simp only [auditedWrite, bind_apply, tryCatch_apply, hon, emitRbacWrite, hstatus, if_pos,
      recordAuditCommitted, get_apply, persistAuditInSession]
    simp only [onSession, hflush]
    cases db.insertAudit (.fromEnvelope (t.succeeded a)) <;> rfl
  have hnothing : flush db (⟨written, []⟩ : Session κ) = (.ok (), ⟨written, []⟩) := rfl
  simp only [handle, ExceptT.run, hwrite, flushAuditEvents_nil, hnothing, List.append_nil]

theorem complete_failure {event : AuditEvent} (htype : event.eventType = .rbacWrite)
    (hstatus : event.result.status = .failure) :
    Complete (⟨none, flushAuditEvents db [event]⟩ : Outcome κ) ↔ Stored db event := by
  rcases flushAuditEvents_singleton db event with ⟨hs, hf⟩ | ⟨hs, hf⟩
  · refine iff_of_true ⟨_, hf, htype, hstatus⟩ hs
  · refine iff_of_false (fun ⟨row, hrow, _⟩ ↦ ?_) hs
    rw [hf] at hrow
    cases hrow

theorem not_complete_nil {committed : Option (List κ)} : ¬ Complete (⟨committed, []⟩ : Outcome κ) := by
  rintro ⟨row, hrow, -⟩
  cases hrow

/-- One event stands for an attempt exactly when the coroutine leaves nothing behind that the
database refuses after it has returned, and the event itself is taken. -/
theorem complete_iff_recorded (db : Database κ) (t : Attempt α) (coro : Coroutine κ α) :
    Complete (handle db t coro) ↔ Recorded db t coro := by
  obtain ⟨r, s, h⟩ : ∃ r s, coro {} = (r, s) := ⟨_, _, rfl⟩
  simp only [Recorded, h]
  cases r with
  | error e =>
    rw [handle_raised h]
    rcases e with e | e | _
    · exact complete_failure rfl rfl
    · cases e with
      | integrity => exact complete_failure rfl rfl
      | other =>
        change Complete ⟨none, flushAuditEvents db []⟩ ↔ False
        rw [flushAuditEvents_nil]
        exact iff_of_false not_complete_nil id
    · change Complete ⟨none, flushAuditEvents db []⟩ ↔ False
      rw [flushAuditEvents_nil]
      exact iff_of_false not_complete_nil id
  | ok a =>
    cases hf : flushed db s with
    | none =>
      rw [handle_refused h hf]
      refine iff_of_false not_complete_nil ?_
      rintro ⟨⟨written, hw, -⟩, -⟩
      rw [hf] at hw
      cases hw
    | some written =>
      rw [handle_returned h hf]
      cases hc : db.commit written with
      | some e =>
        refine iff_of_false not_complete_nil ?_
        rintro ⟨⟨written', hw, hn⟩, -⟩
        rw [hf] at hw
        cases hw
        rw [hc] at hn
        cases hn
      | none =>
        cases hi : db.insertAudit (.fromEnvelope (t.succeeded a)) with
        | none => exact iff_of_true ⟨_, rfl, rfl, rfl⟩ ⟨⟨written, hf, hc⟩, hi⟩
        | some e =>
          refine iff_of_false not_complete_nil ?_
          rintro ⟨-, hn⟩
          rw [hi] at hn
          cases hn

/-- `DeptRepository.delete` marks the row and does not flush. The changes are the deleted ids. -/
def delete (dept_id : ℕ) : Coroutine ℕ Bool := do
  add dept_id
  pure true

def sampleAttempt : Attempt Bool where
  eventId := "e"
  actor := { userId := some 1, isSuperAdmin := true }
  action := "system:dept:remove"
  targetType := "dept"
  targetId := some "7"
  successStatus := 204

/-- A child of the department was committed after the check for children: the deletion is refused when it
is flushed. -/
def restricting : Database ℕ where
  flush _ _ := some .integrity
  insertAudit _ := none
  commit _ := none
  sink := some fun _ ↦ none

/-- Nothing is recorded of a deletion that is refused at the flush of pending changes. -/
theorem not_complete_restricted :
    ¬ ∀ (κ α : Type) (db : Database κ) (t : Attempt α) (coro : Coroutine κ α),
      (∀ row, db.insertAudit row = none) → (∀ event, Stored db event) → (∃ a s, coro {} = (.ok a, s)) →
      Complete (handle db t coro) := by
  intro h
  obtain ⟨row, hrow, -⟩ := h ℕ Bool restricting sampleAttempt (delete 7) (fun _ ↦ rfl)
    (fun _ ↦ ⟨_, rfl, rfl⟩) ⟨true, ⟨[], [7]⟩, rfl⟩
  have hnone : (handle restricting sampleAttempt (delete 7)).rows = [] := rfl
  rw [hnone] at hrow
  cases hrow

end AdminPlatform.Audit.AuditedWrite
