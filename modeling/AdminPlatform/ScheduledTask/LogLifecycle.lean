import AdminPlatform.ScheduledTask.TaskSystem

namespace AdminPlatform.ScheduledTask.LogLifecycle

open Model.Schema Model.Service Foundation.Relational Foundation.Transaction
open Foundation.Interleaving Foundation.RelyGuarantee Cron Executor Executor.ScheduledTaskRepository
open ClaimInvariant (TaskInv taskProtocol)

variable {α : Type} {env : Environment} {w w' : Shared} {l l' : Private} {L : ℕ}
  {r r' r'' : ScheduledTaskLog} {key : String} {T s : ℕ}

abbrev Ending := LogStatus × Option ℕ × Option ℤ × Option String × Option String × Option String

def ending (r : ScheduledTaskLog) : Ending :=
  (r.status, r.finishedAt, r.durationMs, r.errorCode, r.errorMessage, r.resultSummary)

def endingWith (o : Outcome) (finishedAt : ℕ) (durationMs : ℤ) : Ending :=
  (o.status, some finishedAt, some durationMs, o.errorCode, o.errorMessage, o.resultSummary)

def identity (r : ScheduledTaskLog) : ℕ × TriggerType × Option ℕ × String × String × Option ℕ ×
    Option String × Option ℕ :=
  (r.executionId, r.triggerType, r.scheduledAt, r.handlerKey, r.paramsJson, r.startedAt, r.workerId, r.actorUserId)

/-- The log of an execution that runs, was skipped, or has ended as its handler did. -/
inductive Stage (env : Environment) (r : ScheduledTaskLog) : Prop
  | running (started : ℕ) (hs : r.startedAt = some started)
      (h : ending r = (.running, none, none, none, none, none)) : Stage env r
  | skipped (finished : ℕ) (hs : r.startedAt = none)
      (h : ending r = (.skipped, some finished, none, none, none, none)) : Stage env r
  | ended (started finished : ℕ) (duration : ℤ) (timeout : Option ℕ) (result : HandlerResult)
      (hs : r.startedAt = some started) (hle : started ≤ finished)
      (h : ending r = endingWith (_invoke env r.handlerKey timeout result) finished duration) : Stage env r

/-- The deletion of the task `T` was committed. -/
def Deleted (w : Shared) (T : ℕ) : Prop := Note.taskDeleted T ∈ w.log

/-- What may have become of a log by the state `w`: its identity stays, only the deletion of its task
takes its task away, and an end is final. -/
structure Evolves (w : Shared) (r r' : ScheduledTaskLog) : Prop where
  same : identity r' = identity r
  task : r'.taskId = r.taskId ∨ r'.taskId = none ∧ ∃ T, r.taskId = some T ∧ Deleted w T
  final : r.status ≠ .running → ending r' = ending r

def Detached (w : Shared) (r r' : ScheduledTaskLog) : Prop :=
  r' = r ∨ r' = { r with taskId := none } ∧ ∃ T, r.taskId = some T ∧ Deleted w T

theorem status_of_ending (h : ending r' = ending r) : r'.status = r.status := congrArg Prod.fst h

theorem startedAt_of_identity (h : identity r' = identity r) : r'.startedAt = r.startedAt :=
  congrArg (fun x ↦ x.2.2.2.2.2.1) h

theorem Evolves.refl (w : Shared) (r : ScheduledTaskLog) : Evolves w r r := ⟨rfl, .inl rfl, fun _ ↦ rfl⟩

theorem Evolves.trans (h : Evolves w r r') (h' : Evolves w' r' r'') (hlog : w.log ⊆ w'.log) :
    Evolves w' r r'' where
  same := h'.same.trans h.same
  task := by
    rcases h.task with ht | ⟨hn, T, hT, hd⟩
    · rw [← ht]
      exact h'.task
    · rcases h'.task with ht' | ⟨-, T', hT', -⟩
      · exact .inr ⟨ht'.trans hn, T, hT, hlog hd⟩
      · rw [hn] at hT'
        cases hT'
  final hr := by
    have hend := h.final hr
    rw [← status_of_ending hend] at hr
    exact (h'.final hr).trans hend

theorem Detached.evolves (h : Detached w r r') : Evolves w r r' := by
  rcases h with rfl | ⟨rfl, hd⟩
  · exact .refl w r'
  · exact ⟨rfl, .inr ⟨rfl, hd⟩, fun _ ↦ rfl⟩

theorem Detached.trans (h : Detached w r r') (h' : Detached w' r' r'') (hlog : w.log ⊆ w'.log) :
    Detached w' r r'' := by
  rcases h with rfl | ⟨rfl, T, hT, hd⟩
  · exact h'
  · rcases h' with rfl | ⟨-, T', hT', -⟩
    · exact .inr ⟨rfl, T, hT, hlog hd⟩
    · cases hT'

theorem Stage.detached (hs : Stage env r) : Stage env { r with taskId := none } := by
  cases hs with
  | running started hs h => exact .running started hs h
  | skipped finished hs h => exact .skipped finished hs h
  | ended started finished duration timeout result hs hle h =>
    exact .ended started finished duration timeout result hs hle h

theorem stored_mono {a b : ℕ} (h : a ≤ b) : stored a ≤ stored b :=
  Nat.mul_le_mul_right _ (Nat.div_le_div_right (Nat.add_le_add_right h _))

structure LogInv (env : Environment) (w : Shared) : Prop where
  below : ∀ L (r : ScheduledTaskLog), w.db.rows .scheduledTaskLogs L = some r → L < w.next
  stage : ∀ L (r : ScheduledTaskLog), w.db.rows .scheduledTaskLogs L = some r → Stage env r
  begun : ∀ L (r : ScheduledTaskLog) s, w.db.rows .scheduledTaskLogs L = some r → r.startedAt = some s →
    s ≤ stored w.now

structure LogsEvolve (w w' : Shared) : Prop where
  log : w.log ⊆ w'.log
  rows : ∀ L (r : ScheduledTaskLog), w.db.rows .scheduledTaskLogs L = some r →
    ∃ r' : ScheduledTaskLog, w'.db.rows .scheduledTaskLogs L = some r' ∧ Evolves w' r r'

/-- What nobody but the session that drew an id does to its log. -/
structure Untouched (L : ℕ) (w w' : Shared) : Prop where
  log : w.log ⊆ w'.log
  absent : w.db.rows .scheduledTaskLogs L = none → w'.db.rows .scheduledTaskLogs L = none
  present : ∀ r : ScheduledTaskLog, w.db.rows .scheduledTaskLogs L = some r →
    ∃ r' : ScheduledTaskLog, w'.db.rows .scheduledTaskLogs L = some r' ∧ Detached w' r r'

def logProt : Resource Table LockName → Shared → Shared → Prop
  | .own L, w, w' => Untouched L w w'
  | _, _, _ => True

theorem LogInv.congr (h : LogInv env w) (hd : w'.db = w.db) (hnow : w.now ≤ w'.now) (hnext : w.next ≤ w'.next) :
    LogInv env w' where
  below L r hr := Nat.lt_of_lt_of_le (h.below L r (hd ▸ hr)) hnext
  stage L r hr := h.stage L r (hd ▸ hr)
  begun L r s hr hs := Nat.le_trans (h.begun L r s (hd ▸ hr) hs) (stored_mono hnow)

section Quiet

variable (hd : w'.db = w.db) (hl : w'.log = w.log)

include hd hl

theorem LogsEvolve.of_db : LogsEvolve w w' := ⟨fun _ hn ↦ hl ▸ hn, fun _ r hr ↦ ⟨r, hd ▸ hr, .refl w' r⟩⟩

theorem Untouched.of_db : Untouched L w w' :=
  ⟨fun _ hn ↦ hl ▸ hn, fun hn ↦ hd ▸ hn, fun r hr ↦ ⟨r, hd ▸ hr, .inl rfl⟩⟩

theorem logProt_of_db (r : Resource Table LockName) : logProt r w w' := by
  unfold logProt
  split
  · exact .of_db hd hl
  · trivial

end Quiet

theorem LogsEvolve.trans {w'' : Shared} (h : LogsEvolve w w') (h' : LogsEvolve w' w'') : LogsEvolve w w'' where
  log _ hn := h'.log (h.log hn)
  rows L r hr := by
    obtain ⟨r', hr', he⟩ := h.rows L r hr
    obtain ⟨r'', hr'', he'⟩ := h'.rows L r' hr'
    exact ⟨r'', hr'', he.trans he' h'.log⟩

theorem Untouched.trans {w'' : Shared} (h : Untouched L w w') (h' : Untouched L w' w'') : Untouched L w w'' where
  log _ hn := h'.log (h.log hn)
  absent hn := h'.absent (h.absent hn)
  present r hr := by
    obtain ⟨r', hr', hd⟩ := h.present r hr
    obtain ⟨r'', hr'', hd'⟩ := h'.present r' hr'
    exact ⟨r'', hr'', hd.trans hd' h'.log⟩

def logProtocol (env : Environment) : Protocol Table Row LockName Storage Note where
  inv := LogInv env
  guar := LogsEvolve
  change _ _ := True
  prot := logProt
  guar_refl _ := .of_db rfl rfl
  guar_trans _ _ _ := LogsEvolve.trans
  prot_refl r _ := logProt_of_db rfl rfl r
  prot_trans r w w' w'' h h' := by
    unfold logProt at *
    split at h
    · exact h.trans h'
    · trivial
  quiet _ _ h hd hl _ hnow hnext := ⟨h.congr hd hnow hnext, .of_db hd hl, trivial, logProt_of_db hd hl⟩

/-- What a transaction may write to the log `k`. -/
inductive Patch (env : Environment) (l : Private) (w : Shared) (k : ℕ) (r' : ScheduledTaskLog) : Prop
  | detached (r : ScheduledTaskLog) (T : ℕ) : w.db.rows .scheduledTaskLogs k = some r → r.taskId = some T →
      .taskDeleted T ∈ l.notes → r' = { r with taskId := none } → Patch env l w k r'
  | claimed : (.own k, .exclusive) ∈ l.held → w.db.rows .scheduledTaskLogs k = none → k < w.next → Stage env r' →
      (∀ s, r'.startedAt = some s → s ≤ stored w.now) → Patch env l w k r'
  | finished (r : ScheduledTaskLog) : (.own k, .exclusive) ∈ l.held → w.db.rows .scheduledTaskLogs k = some r →
      r.status = .running → (∀ w', Evolves w' r r') → Stage env r' → Patch env l w k r'

structure Tidy (env : Environment) (l : Private) (w : Shared) : Prop where
  covered : Covered l
  logs : ∀ k v, pending l.redo .scheduledTaskLogs k = some v → ∃ r', v = some r' ∧ Patch env l w k r'

/-- The session runs the execution `L`, of the handler `key`, since `s`. -/
structure Owned (L : ℕ) (key : String) (s : ℕ) (l : Private) (w : Shared) : Prop where
  own : (.own L, .exclusive) ∈ l.held
  row : ∃ r : ScheduledTaskLog, w.db.rows .scheduledTaskLogs L = some r ∧ r.status = .running ∧
    r.startedAt = some s ∧ r.handlerKey = key

theorem tidy_blank (h : Blank l) : Tidy env l w where
  covered x hx := by
    rw [h.redo] at hx
    cases hx
  logs k v hp := by
    rw [h.redo] at hp
    cases hp

theorem Patch.later {k : ℕ} (h : Patch env l w k r')
    (hrow : w'.db.rows .scheduledTaskLogs k = w.db.rows .scheduledTaskLogs k)
    (hl : Later w w') (hheld : l.held ⊆ l'.held) (hnotes : l.notes ⊆ l'.notes) : Patch env l' w' k r' := by
  cases h with
  | detached r T hr hT hn he => exact .detached r T (hrow.trans hr) hT (hnotes hn) he
  | claimed hown hn hlt hs hb =>
    exact .claimed (hheld hown) (hrow.trans hn) (Nat.lt_of_lt_of_le hlt hl.next) hs
      fun s hs ↦ Nat.le_trans (hb s hs) (stored_mono hl.now)
  | finished r hown hr hrun hev hs => exact .finished r (hheld hown) (hrow.trans hr) hrun hev hs

theorem Tidy.after (h : Tidy env l w) (ha : After (logProtocol env) l w l' w') (hc : Covered l')
    (hsame : ∀ k, pending l'.redo .scheduledTaskLogs k = pending l.redo .scheduledTaskLogs k) :
    Tidy env l' w' where
  covered := hc
  logs k v hp := by
    rw [hsame] at hp
    obtain ⟨r', hv, hpatch⟩ := h.logs k v hp
    exact ⟨r', hv, hpatch.later (ha.rely.row _ _ _ (h.covered _ (pending_mem hp))) ha.rely.later ha.held ha.notes⟩

theorem Tidy.rely (h : Tidy env l w) (hr : Rely (logProtocol env) l w w') : Tidy env l w' :=
  h.after ⟨hr, fun _ h ↦ h, fun _ h ↦ h⟩ h.covered fun _ ↦ rfl

theorem Tidy.spared (h : Tidy env l w) (hs : Spared (logProtocol env) .scheduledTaskLogs l w l' w') :
    Tidy env l' w' :=
  h.after hs.after (hs.covered h.covered) hs.same

theorem Owned.rely (h : Owned L key s l w) (hr : Rely (logProtocol env) l w w') : Owned L key s l w' := by
  obtain ⟨hown, r, hrow, hrun, hs, hk⟩ := h
  have hu : Untouched L w w' := hr.prot _ hown
  obtain ⟨r', hr', hd⟩ := hu.present r hrow
  refine ⟨hown, r', hr', ?_⟩
  rcases hd with rfl | ⟨rfl, -⟩
  · exact ⟨hrun, hs, hk⟩
  · exact ⟨hrun, hs, hk⟩

theorem Owned.after (h : Owned L key s l w) (ha : After (logProtocol env) l w l' w') : Owned L key s l' w' :=
  ⟨ha.held h.own, (h.rely ha.rely).row⟩

section Commit

variable (h : Tidy env l w)
include h

/-- What a commit leaves of a log that is there. -/
theorem log_after (hr : w.db.rows .scheduledTaskLogs L = some r) :
    ∃ r' : ScheduledTaskLog, (w.commit l).db.rows .scheduledTaskLogs L = some r' ∧ Evolves (w.commit l) r r' ∧
      ((∀ m, (.own L, m) ∉ l.held) → Detached (w.commit l) r r') := by
  cases hp : pending l.redo .scheduledTaskLogs L with
  | none => exact ⟨r, (apply_rows_of_none hp).trans hr, .refl _ r, fun _ ↦ .inl rfl⟩
  | some v =>
    obtain ⟨r', rfl, hpatch⟩ := h.logs L v hp
    refine ⟨r', apply_rows_of_pending hp, ?_⟩
    cases hpatch with
    | detached r₀ T hr₀ hT hn he =>
      obtain rfl : r₀ = r := Option.some.inj (hr₀.symm.trans hr)
      have hd : Detached (w.commit l) r₀ r' := .inr ⟨he, T, hT, List.mem_append_right _ hn⟩
      exact ⟨hd.evolves, fun _ ↦ hd⟩
    | claimed hown hn =>
      rw [hn] at hr
      cases hr
    | finished r₀ hown hr₀ hrun hev =>
      obtain rfl : r₀ = r := Option.some.inj (hr₀.symm.trans hr)
      exact ⟨hev _, fun hno ↦ absurd hown (hno _)⟩

/-- Where a log comes from that a commit leaves. -/
theorem log_before (hi : LogInv env w) (hr : (w.commit l).db.rows .scheduledTaskLogs L = some r') :
    L < w.next ∧ Stage env r' ∧ (∀ s, r'.startedAt = some s → s ≤ stored w.now) ∧
      (w.db.rows .scheduledTaskLogs L = none → (.own L, .exclusive) ∈ l.held) := by
  cases hp : pending l.redo .scheduledTaskLogs L with
  | none =>
    have hrow : w.db.rows .scheduledTaskLogs L = some r' := (apply_rows_of_none hp).symm.trans hr
    refine ⟨hi.below L r' hrow, hi.stage L r' hrow, fun s hs ↦ hi.begun L r' s hrow hs, fun hn ↦ ?_⟩
    rw [hrow] at hn
    cases hn
  | some v =>
    obtain ⟨r₁, rfl, hpatch⟩ := h.logs L v hp
    obtain rfl : r₁ = r' := Option.some.inj ((apply_rows_of_pending hp).symm.trans hr)
    have hold : ∀ r₀, w.db.rows .scheduledTaskLogs L = some r₀ → identity r₁ = identity r₀ → Stage env r₁ →
        L < w.next ∧ Stage env r₁ ∧ (∀ s, r₁.startedAt = some s → s ≤ stored w.now) ∧
          (w.db.rows .scheduledTaskLogs L = none → (.own L, .exclusive) ∈ l.held) := by
      intro r₀ hr₀ hsame hs
      refine ⟨hi.below L r₀ hr₀, hs, fun s hst ↦ hi.begun L r₀ s hr₀ ?_, fun hn ↦ ?_⟩
      · rw [← startedAt_of_identity hsame, hst]
      · rw [hr₀] at hn
        cases hn
    cases hpatch with
    | detached r₀ T hr₀ hT hn he =>
      subst he
      exact hold r₀ hr₀ rfl (hi.stage L r₀ hr₀).detached
    | claimed hown hn hlt hs hb => exact ⟨hlt, hs, hb, fun _ ↦ hown⟩
    | finished r₀ hown hr₀ hrun hev hs => exact hold r₀ hr₀ (hev w).same hs

theorem moves_tidy (hi : LogInv env w) : Moves (logProtocol env) l.held w (w.commit l) where
  inv := ⟨fun L r hr ↦ (log_before h hi hr).1, fun L r hr ↦ (log_before h hi hr).2.1,
    fun L r s hr hs ↦ (log_before h hi hr).2.2.1 s hs⟩
  guar := by
    have hevolve : LogsEvolve w (w.commit l) := by
      refine ⟨List.subset_append_left _ _, fun L r hr ↦ ?_⟩
      obtain ⟨r', hr', hev, -⟩ := log_after h hr
      exact ⟨r', hr', hev⟩
    exact hevolve
  change := trivial
  prot res hres := by
    cases res with
    | row t i => trivial
    | named k => trivial
    | own L =>
      have hu : Untouched L w (w.commit l) := by
        refine ⟨List.subset_append_left _ _, fun hn ↦ ?_, fun r hr ↦ ?_⟩
        · cases hr : (w.commit l).db.rows .scheduledTaskLogs L with
          | none => rfl
          | some r' => exact absurd ((log_before h hi hr).2.2.2 hn) (hres _)
        · obtain ⟨r', hr', -, hd⟩ := log_after h hr
          exact ⟨r', hr', hd hres⟩
      exact hu

end Commit

section Spares

open Prog Service

abbrev SparesLogs (p : Call α) : Prop := p.Spares .scheduledTaskLogs

theorem spares_acquireTransactionLock (k : LockName) : SparesLogs (acquireTransactionLock k) :=
  spares_query fun _ _ _ h ↦ by
    cases h
    exact ⟨fun _ ↦ rfl, rfl⟩

theorem spares_getForUpdate (taskId : ℕ) : SparesLogs (getForUpdate taskId) :=
  spares_query fun _ _ _ h ↦ by
    cases h
    exact ⟨fun _ ↦ rfl, rfl⟩

theorem spares_uuid4 : SparesLogs uuid4 :=
  spares_query fun _ _ _ h ↦ by
    cases h
    exact ⟨fun _ ↦ rfl, rfl⟩

theorem spares_mark (n : Note) : SparesLogs (mark n) :=
  spares_query fun _ _ _ h ↦ by
    cases h
    exact ⟨fun _ ↦ rfl, rfl⟩

theorem spares_task (id : ℕ) (v : Option ScheduledTask) (i : ℕ) :
    pending [(⟨.scheduledTasks, id, v⟩ : Write Row)] .scheduledTaskLogs i = none := by
  rw [pending_singleton, Write.at_other (by decide)]

theorem spares_create (task : ScheduledTask) : SparesLogs (Service.ScheduledTaskRepository.create task) := by
  refine spares_query fun v g a h ↦ ?_
  split at h
  · cases h
  · cases h
    exact ⟨spares_task _ _, rfl⟩

theorem spares_update (taskId : ℕ) (loaded : ScheduledTask) (c : Service.ScheduledTaskRepository.Changes) :
    SparesLogs (Service.ScheduledTaskRepository.update taskId loaded c) := by
  refine spares_query fun v g a h ↦ ?_
  split at h
  · cases h
  · split at h
    · cases h
      exact ⟨fun _ ↦ rfl, rfl⟩
    · dsimp only at h
      split at h
      · cases h
      · cases h
        exact ⟨spares_task _ _, rfl⟩

theorem spares_markTaskLastRun (taskId : ℕ) (loaded : ScheduledTask) (status : LogStatus) (time : ℕ) :
    SparesLogs (markTaskLastRun taskId loaded status time) := by
  refine spares_query fun v g a h ↦ ?_
  split at h
  · cases h
  · cases h
    exact ⟨spares_task _ _, rfl⟩

theorem spares_requireHandler (handlerKey : String) : SparesLogs (_requireHandler env handlerKey) := by
  unfold _requireHandler
  split
  · exact spares_fail _
  · exact spares_pure _

theorem spares_validateParams (spec : HandlerSpec) (handlerKey params : String) :
    SparesLogs (_validateParams spec handlerKey params) := by
  unfold _validateParams
  split
  · exact spares_pure _
  · exact spares_fail _

theorem spares_validateCron (expr timezone : String) : SparesLogs (_validateCron env expr timezone) := by
  unfold _validateCron
  split
  · exact spares_pure _
  · exact spares_fail _

theorem spares_toRead (id : ℕ) (task : ScheduledTask) : SparesLogs (_toRead env id task) := by
  unfold _toRead
  split
  · refine (spares_read _).bind fun time ↦ ?_
    split
    · exact spares_pure _
    · exact spares_pure _
  · exact spares_pure _

theorem spares_handlerChanges (task : ScheduledTask) (payload : ScheduledTaskUpdate) :
    SparesLogs (handlerChanges env task payload) := by
  unfold handlerChanges
  split
  · exact (spares_requireHandler _).bind fun spec ↦ (spares_validateParams spec _ _).bind fun _ ↦ spares_pure _
  · exact spares_pure _

theorem spares_cronChanges (task : ScheduledTask) (payload : ScheduledTaskUpdate) :
    SparesLogs (cronChanges env task payload) := by
  unfold cronChanges
  split
  · exact (spares_validateCron _ _).bind fun _ ↦ spares_pure _
  · exact spares_pure _

theorem spares_nameChange (task : ScheduledTask) (payload : ScheduledTaskUpdate) :
    SparesLogs (nameChange task payload) := by
  unfold nameChange
  split
  · exact spares_pure _
  · split
    · exact spares_pure _
    · refine (spares_read _).bind fun taken ↦ ?_
      split
      · exact spares_fail _
      · exact spares_pure _

theorem spares_serviceCreate (payload : ScheduledTaskCreate) : SparesLogs (Service.create env payload) := by
  refine (spares_requireHandler _).bind fun spec ↦ (spares_validateParams spec _ _).bind fun params ↦ ?_
  refine (spares_validateCron _ _).bind fun _ ↦ (spares_read _).bind fun taken ↦ ?_
  split
  · exact spares_fail _
  · exact (spares_create _).bind fun id ↦ spares_toRead id _

theorem spares_serviceUpdate (taskId : ℕ) (payload : ScheduledTaskUpdate) :
    SparesLogs (Service.update env taskId payload) := by
  refine (spares_read _).bind fun task? ↦ ?_
  split
  · exact spares_fail _
  · rename_i task
    refine (spares_handlerChanges task payload).bind fun c ↦ (spares_cronChanges task payload).bind fun c' ↦ ?_
    refine (spares_nameChange task payload).bind fun name ↦ (spares_update taskId task _).bind fun row ↦ ?_
    exact spares_toRead taskId row

theorem spares_unlessVictim {p : Call α} (hp : SparesLogs p) (victim : Option ClaimStatement)
    (statement : ClaimStatement) : SparesLogs (unlessVictim victim statement p) := by
  unfold unlessVictim
  split
  · exact spares_fail _
  · exact hp

theorem spares_claimTime (task : ScheduledTask) (req : ClaimRequest) (time : ℕ) :
    SparesLogs (claimTime env task req time) := by
  unfold claimTime
  split
  · split
    · exact spares_fail _
    · exact spares_pure _
  · exact spares_pure _

theorem spares_concurrencySkip (victim : Option ClaimStatement) (taskId : ℕ) (task : ScheduledTask) (since : ℕ) :
    SparesLogs (concurrencySkip victim taskId task since) := by
  unfold concurrencySkip
  split
  · exact spares_pure _
  · exact (spares_unlessVictim (spares_read _) _ _).bind fun _ ↦ spares_pure _

end Spares

section Calls

open Prog Service

variable {G : Guard Table Row LockName Storage Note} {Q : α → Private → Shared → Prop}
  {E : Failure → Private → Shared → Prop} {req : ClaimRequest} {deadlocks : List ClaimStatement}

theorem wp_tidy {p : Call α} (hp : SparesLogs p) (ht : Tidy env l w) (hi : LogInv env w)
    (hQ : ∀ a l' w', Tidy env l' w' → LogInv env w' → Q a l' w')
    (hE : ∀ e l' w', Tidy env l' w' → LogInv env w' → E e l' w') : wp (logProtocol env) G p Q E l w :=
  wp_spares hp hi (fun a l' w' h ↦ hQ a l' w' (ht.spared h) h.after.rely.inv)
    fun e l' w' h ↦ hE e l' w' (ht.spared h) h.after.rely.inv

theorem wp_getSession {p : Call α} (h : wp (logProtocol env) G p (fun _ l w ↦ Tidy env l w)
    (fun _ _ _ ↦ True) l w) :
    safe (logProtocol env) G (getSession p) l w := by
  refine wp_bind (wp_mono (fun a l' w' ht ↦ ?_) (fun _ _ _ _ ↦ trivial) h)
  exact wp_bind (wp_save fun w'' hr _ ↦ ⟨moves_tidy (ht.rely hr) hr.inv, trivial⟩)

theorem stage_newLog (task : ScheduledTask) (req : ClaimRequest) (executionId : ℕ) (scheduledAt : Option ℕ)
    (skip : Bool) (time : ℕ) : Stage env (newLog task req executionId scheduledAt skip time) := by
  cases skip with
  | true => exact .skipped (stored time) rfl rfl
  | false => exact .running (stored time) rfl rfl

/-- The `INSERT` of a log. -/
theorem tidy_insert {g : Statement} {log : ScheduledTaskLog} (ht : Tidy env l w) (hi : LogInv env w)
    (hs : Stage env log) (hb : ∀ s, log.startedAt = some s → s ≤ stored w.now)
    (hw : g.writes = [⟨.scheduledTaskLogs, w.next, some log⟩]) (hf : g.fresh = 1) :
    Tidy env (l.run g w.next) (w.run g) ∧ (.own w.next, .exclusive) ∈ (l.run g w.next).held ∧
      pending (l.run g w.next).redo .scheduledTaskLogs w.next = some (some log) := by
  have hown : (.own w.next, .exclusive) ∈ (l.run g w.next).held := by
    refine claims_run _ _ _ (List.mem_append_right _ (List.mem_map.2 ⟨0, ?_, rfl⟩))
    rw [hf]
    exact List.mem_range.2 Nat.one_pos
  have hpending : ∀ k, pending (l.run g w.next).redo .scheduledTaskLogs k =
      (pending [(⟨.scheduledTaskLogs, w.next, some log⟩ : Write Row)] .scheduledTaskLogs k).or
        (pending l.redo .scheduledTaskLogs k) := by
    intro k
    rw [← hw]
    exact pending_append _ _ _ _
  have hlater : Later w (w.run g) := later_run w g
  refine ⟨⟨covered_run ht.covered g w.next, fun k v hp ↦ ?_⟩, hown, ?_⟩
  · rw [hpending, pending_singleton] at hp
    by_cases hk : k = w.next
    · subst hk
      rw [Write.at_self, Option.some_or, Option.some.injEq] at hp
      have hnone : w.db.rows .scheduledTaskLogs w.next = none := by
        cases hr : w.db.rows .scheduledTaskLogs w.next with
        | none => rfl
        | some r => exact absurd (hi.below _ r hr) (Nat.lt_irrefl _)
      refine ⟨log, hp.symm, .claimed hown hnone ?_ hs hb⟩
      show w.next < w.next + g.fresh
      omega
    · rw [Write.at_id_ne (Ne.symm hk), Option.none_or] at hp
      obtain ⟨r', hv, hpatch⟩ := ht.logs k v hp
      exact ⟨r', hv, hpatch.later rfl hlater (held_run _ _ _) (List.subset_append_left _ _)⟩
  · rw [hpending, pending_singleton, Write.at_self, Option.some_or]

theorem wp_createLog {log : ScheduledTaskLog} {notes : ℕ → List Note} {Q : ℕ → Private → Shared → Prop}
    (ht : Tidy env l w) (hs : Stage env { log with taskId := some T })
    (hb : ∀ s, log.startedAt = some s → s ≤ stored w.now)
    (hE : ∀ e l' w', Tidy env l' w' → LogInv env w' → E e l' w')
    (hQ : ∀ L l' w', Tidy env l' w' → (.own L, .exclusive) ∈ l'.held →
      pending l'.redo .scheduledTaskLogs L = some (some { log with taskId := some T }) → Q L l' w') :
    wp (logProtocol env) G (createLog T log notes) Q E l w := by
  refine wp_query fun w' hr ↦ ?_
  have ht' := ht.rely hr
  have hb' : ∀ s, log.startedAt = some s → s ≤ stored w'.now :=
    fun s h ↦ Nat.le_trans (hb s h) (stored_mono hr.later.now)
  have hinsert : ∀ g : Statement, g.writes = [⟨.scheduledTaskLogs, w'.next, some { log with taskId := some T }⟩] →
      g.fresh = 1 → Q w'.next (l.run g w'.next) (w'.run g) := by
    intro g hw hf
    obtain ⟨hrun, hown, hpend⟩ := tidy_insert ht' hr.inv hs hb' hw hf
    exact hQ _ _ _ hrun hown hpend
  split
  · rename_i hok
    split at hok
    · cases hok
    · split at hok
      · cases hok
        exact fun _ ↦ ⟨rfl, hinsert _ rfl rfl⟩
      · split at hok
        · cases hok
        · cases hok
          exact fun _ ↦ ⟨rfl, hinsert _ rfl rfl⟩
  · exact hE _ _ _ ht' hr.inv

def Claimed (env : Environment) (claim? : Option Claim) (l : Private) (w : Shared) : Prop :=
  Blank l ∧ LogInv env w ∧ ∀ claim, claim? = some claim → claim.skipped = false →
    ∃ s, Owned claim.logId claim.handlerKey s l w

theorem wp_claimSession {executionId : ℕ} {victim : Option ClaimStatement}
    {Q : Option Claim → Private → Shared → Prop} (ht : Tidy env l w) (hi : LogInv env w)
    (hE : ∀ e l' w', Tidy env l' w' → LogInv env w' → E e l' w')
    (hQ : ∀ c l' w', Claimed env c l' w' → Q c l' w') :
    wp (logProtocol env) G (claimSession env req executionId victim) Q E l w := by
  refine wp_bind (wp_tidy (spares_unlessVictim (spares_acquireTransactionLock _) _ _) ht hi
    (fun _ l₁ w₁ ht₁ hi₁ ↦ ?_) hE)
  refine wp_bind (wp_tidy (spares_unlessVictim (spares_getForUpdate _) _ _) ht₁ hi₁
    (fun task? l₂ w₂ ht₂ hi₂ ↦ ?_) hE)
  cases task? with
  | none =>
    refine wp_bind (wp_save fun w₃ hr₃ _ ↦ ?_)
    have hm := moves_tidy (ht₂.rely hr₃) hr₃.inv
    refine ⟨hm, hQ _ _ _ ⟨.commit l₂, hm.inv, fun claim hc ↦ ?_⟩⟩
    cases hc
  | some task =>
    refine wp_bind (wp_tidy (spares_read _) ht₂ hi₂ (fun clock l₃ w₃ ht₃ hi₃ ↦ ?_) hE)
    refine wp_bind (wp_tidy (spares_claimTime _ _ _) ht₃ hi₃ (fun key l₃ w₃ ht₃ hi₃ ↦ ?_) hE)
    refine wp_bind (wp_tidy (spares_read _) ht₃ hi₃ (fun checked l₄ w₄ ht₄ hi₄ ↦ ?_) hE)
    refine wp_bind (wp_tidy (spares_concurrencySkip _ _ _ _) ht₄ hi₄ (fun skip l₅ w₅ ht₅ hi₅ ↦ ?_) hE)
    refine wp_bind (wp_read fun w₆ hr₆ ↦ ?_)
    have hstage : Stage env (newLog task req executionId key skip w₆.now) :=
      stage_newLog task req executionId _ skip w₆.now
    have hbegun : ∀ s, (newLog task req executionId key skip w₆.now).startedAt = some s → s ≤ stored w₆.now := by
      intro s hs
      cases skip with
      | true => cases hs
      | false =>
        cases hs
        exact Nat.le_refl _
    have hrefused : ∀ (Q' : ℕ → Private → Shared → Prop) e l' w', Tidy env l' w' → LogInv env w' →
        wp (logProtocol env) G (do
          if e = .duplicate _CLAIM_UNIQUE_INDEX then mark (.claimRefused req.taskId req.fired clock key)
          .fail e : Call ℕ) Q' E l' w' := by
      intro Q' e l' w' ht' hi'
      by_cases he : e = .duplicate _CLAIM_UNIQUE_INDEX
      · rw [if_pos he]
        exact wp_bind (wp_tidy (spares_mark _) ht' hi' (fun _ l'' w'' ht'' hi'' ↦ hE e l'' w'' ht'' hi'') hE)
      · rw [if_neg he]
        exact hE e l' w' ht' hi'
    refine wp_bind (wp_tryCatch ?_)
    unfold unlessVictim
    split
    · exact hE .deadlock _ _ (ht₅.rely hr₆) hr₆.inv
    · refine wp_createLog (ht₅.rely hr₆) hstage hbegun (fun e l' w' ht' hi' ↦ ?_) fun L l₇ w₇ ht₇ hown hpend ↦ ?_
      · exact hrefused _ e l' w' ht' hi'
      · refine wp_bind (wp_save fun w₈ hr₈ _ ↦ ?_)
        have hm := moves_tidy (ht₇.rely hr₈) hr₈.inv
        refine ⟨hm, hQ _ _ _ ⟨.commit l₇, hm.inv, fun claim hc hskip ↦ ⟨stored w₆.now, ?_, ?_⟩⟩⟩
        · cases hc
          exact List.mem_filter.2 ⟨hown, rfl⟩
        · cases hc
          have hskip' : skip = false := hskip
          subst hskip'
          exact ⟨_, apply_rows_of_pending hpend, rfl, rfl, rfl⟩

theorem wp_claimOnce {executionId : ℕ} {victim : Option ClaimStatement}
    {Q : Option Claim → Private → Shared → Prop} (ht : Tidy env l w) (hi : LogInv env w)
    (hE : ∀ e l' w', Tidy env l' w' → LogInv env w' → E e l' w')
    (hQ : ∀ c l' w', Claimed env c l' w' → Q c l' w') :
    wp (logProtocol env) G (_claimOnce env req executionId victim) Q E l w := by
  unfold _claimOnce
  refine wp_tryCatch (wp_claimSession ht hi (fun e l' w' ht' hi' ↦ ?_) hQ)
  by_cases he : e = .duplicate _CLAIM_UNIQUE_INDEX
  · rw [if_pos he]
    refine wp_bind (wp_save fun w'' hr _ ↦ ?_)
    have hm := moves_tidy (ht'.rely hr) hr.inv
    refine ⟨hm, hQ none _ _ ⟨.commit l', hm.inv, fun claim hc ↦ ?_⟩⟩
    cases hc
  · rw [if_neg he]
    exact hE e l' w' ht' hi'

theorem wp_claimAttempts {executionId left : ℕ} {deadlocks : List ClaimStatement}
    {Q : Option Claim → Private → Shared → Prop} (ht : Tidy env l w) (hi : LogInv env w)
    (hE : ∀ e l' w', E e l' w') (hQ : ∀ c l' w', Claimed env c l' w' → Q c l' w')
    (hnone : ∀ l' w', Tidy env l' w' → Q none l' w') :
    wp (logProtocol env) G (claimAttempts env req executionId left deadlocks) Q E l w := by
  induction left generalizing deadlocks l w with
  | zero => exact hnone l w ht
  | succ left ih =>
    unfold claimAttempts
    refine wp_tryCatch (wp_claimOnce ht hi (fun e l' w' ht' _ ↦ ?_) hQ)
    by_cases he : e ≠ .deadlock ∨ left = 0
    · rw [if_pos he]
      exact hE e l' w'
    · rw [if_neg he]
      refine wp_bind (wp_save fun w'' hr _ ↦ ?_)
      have hm := moves_tidy (ht'.rely hr) hr.inv
      exact ⟨hm, ih (tidy_blank (.commit l')) hm.inv⟩

/-- The session is about to write the end of its execution. -/
structure Finishing (env : Environment) (L : ℕ) (key : String) (s : ℕ) (l : Private) (w : Shared) : Prop where
  tidy : Tidy env l w
  owned : Owned L key s l w
  logs : ∀ k, pending l.redo .scheduledTaskLogs k = none

theorem Finishing.spared (h : Finishing env L key s l w)
    (hs : Spared (logProtocol env) .scheduledTaskLogs l w l' w') :
    Finishing env L key s l' w' :=
  ⟨h.tidy.spared hs, h.owned.after hs.after, fun k ↦ (hs.same k).trans (h.logs k)⟩

theorem Finishing.rely (h : Finishing env L key s l w) (hr : Rely (logProtocol env) l w w') :
    Finishing env L key s l w' := ⟨h.tidy.rely hr, h.owned.rely hr, h.logs⟩

theorem Finishing.view (h : Finishing env L key s l w) : ∃ r : ScheduledTaskLog,
    (w.view l).db.rows .scheduledTaskLogs L = some r ∧ w.db.rows .scheduledTaskLogs L = some r ∧
      r.status = .running ∧ r.startedAt = some s ∧ r.handlerKey = key := by
  obtain ⟨r, hr, hrow⟩ := h.owned.row
  exact ⟨r, (apply_rows_of_none (h.logs L)).trans hr, hr, hrow⟩

theorem wp_updateLog {loaded : ScheduledTaskLog} {timeout : Option ℕ} {result : HandlerResult} {time : ℕ}
    {Q : Unit → Private → Shared → Prop} (h : Finishing env L key s l w) (hloaded : loaded.startedAt = some s)
    (hle : s ≤ stored time) (hQ : ∀ l' w', Tidy env l' w' → Q () l' w') :
    wp (logProtocol env) G (updateLog L loaded (_invoke env key timeout result) time) Q E l w := by
  refine wp_query fun w' hr ↦ ?_
  have h' := h.rely hr
  obtain ⟨r, hview, hrow, hrun, hs, hkey⟩ := h'.view
  simp only [hview, hloaded]
  refine fun _ ↦ ⟨trivial, hQ _ _ ⟨covered_run h'.tidy.covered _ _, fun k v hp ↦ ?_⟩⟩
  rw [show ∀ g : Statement, (l.run g w'.next).redo = l.redo ++ g.writes from fun _ ↦ rfl, pending_append,
    h'.logs k,
    Option.or_none, pending_singleton] at hp
  by_cases hk : k = L
  · subst hk
    rw [Write.at_self, Option.some.injEq] at hp
    refine ⟨_, hp.symm, .finished r (held_run _ _ _ h'.owned.own) hrow hrun
      (fun _ ↦ ⟨rfl, .inl rfl, fun hn ↦ absurd hrun hn⟩) ?_⟩
    subst hkey
    exact .ended s (stored time) _ timeout result hs hle rfl
  · rw [Write.at_id_ne (Ne.symm hk)] at hp
    cases hp

theorem wp_finish {timeout : Option ℕ} {result : HandlerResult} {Q : Unit → Private → Shared → Prop} (hb : Blank l)
    (ho : Owned L key s l w) (hE : ∀ e l' w', E e l' w')
    (hQ : ∀ l' w', Blank l' → Q () l' w') :
    wp (logProtocol env) G (_finish L T (_invoke env key timeout result)) Q E l w := by
  have hsave : ∀ l' w', Tidy env l' w' → wp (logProtocol env) G .save Q E l' w' := fun l' w' ht ↦
    wp_save fun w'' hr _ ↦ ⟨moves_tidy (ht.rely hr) hr.inv, hQ _ _ (.commit l')⟩
  have h : Finishing env L key s l w := ⟨tidy_blank hb, ho, fun k ↦ by rw [hb.redo]; rfl⟩
  unfold _finish
  refine wp_bind (wp_read fun w₁ hr₁ ↦ ?_)
  have h₁ := h.rely hr₁
  have hle : s ≤ stored w₁.now := by
    obtain ⟨r, hr, -, hs, -⟩ := h₁.owned.row
    exact hr₁.inv.begun L r s hr hs
  refine wp_bind (wp_spares (spares_mark _) hr₁.inv (fun _ l₂ w₂ hs₂ ↦ ?_) fun e l' w' _ ↦ hE e l' w')
  have h₂ := h₁.spared hs₂
  refine wp_bind (wp_read fun w₃ hr₃ ↦ ?_)
  have h₃ := h₂.rely hr₃
  obtain ⟨log, hview, -, -, hloaded, -⟩ := h₃.view
  rw [hview]
  refine wp_bind (wp_read fun w₄ hr₄ ↦ ?_)
  have h₄ := h₃.rely hr₄
  cases (w₄.view l₂).db.rows .scheduledTasks T with
  | none => exact wp_bind (wp_updateLog h₄ hloaded hle fun l' w' ht ↦ hsave l' w' ht)
  | some task =>
    refine wp_bind (wp_spares (spares_markTaskLastRun _ _ _ _) hr₄.inv (fun _ l₅ w₅ hs₅ ↦ ?_)
      fun e l' w' _ ↦ hE e l' w')
    exact wp_bind (wp_updateLog (h₄.spared hs₅) hloaded hle fun l' w' ht ↦ hsave l' w' ht)

theorem wp_run {result : HandlerResult} {Q : Option ExecutionOutcome → Private → Shared → Prop} (ht : Tidy env l w)
    (hi : LogInv env w) (hE : ∀ e l' w', E e l' w') (hQ : ∀ o l' w', Tidy env l' w' → Q o l' w') :
    wp (logProtocol env) G (run env req deadlocks result) Q E l w := by
  unfold run
  refine wp_bind (wp_tidy spares_uuid4 ht hi (fun u l₁ w₁ ht₁ hi₁ ↦ ?_) fun e l' w' _ _ ↦ hE e l' w')
  refine wp_bind (wp_claimAttempts ht₁ hi₁ hE (fun claim? l₂ w₂ hc ↦ ?_) fun l' w' ht' ↦ hQ none l' w' ht')
  obtain ⟨hb, -, howned⟩ := hc
  cases claim? with
  | none => exact hQ none l₂ w₂ (tidy_blank hb)
  | some claim =>
    by_cases hs : claim.skipped = true
    · simp only [if_pos hs]
      exact hQ _ l₂ w₂ (tidy_blank hb)
    · simp only [if_neg hs]
      obtain ⟨s, ho⟩ := howned claim rfl (Bool.eq_false_iff.2 hs)
      exact wp_bind (wp_finish hb ho hE fun l' w' hb' ↦ hQ _ l' w' (tidy_blank hb'))

theorem wp_delete (ht : Tidy env l w) {Q : Unit → Private → Shared → Prop}
    (hlogs : ∀ k, pending l.redo .scheduledTaskLogs k = none)
    (hE : ∀ e l' w', E e l' w') (hQ : ∀ l' w', Tidy env l' w' → Q () l' w') :
    wp (logProtocol env) G (Service.ScheduledTaskRepository.delete T) Q E l w := by
  refine wp_query fun w' hr ↦ ?_
  have ht' := ht.rely hr
  split
  · rename_i hok
    split at hok
    · cases hok
    · cases hok
      refine fun _ ↦ ⟨rfl, hQ _ _ ⟨covered_run ht'.covered _ _, fun k v hp ↦ ?_⟩⟩
      rw [show ∀ g : Statement, (l.run g w'.next).redo = l.redo ++ g.writes from fun _ ↦ rfl,
        pending_append, hlogs k,
        Option.or_none, pending_append, spares_task, Option.none_or] at hp
      obtain ⟨r, hrow, hT, rfl⟩ := pending_update hp
      rw [view_db, apply_rows_of_none (hlogs k)] at hrow
      exact ⟨_, rfl, .detached r T hrow (of_decide_eq_true hT) (List.mem_append_right _ List.mem_cons_self) rfl⟩
  · exact hE _ _ _

theorem safe_delete : safe (logProtocol env) G (getSession (Service.delete T)) {} w := by
  refine wp_getSession (wp_bind (wp_read fun w₁ hr₁ ↦ ?_))
  have ht : Tidy env {} w₁ := tidy_blank .init
  cases (w₁.view {}).db.rows .scheduledTasks T with
  | none => trivial
  | some task => exact wp_delete ht (fun _ ↦ rfl) (fun _ _ _ ↦ trivial) fun _ _ h ↦ h

theorem safe_manualRun (hi : LogInv env w) (actorUserId : ℕ) (workerId : String) (deadlocks : List ClaimStatement)
    (result : HandlerResult) :
    safe (logProtocol env) G
      (getSession (Service.manualRun env T actorUserId workerId deadlocks result)) {} w := by
  refine wp_getSession (wp_bind (wp_tidy (spares_read _) (tidy_blank .init) hi (fun task? l₁ w₁ ht₁ hi₁ ↦ ?_)
    fun _ _ _ _ _ ↦ trivial))
  cases task? with
  | none => trivial
  | some task =>
    dsimp only
    cases env.registry task.handlerKey with
    | none => trivial
    | some spec =>
      dsimp only
      split
      · trivial
      · refine wp_bind (wp_run ht₁ hi₁ (fun _ _ _ ↦ trivial) fun outcome l₂ w₂ ht₂ ↦ ?_)
        cases outcome.bind ExecutionOutcome.logId with
        | none => trivial
        | some logId =>
          refine wp_bind (wp_read fun w₃ hr₃ ↦ ?_)
          cases (w₃.view l₂).db.rows .scheduledTaskLogs logId with
          | none => trivial
          | some log => exact ht₂.rely hr₃

theorem safe_call (op : TaskOp) (hi : LogInv env w) : safe (logProtocol env) G (op.call env) {} w := by
  have hunit : ∀ {α : Type} (p : Call α), safe (logProtocol env) G p {} w →
      safe (logProtocol env) G (do let _ ← p; pure ()) {} w := fun p h ↦
    wp_bind (wp_mono (fun _ _ _ _ ↦ trivial) (fun _ _ _ h ↦ h) h)
  have hspares : ∀ {α : Type} {p : Call α}, SparesLogs p → safe (logProtocol env) G (getSession p) {} w := fun hp ↦
    wp_getSession (wp_tidy hp (tidy_blank .init) hi (fun _ _ _ ht _ ↦ ht) fun _ _ _ _ _ ↦ trivial)
  cases op with
  | create payload => exact hunit _ (hspares (spares_serviceCreate payload))
  | update taskId payload => exact hunit _ (hspares (spares_serviceUpdate taskId payload))
  | delete taskId => exact safe_delete
  | manualRun taskId actor worker deadlocks result =>
    exact hunit _ (safe_manualRun hi actor worker deadlocks result)
  | fire taskId tick worker deadlocks result =>
    exact wp_bind (wp_run (tidy_blank .init) hi (fun _ _ _ ↦ trivial) fun _ _ _ _ ↦ trivial)

end Calls

/-- In every run every log is at a stage of its life, no log ever disappears or changes its identity, only
the deletion of its task, which is then gone, takes its task away, and the end of an execution, which is what
its handler came to, is never overwritten. -/
theorem log_lifecycle (env : Environment) (w : Shared) (hw : LogInv env w) (ht : TaskInv w)
    (S S' : State Table Row LockName Storage Note Failure Unit)
    (h : Reach (Service.TaskOp.call env) .crash .free w S)
    (hc : Continues (Service.TaskOp.call env) .crash .free S S') :
    (∀ L (r : ScheduledTaskLog), S'.world.db.rows .scheduledTaskLogs L = some r → Stage env r) ∧
      ∀ L (r : ScheduledTaskLog), S.world.db.rows .scheduledTaskLogs L = some r →
        ∃ r' : ScheduledTaskLog, S'.world.db.rows .scheduledTaskLogs L = some r' ∧ Evolves S'.world r r' ∧
          (r'.taskId ≠ r.taskId → ∃ T, r.taskId = some T ∧ S'.world.db.rows .scheduledTasks T = none) := by
  have hop : ∀ op w, (logProtocol env).inv w → safe (logProtocol env) .free (Service.TaskOp.call env op) {} w :=
    fun op w hi ↦ safe_call op hi
  have hsound : Sound (logProtocol env) .free S := sound_of_reach hop hw h
  obtain ⟨hsound', hguar⟩ := guar_of_continues hop hsound hc
  have hevolve : LogsEvolve S.world S'.world := hguar
  have htasks : (taskProtocol 0 False False).inv S'.world :=
    (sound_of_reach (fun op w _ ↦ TaskSystem.safe_call False.elim False.elim False.elim op w)
      ⟨ht, False.elim, False.elim⟩ (reach_continues h hc)).inv
  refine ⟨hsound'.inv.stage, fun L r hr ↦ ?_⟩
  obtain ⟨r', hr', hev⟩ := hevolve.rows L r hr
  refine ⟨r', hr', hev, fun hne ↦ ?_⟩
  obtain ⟨-, T, hT, hd⟩ := hev.task.resolve_left hne
  exact ⟨T, hT, htasks.1.gone T hd⟩

section Example

open Service TaskSystem

theorem logInv_noopOnly : LogInv everyMinuteEnv noopOnly := by
  have hnone : ∀ L (r : ScheduledTaskLog), noopOnly.db.rows .scheduledTaskLogs L ≠ some r := by
    intro L r hr
    rw [start_noopOnly.logs] at hr
    cases hr
  exact ⟨fun L r hr ↦ absurd hr (hnone L r), fun L r hr ↦ absurd hr (hnone L r),
    fun L r s hr ↦ absurd hr (hnone L r)⟩

theorem taskInv_noopOnly : TaskInv noopOnly :=
  (Start.inv start_noopOnly : (taskProtocol 0 False False).inv noopOnly).1

def claimed : List (Label TaskOp) :=
  .start (.fire 0 (6000 * second) "a" [] (.returned none)) :: List.replicate 9 (.step 0)

def deletedThenFinished : List (Label TaskOp) :=
  .start (.delete 0) :: List.replicate 3 (.step 1) ++ .tick (2 * second) :: List.replicate 6 (.step 0)

theorem log_lifecycle_deleted : ∃ (S S' : State Table Row LockName Storage Note Failure Unit)
    (r r' : ScheduledTaskLog),
    Reach (TaskOp.call everyMinuteEnv) .crash .free noopOnly S ∧
    Continues (TaskOp.call everyMinuteEnv) .crash .free S S' ∧
    S.world.db.rows .scheduledTaskLogs 2 = some r ∧ r.status = .running ∧
    S'.world.db.rows .scheduledTaskLogs 2 = some r' ∧ r'.status = .success ∧ r'.taskId = none ∧
    Stage everyMinuteEnv r' ∧ Evolves S'.world r r' := by
  have hrun : ((State.init noopOnly).follow (TaskOp.call everyMinuteEnv) .crash (fun _ _ ↦ true)
      claimed).any (fun S ↦
      (S.world.db.rows .scheduledTaskLogs 2).any (fun r : ScheduledTaskLog ↦ decide (r.status = .running)) &&
      (S.follow (TaskOp.call everyMinuteEnv) .crash (fun _ _ ↦ true) deletedThenFinished).any fun S' ↦
        (S'.world.db.rows .scheduledTaskLogs 2).any fun r' : ScheduledTaskLog ↦
          decide (r'.status = .success) && decide (r'.taskId = none)) = true := by
    decide +kernel
  obtain ⟨S, hS, hp⟩ := (Option.any_eq_true _ _).1 hrun
  obtain ⟨hp, hp'⟩ := (Bool.and_eq_true _ _).mp hp
  obtain ⟨r, hr, hrunning⟩ := (Option.any_eq_true _ _).1 hp
  obtain ⟨S', hS', hp'⟩ := (Option.any_eq_true _ _).1 hp'
  obtain ⟨r', hr', hended⟩ := (Option.any_eq_true _ _).1 hp'
  obtain ⟨hsuccess, hgone⟩ := (Bool.and_eq_true _ _).mp hended
  have hreach : Reach (TaskOp.call everyMinuteEnv) .crash .free noopOnly S :=
    reach_follow (fun _ _ ↦ trivial) (fun _ _ _ ↦ trivial) .init hS
  have hcont := continues_follow .refl hS'
  obtain ⟨hstage, hevolve⟩ := log_lifecycle everyMinuteEnv noopOnly logInv_noopOnly taskInv_noopOnly S S'
    hreach hcont
  obtain ⟨r'', hr'', hev, -⟩ := hevolve 2 r hr
  obtain rfl : r' = r'' := Option.some.inj (hr'.symm.trans hr'')
  exact ⟨S, S', r, r', hreach, hcont, hr, of_decide_eq_true hrunning, hr', of_decide_eq_true hsuccess,
    of_decide_eq_true hgone, hstage 2 r' hr', hev⟩

end Example

end AdminPlatform.ScheduledTask.LogLifecycle
