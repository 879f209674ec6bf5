import AdminPlatform.ScheduledTask.ClaimInvariant

namespace AdminPlatform.ScheduledTask.ClaimTransaction

open Model.Schema Model.Service Foundation.Relational Foundation.Transaction
open Foundation.Interleaving Foundation.RelyGuarantee Cron Executor ScheduledTaskRepository
open ClaimInvariant

def LocksClaim (l : Private) (T : ℕ) : Prop := (.named (.scheduledTaskClaim T), .exclusive) ∈ l.held

/-- The session holds the task `T`, whose row is `task`. -/
structure HoldsTask (l : Private) (w : Shared) (T : ℕ) (task : ScheduledTask) : Prop where
  held : ∃ m, (.row .scheduledTasks T, m) ∈ l.held
  row : w.db.rows .scheduledTasks T = some task

/-- An id drawn by this session that the committed state does not know. -/
structure Sole (l : Private) (w : Shared) (u : ℕ) : Prop where
  own : (.own u, .exclusive) ∈ l.held
  fresh : ¬ Mentions w u
  below : u < w.next

/-- No running execution of `T` started at or after `since`. -/
def NoneSince (w : Shared) (T since : ℕ) : Prop := ∀ L (r : ScheduledTaskLog) s, Running w T L →
  w.db.rows .scheduledTaskLogs L = some r → r.startedAt = some s → s < since

/-- No log of `T` holds the claim. -/
def Untaken (w : Shared) (T : ℕ) (claim : Option ℕ) : Prop := ∀ t L (r : ScheduledTaskLog),
  claim = some t → w.db.rows .scheduledTaskLogs L = some r → r.taskId = some T →
    scheduleClaim r ≠ some t

/-- What a session may do to a log that exists. -/
structure LogPatch (l : Private) (L : ℕ) (r r' : ScheduledTaskLog) : Prop where
  same : SameLog r r'
  status : r'.status = r.status ∨ Note.executionFinished L ∈ l.notes
  owner : r'.taskId = r.taskId ∨
    ∃ T, r.taskId = some T ∧ r'.taskId = none ∧ pending l.redo .scheduledTasks T = some none

def ClaimsNothing : Note → Prop
  | .taskClaimed .. => False
  | .executionStarted .. => False
  | _ => True

/-- A transaction that claims nothing. -/
structure Claimless (l : Private) (w : Shared) : Prop where
  covered : Covered l
  logs : ∀ k v, pending l.redo .scheduledTaskLogs k = some v → ∃ r r' : ScheduledTaskLog,
    w.db.rows .scheduledTaskLogs k = some r ∧ v = some r' ∧ LogPatch l k r r'
  tasks : ∀ k v, pending l.redo .scheduledTasks k = some v →
    (∃ t : ScheduledTask, w.db.rows .scheduledTasks k = some t) ∨ Sole l w k
  notes : ∀ n ∈ l.notes, ClaimsNothing n
  deleted : ∀ T, .taskDeleted T ∈ l.notes → pending l.redo .scheduledTasks T = some none

structure Steady (l : Private) (w : Shared) : Prop extends Claimless l w where
  unrefused : ∀ T f c key, .claimRefused T f c key ∉ l.notes

/-- A transaction to which a claim of `T` was refused. -/
structure Refused (env : Environment) (l : Private) (w : Shared) (T : ℕ) (task : ScheduledTask) : Prop where
  redo : l.redo = []
  holds : HoldsTask l w T task
  notes : ∀ n ∈ l.notes, ∃ f c, n = .claimRefused T f c ((dueTime env task c).map stored)

/-- What a claim of `T` with the log `row` notes. -/
inductive ClaimNote (env : Environment) (w : Shared) (T L : ℕ) (row : ScheduledTaskLog)
    (task : ScheduledTask) : Note → Prop
  | claimed (f : Option ℕ) (c : ℕ) : row.triggerType = .schedule →
      row.scheduledAt = (dueTime env task c).map stored →
      ClaimNote env w T L row task (.taskClaimed L T f c)
  | started (c : ℕ) : row.status = .running →
      (task.allowConcurrent = false → NoneSince w T (c - staleSeconds task * second)) →
      ClaimNote env w T L row task (.executionStarted L T c)

/-- A transaction that claims `T` with the log `L`. -/
structure Claiming (env : Environment) (l : Private) (w : Shared) (T L : ℕ)
    (row : ScheduledTaskLog) (task : ScheduledTask) : Prop where
  lock : LocksClaim l T
  holds : HoldsTask l w T task
  sole : Sole l w L
  logs : ∀ k, pending l.redo .scheduledTaskLogs k = if k = L then some (some row) else none
  tasks : ∀ k, pending l.redo .scheduledTasks k = none
  owner : row.taskId = some T
  manual : row.triggerType = .manual → row.scheduledAt = none
  untaken : Untaken w T (scheduleClaim row)
  notes : ∀ n ∈ l.notes, ClaimNote env w T L row task n

variable {env : Environment} {T₀ : ℕ} {alone keyed : Prop} {w w' : Shared} {l : Private}
  {T L u k since : ℕ} {row r r' : ScheduledTaskLog} {task : ScheduledTask} {claim : Option ℕ}

section Stable

variable (hr : Rely (taskProtocol T₀ alone keyed) l w w')

include hr

theorem sole_rely (h : Sole l w u) : Sole l w' u := by
  have hp : ¬ Mentions w u → ¬ Mentions w' u := hr.prot _ h.own
  exact ⟨h.own, hp h.fresh, Nat.lt_of_lt_of_le h.below hr.later.next⟩

theorem holdsTask_rely (h : HoldsTask l w T task) : HoldsTask l w' T task := by
  obtain ⟨⟨m, hm⟩, ht⟩ := h
  exact ⟨⟨m, hm⟩, (hr.row _ _ m hm).trans ht⟩

theorem untaken_rely (h : Untaken w T claim) (hl : LocksClaim l T) : Untaken w' T claim := by
  intro t L r' hc hr' ht
  have hn : NoClaim T w w' := hr.prot _ hl
  obtain ⟨r, hrow, htr⟩ := hn.logs L r' hr' ht
  obtain ⟨r'', hr'', hs⟩ := hr.guar L r hrow
  have he : r'' = r' := Option.some.inj (hr''.symm.trans hr')
  rw [← he, hs.scheduleClaim]
  exact h t L r hc hrow htr

theorem running_rely (h : Running w' T L) (hl : LocksClaim l T) : Running w T L := by
  have hn : NoClaim T w w' := hr.prot _ hl
  obtain ⟨⟨c, hc⟩, hf⟩ := h
  exact ⟨⟨c, hn.started L c hc⟩, fun hm ↦ hf (hr.later.mem_log hm)⟩

theorem noneSince_rely (hi : TaskInv w) (h : NoneSince w T since) (hl : LocksClaim l T) :
    NoneSince w' T since := by
  intro L r' s hrun hr' hs
  have hw := running_rely hr hrun hl
  obtain ⟨r, hrow, -, -⟩ := hi.running L T hw
  obtain ⟨r'', hr'', hsame⟩ := hr.guar L r hrow
  have he : r'' = r' := Option.some.inj (hr''.symm.trans hr')
  rw [← he, hsame.started] at hs
  exact h L r s hw hrow hs

theorem claimless_rely (h : Claimless l w) : Claimless l w' where
  covered := h.covered
  logs k v hp := by
    obtain ⟨r, r', hrow, hv, hpatch⟩ := h.logs k v hp
    exact ⟨r, r', (hr.row _ _ _ (h.covered _ (pending_mem hp))).trans hrow, hv, hpatch⟩
  tasks k v hp := by
    rcases h.tasks k v hp with ⟨t, ht⟩ | hs
    · exact .inl ⟨t, (hr.row _ _ _ (h.covered _ (pending_mem hp))).trans ht⟩
    · exact .inr (sole_rely hr hs)
  notes := h.notes
  deleted := h.deleted

theorem steady_rely (h : Steady l w) : Steady l w' := ⟨claimless_rely hr h.toClaimless, h.unrefused⟩

theorem refused_rely (h : Refused env l w T task) : Refused env l w' T task :=
  ⟨h.redo, holdsTask_rely hr h.holds, h.notes⟩

theorem claimNote_rely {n : Note} (hi : TaskInv w) (hl : LocksClaim l T)
    (h : ClaimNote env w T L row task n) : ClaimNote env w' T L row task n := by
  cases h with
  | claimed f c hs ht => exact .claimed f c hs ht
  | started c hs hnone => exact .started c hs fun ha ↦ noneSince_rely hr hi (hnone ha) hl

theorem claiming_rely (hi : TaskInv w) (h : Claiming env l w T L row task) :
    Claiming env l w' T L row task where
  lock := h.lock
  holds := holdsTask_rely hr h.holds
  sole := sole_rely hr h.sole
  logs := h.logs
  tasks := h.tasks
  owner := h.owner
  manual := h.manual
  untaken := untaken_rely hr h.untaken h.lock
  notes n hn := claimNote_rely hr hi h.lock (h.notes n hn)

end Stable

theorem LogPatch.refl (l : Private) (L : ℕ) (r : ScheduledTaskLog) : LogPatch l L r r :=
  ⟨.refl r, .inl rfl, .inl rfl⟩

theorem Refused.claimless (h : Refused env l w T task) : Claimless l w where
  covered x hx := by
    rw [h.redo] at hx
    cases hx
  logs k v hp := by
    rw [h.redo] at hp
    cases hp
  tasks k v hp := by
    rw [h.redo] at hp
    cases hp
  notes n hn := by
    obtain ⟨f, c, rfl⟩ := h.notes n hn
    trivial
  deleted T hm := by
    obtain ⟨f, c, he⟩ := h.notes _ hm
    cases he

theorem LogPatch.owner_some (h : LogPatch l L r r') (ht : r'.taskId = some T) : r.taskId = some T := by
  rcases h.owner with he | ⟨T', -, hn, -⟩
  · rw [← he, ht]
  · rw [hn] at ht
    cases ht

end AdminPlatform.ScheduledTask.ClaimTransaction
