import AdminPlatform.ScheduledTask.Service

namespace AdminPlatform.ScheduledTask.ClaimInvariant

open Model.Schema Model.Service Foundation.Relational Foundation.Transaction
open Foundation.Interleaving Foundation.RelyGuarantee Executor ScheduledTaskRepository

variable {T L L' u : ℕ} {w w' w'' : Shared}

/-- The execution `L` of the task `T` is past its claim and before its finish. -/
def Running (w : Shared) (T L : ℕ) : Prop :=
  (∃ c, Note.executionStarted L T c ∈ w.log) ∧ Note.executionFinished L ∉ w.log

/-- The log `r` belongs to `T`, unless `T` was deleted. -/
def LogOf (w : Shared) (T : ℕ) (r : ScheduledTaskLog) : Prop :=
  r.taskId = some T ∨ w.db.rows .scheduledTasks T = none

/-- The committed state knows the id `u`. -/
inductive Mentions (w : Shared) (u : ℕ) : Prop
  | task (t : ScheduledTask) : w.db.rows .scheduledTasks u = some t → Mentions w u
  | log (r : ScheduledTaskLog) : w.db.rows .scheduledTaskLogs u = some r → Mentions w u
  | started (L T c : ℕ) : Note.executionStarted L T c ∈ w.log → u = L ∨ u = T → Mentions w u
  | claimed (L T c : ℕ) (f : Option ℕ) : Note.taskClaimed L T f c ∈ w.log → u = L ∨ u = T → Mentions w u
  | deleted : Note.taskDeleted u ∈ w.log → Mentions w u

structure TaskInv (w : Shared) : Prop where
  below : ∀ u, Mentions w u → u < w.next
  running : ∀ L T, Running w T L → ∃ r : ScheduledTaskLog,
    w.db.rows .scheduledTaskLogs L = some r ∧ r.status = .running ∧ LogOf w T r
  claimed : ∀ L T f c, Note.taskClaimed L T f c ∈ w.log → ∃ r : ScheduledTaskLog,
    w.db.rows .scheduledTaskLogs L = some r ∧ r.triggerType = .schedule ∧ LogOf w T r
  unique : ∀ L L' (r r' : ScheduledTaskLog) T t, w.db.rows .scheduledTaskLogs L = some r →
    w.db.rows .scheduledTaskLogs L' = some r' → r.taskId = some T → r'.taskId = some T →
    scheduleClaim r = some t → scheduleClaim r' = some t → L = L'
  manual : ∀ L (r : ScheduledTaskLog), w.db.rows .scheduledTaskLogs L = some r →
    r.triggerType = .manual → r.scheduledAt = none
  gone : ∀ T, Note.taskDeleted T ∈ w.log → w.db.rows .scheduledTasks T = none

/-- No two executions of `T` run at a time. -/
def Alone (T : ℕ) (w : Shared) : Prop := ∀ L L', Running w T L → Running w T L' → L = L'

/-- Every claim for a tick of `T` holds the tick, and no other claim does; a claim that was refused
asked for its tick. -/
structure Keyed (T : ℕ) (w : Shared) : Prop where
  key : ∀ L t c, Note.taskClaimed L T (some t) c ∈ w.log → ∃ r : ScheduledTaskLog,
    w.db.rows .scheduledTaskLogs L = some r ∧ scheduleClaim r = some t
  once : ∀ L L' t c c', Note.taskClaimed L T (some t) c ∈ w.log →
    Note.taskClaimed L' T (some t) c' ∈ w.log → L = L'
  refused : ∀ t c key, Note.claimRefused T (some t) c key ∈ w.log → key = some t

structure SameLog (r r' : ScheduledTaskLog) : Prop where
  trigger : r'.triggerType = r.triggerType
  scheduled : r'.scheduledAt = r.scheduledAt
  started : r'.startedAt = r.startedAt

def LogsKept (w w' : Shared) : Prop := ∀ L (r : ScheduledTaskLog),
  w.db.rows .scheduledTaskLogs L = some r →
    ∃ r' : ScheduledTaskLog, w'.db.rows .scheduledTaskLogs L = some r' ∧ SameLog r r'

/-- What the holder of the claim lock keeps to itself: claims of the task. -/
structure NoClaim (T : ℕ) (w w' : Shared) : Prop where
  logs : ∀ L (r' : ScheduledTaskLog), w'.db.rows .scheduledTaskLogs L = some r' →
    r'.taskId = some T → ∃ r : ScheduledTaskLog, w.db.rows .scheduledTaskLogs L = some r ∧ r.taskId = some T
  started : ∀ L c, Note.executionStarted L T c ∈ w'.log → Note.executionStarted L T c ∈ w.log
  claimed : ∀ L f c, Note.taskClaimed L T f c ∈ w'.log → Note.taskClaimed L T f c ∈ w.log

def taskProt : Resource Table LockName → Shared → Shared → Prop
  | .own u, w, w' => ¬ Mentions w u → ¬ Mentions w' u
  | .named (.scheduledTaskClaim T), w, w' => NoClaim T w w'
  | _, _, _ => True

theorem SameLog.refl (r : ScheduledTaskLog) : SameLog r r := ⟨rfl, rfl, rfl⟩

theorem SameLog.trans {r r' r'' : ScheduledTaskLog} (h : SameLog r r') (h' : SameLog r' r'') :
    SameLog r r'' :=
  ⟨h'.trigger.trans h.trigger, h'.scheduled.trans h.scheduled, h'.started.trans h.started⟩

theorem SameLog.scheduleClaim {r r' : ScheduledTaskLog} (h : SameLog r r') :
    scheduleClaim r' = scheduleClaim r := by
  unfold ScheduledTaskRepository.scheduleClaim
  rw [h.trigger, h.scheduled]

theorem LogsKept.refl (w : Shared) : LogsKept w w := fun _ r h ↦ ⟨r, h, .refl r⟩

theorem LogsKept.trans (h : LogsKept w w') (h' : LogsKept w' w'') : LogsKept w w'' := by
  intro L r hr
  obtain ⟨r', hr', hs⟩ := h L r hr
  obtain ⟨r'', hr'', hs'⟩ := h' L r' hr'
  exact ⟨r'', hr'', hs.trans hs'⟩

theorem NoClaim.refl (T : ℕ) (w : Shared) : NoClaim T w w :=
  ⟨fun _ r hr ht ↦ ⟨r, hr, ht⟩, fun _ _ h ↦ h, fun _ _ _ h ↦ h⟩

theorem NoClaim.trans (h : NoClaim T w w') (h' : NoClaim T w' w'') : NoClaim T w w'' where
  logs L r hr ht := by
    obtain ⟨r', hr', ht'⟩ := h'.logs L r hr ht
    exact h.logs L r' hr' ht'
  started L c hm := h.started L c (h'.started L c hm)
  claimed L f c hm := h.claimed L f c (h'.claimed L f c hm)

section Quiet

variable (hd : w'.db = w.db) (hl : w'.log = w.log)

include hd hl

theorem Mentions.congr (h : Mentions w' u) : Mentions w u := by
  cases h with
  | task t ht => exact .task t (hd ▸ ht)
  | log r hr => exact .log r (hd ▸ hr)
  | started L T c hm hu => exact .started L T c (hl ▸ hm) hu
  | claimed L T c f hm hu => exact .claimed L T c f (hl ▸ hm) hu
  | deleted hm => exact .deleted (hl ▸ hm)

theorem TaskInv.congr (h : TaskInv w) (hn : w.next ≤ w'.next) : TaskInv w' where
  below u hu := Nat.lt_of_lt_of_le (h.below u (hu.congr hd hl)) hn
  running L T hr := by
    unfold Running LogOf at *
    rw [hl] at hr
    rw [hd]
    exact h.running L T hr
  claimed L T f c hm := by
    unfold LogOf
    rw [hd]
    exact h.claimed L T f c (hl ▸ hm)
  unique := by
    rw [hd]
    exact h.unique
  manual := by
    rw [hd]
    exact h.manual
  gone := by
    rw [hd, hl]
    exact h.gone

omit hd in
theorem Alone.congr (h : Alone T w) : Alone T w' := by
  unfold Alone Running at *
  rw [hl]
  exact h

theorem Keyed.congr (h : Keyed T w) : Keyed T w' where
  key L t c hm := by
    rw [hd]
    exact h.key L t c (hl ▸ hm)
  once L L' t c c' hm hm' := h.once L L' t c c' (hl ▸ hm) (hl ▸ hm')
  refused t c key hm := h.refused t c key (hl ▸ hm)

theorem taskProt_quiet (r : Resource Table LockName) : taskProt r w w' := by
  unfold taskProt
  split
  · exact fun hn hm ↦ hn (hm.congr hd hl)
  · exact ⟨fun L r hr ht ↦ ⟨r, hd ▸ hr, ht⟩, fun L c hm ↦ hl ▸ hm, fun L f c hm ↦ hl ▸ hm⟩
  · trivial

end Quiet

/-- The agreement between the calls on scheduled tasks, about the task `T`: `alone` and
`keyed` say whether its guarded properties are part of it. -/
def taskProtocol (T : ℕ) (alone keyed : Prop) : Protocol Table Row LockName Storage Note where
  inv w := TaskInv w ∧ (alone → Alone T w) ∧ (keyed → Keyed T w)
  guar := LogsKept
  change _ _ := True
  prot := taskProt
  guar_refl := LogsKept.refl
  guar_trans _ _ _ := LogsKept.trans
  prot_refl r w := taskProt_quiet rfl rfl r
  prot_trans r w w' w'' h h' := by
    unfold taskProt at *
    split at h
    · exact fun hn ↦ h' (h hn)
    · exact h.trans h'
    · trivial
  quiet w w' h hd hl _ _ hn := by
    refine ⟨⟨h.1.congr hd hl hn, fun ha ↦ (h.2.1 ha).congr hl, fun hk ↦ (h.2.2 hk).congr hd hl⟩,
      fun L r hr ↦ ⟨r, hd ▸ hr, .refl r⟩, trivial, taskProt_quiet hd hl⟩

end AdminPlatform.ScheduledTask.ClaimInvariant
