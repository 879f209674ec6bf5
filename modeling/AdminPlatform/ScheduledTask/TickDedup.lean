import AdminPlatform.ScheduledTask.TaskSystem

namespace AdminPlatform.ScheduledTask.TickDedup

open Model.Schema Model.Service Foundation.Relational Foundation.Transaction
open Foundation.Interleaving Foundation.RelyGuarantee Cron Executor Executor.ScheduledTaskRepository
open Service ClaimInvariant ClaimCommit TaskSystem

variable {env : Environment} {T : ℕ} {w : Shared}
  {S : State Table Row LockName Storage Note Failure Unit}

/-- Every claim for a tick of `T`, refused or not, is on time. -/
def tickGuard (env : Environment) (T : ℕ) : Guard Table Row LockName Storage Note :=
  ⟨fun _ _ ↦ True, KeyGuard env T⟩

/-- The log `L` is the claim of a worker whose trigger went off for the tick `t`. -/
def ClaimedFor (w : Shared) (T t L : ℕ) : Prop := ∃ c, Note.taskClaimed L T (some t) c ∈ w.log

/-- A worker has run the handler of `T` for the tick `t`, under the log `L`. -/
def ExecutedFor (w : Shared) (T t L : ℕ) : Prop :=
  ClaimedFor w T t L ∧ ∃ c, Note.executionStarted L T c ∈ w.log

structure Deduplicated (w : Shared) (T : ℕ) : Prop where
  keyed : ∀ t L, ClaimedFor w T t L → ∃ r : ScheduledTaskLog,
    w.db.rows .scheduledTaskLogs L = some r ∧ r.triggerType = .schedule ∧ r.scheduledAt = some t
  turnedDown : ∀ t c key, Note.claimRefused T (some t) c key ∈ w.log → key = some t
  once : ∀ t L L', ExecutedFor w T t L → ExecutedFor w T t L' → L = L'
  unique : ∀ t L L' (r r' : ScheduledTaskLog), w.db.rows .scheduledTaskLogs L = some r →
    w.db.rows .scheduledTaskLogs L' = some r' → r.taskId = some T → r'.taskId = some T →
    r.triggerType = .schedule → r'.triggerType = .schedule → r.scheduledAt = some t →
    r'.scheduledAt = some t → L = L'
  manual : ∀ L (r : ScheduledTaskLog), w.db.rows .scheduledTaskLogs L = some r →
    r.triggerType = .manual → r.scheduledAt = none
  refused : ∀ t, claimTaken w.db T t = true ↔ ∃ L, ∃ r : ScheduledTaskLog,
    w.db.rows .scheduledTaskLogs L = some r ∧ r.taskId = some T ∧ r.triggerType = .schedule ∧
      r.scheduledAt = some t

theorem scheduleClaim_eq_some {r : ScheduledTaskLog} {t : ℕ} :
    scheduleClaim r = some t ↔ r.triggerType = .schedule ∧ r.scheduledAt = some t := by
  unfold scheduleClaim
  by_cases hs : r.triggerType = .schedule
  · simp [hs]
  · simp [hs]

theorem claimTaken_iff {db : Db} {t : ℕ} : claimTaken db T t = true ↔ ∃ L, ∃ r : ScheduledTaskLog,
    db.rows .scheduledTaskLogs L = some r ∧ r.taskId = some T ∧ scheduleClaim r = some t := by
  simp only [claimTaken, Bool.not_eq_true', List.isEmpty_eq_false_iff_exists_mem, Prod.exists,
    mem_select, decide_eq_true_eq]

/-- The claim of a fire of the tick `t` that reads the clock `c` is keyed by `t` just where it is on time. -/
theorem claimTime_iff_onTime {task : ScheduledTask} {trigger : CronTrigger} {t c : ℕ} {workerId : String}
    (hlib : env.cron.Answers)
    (hb : buildCronTrigger env.cron task.cronExpression task.cronTimezone = .ok trigger) (ht : trigger.IsTick t) :
    claimTime env task ⟨T, .schedule, none, none, workerId, some t⟩ c = .done (some t) ↔
    OnTime trigger task t c := by
  rw [← dueTime_iff_onTime hlib hb ht]
  simp only [claimTime, decide_true, Option.isNone_none, Bool.and_self, if_true]
  cases dueTime env task c with
  | none =>
    simp only [Option.map_none]
    refine ⟨fun h ↦ ?_, fun h ↦ ?_⟩
    · cases h
    · cases h
  | some x =>
    simp only [Option.map_some]
    refine ⟨fun h ↦ ?_, fun h ↦ ?_⟩
    · cases h
      rfl
    · rw [h]
      rfl

/-- In every run whose claims are on time, the ticks are kept apart; a claim is keyed by its tick if and
only if it is on time. -/
theorem tick_dedup (hlib : env.cron.Answers) (hw : Start w)
    (h : Reach (TaskOp.call env) .crash (tickGuard env T) w S) : Deduplicated S.world T ∧
    ∀ (task : ScheduledTask) (trigger : CronTrigger) (workerId : String) (t c : ℕ),
      buildCronTrigger env.cron task.cronExpression task.cronTimezone = .ok trigger → trigger.IsTick t →
      (claimTime env task ⟨T, .schedule, none, none, workerId, some t⟩ c = .done (some t) ↔
        OnTime trigger task t c) := by
  have hinv : (taskProtocol T False True).inv S.world :=
    taskInv_of_reach (fun _ ↦ hlib) False.elim (fun _ _ _ hg ↦ hg) hw h
  have hi : TaskInv S.world := hinv.1
  have hk : Keyed T S.world := hinv.2.2 trivial
  refine ⟨⟨fun t L hc ↦ ?_, hk.refused, fun t L L' hc hc' ↦ ?_,
    fun t L L' r r' hr hr' ht ht' hs hs' hc hc' ↦ ?_, hi.manual, fun t ↦ ?_⟩,
    fun task trigger workerId t c hb ht ↦ claimTime_iff_onTime hlib hb ht⟩
  · obtain ⟨c, hm⟩ := hc
    obtain ⟨r, hr, hclaim⟩ := hk.key L t c hm
    exact ⟨r, hr, scheduleClaim_eq_some.1 hclaim⟩
  · obtain ⟨⟨c, hm⟩, -⟩ := hc
    obtain ⟨⟨c', hm'⟩, -⟩ := hc'
    exact hk.once L L' t c c' hm hm'
  · exact hi.unique L L' r r' T t hr hr' ht ht' (scheduleClaim_eq_some.2 ⟨hs, hc⟩)
      (scheduleClaim_eq_some.2 ⟨hs', hc'⟩)
  · rw [claimTaken_iff]
    simp only [scheduleClaim_eq_some]

section Example

def lateFire : List (Label TaskOp) :=
  .start (.fire 0 (6000 * second) "a" [] (.returned none)) :: List.replicate 16 (.step 0) ++
    .tick (61 * second) :: .start (.fire 0 (6000 * second) "b" [] (.returned none)) ::
      List.replicate 9 (.step 1)

/-- The tick of the first claim is executed again, under the key of the next tick. -/
theorem not_deduplicated_lateFire : ∃ S, Reach (TaskOp.call everyMinuteEnv) .crash .free noopOnly S ∧
    S.world.now ≤ 6000 * second + noopTask.misfireGraceSeconds * second ∧
    S.world.db.rows .scheduledTasks 0 = some { noopTask with
      lastRunAt := some (6000 * second), lastStatus := some .success } ∧
    ¬ Deduplicated S.world 0 := by
  have hrun : ∃ S, Reach (TaskOp.call everyMinuteEnv) .crash .free noopOnly S ∧
      (decide (S.world.now ≤ 6000 * second + noopTask.misfireGraceSeconds * second) &&
        decide (S.world.db.rows .scheduledTasks 0 = some { noopTask with
          lastRunAt := some (6000 * second), lastStatus := some .success }) &&
        decide (S.world.log = [
          .taskClaimed 2 0 (some (6000 * second)) (6000 * second), .executionStarted 2 0 (6000 * second),
          .executionFinished 2, .taskClaimed 4 0 (some (6000 * second)) (6061 * second),
          .executionStarted 4 0 (6061 * second)]) &&
        (S.world.db.rows .scheduledTaskLogs 4).any fun (r : ScheduledTaskLog) ↦
          decide (r.scheduledAt = some (6060 * second))) = true :=
    exists_reach_of_follow (fun _ _ ↦ true) lateFire (fun _ _ ↦ trivial) (fun _ _ _ ↦ trivial)
      (by decide +kernel)
  obtain ⟨S, hS, hp⟩ := hrun
  simp only [Bool.and_eq_true, decide_eq_true_eq] at hp
  refine ⟨S, hS, hp.1.1.1, hp.1.1.2, fun hd ↦ ?_⟩
  have hfirst : ExecutedFor S.world 0 (6000 * second) 2 := by
    refine ⟨⟨6000 * second, ?_⟩, 6000 * second, ?_⟩
    all_goals
      rw [hp.1.2]
      simp
  have hsecond : ExecutedFor S.world 0 (6000 * second) 4 := by
    refine ⟨⟨6061 * second, ?_⟩, 6061 * second, ?_⟩
    all_goals
      rw [hp.1.2]
      simp
  have he := hd.once _ 2 4 hfirst hsecond
  omega

def onTime (w : Shared) (t c : ℕ) : Bool :=
  decide (t % minute = 0 ∧ t ≤ c ∧ c < t + minute) &&
    (w.db.rows .scheduledTasks 0).any fun (task : ScheduledTask) ↦
      decide (task.cronExpression = "* * * * *" ∧ task.cronTimezone = "UTC")

def checkKey (w : Shared) (notes : List Note) : Bool :=
  notes.all fun
    | .taskClaimed _ 0 (some t) c => onTime w t c
    | .claimRefused 0 (some t) c _ => onTime w t c
    | _ => true

theorem build_everyMinute :
    buildCronTrigger everyMinuteLibrary "* * * * *" "UTC" = .ok everyMinute := rfl

theorem onTime_of_claims {notes : List Note} {n : Note} {t c : ℕ} (h : checkKey w notes = true) (hn : n ∈ notes)
    (hc : Claims 0 t c n) : onTime w t c = true := by
  have hone := List.all_eq_true.1 h n hn
  cases n with
  | taskClaimed L T f c' =>
    obtain ⟨rfl, rfl, rfl⟩ := hc
    exact hone
  | claimRefused T f c' key =>
    obtain ⟨rfl, rfl, rfl⟩ := hc
    exact hone
  | _ => exact absurd hc id

theorem keyGuard_of_check {notes : List Note} (h : checkKey w notes = true) :
    KeyGuard everyMinuteEnv 0 w notes := by
  intro n hn t c hm
  have hc := onTime_of_claims h hn hm
  simp only [onTime, Bool.and_eq_true, decide_eq_true_eq, Option.any_eq_true] at hc
  obtain ⟨⟨htick, hle, hlt⟩, task, ht, hcron, htz⟩ := hc
  refine ⟨task, everyMinute, ht, ?_, isTick_everyMinute.2 htick, hle, ?_, fun u hu htu ↦ ?_,
    fun u _ _ _ ↦ Zone.not_repeated_utc u⟩
  · rw [hcron, htz]
    exact build_everyMinute
  · unfold minute at hlt
    have hgrace : 60 * second ≤ (task.misfireGraceSeconds + 60) * second :=
      Nat.mul_le_mul_right _ (Nat.le_add_left _ _)
    omega
  · rw [isTick_everyMinute] at hu
    unfold minute second at *
    omega

/-- Two workers go off for one tick, the first of which is a deadlock victim once, a manual run comes
between, and one of the workers goes off for the next tick. -/
def twoWorkers : List (Label TaskOp) :=
  .start (.fire 0 (6000 * second) "a" [.count] (.returned none)) :: List.replicate 21 (.step 0) ++
    .start (.manualRun 0 1 "a" [] (.returned none)) :: List.replicate 19 (.step 1) ++
    .tick (59 * second) :: .start (.fire 0 (6000 * second) "b" [] (.returned none)) ::
      List.replicate 11 (.step 2) ++
    .tick (5 * second) :: .start (.fire 0 (6060 * second) "b" [] (.returned none)) ::
      List.replicate 9 (.step 3)

theorem tick_dedup_twoWorkers : ∃ S,
    Reach (TaskOp.call everyMinuteEnv) .crash (tickGuard everyMinuteEnv 0) noopOnly S ∧
    (∃ L, ExecutedFor S.world 0 (6000 * second) L) ∧
    Note.claimRefused 0 (some (6000 * second)) (6059 * second) (some (6000 * second)) ∈ S.world.log ∧
    (∃ L, ExecutedFor S.world 0 (6060 * second) L) ∧ Deduplicated S.world 0 := by
  have hrun : ∃ S, Reach (TaskOp.call everyMinuteEnv) .crash (tickGuard everyMinuteEnv 0) noopOnly S ∧
      decide (S.world.log = [
        .taskClaimed 2 0 (some (6000 * second)) (6000 * second), .executionStarted 2 0 (6000 * second),
        .executionFinished 2, .executionStarted 4 0 (6000 * second), .executionFinished 4,
        .claimRefused 0 (some (6000 * second)) (6059 * second) (some (6000 * second)),
        .taskClaimed 7 0 (some (6060 * second)) (6064 * second),
        .executionStarted 7 0 (6064 * second)]) = true :=
    exists_reach_of_follow checkKey twoWorkers (fun _ _ ↦ trivial) (fun _ _ ↦ keyGuard_of_check)
      (by decide +kernel)
  obtain ⟨S, hS, hp⟩ := hrun
  have hlog := of_decide_eq_true hp
  refine ⟨S, hS, ⟨2, ⟨6000 * second, ?_⟩, 6000 * second, ?_⟩, ?_, ⟨7, ⟨6064 * second, ?_⟩, 6064 * second, ?_⟩,
    (tick_dedup lawful_everyMinuteLibrary.answers start_noopOnly hS).1⟩
  all_goals
    rw [hlog]
    simp

end Example

end AdminPlatform.ScheduledTask.TickDedup
