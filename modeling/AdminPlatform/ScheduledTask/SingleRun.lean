import AdminPlatform.ScheduledTask.TaskSystem

namespace AdminPlatform.ScheduledTask.SingleRun

open Model.Schema Model.Service Foundation.Relational Foundation.Transaction
open Foundation.Interleaving Foundation.RelyGuarantee Cron Executor Service
open ClaimInvariant ClaimCommit TaskSystem

variable {env : Environment} {T : ℕ} {w : Shared}
  {S : State Table Row LockName Storage Note Failure Unit}

/-- Every claim of `T` finds concurrency forbidden, and every running execution of `T` young
enough to count. -/
def singleRunGuard (T : ℕ) : Guard Table Row LockName Storage Note := ⟨fun _ _ ↦ True, AloneGuard T⟩

/-- At no moment are two executions of the task past their claim and before their finish. -/
theorem single_run (hw : Start w) (h : Reach (TaskOp.call env) .crash (singleRunGuard T) w S) :
    ∀ L L', Running S.world T L → Running S.world T L' → L = L' := by
  have hinv : (taskProtocol T True False).inv S.world :=
    taskInv_of_reach False.elim (fun _ _ _ hg ↦ hg) False.elim hw h
  exact hinv.2.1 trivial

section Example

def longRun : List (Label TaskOp) :=
  .start (.fire 0 (6000 * second) "a" [] (.returned none)) :: List.replicate 9 (.step 0) ++
    .tick (3601 * second) :: .start (.fire 0 (9600 * second) "b" [] (.returned none)) ::
      List.replicate 9 (.step 1)

theorem noCrash_longRun (i : ℕ) : .abort i ∉ longRun := by
  simp [longRun]

/-- No worker crashes, the task never allows concurrency, and two of its executions run. -/
theorem two_running_longRun : ∃ S, (∀ i, .abort i ∉ longRun) ∧
    (State.init noopOnly).follow (TaskOp.call everyMinuteEnv) .crash (fun _ _ ↦ true) longRun = some S ∧
    S.world.db.rows .scheduledTasks 0 = some noopTask ∧
    ∃ L L', L ≠ L' ∧ Running S.world 0 L ∧ Running S.world 0 L' := by
  have hrun : ((State.init noopOnly).follow (TaskOp.call everyMinuteEnv) .crash (fun _ _ ↦ true)
      longRun).any (fun S ↦ decide (S.world.db.rows .scheduledTasks 0 = some noopTask) &&
        decide (S.world.log = [
          .taskClaimed 2 0 (some (6000 * second)) (6000 * second), .executionStarted 2 0 (6000 * second),
          .taskClaimed 4 0 (some (9600 * second)) (9601 * second),
          .executionStarted 4 0 (9601 * second)])) = true := by
    decide +kernel
  obtain ⟨S, hS, hp⟩ := (Option.any_eq_true _ _).1 hrun
  simp only [Bool.and_eq_true, decide_eq_true_eq] at hp
  refine ⟨S, noCrash_longRun, hS, hp.1, 2, 4, by decide, ⟨⟨6000 * second, ?_⟩, ?_⟩, ⟨9601 * second, ?_⟩, ?_⟩
  all_goals
    rw [hp.2]
    simp

def checkAlone (T : ℕ) (w : Shared) (notes : List Note) : Bool :=
  notes.all fun
    | .executionStarted _ T' c => decide (T' ≠ T) ||
        (w.db.rows .scheduledTasks T).any fun (task : ScheduledTask) ↦ !task.allowConcurrent &&
          w.log.all fun
            | .executionStarted L' T'' _ => decide (T'' ≠ T) || decide (.executionFinished L' ∈ w.log) ||
                (w.db.rows .scheduledTaskLogs L').any fun (r : ScheduledTaskLog) ↦
                  r.startedAt.any fun s ↦ decide (c - staleSeconds task * second ≤ s)
            | _ => true
    | _ => true

theorem aloneGuard_of_check {notes : List Note} (h : checkAlone T w notes = true) :
    AloneGuard T w notes := by
  intro L c hm
  have hc := List.all_eq_true.1 h _ hm
  simp only [ne_eq, decide_not, decide_true, Bool.not_true, Bool.false_or, Option.any_eq_true,
    Bool.and_eq_true, Bool.not_eq_true'] at hc
  obtain ⟨task, ht, hac, hall⟩ := hc
  refine ⟨task, ht, hac, fun L' hrun ↦ ?_⟩
  obtain ⟨⟨c', hc'⟩, hf⟩ := hrun
  have hone := List.all_eq_true.1 hall _ hc'
  simp only [decide_true, Bool.not_true, Bool.false_or, hf, decide_false, Option.any_eq_true,
    decide_eq_true_eq] at hone
  obtain ⟨r, hr, s, hs, hle⟩ := hone
  exact ⟨r, s, hr, hs, hle⟩

def threeFires : List (Label TaskOp) :=
  .start (.fire 0 (6000 * second) "a" [] (.returned none)) :: List.replicate 9 (.step 0) ++
    .tick (60 * second) :: .start (.fire 0 (6060 * second) "b" [] (.returned none)) ::
      List.replicate 9 (.step 1) ++ List.replicate 7 (.step 0) ++
    .tick (60 * second) :: .start (.manualRun 0 1 "a" [] (.returned none)) :: List.replicate 10 (.step 2)

theorem single_run_threeFires : ∃ S, Reach (TaskOp.call everyMinuteEnv) .crash (singleRunGuard 0) noopOnly S ∧
    Note.executionStarted 2 0 (6000 * second) ∈ S.world.log ∧ Running S.world 0 6 ∧
    ∀ L L', Running S.world 0 L → Running S.world 0 L' → L = L' := by
  have hrun : ∃ S, Reach (TaskOp.call everyMinuteEnv) .crash (singleRunGuard 0) noopOnly S ∧
      decide (S.world.log = [
        .taskClaimed 2 0 (some (6000 * second)) (6000 * second), .executionStarted 2 0 (6000 * second),
        .taskClaimed 4 0 (some (6060 * second)) (6060 * second), .executionFinished 2,
        .executionStarted 6 0 (6120 * second)]) = true :=
    exists_reach_of_follow (checkAlone 0) threeFires (fun _ _ ↦ trivial) (fun _ _ ↦ aloneGuard_of_check)
      (by decide +kernel)
  obtain ⟨S, hS, hp⟩ := hrun
  have hlog := of_decide_eq_true hp
  refine ⟨S, hS, ?_, ⟨⟨6120 * second, ?_⟩, ?_⟩, single_run start_noopOnly hS⟩
  all_goals
    rw [hlog]
    simp

end Example

end AdminPlatform.ScheduledTask.SingleRun
