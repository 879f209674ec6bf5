import AdminPlatform.Model.Schema
import AdminPlatform.ScheduledTask.Cron

namespace AdminPlatform.ScheduledTask.Scheduler

open Model.Schema Foundation.Relational Cron

/-- A job of the scheduler; `addedAt` is when it was last added, which nothing reads. -/
structure Job where
  trigger : CronTrigger
  misfireGraceTime : ℕ
  nextRunTime : Option ℕ
  addedAt : ℕ

/-- What a wake-up gives to `_fire`: the missed run times, merged into the last of them. -/
structure Submission where
  runTimes : List ℕ
  runTime : ℕ
  deriving DecidableEq, Repr

/-- The run times of a job up to `now`. -/
def runTimes (trigger : CronTrigger) (now : ℕ) : ℕ → Option ℕ → List ℕ
  | 0, _ => []
  | _ + 1, none => []
  | fuel + 1, some t =>
    if t ≤ now then t :: runTimes trigger now fuel (trigger.getNextFireTime (some t) now) else []

def Job.due (job : Job) (now : ℕ) : List ℕ := runTimes job.trigger now (now + 2) job.nextRunTime

/-- `add_job` of a job without a next run time. -/
def Job.add (trigger : CronTrigger) (misfireGraceTime now : ℕ) : Job where
  trigger := trigger
  misfireGraceTime := misfireGraceTime
  nextRunTime := trigger.getNextFireTime none now
  addedAt := now

def Job.wake (job : Job) (now : ℕ) : Option Job :=
  match (job.due now).getLast? with
  | none => some job
  | some last =>
    match job.trigger.getNextFireTime (some last) now with
    | none => none
    | some next => some { job with nextRunTime := some next }

def Job.submit (job : Job) (now : ℕ) : List Submission :=
  match (job.due now).getLast? with
  | none => []
  | some last =>
    if now - last ≤ job.misfireGraceTime * second then [⟨job.due now, last⟩] else []

/-- Where a reconcile pass is: it has read the tasks, or it is adding their jobs. -/
inductive Pass
  | idle
  | loaded (desired : List (ℕ × ScheduledTask))
  | adding (rest : List (ℕ × ScheduledTask))

/-- What the scheduler takes from a task. -/
structure Definition where
  cronExpression : String
  cronTimezone : String
  misfireGraceSeconds : ℕ
  status : TaskStatus
  deriving DecidableEq, Repr

def definition (task : ScheduledTask) : Definition where
  cronExpression := task.cronExpression
  cronTimezone := task.cronTimezone
  misfireGraceSeconds := task.misfireGraceSeconds
  status := task.status

/-- A worker that stays leader, with the tasks of the database. `changedAt` and `wokenAt`
keep when a task was last changed and when the scheduler last woke up. -/
structure Controller where
  now : ℕ
  db : Db
  changedAt : ℕ → ℕ
  pass : Pass
  jobs : ℕ → Option Job
  fired : ℕ → List Submission
  wokenAt : Option ℕ

inductive Event
  | tick (d : ℕ)
  | change (taskId : ℕ) (value : Option ScheduledTask)
  | load
  | sync
  | add
  | wakeUp

def listEnabled (db : Db) : List (ℕ × ScheduledTask) :=
  db.select .scheduledTasks fun _ (t : ScheduledTask) ↦ decide (t.status = .enabled)

namespace Controller

variable (lib : CronLibrary)

def changed (c : Controller) (taskId : ℕ) (value : Option ScheduledTask) : Bool :=
  decide ((c.db.rows .scheduledTasks taskId).map definition ≠ value.map definition)

def addJob (c : Controller) (taskId : ℕ) (task : ScheduledTask) : ℕ → Option Job :=
  match buildCronTrigger lib task.cronExpression task.cronTimezone with
  | .error _ => c.jobs
  | .ok trigger => fun i ↦
    if i = taskId then some (.add trigger task.misfireGraceSeconds c.now) else c.jobs i

/-- One step. From `sync` to its last `add` a pass does not give way to the scheduler. -/
def next (c : Controller) : Event → Option Controller
  | .tick d => some { c with now := c.now + d }
  | .change taskId value => some { c with
      db := c.db.apply [⟨.scheduledTasks, taskId, value⟩]
      changedAt := fun i ↦ if i = taskId && c.changed taskId value then c.now else c.changedAt i }
  | .load =>
    match c.pass with
    | .idle => some { c with pass := .loaded (listEnabled c.db) }
    | _ => none
  | .sync =>
    match c.pass with
    | .loaded desired => some { c with
        pass := .adding desired
        jobs := fun i ↦ if i ∈ desired.map Prod.fst then c.jobs i else none }
    | _ => none
  | .add =>
    match c.pass with
    | .adding [] => some { c with pass := .idle }
    | .adding ((taskId, task) :: rest) =>
      some { c with pass := .adding rest, jobs := c.addJob lib taskId task }
    | _ => none
  | .wakeUp =>
    match c.pass with
    | .adding _ => none
    | _ => some { c with
        jobs := fun i ↦ (c.jobs i).bind fun job ↦ job.wake c.now
        fired := fun i ↦ c.fired i ++ ((c.jobs i).map fun job ↦ job.submit c.now).getD []
        wokenAt := some c.now }

def start (now : ℕ) (db : Db) : Controller where
  now := now
  db := db
  changedAt _ := now
  pass := .idle
  jobs _ := none
  fired _ := []
  wokenAt := none

inductive Reach (c₀ : Controller) : Controller → Prop
  | init : Reach c₀ c₀
  | step {c c' : Controller} (e : Event) : Reach c₀ c → c.next lib e = some c' → Reach c₀ c'

def follow (c : Controller) : List Event → Option Controller
  | [] => some c
  | e :: es => (c.next lib e).bind fun c' ↦ c'.follow es

variable {lib} {c₀ c c' : Controller} {es : List Event}

theorem reach_follow (h : Reach lib c₀ c) (hf : c.follow lib es = some c') : Reach lib c₀ c' := by
  induction es generalizing c with
  | nil =>
    cases hf
    exact h
  | cons e es ih =>
    obtain ⟨c₁, h₁, h₂⟩ := Option.bind_eq_some_iff.1 hf
    apply ih _ h₂
    exact .step e h h₁

end Controller

end AdminPlatform.ScheduledTask.Scheduler
