import AdminPlatform.ScheduledTask.Scheduler

namespace AdminPlatform.ScheduledTask.Reconcile

open Model.Schema Foundation.Relational Cron Scheduler Controller

variable {lib : CronLibrary} {trigger : CronTrigger} {now fuel a t u last taskId : ℕ} {tick : Option ℕ}
  {job : Job} {c c' c₀ : Controller} {task : ScheduledTask} {rest : List (ℕ × ScheduledTask)}

theorem start_some (h : t ≤ now) : CronTrigger.start (some t) now = t + 1 := by
  simp only [CronTrigger.start]
  by_cases he : now = t
  · rw [if_pos he]
  · rw [if_neg he]
    omega

theorem firstFrom_after (h : trigger.Lawful) (ht : t ≤ now) :
    FirstFrom trigger (t + 1) (trigger.getNextFireTime (some t) now) := by
  have hf := firstFrom_next h (some t) now
  rw [start_some ht] at hf
  exact hf

/-- The run times are the ticks from the next run time up to now. -/
theorem mem_runTimes (h : trigger.Lawful) (hf : FirstFrom trigger a tick) (hn : now < fuel + a) :
    u ∈ runTimes trigger now fuel tick ↔ trigger.IsTick u ∧ a ≤ u ∧ u ≤ now := by
  induction fuel generalizing a tick with
  | zero =>
    simp only [runTimes, List.not_mem_nil, false_iff]
    intro hu
    omega
  | succ fuel ih =>
    cases tick with
    | none =>
      simp only [runTimes, List.not_mem_nil, false_iff]
      intro hu
      have hlt := hf u hu.1
      omega
    | some t =>
      obtain ⟨hat, htick, hleast⟩ := id hf
      simp only [runTimes]
      by_cases hle : t ≤ now
      · rw [if_pos hle, List.mem_cons, ih (firstFrom_after h hle) (by omega)]
        constructor
        · intro hu
          rcases hu with rfl | ⟨hu, htu, hun⟩
          · exact ⟨htick, hat, hle⟩
          · exact ⟨hu, by omega, hun⟩
        · intro ⟨hu, hau, hun⟩
          have htu := hleast u hu hau
          by_cases he : u = t
          · exact .inl he
          · exact .inr ⟨hu, by omega, hun⟩
      · rw [if_neg hle]
        simp only [List.not_mem_nil, false_iff]
        intro ⟨hu, hau, hun⟩
        have htu := hleast u hu hau
        omega

theorem pairwise_runTimes (h : trigger.Lawful) (hf : FirstFrom trigger a tick) (hn : now < fuel + a) :
    (runTimes trigger now fuel tick).Pairwise (· < ·) := by
  induction fuel generalizing a tick with
  | zero => exact .nil
  | succ fuel ih =>
    cases tick with
    | none => exact .nil
    | some t =>
      have hat : a ≤ t := hf.1
      simp only [runTimes]
      by_cases hle : t ≤ now
      · have hnext := firstFrom_after h hle
        have hfuel : now < fuel + (t + 1) := by omega
        rw [if_pos hle]
        apply List.Pairwise.cons _ (ih hnext hfuel)
        intro u hu
        have hu' := (mem_runTimes h hnext hfuel).1 hu
        omega
      · rw [if_neg hle]
        exact .nil

theorem le_of_getLast {xs : List ℕ} (hp : xs.Pairwise (· < ·)) (hl : xs.getLast? = some last)
    (hu : u ∈ xs) : u ≤ last := by
  obtain ⟨ys, rfl⟩ := List.getLast?_eq_some_iff.1 hl
  rcases List.mem_append.1 hu with hu | hu
  · have hlt := (List.pairwise_append.1 hp).2.2 u hu last List.mem_cons_self
    omega
  · exact Nat.le_of_eq (List.mem_singleton.1 hu)

theorem mem_of_getLast {xs : List ℕ} (hl : xs.getLast? = some last) : last ∈ xs := by
  obtain ⟨ys, rfl⟩ := List.getLast?_eq_some_iff.1 hl
  exact List.mem_append_right _ List.mem_cons_self

/-- The next run time is the first tick from some time on, which is when the job was added
or comes right after a run. -/
structure Timely (job : Job) (wokenAt : Option ℕ) (a : ℕ) : Prop where
  first : FirstFrom job.trigger a job.nextRunTime
  added : job.addedAt ≤ a
  woken : a ≤ job.addedAt ∨ ∃ k, wokenAt = some k ∧ a ≤ k + 1

structure JobInv (job : Job) (wokenAt : Option ℕ) : Prop where
  lawful : job.trigger.Lawful
  timely : ∃ a, Timely job wokenAt a

variable {wokenAt : Option ℕ}

theorem mem_due (hl : job.trigger.Lawful) (h : Timely job wokenAt a) :
    u ∈ job.due now ↔ job.trigger.IsTick u ∧ a ≤ u ∧ u ≤ now :=
  mem_runTimes hl h.first (by omega)

theorem pairwise_due (hl : job.trigger.Lawful) (h : Timely job wokenAt a) :
    (job.due now).Pairwise (· < ·) := pairwise_runTimes hl h.first (by omega)

theorem jobInv_add (h : trigger.Lawful) (grace now : ℕ) :
    JobInv (.add trigger grace now) wokenAt :=
  ⟨h, now, firstFrom_next h none now, Nat.le_refl _, .inl (Nat.le_refl _)⟩

theorem jobInv_wake {job' : Job} (h : JobInv job wokenAt) (hk : ∀ k, wokenAt = some k → k ≤ now)
    (hw : job.wake now = some job') : JobInv job' (some now) := by
  obtain ⟨hl, a, ht⟩ := h
  unfold Job.wake at hw
  cases hlast : (job.due now).getLast? with
  | none =>
    rw [hlast] at hw
    cases hw
    refine ⟨hl, a, ht.first, ht.added, ?_⟩
    rcases ht.woken with hle | ⟨k, hk', hle⟩
    · exact .inl hle
    · have hkn := hk k hk'
      exact .inr ⟨now, rfl, by omega⟩
  | some last =>
    rw [hlast] at hw
    have hm := (mem_due hl ht).1 (mem_of_getLast hlast)
    have hf := firstFrom_after hl hm.2.2
    dsimp only at hw
    cases hn : job.trigger.getNextFireTime (some last) now with
    | none =>
      rw [hn] at hw
      cases hw
    | some next =>
      rw [hn] at hw hf
      cases hw
      have hadd := ht.added
      exact ⟨hl, last + 1, hf, by dsimp only; omega, .inr ⟨now, rfl, by omega⟩⟩

structure Inv (c : Controller) : Prop where
  jobs : ∀ i job, c.jobs i = some job → JobInv job c.wokenAt
  woken : ∀ k, c.wokenAt = some k → k ≤ c.now

theorem jobInv_addJob (hlib : lib.Lawful) (h : Inv c) {i : ℕ}
    (hj : c.addJob lib taskId task i = some job) : JobInv job c.wokenAt := by
  unfold addJob at hj
  cases hb : buildCronTrigger lib task.cronExpression task.cronTimezone with
  | error e =>
    rw [hb] at hj
    exact h.jobs i job hj
  | ok trigger =>
    rw [hb] at hj
    dsimp only at hj
    by_cases hi : i = taskId
    · rw [if_pos hi] at hj
      cases hj
      exact jobInv_add (lawful_of_build hlib hb) _ _
    · rw [if_neg hi] at hj
      exact h.jobs i job hj

theorem inv_next (hlib : lib.Lawful) (h : Inv c) {e : Event} (hn : c.next lib e = some c') : Inv c' := by
  cases e with
  | tick d =>
    cases hn
    refine ⟨h.jobs, fun k hk ↦ ?_⟩
    have hle := h.woken k hk
    dsimp only
    omega
  | change taskId value =>
    cases hn
    exact ⟨h.jobs, h.woken⟩
  | load =>
    simp only [Controller.next] at hn
    split at hn
    · cases hn
      exact ⟨h.jobs, h.woken⟩
    · cases hn
  | sync =>
    simp only [Controller.next] at hn
    split at hn
    · cases hn
      refine ⟨fun i job hj ↦ ?_, h.woken⟩
      dsimp only at hj
      split at hj
      · exact h.jobs i job hj
      · cases hj
    · cases hn
  | add =>
    simp only [Controller.next] at hn
    split at hn
    · cases hn
      exact ⟨h.jobs, h.woken⟩
    · cases hn
      exact ⟨fun i job hj ↦ jobInv_addJob (c := c) hlib h hj, h.woken⟩
    · cases hn
  | wakeUp =>
    simp only [Controller.next] at hn
    split at hn
    · cases hn
    · cases hn
      refine ⟨fun i job hj ↦ ?_, fun k hk ↦ ?_⟩
      · obtain ⟨job₀, h₀, hw⟩ := Option.bind_eq_some_iff.1 hj
        exact jobInv_wake (h.jobs i job₀ h₀) h.woken hw
      · cases hk
        exact Nat.le_refl _

theorem inv_start (now : ℕ) (db : Db) : Inv (start now db) := by
  refine ⟨fun i job hj ↦ ?_, fun k hk ↦ ?_⟩
  · cases hj
  · cases hk

theorem inv_of_reach (hlib : lib.Lawful) (h₀ : Inv c₀) (h : Reach lib c₀ c) : Inv c := by
  induction h with
  | init => exact h₀
  | step e _ hn ih => exact inv_next hlib ih hn

/-- The tick `t` of the task `T`, which is enabled and unchanged from before `t` on, is owed by
a wake-up that comes now: it is the first at or after `t`, and within the grace. -/
structure Owed (lib : CronLibrary) (c : Controller) (T t : ℕ) (task : ScheduledTask)
    (trigger : CronTrigger) : Prop where
  row : c.db.rows .scheduledTasks T = some task
  enabled : task.status = .enabled
  unchanged : c.changedAt T < t
  built : buildCronTrigger lib task.cronExpression task.cronTimezone = .ok trigger
  tick : trigger.IsTick t
  past : t ≤ c.now
  grace : c.now ≤ t + task.misfireGraceSeconds * second
  first : ∀ k, c.wokenAt = some k → k < t

/-- The wake-up from `c` to `c'` submits `T` for `t` and the ticks merged with it. -/
def Handed (c c' : Controller) (T t : ℕ) : Prop := ∃ s : Submission,
  c'.fired T = c.fired T ++ [s] ∧ t ∈ s.runTimes ∧ s.runTime ∈ s.runTimes

/-- The job was last added, with what the task now says, at or before `t`. -/
def AddedBy (c : Controller) (T t : ℕ) (task : ScheduledTask) (trigger : CronTrigger) : Prop :=
  ∃ job, c.jobs T = some job ∧ job.trigger = trigger ∧
    job.misfireGraceTime = task.misfireGraceSeconds ∧ job.addedAt ≤ t

/-- A step takes a due run away: it leaves the job of `T` with no run that is due as early. -/
def TakesAway (c c' : Controller) (T : ℕ) : Prop := ∃ job n, c.jobs T = some job ∧
  job.nextRunTime = some n ∧ n ≤ c.now ∧ ¬ ∃ job' n', c'.jobs T = some job' ∧
    job'.nextRunTime = some n' ∧ n' ≤ n

theorem fired_wakeUp {T : ℕ} (hn : c.next lib .wakeUp = some c') :
    c'.fired T = c.fired T ++ ((c.jobs T).map fun job ↦ job.submit c.now).getD [] := by
  simp only [Controller.next] at hn
  split at hn
  · cases hn
  · cases hn
    rfl

theorem handed_of_added {T : ℕ} (hi : Inv c) (ho : Owed lib c T t task trigger)
    (ha : AddedBy c T t task trigger) (hn : c.next lib .wakeUp = some c') : Handed c c' T t := by
  obtain ⟨job, hj, htr, hg, hadd⟩ := ha
  obtain ⟨hl, a, ht⟩ := hi.jobs T job hj
  have hat : a ≤ t := by
    rcases ht.woken with hle | ⟨k, hk, hle⟩
    · omega
    · have hkt := ho.first k hk
      omega
  have hm : t ∈ job.due c.now := (mem_due hl ht).2 ⟨htr ▸ ho.tick, hat, ho.past⟩
  cases hlast : (job.due c.now).getLast? with
  | none =>
    rw [List.getLast?_eq_none_iff.1 hlast] at hm
    cases hm
  | some last =>
    have htl := le_of_getLast (pairwise_due hl ht) hlast hm
    have hgrace : c.now - last ≤ job.misfireGraceTime * second := by
      have hw := ho.grace
      rw [hg]
      omega
    refine ⟨⟨job.due c.now, last⟩, ?_, hm, mem_of_getLast hlast⟩
    rw [fired_wakeUp hn, hj]
    simp only [Option.map_some, Option.getD_some, Job.submit, hlast, if_pos hgrace]

theorem added_of_handed {T : ℕ} (hi : Inv c) (hn : c.next lib .wakeUp = some c')
    (hh : Handed c c' T t) : ∃ job, c.jobs T = some job ∧ job.addedAt ≤ t := by
  obtain ⟨s, hs, hm, -⟩ := hh
  rw [fired_wakeUp hn, List.append_cancel_left_eq] at hs
  cases hj : c.jobs T with
  | none =>
    rw [hj] at hs
    cases hs
  | some job =>
    obtain ⟨hl, a, ht⟩ := hi.jobs T job hj
    rw [hj] at hs
    simp only [Option.map_some, Option.getD_some, Job.submit] at hs
    split at hs
    · cases hs
    · split at hs
      · cases hs
        have hat := ((mem_due hl ht).1 hm).2.1
        exact ⟨job, rfl, Nat.le_trans ht.added hat⟩
      · cases hs

/-- Adding the job again takes a due run away just if the run is due for an earlier time. -/
theorem takesAway_iff {T : ℕ} (hlib : lib.Lawful) (hi : Inv c) (hj : c.jobs T = some job)
    (hb : buildCronTrigger lib task.cronExpression task.cronTimezone = .ok job.trigger)
    (hp : c.pass = .adding ((T, task) :: rest)) (hn : c.next lib .add = some c') :
    TakesAway c c' T ↔ ∃ n, job.nextRunTime = some n ∧ n < c.now := by
  have hjobs : c'.jobs T = some (.add job.trigger task.misfireGraceSeconds c.now) := by
    simp only [Controller.next, hp] at hn
    cases hn
    simp only [addJob, hb, if_pos]
  have hf := firstFrom_next (lawful_of_build hlib hb) none c.now
  have hs : CronTrigger.start none c.now = c.now := rfl
  rw [hs] at hf
  constructor
  · intro ⟨job₀, n, hj₀, hnext, hle, hno⟩
    have he : job₀ = job := Option.some.inj (hj₀.symm.trans hj)
    subst he
    refine ⟨n, hnext, ?_⟩
    by_contra hge
    obtain ⟨hl, a, ht⟩ := hi.jobs T job₀ hj
    have htick : job₀.trigger.IsTick n := by
      have hfirst := ht.first
      rw [hnext] at hfirst
      exact hfirst.2.1
    cases hadd : job₀.trigger.getNextFireTime none c.now with
    | none =>
      rw [hadd] at hf
      have hlt := hf n htick
      omega
    | some n' =>
      rw [hadd] at hf
      have hle' := hf.2.2 n htick (by omega)
      exact hno ⟨_, n', hjobs, hadd, hle'⟩
  · intro ⟨n, hnext, hlt⟩
    refine ⟨job, n, hj, hnext, Nat.le_of_lt hlt, ?_⟩
    intro ⟨job', n', hj', hnext', hle'⟩
    have he : Job.add job.trigger task.misfireGraceSeconds c.now = job' :=
      Option.some.inj (hjobs.symm.trans hj')
    subst he
    have hadd : job.trigger.getNextFireTime none c.now = some n' := hnext'
    rw [hadd] at hf
    have hge := hf.1
    omega

/-- Every step of the run of `es` from `c` is one of `P`. -/
def EveryStep (lib : CronLibrary) (P : Controller → Event → Controller → Prop) (c : Controller) :
    List Event → Prop
  | [] => True
  | e :: es => ∀ c', c.next lib e = some c' → P c e c' ∧ EveryStep lib P c' es

/-- No tick is lost by the step: a wake-up hands over all it owes, and a pass that finds a
job with the trigger it is to have takes no due run of it away. -/
def KeepsTicks (lib : CronLibrary) (c : Controller) (e : Event) (c' : Controller) : Prop :=
  match e with
  | .wakeUp => ∀ T t task trigger, Owed lib c T t task trigger → Handed c c' T t
  | .add => ∀ T task rest job, c.pass = .adding ((T, task) :: rest) → c.jobs T = some job →
      buildCronTrigger lib task.cronExpression task.cronTimezone = .ok job.trigger →
      ¬ TakesAway c c' T
  | _ => True

/-- The jobs that a wake-up owes a tick to were last added at or before the tick, from what
their tasks now say; no pass adds a job again that is due for an earlier time. -/
def InTime (lib : CronLibrary) (c : Controller) (e : Event) (_ : Controller) : Prop :=
  match e with
  | .wakeUp => ∀ T t task trigger, Owed lib c T t task trigger → AddedBy c T t task trigger
  | .add => ∀ T task rest job n, c.pass = .adding ((T, task) :: rest) → c.jobs T = some job →
      buildCronTrigger lib task.cronExpression task.cronTimezone = .ok job.trigger →
      job.nextRunTime = some n → c.now ≤ n
  | _ => True

def NotLate (lib : CronLibrary) (c : Controller) (e : Event) (c' : Controller) : Prop :=
  match e with
  | .wakeUp => ∀ T t task trigger, Owed lib c T t task trigger →
      ∃ job, c.jobs T = some job ∧ job.addedAt ≤ t
  | _ => InTime lib c e c'

theorem keepsTicks_of_inTime (hlib : lib.Lawful) (hi : Inv c) {e : Event} (hn : c.next lib e = some c')
    (h : InTime lib c e c') : KeepsTicks lib c e c' := by
  cases e with
  | wakeUp =>
    intro T t task trigger ho
    apply handed_of_added hi ho _ hn
    exact h T t task trigger ho
  | add =>
    intro T task rest job hp hj hb htake
    obtain ⟨n, hnext, hlt⟩ := (takesAway_iff hlib hi hj hb hp hn).1 htake
    have hle := h T task rest job n hp hj hb hnext
    omega
  | _ => trivial

theorem notLate_of_keepsTicks (hlib : lib.Lawful) (hi : Inv c) {e : Event}
    (hn : c.next lib e = some c') (h : KeepsTicks lib c e c') : NotLate lib c e c' := by
  cases e with
  | wakeUp =>
    intro T t task trigger ho
    apply added_of_handed hi hn
    exact h T t task trigger ho
  | add =>
    intro T task rest job n hp hj hb hnext
    by_contra hlt
    apply h T task rest job hp hj hb
    exact (takesAway_iff hlib hi hj hb hp hn).2 ⟨n, hnext, by omega⟩
  | _ => trivial

theorem everyStep_mono {P Q : Controller → Event → Controller → Prop} (hlib : lib.Lawful)
    (hPQ : ∀ c e c', Inv c → c.next lib e = some c' → P c e c' → Q c e c') {es : List Event}
    (hi : Inv c) (h : EveryStep lib P c es) : EveryStep lib Q c es := by
  induction es generalizing c with
  | nil => trivial
  | cons e es ih =>
    intro c' hn
    obtain ⟨hp, hes⟩ := h c' hn
    exact ⟨hPQ c e c' hi hn hp, ih (inv_next hlib hi hn) hes⟩

/-- A run whose steps are in time loses no tick, and a run that loses none is not late. -/
theorem reconcile_keeps_ticks (hlib : lib.Lawful) (now : ℕ) (db : Db) (es : List Event) :
    (EveryStep lib (InTime lib) (start now db) es → EveryStep lib (KeepsTicks lib) (start now db) es) ∧
    (EveryStep lib (KeepsTicks lib) (start now db) es → EveryStep lib (NotLate lib) (start now db) es) := by
  have hi : Inv (start now db) := inv_start now db
  constructor
  · intro h
    exact everyStep_mono hlib (fun c e c' hc hn ↦ keepsTicks_of_inTime hlib hc hn) hi h
  · intro h
    exact everyStep_mono hlib (fun c e c' hc hn ↦ notLate_of_keepsTicks hlib hc hn) hi h

section Example

def minutely : ScheduledTask where
  name := "noop"
  handlerKey := "noop"
  paramsJson := "\x7b\x7d"
  cronExpression := "* * * * *"
  cronTimezone := "UTC"
  status := .enabled
  allowConcurrent := false
  misfireGraceSeconds := 300
  timeoutSeconds := none
  lastRunAt := none
  lastStatus := none
  remark := none

def minutelyOnly : Db := Store.empty.apply [⟨.scheduledTasks, 0, some minutely⟩]

def reconcile : List Event := [.load, .sync, .add, .add]

theorem build_minutely : buildCronTrigger everyMinuteLibrary minutely.cronExpression
    minutely.cronTimezone = .ok everyMinute := rfl

def passBetween : List Event := reconcile ++ .tick (10 * second + 1) :: reconcile

theorem not_handed_passBetween : ∃ c c',
    (start (5990 * second) minutelyOnly).follow everyMinuteLibrary passBetween = some c ∧
    c.next everyMinuteLibrary .wakeUp = some c' ∧
    Owed everyMinuteLibrary c 0 (6000 * second) minutely everyMinute ∧
    ¬ Handed c c' 0 (6000 * second) := by
  have hrun : ((start (5990 * second) minutelyOnly).follow everyMinuteLibrary passBetween).any
      (fun c ↦ (c.next everyMinuteLibrary .wakeUp).any (fun c' ↦ decide (c'.fired 0 = [])) &&
        decide (c.db.rows .scheduledTasks 0 = some minutely) &&
        decide (c.changedAt 0 = 5990 * second ∧ c.now = 6000 * second + 1 ∧ c.wokenAt = none)) = true := by
    decide +kernel
  obtain ⟨c, hc, hp⟩ := (Option.any_eq_true _ _).1 hrun
  simp only [Bool.and_eq_true, decide_eq_true_eq] at hp
  obtain ⟨⟨hwake, hrow⟩, hchanged, hnow, hwoken⟩ := hp
  obtain ⟨c', hc', hfired⟩ := (Option.any_eq_true _ _).1 hwake
  refine ⟨c, c', hc, hc', ⟨hrow, rfl, ?_, build_minutely, ?_, ?_, ?_, ?_⟩, ?_⟩
  · rw [hchanged]
    unfold second
    omega
  · exact isTick_everyMinute.2 rfl
  · omega
  · rw [hnow]
    show 6000 * second + 1 ≤ 6000 * second + 300 * second
    unfold second
    omega
  · rw [hwoken]
    intro k hk
    cases hk
  · intro ⟨s, hs, _⟩
    rw [of_decide_eq_true hfired] at hs
    have hlen := congrArg List.length hs
    simp at hlen

theorem row_minutelyOnly {T : ℕ} (h : minutelyOnly.rows .scheduledTasks T = some task) :
    T = 0 ∧ task = minutely := by
  simp only [minutelyOnly, apply_rows, pending_singleton] at h
  by_cases hT : T = 0
  · subst hT
    rw [Write.at_self] at h
    exact ⟨rfl, (Option.some.inj h).symm⟩
  · rw [Write.at_id_ne (Ne.symm hT)] at h
    cases h

def onePass : List Event := reconcile ++ [.tick (10 * second), .wakeUp]

theorem inTime_onePass : EveryStep everyMinuteLibrary (InTime everyMinuteLibrary)
    (start (5990 * second) minutelyOnly) onePass := by
  intro c₁ h₁
  cases h₁
  refine ⟨trivial, fun c₂ h₂ ↦ ?_⟩
  cases h₂
  refine ⟨trivial, fun c₃ h₃ ↦ ?_⟩
  cases h₃
  refine ⟨?_, fun c₄ h₄ ↦ ?_⟩
  · intro T task rest job n _ hj
    dsimp only at hj
    split at hj
    · cases hj
    · cases hj
  · cases h₄
    refine ⟨?_, fun c₅ h₅ ↦ ?_⟩
    · intro T task rest job n hp
      cases hp
    · cases h₅
      refine ⟨trivial, fun c₆ h₆ ↦ ⟨?_, trivial⟩⟩
      intro T t task trigger ho
      obtain ⟨rfl, rfl⟩ := row_minutelyOnly ho.row
      have hb : Except.ok everyMinute = Except.ok trigger := build_minutely.symm.trans ho.built
      cases hb
      have hlt : 5990 * second < t := ho.unchanged
      exact ⟨_, rfl, rfl, rfl, Nat.le_of_lt hlt⟩

theorem reconcile_keeps_ticks_onePass :
    EveryStep everyMinuteLibrary (KeepsTicks everyMinuteLibrary) (start (5990 * second) minutelyOnly)
      onePass ∧
    ((start (5990 * second) minutelyOnly).follow everyMinuteLibrary onePass).any
      (fun c ↦ decide (c.fired 0 = [⟨[6000 * second], 6000 * second⟩])) = true :=
  ⟨(reconcile_keeps_ticks lawful_everyMinuteLibrary _ _ onePass).1 inTime_onePass, by decide +kernel⟩

end Example

end AdminPlatform.ScheduledTask.Reconcile
