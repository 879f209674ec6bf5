import AdminPlatform.ScheduledTask.ClaimTransaction

namespace AdminPlatform.ScheduledTask.ClaimCommit

open Model.Schema Model.Service Foundation.Relational Foundation.Transaction
open Foundation.Interleaving Foundation.RelyGuarantee Cron Executor ScheduledTaskRepository
open ClaimInvariant ClaimTransaction

variable {env : Environment} {T₀ : ℕ} {alone keyed : Prop} {w w' : Shared} {l : Private}
  {T L u k since : ℕ} {row r r' : ScheduledTaskLog} {task : ScheduledTask}

section Claimless

variable (h : Claimless l w)

include h

theorem log_before (hr : (w.commit l).db.rows .scheduledTaskLogs k = some r') :
    ∃ r : ScheduledTaskLog, w.db.rows .scheduledTaskLogs k = some r ∧ LogPatch l k r r' := by
  rw [commit_db, apply_rows] at hr
  cases hp : pending l.redo .scheduledTaskLogs k with
  | none =>
    rw [hp] at hr
    exact ⟨r', hr, .refl l k r'⟩
  | some v =>
    obtain ⟨r, r'', hrow, rfl, hpatch⟩ := h.logs k v hp
    rw [hp] at hr
    cases hr
    exact ⟨r, hrow, hpatch⟩

theorem log_after (hr : w.db.rows .scheduledTaskLogs k = some r) : ∃ r' : ScheduledTaskLog,
    (w.commit l).db.rows .scheduledTaskLogs k = some r' ∧ LogPatch l k r r' := by
  rw [commit_db, apply_rows]
  cases hp : pending l.redo .scheduledTaskLogs k with
  | none => exact ⟨r, hr, .refl l k r⟩
  | some v =>
    obtain ⟨r₀, r', hrow, rfl, hpatch⟩ := h.logs k v hp
    have he : r₀ = r := Option.some.inj (hrow.symm.trans hr)
    rw [he] at hpatch
    exact ⟨r', rfl, hpatch⟩

theorem started_before {c : ℕ} (hm : Note.executionStarted L T c ∈ (w.commit l).log) :
    Note.executionStarted L T c ∈ w.log := by
  rcases List.mem_append.1 hm with hm | hm
  · exact hm
  · exact absurd (h.notes _ hm) id

theorem claimed_before {c : ℕ} {f : Option ℕ} (hm : Note.taskClaimed L T f c ∈ (w.commit l).log) :
    Note.taskClaimed L T f c ∈ w.log := by
  rcases List.mem_append.1 hm with hm | hm
  · exact hm
  · exact absurd (h.notes _ hm) id

theorem running_before (hrun : Running (w.commit l) T L) :
    Running w T L ∧ Note.executionFinished L ∉ l.notes := by
  obtain ⟨⟨c, hc⟩, hf⟩ := hrun
  refine ⟨⟨⟨c, started_before h hc⟩, fun hm ↦ hf ?_⟩, fun hm ↦ hf ?_⟩
  · exact List.mem_append_left _ hm
  · exact List.mem_append_right _ hm

theorem mentions_before (hm : Mentions (w.commit l) u) : Mentions w u ∨ Sole l w u := by
  cases hm with
  | task t ht =>
    rw [commit_db, apply_rows] at ht
    cases hp : pending l.redo .scheduledTasks u with
    | none =>
      rw [hp] at ht
      exact .inl (.task t ht)
    | some v =>
      rcases h.tasks u v hp with ⟨t', ht'⟩ | hs
      · exact .inl (.task t' ht')
      · exact .inr hs
  | log r hr =>
    obtain ⟨r₀, hrow, -⟩ := log_before h hr
    exact .inl (.log r₀ hrow)
  | started L T c hm hu => exact .inl (.started L T c (started_before h hm) hu)
  | claimed L T c f hm hu => exact .inl (.claimed L T c f (claimed_before h hm) hu)
  | deleted hm =>
    rcases List.mem_append.1 hm with hm | hm
    · exact .inl (.deleted hm)
    · rcases h.tasks u none (h.deleted u hm) with ⟨t, ht⟩ | hs
      · exact .inl (.task t ht)
      · exact .inr hs

/-- A task that was deleted does not come back. -/
theorem gone_after (hm : Mentions w T) (hn : w.db.rows .scheduledTasks T = none) :
    (w.commit l).db.rows .scheduledTasks T = none := by
  rw [commit_db, apply_rows]
  cases hp : pending l.redo .scheduledTasks T with
  | none => exact hn
  | some v =>
    rcases h.tasks T v hp with ⟨t, ht⟩ | hs
    · rw [hn] at ht
      cases ht
    · exact absurd hm hs.fresh

theorem logOf_after (hm : Mentions w T) (ho : LogOf w T r) (hp : LogPatch l L r r') :
    LogOf (w.commit l) T r' := by
  rcases ho with ht | hn
  · rcases hp.owner with he | ⟨T', hT, hnone, hdel⟩
    · exact .inl (he.trans ht)
    · have hTT : T = T' := Option.some.inj (ht.symm.trans hT)
      rw [← hTT] at hdel
      exact .inr (apply_rows_of_pending hdel)
  · exact .inr (gone_after h hm hn)

theorem taskInv_claimless (hi : TaskInv w) : TaskInv (w.commit l) where
  below u hu := by
    rcases mentions_before h hu with hm | hs
    · exact hi.below u hm
    · exact hs.below
  running L T hrun := by
    obtain ⟨hw, hn⟩ := running_before h hrun
    obtain ⟨r, hr, hst, ho⟩ := hi.running L T hw
    obtain ⟨r', hr', hp⟩ := log_after h hr
    obtain ⟨c, hc⟩ := hw.1
    refine ⟨r', hr', (hp.status.resolve_right hn).trans hst, ?_⟩
    exact logOf_after h (.started L T c hc (.inr rfl)) ho hp
  claimed L T f c hm := by
    have hw := claimed_before h hm
    obtain ⟨r, hr, htr, ho⟩ := hi.claimed L T f c hw
    obtain ⟨r', hr', hp⟩ := log_after h hr
    refine ⟨r', hr', hp.same.trigger.trans htr, ?_⟩
    exact logOf_after h (.claimed L T c f hw (.inr rfl)) ho hp
  unique L L' r r' T t hr hr' ht ht' hc hc' := by
    obtain ⟨r₀, hr₀, hp⟩ := log_before h hr
    obtain ⟨r₁, hr₁, hp'⟩ := log_before h hr'
    rw [hp.same.scheduleClaim] at hc
    rw [hp'.same.scheduleClaim] at hc'
    exact hi.unique L L' r₀ r₁ T t hr₀ hr₁ (hp.owner_some ht) (hp'.owner_some ht') hc hc'
  manual L r hr hm := by
    obtain ⟨r₀, hr₀, hp⟩ := log_before h hr
    rw [hp.same.scheduled]
    exact hi.manual L r₀ hr₀ (hp.same.trigger.symm.trans hm)
  gone T hm := by
    rcases List.mem_append.1 hm with hm | hm
    · exact gone_after h (.deleted hm) (hi.gone T hm)
    · exact apply_rows_of_pending (h.deleted T hm)

theorem alone_claimless (ha : Alone T w) : Alone T (w.commit l) := by
  intro L L' hL hL'
  exact ha L L' (running_before h hL).1 (running_before h hL').1

theorem keyed_claimless (hk : Keyed T w)
    (href : ∀ t c key, Note.claimRefused T (some t) c key ∈ l.notes → key = some t) : Keyed T (w.commit l) where
  key L t c hm := by
    obtain ⟨r, hr, hc⟩ := hk.key L t c (claimed_before h hm)
    obtain ⟨r', hr', hp⟩ := log_after h hr
    exact ⟨r', hr', hp.same.scheduleClaim.trans hc⟩
  once L L' t c c' hm hm' := hk.once L L' t c c' (claimed_before h hm) (claimed_before h hm')
  refused t c key hm := by
    rcases List.mem_append.1 hm with hm | hm
    · exact hk.refused t c key hm
    · exact href t c key hm

theorem logsKept_claimless : LogsKept w (w.commit l) := by
  intro L r hr
  obtain ⟨r', hr', hp⟩ := log_after h hr
  exact ⟨r', hr', hp.same⟩

theorem noClaim_claimless (T : ℕ) : NoClaim T w (w.commit l) where
  logs L r' hr' ht := by
    obtain ⟨r, hr, hp⟩ := log_before h hr'
    exact ⟨r, hr, hp.owner_some ht⟩
  started L c hm := started_before h hm
  claimed L f c hm := claimed_before h hm

theorem taskProt_claimless {r : Resource Table LockName} (hr : ∀ m, (r, m) ∉ l.held) :
    taskProt r w (w.commit l) := by
  unfold taskProt
  split
  · intro hn hm
    rcases mentions_before h hm with hm | hs
    · exact hn hm
    · exact hr _ hs.own
  · exact noClaim_claimless h _
  · trivial

theorem moves_claimless (hi : (taskProtocol T₀ alone keyed).inv w)
    (href : keyed → ∀ t c key, Note.claimRefused T₀ (some t) c key ∈ l.notes → key = some t) :
    Moves (taskProtocol T₀ alone keyed) l.held w (w.commit l) where
  inv := ⟨taskInv_claimless h hi.1, fun ha ↦ alone_claimless h (hi.2.1 ha),
    fun hk ↦ keyed_claimless h (hi.2.2 hk) (href hk)⟩
  guar := logsKept_claimless h
  change := trivial
  prot _ hr := taskProt_claimless h hr

end Claimless

theorem moves_steady (h : Steady l w) (hi : (taskProtocol T₀ alone keyed).inv w) :
    Moves (taskProtocol T₀ alone keyed) l.held w (w.commit l) :=
  moves_claimless h.toClaimless hi fun _ t c key hm ↦ absurd hm (h.unrefused T₀ (some t) c key)

/-- No claim of `T` passes over an execution that its own check takes for dead. -/
def AloneGuard (T : ℕ) (w : Shared) (notes : List Note) : Prop := ∀ L c,
  Note.executionStarted L T c ∈ notes → ∃ task : ScheduledTask,
    w.db.rows .scheduledTasks T = some task ∧ task.allowConcurrent = false ∧
    ∀ L', Running w T L' → ∃ (r : ScheduledTaskLog) (s : ℕ),
      w.db.rows .scheduledTaskLogs L' = some r ∧ r.startedAt = some s ∧
        c - staleSeconds task * second ≤ s

/-- A claim of a fire of the tick `t` reads the clock `c` from the tick on, not too late to look back to
it and before the next tick, and looks back over no tick that shows its time for the second time. -/
structure OnTime (trigger : CronTrigger) (task : ScheduledTask) (t c : ℕ) : Prop where
  le : t ≤ c
  within : c ≤ t + (task.misfireGraceSeconds + 60) * second
  next : ∀ u, trigger.IsTick u → t < u → c < u
  once : trigger.Unrepeated (c - (task.misfireGraceSeconds + 60) * second) c

/-- A claim of a fire of the tick `t` at the clock `c`, whether it was refused or not. -/
def Claims (T t c : ℕ) : Note → Prop
  | .taskClaimed _ T' f c' => T' = T ∧ f = some t ∧ c' = c
  | .claimRefused T' f c' _ => T' = T ∧ f = some t ∧ c' = c
  | _ => False

/-- Every claim for a tick of `T` is on time. -/
def KeyGuard (env : Environment) (T : ℕ) (w : Shared) (notes : List Note) : Prop :=
  ∀ n ∈ notes, ∀ t c, Claims T t c n → ∃ (task : ScheduledTask) (trigger : CronTrigger),
    w.db.rows .scheduledTasks T = some task ∧
    buildCronTrigger env.cron task.cronExpression task.cronTimezone = .ok trigger ∧
    trigger.IsTick t ∧ OnTime trigger task t c

theorem stored_whole {n : ℕ} (h : n % second = 0) : stored n = n := by
  unfold stored second at *
  omega

theorem answers_of_build {trigger : CronTrigger} (hlib : env.cron.Answers)
    (hb : buildCronTrigger env.cron task.cronExpression task.cronTimezone = .ok trigger) : trigger.Answers := by
  obtain ⟨fields, hf⟩ := cronTrigger_of_build hb
  exact hlib fields trigger hf

theorem dueTime_of_found {trigger : CronTrigger} {c : ℕ} {result : Option ℕ}
    (hb : buildCronTrigger env.cron task.cronExpression task.cronTimezone = .ok trigger)
    (hr : latestTick trigger c ((task.misfireGraceSeconds + 60) * second) = .found result) :
    dueTime env task c = some (result.getD (minuteOf c)) := by
  simp only [dueTime, scheduledTickAt, hb, bind, Except.bind, pure, Except.pure, hr]

theorem found_of_dueTime {trigger : CronTrigger} {c x : ℕ}
    (hb : buildCronTrigger env.cron task.cronExpression task.cronTimezone = .ok trigger)
    (h : dueTime env task c = some x) : ∃ result,
    latestTick trigger c ((task.misfireGraceSeconds + 60) * second) = .found result ∧
    x = result.getD (minuteOf c) := by
  cases hl : latestTick trigger c ((task.misfireGraceSeconds + 60) * second) with
  | endless => simp [dueTime, scheduledTickAt, hb, bind, Except.bind, pure, Except.pure, hl] at h
  | found result =>
    rw [dueTime_of_found hb hl] at h
    exact ⟨result, rfl, (Option.some.inj h).symm⟩

/-- A claim of a fire of `t` is keyed by `t` just where it is on time. -/
theorem dueTime_iff_onTime {trigger : CronTrigger} {t c : ℕ} (hlib : env.cron.Answers)
    (hb : buildCronTrigger env.cron task.cronExpression task.cronTimezone = .ok trigger)
    (ht : trigger.IsTick t) : (dueTime env task c).map stored = some t ↔ OnTime trigger task t c := by
  have hans := answers_of_build hlib hb
  constructor
  · intro h
    obtain ⟨x, hx, hxt⟩ := Option.map_eq_some_iff.1 h
    obtain ⟨result, hl, rfl⟩ := found_of_dueTime hb hx
    cases result with
    | none =>
      obtain ⟨result', hr, hlatest⟩ := latestIn_latestTick hans (unrepeated_of_found hans hl)
      rw [hl] at hr
      cases hr
      -- the minute of the clock is in the window, so it is no tick
      have hin := hlatest t ht
      simp only [Option.getD_none, minuteOf, stored] at hxt
      unfold second at hxt hin
      omega
    | some t' =>
      obtain ⟨hu, htick, hge, hle, hlast⟩ := (latestTick_eq_some hans).1 hl
      rw [Option.getD_some, stored_whole (hans.whole t' htick)] at hxt
      subst hxt
      exact ⟨hle, by omega, hlast, hu⟩
  · intro h
    have hl := (latestTick_eq_some hans).2 ⟨h.once, ht, Nat.sub_le_iff_le_add.2 h.within, h.le, h.next⟩
    rw [dueTime_of_found hb hl, Option.map_some, Option.getD_some, stored_whole (hans.whole t ht)]

theorem key_of_claims {n : Note} {notes : List Note} {t c : ℕ} (hlib : env.cron.Answers)
    (hg : KeyGuard env T w notes) (ht : w.db.rows .scheduledTasks T = some task) (hn : n ∈ notes)
    (hc : Claims T t c n) : (dueTime env task c).map stored = some t := by
  obtain ⟨task', trigger, ht', hb, htick, hon⟩ := hg n hn t c hc
  obtain rfl : task' = task := Option.some.inj (ht'.symm.trans ht)
  exact (dueTime_iff_onTime hlib hb htick).2 hon

theorem moves_refused (h : Refused env l w T task) (hlib : keyed → env.cron.Answers)
    (hi : (taskProtocol T₀ alone keyed).inv w) (hg : keyed → KeyGuard env T₀ w l.notes) :
    Moves (taskProtocol T₀ alone keyed) l.held w (w.commit l) := by
  refine moves_claimless h.claimless hi fun hk t c key hm ↦ ?_
  obtain ⟨f, c', he⟩ := h.notes _ hm
  cases he
  exact key_of_claims (hlib hk) (hg hk) h.holds.row hm ⟨rfl, rfl, rfl⟩

section Claiming

variable (h : Claiming env l w T L row task)

include h

theorem log_cases (hr : (w.commit l).db.rows .scheduledTaskLogs k = some r) :
    k = L ∧ r = row ∨ w.db.rows .scheduledTaskLogs k = some r := by
  rw [commit_db, apply_rows, h.logs] at hr
  by_cases hk : k = L
  · rw [if_pos hk] at hr
    exact .inl ⟨hk, (Option.some.inj hr).symm⟩
  · rw [if_neg hk] at hr
    exact .inr hr

theorem log_new : (w.commit l).db.rows .scheduledTaskLogs L = some row := by
  rw [commit_db, apply_rows, h.logs, if_pos rfl]
  rfl

theorem log_kept (hr : w.db.rows .scheduledTaskLogs k = some r) :
    (w.commit l).db.rows .scheduledTaskLogs k = some r := by
  have hk : k ≠ L := by
    intro he
    exact h.sole.fresh (he ▸ .log r hr)
  rw [commit_db, apply_rows, h.logs, if_neg hk]
  exact hr

theorem task_kept (T' : ℕ) :
    (w.commit l).db.rows .scheduledTasks T' = w.db.rows .scheduledTasks T' := by
  rw [commit_db, apply_rows, h.tasks]
  rfl

theorem logOf_kept {T' : ℕ} (ho : LogOf w T' r) : LogOf (w.commit l) T' r := by
  rcases ho with ht | hn
  · exact .inl ht
  · exact .inr ((task_kept h T').trans hn)

theorem started_cases {L' T' c : ℕ} (hm : Note.executionStarted L' T' c ∈ (w.commit l).log) :
    Note.executionStarted L' T' c ∈ w.log ∨ L' = L ∧ T' = T ∧ row.status = .running ∧
      Note.executionStarted L T c ∈ l.notes ∧
        (task.allowConcurrent = false → NoneSince w T (c - staleSeconds task * second)) := by
  rcases List.mem_append.1 hm with hm | hm
  · exact .inl hm
  · cases h.notes _ hm with
    | started c hs hn => exact .inr ⟨rfl, rfl, hs, hm, hn⟩

theorem claimed_cases {L' T' c : ℕ} {f : Option ℕ}
    (hm : Note.taskClaimed L' T' f c ∈ (w.commit l).log) :
    Note.taskClaimed L' T' f c ∈ w.log ∨ L' = L ∧ T' = T ∧ row.triggerType = .schedule ∧
      Note.taskClaimed L T f c ∈ l.notes ∧ row.scheduledAt = (dueTime env task c).map stored := by
  rcases List.mem_append.1 hm with hm | hm
  · exact .inl hm
  · cases h.notes _ hm with
    | claimed f c hs ht => exact .inr ⟨rfl, rfl, hs, hm, ht⟩

theorem running_cases {L' T' : ℕ} (hrun : Running (w.commit l) T' L') :
    Running w T' L' ∨ L' = L ∧ T' = T ∧ row.status = .running ∧ ∃ c,
      Note.executionStarted L T c ∈ l.notes ∧
        (task.allowConcurrent = false → NoneSince w T (c - staleSeconds task * second)) := by
  obtain ⟨⟨c, hc⟩, hf⟩ := hrun
  rcases started_cases h hc with hc | ⟨h₁, h₂, h₃, h₄, h₅⟩
  · exact .inl ⟨⟨c, hc⟩, fun hm ↦ hf (List.mem_append_left _ hm)⟩
  · exact .inr ⟨h₁, h₂, h₃, c, h₄, h₅⟩

theorem mentions_task : Mentions w T := .task task h.holds.row

theorem mentions_cases (hm : Mentions (w.commit l) u) : Mentions w u ∨ u = L := by
  cases hm with
  | task t ht => exact .inl (.task t ((task_kept h u).symm.trans ht))
  | log r hr =>
    rcases log_cases h hr with ⟨hu, -⟩ | hr
    · exact .inr hu
    · exact .inl (.log r hr)
  | started L' T' c hm hu =>
    rcases started_cases h hm with hm | ⟨rfl, rfl, -⟩
    · exact .inl (.started L' T' c hm hu)
    · rcases hu with rfl | rfl
      · exact .inr rfl
      · exact .inl (mentions_task h)
  | claimed L' T' c f hm hu =>
    rcases claimed_cases h hm with hm | ⟨rfl, rfl, -⟩
    · exact .inl (.claimed L' T' c f hm hu)
    · rcases hu with rfl | rfl
      · exact .inr rfl
      · exact .inl (mentions_task h)
  | deleted hm =>
    rcases List.mem_append.1 hm with hm | hm
    · exact .inl (.deleted hm)
    · cases h.notes _ hm

theorem taskInv_claiming (hi : TaskInv w) : TaskInv (w.commit l) where
  below u hu := by
    rcases mentions_cases h hu with hm | rfl
    · exact hi.below u hm
    · exact h.sole.below
  running L' T' hrun := by
    rcases running_cases h hrun with hw | ⟨rfl, rfl, hs, -⟩
    · obtain ⟨r, hr, hst, ho⟩ := hi.running L' T' hw
      exact ⟨r, log_kept h hr, hst, logOf_kept h ho⟩
    · exact ⟨row, log_new h, hs, .inl h.owner⟩
  claimed L' T' f c hm := by
    rcases claimed_cases h hm with hw | ⟨rfl, rfl, hs, -⟩
    · obtain ⟨r, hr, htr, ho⟩ := hi.claimed L' T' f c hw
      exact ⟨r, log_kept h hr, htr, logOf_kept h ho⟩
    · exact ⟨row, log_new h, hs, .inl h.owner⟩
  unique L₁ L₂ r₁ r₂ T' t hr₁ hr₂ ht₁ ht₂ hc₁ hc₂ := by
    rcases log_cases h hr₁ with ⟨rfl, rfl⟩ | hw₁
    · rcases log_cases h hr₂ with ⟨rfl, rfl⟩ | hw₂
      · rfl
      · have hT : T = T' := Option.some.inj (h.owner.symm.trans ht₁)
        exact absurd hc₂ (h.untaken t L₂ r₂ hc₁ hw₂ (hT ▸ ht₂))
    · rcases log_cases h hr₂ with ⟨rfl, rfl⟩ | hw₂
      · have hT : T = T' := Option.some.inj (h.owner.symm.trans ht₂)
        exact absurd hc₁ (h.untaken t L₁ r₁ hc₂ hw₁ (hT ▸ ht₁))
      · exact hi.unique L₁ L₂ r₁ r₂ T' t hw₁ hw₂ ht₁ ht₂ hc₁ hc₂
  manual L' r hr hm := by
    rcases log_cases h hr with ⟨rfl, rfl⟩ | hr
    · exact h.manual hm
    · exact hi.manual L' r hr hm
  gone T' hm := by
    rcases List.mem_append.1 hm with hm | hm
    · rw [task_kept h]
      exact hi.gone T' hm
    · cases h.notes _ hm

/-- Under the guard, a claim that starts an execution finds none running. -/
theorem alone_claiming (ha : Alone T₀ w) (hg : AloneGuard T₀ w l.notes) : Alone T₀ (w.commit l) := by
  have hnone : ∀ L' c, T₀ = T → Note.executionStarted L T c ∈ l.notes →
      (task.allowConcurrent = false → NoneSince w T (c - staleSeconds task * second)) →
      ¬ Running w T₀ L' := by
    intro L' c hT hm hn hrun
    subst hT
    obtain ⟨task', ht, hac, hstale⟩ := hg L c hm
    have he : task' = task := Option.some.inj (ht.symm.trans h.holds.row)
    subst he
    obtain ⟨r, s, hr, hs, hle⟩ := hstale L' hrun
    have hlt := hn hac L' r s hrun hr hs
    omega
  intro L₁ L₂ h₁ h₂
  rcases running_cases h h₁ with h₁ | ⟨rfl, hT, -, c, hm, hn⟩
  · rcases running_cases h h₂ with h₂ | ⟨rfl, hT, -, c, hm, hn⟩
    · exact ha L₁ L₂ h₁ h₂
    · exact absurd h₁ (hnone L₁ c hT hm hn)
  · rcases running_cases h h₂ with h₂ | ⟨rfl, -⟩
    · exact absurd h₂ (hnone L₂ c hT hm hn)
    · rfl

theorem keyed_claiming (hlib : env.cron.Answers) (hi : TaskInv w) (hk : Keyed T₀ w)
    (hg : KeyGuard env T₀ w l.notes) : Keyed T₀ (w.commit l) := by
  have hnew : ∀ t c, T₀ = T → row.triggerType = .schedule →
      Note.taskClaimed L T (some t) c ∈ l.notes →
      row.scheduledAt = (dueTime env task c).map stored → scheduleClaim row = some t := by
    intro t c hT hs hm ht
    subst hT
    rw [scheduleClaim, if_pos hs, ht]
    exact key_of_claims hlib hg h.holds.row hm ⟨rfl, rfl, rfl⟩
  have hfree : ∀ L' t c, T₀ = T → scheduleClaim row = some t →
      Note.taskClaimed L' T₀ (some t) c ∉ w.log := by
    intro L' t c hT hc hm
    obtain ⟨r, hr, hkey⟩ := hk.key L' t c hm
    obtain ⟨r', hr', -, ho⟩ := hi.claimed L' T₀ (some t) c hm
    have he : r' = r := Option.some.inj (hr'.symm.trans hr)
    rw [he] at ho
    rcases ho with ht | hgone
    · exact h.untaken t L' r hc hr (hT ▸ ht) hkey
    · rw [hT, h.holds.row] at hgone
      cases hgone
  refine ⟨fun L' t c hm ↦ ?_, fun L₁ L₂ t c₁ c₂ h₁ h₂ ↦ ?_, fun t c key hm ↦ ?_⟩
  · rcases claimed_cases h hm with hw | ⟨rfl, hT, hs, hm, ht⟩
    · obtain ⟨r, hr, hkey⟩ := hk.key L' t c hw
      exact ⟨r, log_kept h hr, hkey⟩
    · exact ⟨row, log_new h, hnew t c hT hs hm ht⟩
  · rcases claimed_cases h h₁ with hw₁ | ⟨rfl, hT, hs, hm, ht⟩
    · rcases claimed_cases h h₂ with hw₂ | ⟨rfl, hT, hs, hm, ht⟩
      · exact hk.once L₁ L₂ t c₁ c₂ hw₁ hw₂
      · exact absurd hw₁ (hfree L₁ t c₁ hT (hnew t c₂ hT hs hm ht))
    · rcases claimed_cases h h₂ with hw₂ | ⟨rfl, -⟩
      · exact absurd hw₂ (hfree L₂ t c₂ hT (hnew t c₁ hT hs hm ht))
      · rfl
  · rcases List.mem_append.1 hm with hm | hm
    · exact hk.refused t c key hm
    · cases h.notes _ hm

theorem logsKept_claiming : LogsKept w (w.commit l) := fun _ r hr ↦ ⟨r, log_kept h hr, .refl r⟩

theorem noClaim_claiming {T' : ℕ} (hT : T' ≠ T) : NoClaim T' w (w.commit l) where
  logs L' r hr ht := by
    rcases log_cases h hr with ⟨-, rfl⟩ | hr
    · exact absurd (Option.some.inj (ht.symm.trans h.owner)) hT
    · exact ⟨r, hr, ht⟩
  started L' c hm := by
    rcases started_cases h hm with hm | ⟨-, he, -⟩
    · exact hm
    · exact absurd he hT
  claimed L' f c hm := by
    rcases claimed_cases h hm with hm | ⟨-, he, -⟩
    · exact hm
    · exact absurd he hT

theorem taskProt_claiming {r : Resource Table LockName} (hr : ∀ m, (r, m) ∉ l.held) :
    taskProt r w (w.commit l) := by
  unfold taskProt
  split
  · intro hn hm
    rcases mentions_cases h hm with hm | rfl
    · exact hn hm
    · exact hr _ h.sole.own
  · next T' =>
    refine noClaim_claiming h fun he ↦ hr .exclusive ?_
    rw [he]
    exact h.lock
  · trivial

theorem moves_claiming (hlib : keyed → env.cron.Answers) (hi : (taskProtocol T₀ alone keyed).inv w)
    (ha : alone → AloneGuard T₀ w l.notes) (hk : keyed → KeyGuard env T₀ w l.notes) :
    Moves (taskProtocol T₀ alone keyed) l.held w (w.commit l) where
  inv := ⟨taskInv_claiming h hi.1, fun hp ↦ alone_claiming h (hi.2.1 hp) (ha hp),
    fun hp ↦ keyed_claiming h (hlib hp) hi.1 (hi.2.2 hp) (hk hp)⟩
  guar := logsKept_claiming h
  change := trivial
  prot _ hr := taskProt_claiming h hr

end Claiming

end AdminPlatform.ScheduledTask.ClaimCommit
