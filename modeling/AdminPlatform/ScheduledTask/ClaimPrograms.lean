import AdminPlatform.ScheduledTask.ClaimCommit

namespace AdminPlatform.ScheduledTask.ClaimPrograms

open Model.Schema Model.Service Foundation.Relational Foundation.Transaction
open Foundation.Interleaving Foundation.RelyGuarantee Cron Executor Executor.ScheduledTaskRepository
open ClaimInvariant ClaimTransaction ClaimCommit

variable {α : Type} {env : Environment} {T₀ : ℕ} {alone keyed : Prop}
  {G : Guard Table Row LockName Storage Note} {w w' : Shared} {l l' : Private} {g : Statement}
  {T L u since : ℕ} {task : ScheduledTask} {req : ClaimRequest} {skip : Bool}
  {E : Failure → Private → Shared → Prop}

theorem steady_blank (h : Blank l) : Steady l w where
  covered x hx := by
    rw [h.redo] at hx
    cases hx
  logs k v hp := by
    rw [h.redo] at hp
    cases hp
  tasks k v hp := by
    rw [h.redo] at hp
    cases hp
  notes n hn := by
    rw [h.notes] at hn
    cases hn
  deleted T hm := by
    rw [h.notes] at hm
    cases hm
  unrefused T f c key hm := by
    rw [h.notes] at hm
    cases hm

theorem taskInv_run (h : TaskInv w) : TaskInv (w.run g) := by
  have hd : (w.run g).db = w.db := rfl
  have hl : (w.run g).log = w.log := rfl
  exact h.congr hd hl (Nat.le_add_right _ _)

theorem mentions_run (h : Mentions (w.run g) u) : Mentions w u := by
  have hd : (w.run g).db = w.db := rfl
  have hl : (w.run g).log = w.log := rfl
  exact h.congr hd hl

theorem sole_run (h : Sole l w u) : Sole (l.run g w.next) (w.run g) u :=
  ⟨held_run _ _ _ h.own, fun hm ↦ h.fresh (mentions_run hm),
    Nat.lt_of_lt_of_le h.below (Nat.le_add_right _ _)⟩

/-- The id an `INSERT` draws. -/
theorem sole_drawn (hi : TaskInv w) (hg : g.fresh = 1) : Sole (l.run g w.next) (w.run g) w.next where
  own := by
    refine claims_run _ _ _ (List.mem_append_right _ (List.mem_map.2 ⟨0, ?_, rfl⟩))
    rw [hg]
    exact List.mem_range.2 Nat.one_pos
  fresh hm := Nat.lt_irrefl _ (hi.below _ (mentions_run hm))
  below := by
    show w.next < w.next + g.fresh
    omega

theorem LogPatch.run {k : ℕ} {r r' : ScheduledTaskLog} (h : LogPatch l k r r')
    (hkeep : ∀ T, pending l.redo .scheduledTasks T = some none →
      pending g.writes .scheduledTasks T = none) : LogPatch (l.run g w.next) k r r' where
  same := h.same
  status := h.status.imp_right fun hm ↦ List.mem_append_left _ hm
  owner := by
    rcases h.owner with he | ⟨T, hT, hn, hp⟩
    · exact .inl he
    · refine .inr ⟨T, hT, hn, ?_⟩
      show pending (l.redo ++ g.writes) .scheduledTasks T = some none
      rw [pending_append, hkeep T hp, hp]
      rfl

def Ordinary (writes : List (Write Row)) : Note → Prop
  | .taskClaimed .. => False
  | .claimRefused .. => False
  | .executionStarted .. => False
  | .taskDeleted T => pending writes .scheduledTasks T = some none
  | _ => True

theorem Ordinary.claimsNothing {writes : List (Write Row)} {n : Note} (h : Ordinary writes n) :
    ClaimsNothing n := by
  cases n with
  | taskClaimed => exact h
  | executionStarted => exact h
  | _ => trivial

/-- What one more statement has to justify. -/
theorem steady_run (h : Steady l w)
    (hlogs : ∀ k v, pending g.writes .scheduledTaskLogs k = some v → ∃ r r' : ScheduledTaskLog,
      w.db.rows .scheduledTaskLogs k = some r ∧ v = some r' ∧ LogPatch (l.run g w.next) k r r')
    (htasks : ∀ k v, pending g.writes .scheduledTasks k = some v →
      (∃ t : ScheduledTask, w.db.rows .scheduledTasks k = some t) ∨ Sole (l.run g w.next) (w.run g) k)
    (hkeep : ∀ T, pending l.redo .scheduledTasks T = some none →
      pending g.writes .scheduledTasks T = none)
    (hnotes : ∀ n ∈ g.notes, Ordinary g.writes n) :
    Steady (l.run g w.next) (w.run g) where
  covered := covered_run h.covered g w.next
  logs k v hp := by
    have hp' : pending (l.redo ++ g.writes) .scheduledTaskLogs k = some v := hp
    rw [pending_append, Option.or_eq_some_iff] at hp'
    rcases hp' with hp' | ⟨-, hp'⟩
    · exact hlogs k v hp'
    · obtain ⟨r, r', hr, hv, hpatch⟩ := h.logs k v hp'
      exact ⟨r, r', hr, hv, LogPatch.run hpatch hkeep⟩
  tasks k v hp := by
    have hp' : pending (l.redo ++ g.writes) .scheduledTasks k = some v := hp
    rw [pending_append, Option.or_eq_some_iff] at hp'
    rcases hp' with hp' | ⟨-, hp'⟩
    · exact htasks k v hp'
    · exact (h.tasks k v hp').imp_right sole_run
  notes n hn := by
    rcases List.mem_append.1 hn with hn | hn
    · exact h.notes n hn
    · exact (hnotes n hn).claimsNothing
  deleted T hm := by
    show pending (l.redo ++ g.writes) .scheduledTasks T = some none
    rw [pending_append]
    rcases List.mem_append.1 hm with hm | hm
    · rw [hkeep T (h.deleted T hm), h.deleted T hm]
      rfl
    · have hp : pending g.writes .scheduledTasks T = some none := hnotes _ hm
      rw [hp]
      rfl
  unrefused T f c key hm := by
    rcases List.mem_append.1 hm with hm | hm
    · exact h.unrefused T f c key hm
    · exact hnotes _ hm

theorem wp_look {q : Snapshot → α} {Q : α → Private → Shared → Prop}
    (hQ : ∀ w', Rely (taskProtocol T₀ alone keyed) l w w' → Q (q (w'.view l)) l w') :
    wp (taskProtocol T₀ alone keyed) G (.read q) Q E l w := wp_read hQ

theorem wp_unlessVictim {victim : Option ClaimStatement} {statement : ClaimStatement} {p : Call α}
    {Q : α → Private → Shared → Prop} (hE : E .deadlock l w)
    (h : wp (taskProtocol T₀ alone keyed) G p Q E l w) :
    wp (taskProtocol T₀ alone keyed) G (unlessVictim victim statement p) Q E l w := by
  unfold unlessVictim
  by_cases hv : victim = some statement
  · rw [if_pos hv]
    exact hE
  · rw [if_neg hv]
    exact h

/-- The claim holds its lock and the task. -/
structure Holding (l : Private) (w : Shared) (T : ℕ) (task : ScheduledTask) : Prop where
  blank : Blank l
  lock : LocksClaim l T
  holds : HoldsTask l w T task
  inv : TaskInv w

theorem Holding.rely (h : Holding l w T task) (hr : Rely (taskProtocol T₀ alone keyed) l w w') :
    Holding l w' T task := ⟨h.blank, h.lock, holdsTask_rely hr h.holds, hr.inv.1⟩

theorem wp_acquireClaimLock {Q : Unit → Private → Shared → Prop} (hb : Blank l)
    (hQ : ∀ l' w', Blank l' → LocksClaim l' T → Q () l' w') :
    wp (taskProtocol T₀ alone keyed) G (acquireTransactionLock (.scheduledTaskClaim T)) Q E l w := by
  unfold acquireTransactionLock
  refine wp_query fun w' hr _ ↦ ⟨rfl, hQ _ _ (hb.run rfl rfl _) ?_⟩
  refine claims_run _ _ _ ?_
  simp [Effect.claims]

theorem wp_getForUpdate {Q : Option ScheduledTask → Private → Shared → Prop} (hb : Blank l)
    (hl : LocksClaim l T) (hnone : ∀ l' w', Blank l' → TaskInv w' → Q none l' w')
    (hsome : ∀ task l' w', Holding l' w' T task → Q (some task) l' w') :
    wp (taskProtocol T₀ alone keyed) G (getForUpdate T) Q E l w := by
  refine wp_query fun w' hr _ ↦ ⟨rfl, ?_⟩
  have hi : TaskInv (w'.run ({ locks := [(.row .scheduledTasks T, .exclusive)] } : Statement)) :=
    taskInv_run hr.inv.1
  rw [hb.view]
  cases ht : w'.db.rows .scheduledTasks T with
  | none => exact hnone _ _ (hb.run rfl rfl _) hi
  | some task =>
    refine hsome task _ _ ⟨hb.run rfl rfl _, held_run _ _ _ hl, ⟨⟨.exclusive, ?_⟩, ht⟩, hi⟩
    refine claims_run _ _ _ ?_
    simp [Effect.claims]

theorem wp_concurrencySkip {victim : Option ClaimStatement} {Q : Bool → Private → Shared → Prop}
    (h : Holding l w T task) (hE : E .deadlock l w)
    (hQ : ∀ skip w', Holding l w' T task →
      (skip = false → task.allowConcurrent = false → NoneSince w' T since) → Q skip l w') :
    wp (taskProtocol T₀ alone keyed) G (concurrencySkip victim T task since) Q E l w := by
  unfold concurrencySkip
  by_cases hc : task.allowConcurrent = true
  · rw [if_pos hc]
    exact hQ false w h fun _ hf ↦ by rw [hc] at hf; cases hf
  · rw [if_neg hc]
    refine wp_bind (wp_unlessVictim hE (wp_look fun w' hr ↦ hQ _ w' (h.rely hr) fun hs _ ↦ ?_))
    intro L r s hrun hrow hstart
    obtain ⟨r', hrow', hst, ho⟩ := hr.inv.1.running L T hrun
    have he : r' = r := Option.some.inj (hrow'.symm.trans hrow)
    subst he
    have ht : r'.taskId = some T := by
      rcases ho with ht | hgone
      · exact ht
      · rw [(h.rely hr).holds.row] at hgone
        cases hgone
    have hlen : ¬ 0 < (runningSince (w'.view l).db T since).length := of_decide_eq_false hs
    have hnil : runningSince (w'.view l).db T since = [] := List.length_eq_zero_iff.1 (by omega)
    by_contra hle
    have hm : (L, r') ∈ runningSince (w'.view l).db T since := by
      refine mem_select.2 ⟨(h.blank.view _ _ _).trans hrow, ?_⟩
      have hge : since ≤ s := by omega
      simp [ht, hst, hstart, hge]
    rw [hnil] at hm
    cases hm

theorem untaken_of_free {time : ℕ} (hb : Blank l) (h : claimTaken (w.view l).db T time = false) :
    Untaken w T (some time) := by
  intro t L r ht hr hT hc
  cases ht
  simp only [claimTaken, Bool.not_eq_false', List.isEmpty_iff] at h
  have hm : (L, r) ∈ (w.view l).db.select .scheduledTaskLogs fun _ (r : ScheduledTaskLog) ↦
      decide (r.taskId = some T ∧ scheduleClaim r = some time) := by
    refine mem_select.2 ⟨(hb.view _ _ _).trans hr, ?_⟩
    exact decide_eq_true ⟨hT, hc⟩
  rw [h] at hm
  cases hm

variable {row : ScheduledTaskLog} {notes : ℕ → List Note}

/-- The `INSERT` of the log makes the transaction a claim. -/
theorem claiming_insert (h : Holding l w T task) (hw : g.writes = [⟨.scheduledTaskLogs, w.next, some row⟩])
    (hf : g.fresh = 1) (hg : g.notes = notes w.next) (ho : row.taskId = some T)
    (hm : row.triggerType = .manual → row.scheduledAt = none) (hu : Untaken w T (scheduleClaim row))
    (hn : ∀ L, ∀ n ∈ notes L, ClaimNote env w T L row task n) :
    Claiming env (l.run g w.next) (w.run g) T w.next row task := by
  have hredo : (l.run g w.next).redo = [⟨.scheduledTaskLogs, w.next, some row⟩] := by
    simp only [Local.run, h.blank.redo, hw, List.nil_append]
  obtain ⟨⟨m, hheld⟩, ht⟩ := h.holds
  refine ⟨held_run _ _ _ h.lock, ⟨⟨m, held_run _ _ _ hheld⟩, ht⟩, sole_drawn h.inv hf, ?_, ?_, ho, hm,
    hu, ?_⟩
  · intro k
    rw [hredo, pending_singleton]
    by_cases hk : k = w.next
    · rw [if_pos hk, hk, Write.at_self]
    · rw [if_neg hk, Write.at_id_ne (Ne.symm hk)]
  · intro k
    rw [hredo, pending_singleton, Write.at_other (by decide)]
  · intro n hmem
    have hmem' : n ∈ l.notes ++ g.notes := hmem
    rw [h.blank.notes, hg, List.nil_append] at hmem'
    cases hn _ n hmem' with
    | claimed f c hs hc => exact .claimed f c hs hc
    | started c hs hnone => exact .started c hs hnone

theorem wp_createLog {log : ScheduledTaskLog} {Q : ℕ → Private → Shared → Prop}
    (h : Holding l w T task) (hm : log.triggerType = .manual → log.scheduledAt = none)
    (hn : ∀ L, ∀ n ∈ notes L, ClaimNote env w T L { log with taskId := some T } task n)
    (hE : ∀ e w', Rely (taskProtocol T₀ alone keyed) l w w' →
      (e = .duplicate _CLAIM_UNIQUE_INDEX → log.triggerType = .schedule) → E e l w')
    (hQ : ∀ L l' w', TaskInv w' → Claiming env l' w' T L { log with taskId := some T } task → Q L l' w') :
    wp (taskProtocol T₀ alone keyed) G (createLog T log notes) Q E l w := by
  refine wp_query fun w' hr ↦ ?_
  have h' := h.rely hr
  have hn' : ∀ L, ∀ n ∈ notes L, ClaimNote env w' T L { log with taskId := some T } task n :=
    fun L n hmem ↦ claimNote_rely hr h.inv h.lock (hn L n hmem)
  have hins := fun (g : Statement)
    (hw : g.writes = [⟨.scheduledTaskLogs, w'.next, some { log with taskId := some T }⟩]) hf hg hu ↦
      hQ w'.next _ _ (taskInv_run (g := g) h'.inv) (claiming_insert h' hw hf hg rfl hm hu hn')
  by_cases hnull : (decide (log.triggerType = .schedule) && log.scheduledAt.isNone) = true
  · simp only [if_pos hnull]
    exact hE _ w' hr fun he ↦ by cases he
  · simp only [if_neg hnull]
    cases hc : scheduleClaim log with
    | none =>
      refine fun _ ↦ ⟨rfl, hins _ rfl rfl rfl fun t L r ht ↦ ?_⟩
      have hsome : scheduleClaim log = some t := ht
      rw [hc] at hsome
      cases hsome
    | some time =>
      dsimp only
      by_cases htaken : claimTaken (w'.view l).db T time = true
      · simp only [if_pos htaken]
        refine hE _ w' hr fun _ ↦ ?_
        unfold scheduleClaim at hc
        split at hc
        · assumption
        · cases hc
      · simp only [if_neg htaken]
        refine fun _ ↦ ⟨trivial, hins _ rfl rfl rfl ?_⟩
        have hu := untaken_of_free h.blank (Bool.eq_false_iff.2 htaken)
        rwa [← hc] at hu

/-- The key of a claim that reads the clock at `n`. -/
structure KeyAt (env : Environment) (task : ScheduledTask) (req : ClaimRequest) (n : ℕ) (key : Option ℕ) :
    Prop where
  manual : req.triggerType = .manual → key = none
  schedule : req.triggerType = .schedule → key = (dueTime env task n).map stored

theorem wp_claimTime {n : ℕ} {Q : Option ℕ → Private → Shared → Prop} (hreq : req.scheduledAt = none)
    (hE : E .crash l w) (hQ : ∀ key, KeyAt env task req n key → Q key l w) :
    wp (taskProtocol T₀ alone keyed) G (claimTime env task req n) Q E l w := by
  unfold claimTime
  cases ht : req.triggerType with
  | manual =>
    refine hQ _ ⟨fun _ ↦ ?_, fun hs ↦ ?_⟩
    · rw [hreq]
      rfl
    · rw [ht] at hs
      cases hs
  | schedule =>
    simp only [hreq, decide_true, Option.isNone_none, Bool.and_self, if_true]
    cases hd : dueTime env task n with
    | none => exact hE
    | some tick =>
      refine hQ _ ⟨fun hm ↦ ?_, fun _ ↦ ?_⟩
      · rw [ht] at hm
        cases hm
      · rw [hd]
        rfl

/-- What a claim notes is true of it. -/
theorem claimNote_of_mem {executionId clock checked time : ℕ} {key : Option ℕ} {n : Note}
    (hkey : KeyAt env task req clock key)
    (hnone : skip = false → task.allowConcurrent = false →
      NoneSince w req.taskId (checked - staleSeconds task * second))
    (hn : n ∈ claimNotes req clock checked skip L) : ClaimNote env w req.taskId L
      (newLog task req executionId key skip time) task n := by
  rcases List.mem_append.1 hn with hn | hn
  · by_cases ht : req.triggerType = .schedule
    · rw [if_pos ht, List.mem_singleton] at hn
      subst hn
      exact .claimed _ _ ht (hkey.schedule ht)
    · rw [if_neg ht] at hn
      cases hn
  · cases skip with
    | true => cases hn
    | false =>
      have hn' : n = .executionStarted L req.taskId checked := List.mem_singleton.1 hn
      subst hn'
      exact .started _ rfl (hnone rfl)

/-- A claim that is refused notes what it asked for. -/
theorem wp_markRefused {clock : ℕ} {key : Option ℕ} {Q : Unit → Private → Shared → Prop} (h : Holding l w T task)
    (hkey : key = (dueTime env task clock).map stored)
    (hQ : ∀ l' w', Refused env l' w' T task → Q () l' w') {f : Option ℕ} :
    wp (taskProtocol T₀ alone keyed) G (mark (.claimRefused T f clock key)) Q E l w := by
  unfold mark
  refine wp_query fun w' hr _ ↦ ⟨rfl, hQ _ _ ⟨?_, ?_, fun n hn ↦ ?_⟩⟩
  · simp only [Local.run, h.blank.redo, List.append_nil]
  · obtain ⟨⟨m, hm⟩, ht⟩ := (h.rely hr).holds
    exact ⟨⟨m, held_run _ _ _ hm⟩, ht⟩
  · simp only [Local.run, h.blank.notes, List.nil_append, List.mem_singleton] at hn
    exact ⟨f, clock, by rw [hn, hkey]⟩

section Calls

variable (hlib : keyed → env.cron.Answers)
  (hA : alone → ∀ w notes, G.commit w notes → AloneGuard T₀ w notes)
  (hK : keyed → ∀ w notes, G.commit w notes → KeyGuard env T₀ w notes)

include hlib hA hK

theorem moves_claim {row : ScheduledTaskLog} (hi : TaskInv w) (h : Claiming env l w T L row task)
    (hr : Rely (taskProtocol T₀ alone keyed) l w w') (hg : G.commit w' l.notes) :
    Moves (taskProtocol T₀ alone keyed) l.held w' (w'.commit l) := by
  have h' := claiming_rely hr hi h
  exact moves_claiming h' hlib hr.inv (fun hp ↦ hA hp _ _ hg) fun hp ↦ hK hp _ _ hg

theorem wp_claimSession {executionId : ℕ} {victim : Option ClaimStatement}
    {Q : Option Claim → Private → Shared → Prop} (hb : Blank l) (hreq : req.scheduledAt = none)
    (hE : ∀ e l' w', e ≠ .duplicate _CLAIM_UNIQUE_INDEX → Blank l' → E e l' w')
    (hE' : ∀ task l' w', Refused env l' w' req.taskId task → E (.duplicate _CLAIM_UNIQUE_INDEX) l' w')
    (hQ : ∀ c l' w', Blank l' → Q c l' w') :
    wp (taskProtocol T₀ alone keyed) G (claimSession env req executionId victim) Q E l w := by
  have hdead : ∀ l' w', Blank l' → E .deadlock l' w' := fun l' w' ↦ hE .deadlock l' w' (by decide)
  unfold claimSession
  refine wp_bind (wp_unlessVictim (hdead _ _ hb) (wp_acquireClaimLock hb fun l₁ w₁ hb₁ hl₁ ↦ ?_))
  refine wp_bind (wp_unlessVictim (hdead _ _ hb₁)
    (wp_getForUpdate hb₁ hl₁ (fun l₂ w₂ hb₂ hi₂ ↦ ?_) fun task l₂ w₂ h₂ ↦ ?_))
  · refine wp_bind (wp_save fun w₃ hr₃ _ ↦ ⟨?_, hQ _ _ _ (.commit l₂)⟩)
    exact moves_steady (steady_blank hb₂) hr₃.inv
  · refine wp_bind (wp_look fun w₃ hr₃ ↦ ?_)
    have h₃ := h₂.rely hr₃
    refine wp_bind (wp_claimTime hreq (hE .crash _ _ (by decide) h₃.blank) fun key hkey ↦ ?_)
    refine wp_bind (wp_look fun w₄ hr₄ ↦ ?_)
    have h₄ := h₃.rely hr₄
    refine wp_bind (wp_concurrencySkip h₄ (hdead _ _ h₄.blank) fun skip w₅ h₅ hnone ↦ ?_)
    refine wp_bind (wp_look fun w₆ hr₆ ↦ ?_)
    have h₆ := h₅.rely hr₆
    have hnotes : ∀ L, ∀ n ∈ claimNotes req (w₃.view l₂).now (w₄.view l₂).now skip L,
        ClaimNote env w₆ req.taskId L (newLog task req executionId key skip (w₆.view l₂).now) task n :=
      fun L n hn ↦ claimNote_of_mem hkey
        (fun hs ha ↦ noneSince_rely hr₆ h₅.inv (hnone hs ha) h₅.lock) hn
    refine wp_bind (wp_tryCatch (wp_unlessVictim ?_ (wp_createLog h₆ hkey.manual hnotes
      (fun e w₇ hr₇ hdup ↦ ?_) fun L l₇ w₇ hi hc ↦ ?_)))
    · exact hdead _ _ h₆.blank
    · have h₇ := h₆.rely hr₇
      by_cases he : e = .duplicate _CLAIM_UNIQUE_INDEX
      · subst he
        refine wp_bind (wp_markRefused h₇ (hkey.schedule (hdup rfl)) fun l₈ w₈ hr ↦ ?_)
        exact hE' task l₈ w₈ hr
      · simp only [if_neg he]
        exact hE e _ _ he h₇.blank
    · exact wp_bind (wp_save fun w₈ hr₈ hg ↦
        ⟨moves_claim hlib hA hK hi hc hr₈ hg, hQ _ _ _ (.commit l₇)⟩)

theorem wp_claimOnce {executionId : ℕ} {victim : Option ClaimStatement}
    {Q : Option Claim → Private → Shared → Prop} (hb : Blank l) (hreq : req.scheduledAt = none)
    (hE : ∀ e l' w', Blank l' → E e l' w') (hQ : ∀ c l' w', Blank l' → Q c l' w') :
    wp (taskProtocol T₀ alone keyed) G (_claimOnce env req executionId victim) Q E l w := by
  unfold _claimOnce
  refine wp_tryCatch (wp_claimSession hlib hA hK hb hreq (fun e l' w' he hb' ↦ ?_) (fun task l' w' h ↦ ?_) hQ)
  · rw [if_neg he]
    exact hE e l' w' hb'
  · rw [if_pos rfl]
    refine wp_bind (wp_save fun w'' hr hg ↦ ⟨?_, hQ none _ _ (.commit l')⟩)
    exact moves_refused (refused_rely hr h) hlib hr.inv fun hk ↦ hK hk _ _ hg

/-- The induction is on the attempts that are left: each starts from a blank session. -/
theorem wp_claimAttempts {executionId left : ℕ} {deadlocks : List ClaimStatement}
    {Q : Option Claim → Private → Shared → Prop} (hb : Blank l) (hreq : req.scheduledAt = none)
    (hE : ∀ e l' w', E e l' w') (hQ : ∀ c l' w', Blank l' → Q c l' w') :
    wp (taskProtocol T₀ alone keyed) G (claimAttempts env req executionId left deadlocks) Q E l w := by
  induction left generalizing deadlocks l w with
  | zero => exact hQ none l w hb
  | succ left ih =>
    unfold claimAttempts
    refine wp_tryCatch (wp_claimOnce hlib hA hK hb hreq (fun e l' w' hb' ↦ ?_) hQ)
    by_cases he : e ≠ .deadlock ∨ left = 0
    · rw [if_pos he]
      exact hE e l' w'
    · rw [if_neg he]
      refine wp_bind (wp_save fun w'' hr _ ↦ ⟨moves_steady (steady_blank hb') hr.inv, ?_⟩)
      exact ih (.commit l')

theorem wp_claim {executionId : ℕ} {deadlocks : List ClaimStatement} {Q : Option Claim → Private → Shared → Prop}
    (hb : Blank l) (hreq : req.scheduledAt = none) (hE : ∀ e l' w', E e l' w')
    (hQ : ∀ c l' w', Blank l' → Q c l' w') :
    wp (taskProtocol T₀ alone keyed) G (_claim env req executionId deadlocks) Q E l w :=
  wp_claimAttempts hlib hA hK hb hreq hE hQ

end Calls

end AdminPlatform.ScheduledTask.ClaimPrograms
