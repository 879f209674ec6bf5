import AdminPlatform.ScheduledTask.ClaimPrograms

namespace AdminPlatform.ScheduledTask.TaskSystem

open Model.Schema Model.Service Model.Scope Foundation.Relational Foundation.Transaction
open Foundation.Interleaving Foundation.RelyGuarantee Cron Executor Executor.ScheduledTaskRepository
open Service ClaimInvariant ClaimTransaction ClaimCommit ClaimPrograms

variable {α : Type} {env : Environment} {T₀ : ℕ} {alone keyed : Prop}
  {G : Guard Table Row LockName Storage Note} {w w' : Shared} {l l' : Private} {g : Statement}
  {T L : ℕ} {E : Failure → Private → Shared → Prop}

/-- The transaction ends the execution `L` and has not written its log. -/
structure Finishing (l : Private) (w : Shared) (L : ℕ) : Prop where
  steady : Steady l w
  logs : ∀ k, pending l.redo .scheduledTaskLogs k = none
  note : Note.executionFinished L ∈ l.notes

theorem Finishing.rely (h : Finishing l w L) (hr : Rely (taskProtocol T₀ alone keyed) l w w') :
    Finishing l w' L := ⟨steady_rely hr h.steady, h.logs, h.note⟩

theorem wp_markFinished {Q : Unit → Private → Shared → Prop} (hb : Blank l)
    (hQ : ∀ l' w', l'.redo = [] → Finishing l' w' L → Q () l' w') :
    wp (taskProtocol T₀ alone keyed) G (mark (.executionFinished L)) Q E l w := by
  unfold mark
  refine wp_query fun w' hr _ ↦ ⟨rfl, ?_⟩
  have hredo : (l.run ({ notes := [.executionFinished L] } : Statement) w'.next).redo = [] := by
    simp only [Local.run, hb.redo, List.append_nil]
  refine hQ _ _ hredo ⟨?_, fun k ↦ by rw [hredo]; rfl, ?_⟩
  · refine steady_run (steady_blank hb) ?_ ?_ ?_ ?_
    · intro k v hp
      cases hp
    · intro k v hp
      cases hp
    · intro T hp
      rfl
    · intro n hn
      rw [List.mem_singleton.1 hn]
      trivial
  · exact List.mem_append_right _ List.mem_cons_self

theorem wp_markTaskLastRun {loaded : ScheduledTask} {status : LogStatus} {time : ℕ}
    {Q : Unit → Private → Shared → Prop} (hredo : l.redo = []) (h : Finishing l w L)
    (hE : ∀ e l' w', E e l' w') (hQ : ∀ l' w', Finishing l' w' L → Q () l' w') :
    wp (taskProtocol T₀ alone keyed) G (markTaskLastRun T loaded status time) Q E l w := by
  refine wp_query fun w' hr ↦ ?_
  have h' := h.rely hr
  have hview : (w'.view l).db.rows .scheduledTasks T = w'.db.rows .scheduledTasks T := by
    rw [view_db, apply_rows, hredo]
    rfl
  rw [hview]
  cases ht : w'.db.rows .scheduledTasks T with
  | none => exact hE _ _ _
  | some t =>
    refine fun _ ↦ ⟨rfl, hQ _ _ ⟨?_, fun k ↦ ?_, List.mem_append_left _ h'.note⟩⟩
    · refine steady_run h'.steady ?_ ?_ ?_ ?_
      · intro k v hp
        rw [pending_singleton, Write.at_other (by decide)] at hp
        cases hp
      · intro k v hp
        rw [pending_singleton] at hp
        cases Write.at_eq_some hp
        exact .inl ⟨t, ht⟩
      · intro T' hp
        rw [hredo] at hp
        cases hp
      · intro n hn
        cases hn
    · show pending (l.redo ++ _) .scheduledTaskLogs k = none
      rw [pending_append, h'.logs k, pending_singleton, Write.at_other (by decide)]
      rfl

theorem wp_updateLog {loaded : ScheduledTaskLog} {outcome : Outcome} {time : ℕ}
    {Q : Unit → Private → Shared → Prop} (h : Finishing l w L) (hE : ∀ e l' w', E e l' w')
    (hQ : ∀ l' w', Steady l' w' → Q () l' w') :
    wp (taskProtocol T₀ alone keyed) G (updateLog L loaded outcome time) Q E l w := by
  refine wp_query fun w' hr ↦ ?_
  have h' := h.rely hr
  have hview : (w'.view l).db.rows .scheduledTaskLogs L = w'.db.rows .scheduledTaskLogs L := by
    rw [view_db, apply_rows, h'.logs L]
    rfl
  rw [hview]
  cases hrow : w'.db.rows .scheduledTaskLogs L with
  | none => exact hE _ _ _
  | some r =>
    refine fun _ ↦ ⟨rfl, hQ _ _ (steady_run h'.steady ?_ ?_ ?_ ?_)⟩
    · intro k v hp
      rw [pending_singleton] at hp
      cases Write.at_eq_some hp
      exact ⟨r, _, hrow, rfl, ⟨rfl, rfl, rfl⟩, .inr (List.mem_append_left _ h'.note), .inl rfl⟩
    · intro k v hp
      rw [pending_singleton, Write.at_other (by decide)] at hp
      cases hp
    · intro T' hp
      rw [pending_singleton, Write.at_other (by decide)]
    · intro n hn
      cases hn

theorem wp_saveSteady {Q : Unit → Private → Shared → Prop} (h : Steady l w)
    (hQ : ∀ l' w', Blank l' → Q () l' w') :
    wp (taskProtocol T₀ alone keyed) G .save Q E l w :=
  wp_save fun _ hr _ ↦ ⟨moves_steady (steady_rely hr h) hr.inv, hQ _ _ (.commit l)⟩

theorem wp_finishLog {log? : Option ScheduledTaskLog} {outcome : Outcome} {time : ℕ}
    {Q : Unit → Private → Shared → Prop} (h : Finishing l w L) (hE : ∀ e l' w', E e l' w')
    (hQ : ∀ l' w', Blank l' → Q () l' w') :
    wp (taskProtocol T₀ alone keyed) G (do
      match log? with
      | none => pure ()
      | some log => updateLog L log outcome time
      .save) Q E l w := by
  cases log? with
  | none => exact wp_saveSteady h.steady hQ
  | some log => exact wp_bind (wp_updateLog h hE fun l' w' hs ↦ wp_saveSteady hs hQ)

theorem wp_finish {outcome : Outcome} {Q : Unit → Private → Shared → Prop} (hb : Blank l)
    (hE : ∀ e l' w', E e l' w') (hQ : ∀ l' w', Blank l' → Q () l' w') :
    wp (taskProtocol T₀ alone keyed) G (_finish L T outcome) Q E l w := by
  unfold _finish
  refine wp_bind (wp_look fun w₁ hr₁ ↦ ?_)
  refine wp_bind (wp_markFinished hb fun l₂ w₂ hredo h₂ ↦ ?_)
  refine wp_bind (wp_look fun w₃ hr₃ ↦ ?_)
  refine wp_bind (wp_look fun w₄ hr₄ ↦ ?_)
  have h₄ := (h₂.rely hr₃).rely hr₄
  cases (w₄.view l₂).db.rows .scheduledTasks T with
  | none => exact wp_finishLog h₄ hE hQ
  | some task => exact wp_bind (wp_markTaskLastRun hredo h₄ hE fun l' w' h ↦ wp_finishLog h hE hQ)

theorem wp_uuid4 {Q : ℕ → Private → Shared → Prop} (hb : Blank l)
    (hQ : ∀ u l' w', Blank l' → Q u l' w') :
    wp (taskProtocol T₀ alone keyed) G uuid4 Q E l w := by
  unfold uuid4
  exact wp_query fun w' hr _ ↦ ⟨rfl, hQ _ _ _ (hb.run rfl rfl _)⟩

section Calls

variable (hlib : keyed → env.cron.Answers)
  (hA : alone → ∀ w notes, G.commit w notes → AloneGuard T₀ w notes)
  (hK : keyed → ∀ w notes, G.commit w notes → KeyGuard env T₀ w notes)

include hlib hA hK

theorem wp_run {req : ClaimRequest} {deadlocks : List ClaimStatement} {result : HandlerResult}
    {Q : Option ExecutionOutcome → Private → Shared → Prop} (hb : Blank l)
    (hreq : req.scheduledAt = none) (hE : ∀ e l' w', E e l' w')
    (hQ : ∀ o l' w', Blank l' → Q o l' w') :
    wp (taskProtocol T₀ alone keyed) G (run env req deadlocks result) Q E l w := by
  unfold run
  refine wp_bind (wp_uuid4 hb fun u l₁ w₁ hb₁ ↦ ?_)
  refine wp_bind (wp_claim hlib hA hK hb₁ hreq hE fun c l₂ w₂ hb₂ ↦ ?_)
  cases c with
  | none => exact hQ none l₂ w₂ hb₂
  | some claim =>
    by_cases hs : claim.skipped = true
    · simp only [if_pos hs]
      exact hQ _ l₂ w₂ hb₂
    · simp only [if_neg hs]
      exact wp_bind (wp_finish hb₂ hE fun l₃ w₃ hb₃ ↦ hQ _ l₃ w₃ hb₃)

omit hlib hA hK in
theorem safe_getSession {q : Call α}
    (h : wp (taskProtocol T₀ alone keyed) G q (fun _ l w ↦ Steady l w) (fun _ _ _ ↦ True) l w) :
    safe (taskProtocol T₀ alone keyed) G (getSession q) l w := by
  refine wp_bind (wp_mono (fun a l' w' hs ↦ ?_) (fun _ _ _ _ ↦ trivial) h)
  exact wp_bind (wp_saveSteady hs fun _ _ _ ↦ trivial)

omit hlib hA hK in
theorem wp_toRead {id : ℕ} {task : ScheduledTask} {Q : ScheduledTaskRead → Private → Shared → Prop}
    (h : Steady l w) (hQ : ∀ x w', Steady l w' → Q x l w') :
    wp (taskProtocol T₀ alone keyed) G (_toRead env id task) Q E l w := by
  unfold _toRead
  by_cases hs : task.status = .enabled
  · rw [if_pos hs]
    refine wp_bind (wp_look fun w' hr ↦ ?_)
    cases nextRunAfter env.cron task.cronExpression task.cronTimezone (w'.view l).now with
    | ok next => exact hQ _ w' (steady_rely hr h)
    | error e => exact hQ _ w' (steady_rely hr h)
  · rw [if_neg hs]
    exact hQ _ w h

omit hlib hA hK in
theorem wp_create {task : ScheduledTask} {Q : ℕ → Private → Shared → Prop} (hb : Blank l)
    (hE : ∀ e l' w', E e l' w') (hQ : ∀ id l' w', Steady l' w' → Q id l' w') :
    wp (taskProtocol T₀ alone keyed) G (Service.ScheduledTaskRepository.create task) Q E l w := by
  refine wp_query fun w' hr ↦ ?_
  by_cases hn : Service.ScheduledTaskRepository.nameTaken (w'.view l).db none task.name = true
  · simp only [if_pos hn]
    exact hE _ _ _
  · simp only [if_neg hn]
    refine fun _ ↦ ⟨trivial, hQ _ _ _ (steady_run (steady_blank hb) ?_ ?_ ?_ ?_)⟩
    · intro k v hp
      rw [pending_singleton, Write.at_other (by decide)] at hp
      cases hp
    · intro k v hp
      rw [pending_singleton] at hp
      cases Write.at_eq_some hp
      exact .inr (sole_drawn hr.inv.1 rfl)
    · intro T hp
      rw [hb.redo] at hp
      cases hp
    · intro n hn
      cases hn

omit hlib hA hK in
theorem wp_update {loaded : ScheduledTask} {c : Service.ScheduledTaskRepository.Changes}
    {Q : ScheduledTask → Private → Shared → Prop}
    (hb : Blank l) (hE : ∀ e l' w', E e l' w') (hQ : ∀ t l' w', Steady l' w' → Q t l' w') :
    wp (taskProtocol T₀ alone keyed) G (Service.ScheduledTaskRepository.update T loaded c) Q E l w := by
  refine wp_query fun w' hr ↦ ?_
  rw [hb.view]
  cases ht : w'.db.rows .scheduledTasks T with
  | none => exact hE _ _ _
  | some t =>
    dsimp only
    by_cases hd : (!c.isDirty loaded) = true
    · simp only [if_pos hd]
      refine fun _ ↦ ⟨trivial, hQ _ _ _ ?_⟩
      rw [local_run_empty]
      exact steady_blank hb
    · simp only [if_neg hd]
      by_cases hn : (dirty loaded.name c.name &&
          Service.ScheduledTaskRepository.nameTaken (w'.view l).db (some T) (c.flush loaded t).name) = true
      · simp only [if_pos hn]
        exact hE _ _ _
      · simp only [if_neg hn]
        refine fun _ ↦ ⟨trivial, hQ _ _ _ (steady_run (steady_blank hb) ?_ ?_ ?_ ?_)⟩
        · intro k v hp
          rw [pending_singleton, Write.at_other (by decide)] at hp
          cases hp
        · intro k v hp
          rw [pending_singleton] at hp
          cases Write.at_eq_some hp
          exact .inl ⟨t, ht⟩
        · intro T hp
          rw [hb.redo] at hp
          cases hp
        · intro n hn
          rw [List.mem_singleton.1 hn]
          trivial

omit hlib hA hK in
theorem wp_delete {Q : Unit → Private → Shared → Prop} (hb : Blank l)
    (hE : ∀ e l' w', E e l' w') (hQ : ∀ l' w', Steady l' w' → Q () l' w') :
    wp (taskProtocol T₀ alone keyed) G (Service.ScheduledTaskRepository.delete T) Q E l w := by
  refine wp_query fun w' hr ↦ ?_
  rw [hb.view]
  cases ht : w'.db.rows .scheduledTasks T with
  | none => exact hE _ _ _
  | some t =>
    refine fun _ ↦ ⟨rfl, hQ _ _ (steady_run (steady_blank hb) ?_ ?_ ?_ ?_)⟩
    · intro k v hp
      rw [pending_append, pending_singleton, Write.at_other (by decide), Option.none_or] at hp
      obtain ⟨r, hr', hT, rfl⟩ := pending_update hp
      rw [hb.view] at hr'
      refine ⟨r, _, hr', rfl, ⟨rfl, rfl, rfl⟩, .inl rfl, .inr ⟨T, of_decide_eq_true hT, rfl, ?_⟩⟩
      show pending (l.redo ++ _) .scheduledTasks T = some none
      rw [pending_append, pending_append, pending_singleton, Write.at_self]
      rfl
    · intro k v hp
      rw [pending_append, pending_singleton, update_other (by decide), Option.or_none] at hp
      cases Write.at_eq_some hp
      exact .inl ⟨t, ht⟩
    · intro T hp
      rw [hb.redo] at hp
      cases hp
    · intro n hn
      rw [List.mem_singleton.1 hn]
      show pending (_ ++ [(⟨.scheduledTasks, T, none⟩ : Write Row)]) .scheduledTasks T = some none
      rw [pending_append, pending_singleton, Write.at_self]
      rfl

omit hlib hA hK in
theorem wp_requireHandler {handlerKey : String} {Q : HandlerSpec → Private → Shared → Prop}
    (hE : ∀ e l' w', E e l' w') (hQ : ∀ spec, Q spec l w) :
    wp (taskProtocol T₀ alone keyed) G (_requireHandler env handlerKey) Q E l w := by
  unfold _requireHandler
  cases env.registry handlerKey with
  | none => exact hE _ _ _
  | some spec => exact hQ spec

omit hlib hA hK in
theorem wp_validateParams {spec : HandlerSpec} {handlerKey params : String}
    {Q : String → Private → Shared → Prop} (hE : ∀ e l' w', E e l' w') (hQ : ∀ p, Q p l w) :
    wp (taskProtocol T₀ alone keyed) G (_validateParams spec handlerKey params) Q E l w := by
  unfold _validateParams
  cases validateParams spec handlerKey params with
  | error detail => exact hE _ _ _
  | ok params => exact hQ params

omit hlib hA hK in
theorem wp_validateCron {expr timezone : String} {Q : Unit → Private → Shared → Prop}
    (hE : ∀ e l' w', E e l' w') (hQ : Q () l w) :
    wp (taskProtocol T₀ alone keyed) G (_validateCron env expr timezone) Q E l w := by
  unfold _validateCron
  cases validateCron env.cron expr timezone with
  | error detail => exact hE _ _ _
  | ok u => exact hQ

omit hlib hA hK in
theorem wp_handlerChanges {task : ScheduledTask} {payload : ScheduledTaskUpdate}
    {Q : PatchField String × PatchField String → Private → Shared → Prop} (hE : ∀ e l' w', E e l' w')
    (hQ : ∀ c, Q c l w) :
    wp (taskProtocol T₀ alone keyed) G (handlerChanges env task payload) Q E l w := by
  unfold handlerChanges
  by_cases hs : (payload.handlerKey.isSome || payload.params.isSome) = true
  · rw [if_pos hs]
    exact wp_bind (wp_requireHandler hE fun spec ↦ wp_bind (wp_validateParams hE fun p ↦ hQ _))
  · rw [if_neg hs]
    exact hQ _

omit hlib hA hK in
theorem wp_cronChanges {task : ScheduledTask} {payload : ScheduledTaskUpdate}
    {Q : PatchField String × PatchField String → Private → Shared → Prop} (hE : ∀ e l' w', E e l' w')
    (hQ : ∀ c, Q c l w) :
    wp (taskProtocol T₀ alone keyed) G (cronChanges env task payload) Q E l w := by
  unfold cronChanges
  by_cases hs : (payload.cronExpression.isSome || payload.cronTimezone.isSome) = true
  · rw [if_pos hs]
    exact wp_bind (wp_validateCron hE (hQ _))
  · rw [if_neg hs]
    exact hQ _

omit hlib hA hK in
theorem wp_nameChange {task : ScheduledTask} {payload : ScheduledTaskUpdate}
    {Q : PatchField String → Private → Shared → Prop} (hE : ∀ e l' w', E e l' w')
    (hQ : ∀ c w', Q c l w') :
    wp (taskProtocol T₀ alone keyed) G (nameChange task payload) Q E l w := by
  unfold nameChange
  cases payload.name with
  | none => exact hQ none w
  | some name =>
    dsimp only
    by_cases hn : name = task.name
    · rw [if_pos hn]
      exact hQ none w
    · rw [if_neg hn]
      refine wp_bind (wp_look fun w' hr ↦ ?_)
      split
      · exact hE _ _ _
      · exact hQ _ w'

omit hlib hA hK in
theorem safe_create (payload : ScheduledTaskCreate) :
    safe (taskProtocol T₀ alone keyed) G (getSession (Service.create env payload)) {} w := by
  refine safe_getSession (wp_bind (wp_requireHandler (fun _ _ _ ↦ trivial) fun spec ↦ ?_))
  refine wp_bind (wp_validateParams (fun _ _ _ ↦ trivial) fun params ↦ ?_)
  refine wp_bind (wp_validateCron (fun _ _ _ ↦ trivial) ?_)
  refine wp_bind (wp_look fun w' hr ↦ ?_)
  split
  · trivial
  · exact wp_bind (wp_create .init (fun _ _ _ ↦ trivial) fun id l₁ w₁ h₁ ↦
      wp_toRead h₁ fun _ _ h ↦ h)

omit hlib hA hK in
theorem safe_update (payload : ScheduledTaskUpdate) :
    safe (taskProtocol T₀ alone keyed) G (getSession (Service.update env T payload)) {} w := by
  refine safe_getSession (wp_bind (wp_look fun w₁ hr₁ ↦ ?_))
  cases (w₁.view {}).db.rows .scheduledTasks T with
  | none => trivial
  | some task =>
    refine wp_bind (wp_handlerChanges (fun _ _ _ ↦ trivial) fun c ↦ ?_)
    refine wp_bind (wp_cronChanges (fun _ _ _ ↦ trivial) fun c' ↦ ?_)
    refine wp_bind (wp_nameChange (fun _ _ _ ↦ trivial) fun name w₂ ↦ ?_)
    exact wp_bind (wp_update .init (fun _ _ _ ↦ trivial) fun t l₃ w₃ h₃ ↦
      wp_toRead h₃ fun _ _ h ↦ h)

omit hlib hA hK in
theorem safe_delete :
    safe (taskProtocol T₀ alone keyed) G (getSession (Service.delete T)) {} w := by
  refine safe_getSession (wp_bind (wp_look fun w₁ hr₁ ↦ ?_))
  cases (w₁.view {}).db.rows .scheduledTasks T with
  | none => trivial
  | some task => exact wp_delete .init (fun _ _ _ ↦ trivial) fun _ _ h ↦ h

theorem safe_manualRun (actorUserId : ℕ) (workerId : String) (deadlocks : List ClaimStatement)
    (result : HandlerResult) : safe (taskProtocol T₀ alone keyed) G
      (getSession (Service.manualRun env T actorUserId workerId deadlocks result)) {} w := by
  refine safe_getSession (wp_bind (wp_look fun w₁ hr₁ ↦ ?_))
  cases (w₁.view {}).db.rows .scheduledTasks T with
  | none => trivial
  | some task =>
    dsimp only
    cases env.registry task.handlerKey with
    | none => trivial
    | some spec =>
      dsimp only
      split
      · trivial
      · refine wp_bind (wp_run hlib hA hK .init rfl (fun _ _ _ ↦ trivial) fun o l₂ w₂ hb₂ ↦ ?_)
        cases o.bind ExecutionOutcome.logId with
        | none => trivial
        | some logId =>
          refine wp_bind (wp_look fun w₃ hr₃ ↦ ?_)
          cases (w₃.view l₂).db.rows .scheduledTaskLogs logId with
          | none => trivial
          | some log => exact steady_blank hb₂

theorem safe_fire (tick : ℕ) (workerId : String) (deadlocks : List ClaimStatement) (result : HandlerResult) :
    safe (taskProtocol T₀ alone keyed) G (_fire env T tick workerId deadlocks result) {} w :=
  wp_bind (wp_run hlib hA hK .init rfl (fun _ _ _ ↦ trivial) fun _ _ _ _ ↦ trivial)

theorem safe_call (op : TaskOp) (w : Shared) :
    safe (taskProtocol T₀ alone keyed) G (op.call env) {} w := by
  have hunit : ∀ {α : Type} (p : Call α), safe (taskProtocol T₀ alone keyed) G p {} w →
      safe (taskProtocol T₀ alone keyed) G (do let _ ← p; pure ()) {} w := fun p h ↦
    wp_bind (wp_mono (fun _ _ _ _ ↦ trivial) (fun _ _ _ h ↦ h) h)
  cases op with
  | create payload => exact hunit _ (safe_create payload)
  | update taskId payload => exact hunit _ (safe_update payload)
  | delete taskId => exact safe_delete
  | manualRun taskId actor worker deadlocks result =>
    exact hunit _ (safe_manualRun hlib hA hK actor worker deadlocks result)
  | fire taskId tick worker deadlocks result => exact safe_fire hlib hA hK tick worker deadlocks result

end Calls

/-- No task was ever executed: logs and notes of tasks are still missing. -/
structure Start (w : Shared) : Prop where
  below : ∀ i (t : ScheduledTask), w.db.rows .scheduledTasks i = some t → i < w.next
  logs : ∀ i, w.db.rows .scheduledTaskLogs i = none
  started : ∀ L T c, Note.executionStarted L T c ∉ w.log
  claimed : ∀ L T f c, Note.taskClaimed L T f c ∉ w.log
  refused : ∀ T f c key, Note.claimRefused T f c key ∉ w.log
  deleted : ∀ T, Note.taskDeleted T ∉ w.log

theorem Start.inv (h : Start w) : (taskProtocol T₀ alone keyed).inv w := by
  have hrun : ∀ L T, ¬ Running w T L := fun L T hrun ↦ by
    obtain ⟨⟨c, hc⟩, -⟩ := hrun
    exact h.started L T c hc
  refine ⟨⟨fun u hu ↦ ?_, fun L T hL ↦ absurd hL (hrun L T), fun L T f c hm ↦ absurd hm (h.claimed L T f c),
    fun L _ r _ _ _ hr ↦ ?_, fun L r hr ↦ ?_, fun T hm ↦ absurd hm (h.deleted T)⟩,
    fun _ L L' hL ↦ absurd hL (hrun L T₀), fun _ ↦ ⟨?_, ?_, ?_⟩⟩
  · cases hu with
    | task t ht => exact h.below u t ht
    | log r hr =>
      rw [h.logs u] at hr
      cases hr
    | started L T c hm _ => exact absurd hm (h.started L T c)
    | claimed L T c f hm _ => exact absurd hm (h.claimed L T f c)
    | deleted hm => exact absurd hm (h.deleted u)
  · rw [h.logs L] at hr
    cases hr
  · rw [h.logs L] at hr
    cases hr
  · exact fun L t c hm ↦ absurd hm (h.claimed L T₀ _ c)
  · exact fun L _ t c _ hm ↦ absurd hm (h.claimed L T₀ _ c)
  · exact fun t c key hm ↦ absurd hm (h.refused T₀ _ c key)

theorem taskInv_of_reach {S : State Table Row LockName Storage Note Failure Unit}
    (hlib : keyed → env.cron.Answers) (hA : alone → ∀ w notes, G.commit w notes → AloneGuard T₀ w notes)
    (hK : keyed → ∀ w notes, G.commit w notes → KeyGuard env T₀ w notes) (hw : Start w)
    (h : Reach (TaskOp.call env) .crash G w S) : (taskProtocol T₀ alone keyed).inv S.world :=
  (sound_of_reach (fun op w _ ↦ safe_call hlib hA hK op w) hw.inv h).inv

section Example

def everyMinuteEnv : Environment where
  cron := everyMinuteLibrary
  registry _ := some ⟨none, true⟩
  keys := "['noop']"
  redact := id

/-- A task that must not run twice at a time and has no time limit of its own. -/
def noopTask : ScheduledTask where
  name := "noop"
  handlerKey := "noop"
  paramsJson := "\x7b\x7d"
  cronExpression := "* * * * *"
  cronTimezone := "UTC"
  status := .enabled
  allowConcurrent := false
  misfireGraceSeconds := 300
  timeoutSeconds := none
  lastRunAt := none
  lastStatus := none
  remark := none

def noopOnly : Shared where
  now := 6000 * second
  next := 1
  ext := ⟨[], []⟩
  db := Store.empty.apply [⟨.scheduledTasks, 0, some noopTask⟩]
  log := []

theorem start_noopOnly : Start noopOnly := by
  refine ⟨fun i t ht ↦ ?_, fun i ↦ ?_, fun _ _ _ hm ↦ (by cases hm), fun _ _ _ _ hm ↦ (by cases hm),
    fun _ _ _ _ hm ↦ (by cases hm), fun _ hm ↦ (by cases hm)⟩
  · by_cases hi : i = 0
    · rw [hi]
      exact Nat.one_pos
    · have hn : noopOnly.db.rows .scheduledTasks i = none := by
        simp only [noopOnly, apply_rows, pending_singleton, Write.at_id_ne (Ne.symm hi)]
        rfl
      rw [hn] at ht
      cases ht
  · have ht : Table.scheduledTasks ≠ .scheduledTaskLogs := by decide
    simp only [noopOnly, apply_rows, pending_singleton, Write.at_other ht]
    rfl

end Example

end AdminPlatform.ScheduledTask.TaskSystem
