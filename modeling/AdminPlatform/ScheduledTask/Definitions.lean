import AdminPlatform.ScheduledTask.PairRules

namespace AdminPlatform.ScheduledTask.Definitions

open Model.Schema Model.Service Model.Scope Foundation.Relational Foundation.Transaction
open Foundation.Interleaving Foundation.RelyGuarantee Foundation.RowRules
open Cron Executor Service Service.ScheduledTaskRepository PairRules

inductive DefinitionOp
  | create (payload : ScheduledTaskCreate)
  | update (taskId : ℕ) (payload : ScheduledTaskUpdate)
  | delete (taskId : ℕ)

def DefinitionOp.call (env : Environment) : DefinitionOp → Call Unit
  | .create payload => getSession (Service.create env payload) >>= fun _ ↦ pure ()
  | .update taskId payload => getSession (Service.update env taskId payload) >>= fun _ ↦ pure ()
  | .delete taskId => getSession (Service.delete taskId)

variable {env : Environment} {G : Guard Table Row LockName Storage Note} {w w' : Shared}
  {l : Private} {T : ℕ} {loaded t : ScheduledTask} {c : Changes}

def Ready (env : Environment) (l : Private) (w : Shared) : Prop :=
  ((runnable env).holds w.db ∧ Drawn w) ∧ RowTx (rules env) l w

theorem wp_create {Q : ℕ → Private → Shared → Prop} (htx : RowTx (rules env) l w)
    (ht : Runnable env t) (hQ : ∀ a l' w', Ready env l' w' → Q a l' w') :
    wp (protocol (rules env) (runnable env)) G (ScheduledTaskRepository.create t) Q
      (fun _ _ _ ↦ True) l w := by
  refine wp_rows htx fun w' hr g a hq ↦ ?_
  split at hq
  · cases hq
  · cases hq
    refine ⟨rfl, of_pending_singleton fun _ t' ht' ↦ ?_, lt_of_pending_singleton (Nat.lt_succ_self _),
      fun htx' hi ↦
      hQ _ _ _ ⟨hi, htx'⟩⟩
    cases ht'
    exact ht

theorem wp_update {Q : ScheduledTask → Private → Shared → Prop}
    (hG : ∀ w g, G.stmt w g → freshGuard.stmt w g) (hb : Blank l) (htx : RowTx (rules env) l w)
    (hc : Checked env loaded c) (hQ : ∀ a l' w', Ready env l' w' → Q a l' w') :
    wp (protocol (rules env) (runnable env)) G (ScheduledTaskRepository.update T loaded c) Q
      (fun _ _ _ ↦ True) l w := by
  refine wp_rows_of_guard htx fun w' hr g a hq hg ↦ ?_
  split at hq
  · cases hq
  · next t ht =>
    have ht' : w'.db.rows .scheduledTasks T = some t := (hb.view w' .scheduledTasks T).symm.trans ht
    split at hq
    · cases hq
      exact ⟨rfl, fun s k v hp ↦ (by cases hp), fun s k r hp ↦ (by cases hp),
        fun htx' hi ↦ hQ _ _ _ ⟨hi, htx'⟩⟩
    · dsimp only at hq
      split at hq
      · cases hq
      · cases hq
        have hkept := hG w' _ hg T loaded _ (List.mem_singleton_self _) t ht'
        refine ⟨rfl, of_pending_singleton fun hrun t' hnew ↦ ?_, lt_of_pending_singleton ?_,
          fun htx' hi ↦ hQ _ _ _ ⟨hi, htx'⟩⟩
        · cases hnew
          exact runnable_flush hc hkept (hrun t ht)
        · exact Nat.lt_of_lt_of_le (hr.inv.2 .scheduledTasks T t ht') (Nat.le_add_right _ _)

theorem wp_delete (htx : RowTx (rules env) l w) (hb : Blank l) :
    wp (protocol (rules env) (runnable env)) G (ScheduledTaskRepository.delete T)
      (fun _ l w ↦ Ready env l w) (fun _ _ _ ↦ True) l w := by
  refine wp_rows htx fun w' hr g a hq ↦ ?_
  split at hq
  · cases hq
  · cases hq
    have hdeleted : ∀ (s : Table) (k : ℕ) (v : Option (Row s)),
        pending [(⟨.scheduledTasks, T, none⟩ : Write Row)] s k = some v →
          (rules env).step s k ((w'.view l).db.rows s k) v := by
      refine of_pending_singleton ?_
      intro _ t' ht'
      cases ht'
    refine ⟨rfl, fun s k v hp ↦ ?_, fun s k r hp ↦ ?_, fun htx' hi ↦ ⟨hi, htx'⟩⟩
    · rw [pending_append, Option.or_eq_some_iff] at hp
      rcases hp with hp | ⟨-, hp⟩
      · exact hdeleted s k v hp
      · cases s with
        | scheduledTasks =>
          rw [update_other (by decide)] at hp
          cases hp
        | _ => trivial
    · rw [pending_append, Option.or_eq_some_iff] at hp
      rcases hp with hp | ⟨-, hp⟩
      · rw [pending_singleton] at hp
        cases Write.at_eq_some hp
      · obtain ⟨j, r', hr', -, he⟩ := mem_update.1 (pending_mem hp)
        cases he
        rw [hb.view] at hr'
        exact Nat.lt_of_lt_of_le (hr.inv.2 _ _ _ hr') (Nat.le_add_right _ _)

theorem wp_toRead {Q : ScheduledTaskRead → Private → Shared → Prop} (h : Ready env l w)
    (hQ : ∀ x w', Ready env l w' → Q x l w') :
    wp (protocol (rules env) (runnable env)) G (_toRead env T t) Q (fun _ _ _ ↦ True) l w := by
  unfold _toRead
  split
  · refine wp_bind (wp_read fun w' hr ↦ ?_)
    have h' : Ready env l w' := ⟨hr.inv, h.2.rely hr⟩
    split
    · exact hQ _ w' h'
    · exact hQ _ w' h'
  · exact hQ _ w h

theorem wp_requireHandler {key : String} {Q : HandlerSpec → Private → Shared → Prop}
    (hQ : ∀ spec, env.registry key = some spec → Q spec l w) :
    wp (protocol (rules env) (runnable env)) G (_requireHandler env key) Q (fun _ _ _ ↦ True) l w := by
  unfold _requireHandler
  cases hs : env.registry key with
  | none => trivial
  | some spec => exact hQ spec hs

theorem validateParams_again (hn : SchemasNormal env) {spec : HandlerSpec} {key p q : String}
    (hs : env.registry key = some spec) (h : validateParams spec key p = .ok q) :
    ∃ r, validateParams spec key q = .ok r := by
  unfold validateParams at h ⊢
  split at h
  · split at h
    · next hp =>
      cases h
      exact ⟨_, if_pos hp⟩
    · cases h
  · next schema hschema =>
    exact hn key spec schema hs hschema p q h

theorem wp_validateParams (hn : SchemasNormal env) {spec : HandlerSpec} {key params : String}
    {Q : String → Private → Shared → Prop} (hs : env.registry key = some spec)
    (hQ : ∀ p, ParamsValid env key p → Q p l w) :
    wp (protocol (rules env) (runnable env)) G (_validateParams spec key params) Q
      (fun _ _ _ ↦ True) l w := by
  unfold _validateParams
  split
  · next p hp => exact hQ p ⟨spec, hs, validateParams_again hn hs hp⟩
  · trivial

theorem wp_validateCron {expr timezone : String} {Q : Unit → Private → Shared → Prop}
    (hQ : CronValid env expr timezone → Q () l w) :
    wp (protocol (rules env) (runnable env)) G (_validateCron env expr timezone) Q
      (fun _ _ _ ↦ True) l w := by
  unfold _validateCron
  cases hb : buildCronTrigger env.cron expr timezone with
  | ok c =>
    simp only [validateCron, hb]
    exact hQ ⟨c, hb⟩
  | error e =>
    simp only [validateCron, hb]
    trivial

theorem wp_handlerChanges (hn : SchemasNormal env) {payload : ScheduledTaskUpdate}
    {Q : PatchField String × PatchField String → Private → Shared → Prop} (hnone : Q (none, none) l w)
    (hsome : ∀ key p, ParamsValid env key p → Q (some key, some p) l w) :
    wp (protocol (rules env) (runnable env)) G (handlerChanges env loaded payload) Q
      (fun _ _ _ ↦ True) l w := by
  unfold handlerChanges
  split
  · refine wp_bind (wp_requireHandler fun spec hs ↦ ?_)
    exact wp_bind (wp_validateParams hn hs fun p hp ↦ hsome _ p hp)
  · exact hnone

theorem wp_cronChanges {payload : ScheduledTaskUpdate}
    {Q : PatchField String × PatchField String → Private → Shared → Prop} (hnone : Q (none, none) l w)
    (hsome : ∀ e z, CronValid env e z → Q (some e, some z) l w) :
    wp (protocol (rules env) (runnable env)) G (cronChanges env loaded payload) Q
      (fun _ _ _ ↦ True) l w := by
  unfold cronChanges
  split
  · exact wp_bind (wp_validateCron fun hc ↦ hsome _ _ hc)
  · exact hnone

theorem wp_nameChange {payload : ScheduledTaskUpdate} {Q : PatchField String → Private → Shared → Prop}
    (htx : RowTx (rules env) l w) (hQ : ∀ name w', RowTx (rules env) l w' → Q name l w') :
    wp (protocol (rules env) (runnable env)) G (nameChange loaded payload) Q
      (fun _ _ _ ↦ True) l w := by
  unfold nameChange
  split
  · exact hQ none w htx
  · split
    · exact hQ none w htx
    · refine wp_bind (wp_read fun w' hr ↦ ?_)
      split
      · trivial
      · exact hQ _ w' (htx.rely hr)

theorem safe_create (hn : SchemasNormal env) (payload : ScheduledTaskCreate) :
    safe (protocol (rules env) (runnable env)) G (getSession (Service.create env payload)) {} w := by
  refine safe_save ?_
  unfold Service.create
  refine wp_bind (wp_requireHandler fun spec hs ↦ ?_)
  refine wp_bind (wp_validateParams hn hs fun params hp ↦ ?_)
  refine wp_bind (wp_validateCron fun hc ↦ ?_)
  refine wp_bind (wp_read fun w' hr ↦ ?_)
  split
  · trivial
  · refine wp_bind (wp_create (RowTx.init.rely hr) ⟨hp, hc⟩ fun id l' w' h ↦ ?_)
    exact wp_toRead h fun _ _ h ↦ h

theorem safe_update (hn : SchemasNormal env) (hG : ∀ w g, G.stmt w g → freshGuard.stmt w g)
    (payload : ScheduledTaskUpdate) :
    safe (protocol (rules env) (runnable env)) G (getSession (Service.update env T payload)) {} w := by
  refine safe_save ?_
  unfold Service.update
  refine wp_bind (wp_read fun w₁ hr₁ ↦ ?_)
  cases (w₁.view {}).db.rows .scheduledTasks T with
  | none => trivial
  | some task =>
    have hrest : ∀ (hp : PatchField String × PatchField String) (ez : PatchField String × PatchField String),
        (hp = (none, none) ∨ ∃ key p, hp = (some key, some p) ∧ ParamsValid env key p) →
        (ez = (none, none) ∨ ∃ e z, ez = (some e, some z) ∧ CronValid env e z) →
        wp (protocol (rules env) (runnable env)) G (do
          let name ← nameChange task payload
          let row ← ScheduledTaskRepository.update T task {
            name := name
            handlerKey := hp.1
            paramsJson := hp.2
            cronExpression := ez.1
            cronTimezone := ez.2
            status := payload.status
            allowConcurrent := payload.allowConcurrent
            misfireGraceSeconds := payload.misfireGraceSeconds
            timeoutSeconds := payload.timeoutSeconds
            remark := payload.remark }
          _toRead env T row) (fun _ l w ↦ Ready env l w) (fun _ _ _ ↦ True) {} w₁ := by
      intro hp ez hp' hez'
      refine wp_bind (wp_nameChange (RowTx.init.rely hr₁) fun name w₂ htx ↦ ?_)
      refine wp_bind (wp_update hG .init htx ⟨?_, ?_⟩ fun row l₃ w₃ h ↦ wp_toRead h fun _ _ h ↦ h)
      · rcases hp' with rfl | ⟨key, p, rfl, hv⟩
        · exact .inl ⟨rfl, rfl⟩
        · exact .inr ⟨key, p, rfl, rfl, hv⟩
      · rcases hez' with rfl | ⟨e, z, rfl, hv⟩
        · exact .inl ⟨rfl, rfl⟩
        · exact .inr ⟨e, z, rfl, rfl, hv⟩
    have hcron : ∀ hp : PatchField String × PatchField String,
        (hp = (none, none) ∨ ∃ key p, hp = (some key, some p) ∧ ParamsValid env key p) →
        wp (protocol (rules env) (runnable env)) G (do
          let ez ← cronChanges env task payload
          let name ← nameChange task payload
          let row ← ScheduledTaskRepository.update T task {
            name := name
            handlerKey := hp.1
            paramsJson := hp.2
            cronExpression := ez.1
            cronTimezone := ez.2
            status := payload.status
            allowConcurrent := payload.allowConcurrent
            misfireGraceSeconds := payload.misfireGraceSeconds
            timeoutSeconds := payload.timeoutSeconds
            remark := payload.remark }
          _toRead env T row) (fun _ l w ↦ Ready env l w) (fun _ _ _ ↦ True) {} w₁ := by
      intro hp hp'
      refine wp_bind (wp_cronChanges ?_ fun e z hv ↦ ?_)
      · exact hrest hp (none, none) hp' (.inl rfl)
      · exact hrest hp (some e, some z) hp' (.inr ⟨e, z, rfl, hv⟩)
    refine wp_bind (wp_handlerChanges hn ?_ fun key p hv ↦ ?_)
    · exact hcron (none, none) (.inl rfl)
    · exact hcron (some key, some p) (.inr ⟨key, p, rfl, hv⟩)

theorem safe_delete :
    safe (protocol (rules env) (runnable env)) G (getSession (Service.delete T)) {} w := by
  refine safe_save ?_
  unfold Service.delete
  refine wp_bind (wp_read fun w₁ hr₁ ↦ ?_)
  cases (w₁.view {}).db.rows .scheduledTasks T with
  | none => trivial
  | some task => exact wp_delete (RowTx.init.rely hr₁) .init

theorem safe_call (hn : SchemasNormal env) (hG : ∀ w g, G.stmt w g → freshGuard.stmt w g)
    (op : DefinitionOp) (w : Shared) :
    safe (protocol (rules env) (runnable env)) G (op.call env) {} w := by
  cases op with
  | create payload =>
    exact wp_bind (wp_mono (fun _ _ _ _ ↦ trivial) (fun _ _ _ h ↦ h) (safe_create hn payload))
  | update taskId payload =>
    exact wp_bind (wp_mono (fun _ _ _ _ ↦ trivial) (fun _ _ _ h ↦ h) (safe_update hn hG payload))
  | delete taskId => exact safe_delete

/-- Stored tasks stay runnable while no update writes over a pair that has changed since it was
loaded. -/
theorem allRunnable_of_reach (env : Environment) (w : Shared)
    (S : State Table Row LockName Storage Note Failure Unit) (hn : SchemasNormal env)
    (hw : AllRunnable env w.db) (hd : Drawn w)
    (h : Reach (DefinitionOp.call env) .crash freshGuard w S) : AllRunnable env S.world.db :=
  (sound_of_reach (P := protocol (rules env) (runnable env))
    (fun op w _ ↦ safe_call hn (fun _ _ h ↦ h) op w) ⟨hw, hd⟩ h).inv.1

section Example

def echoParams (message : String) : String := "\x7b\"message\": \"" ++ message ++ "\"\x7d"

/-- The handlers `noop` and `echo`, and a schedule that goes off every minute. -/
def echoEnv : Environment where
  cron := everyMinuteLibrary
  registry key :=
    if key = "noop" then some ⟨none, true⟩
    else if key = "echo" then some ⟨some fun p ↦
      if p = echoParams "hello" ∨ p = echoParams "bye" then .ok p else .error "message: PatchField required", true⟩
    else none
  keys := "['echo', 'noop']"
  redact := id

def echoTask : ScheduledTask where
  name := "greet"
  handlerKey := "echo"
  paramsJson := echoParams "hello"
  cronExpression := "* * * * *"
  cronTimezone := "UTC"
  status := .disabled
  allowConcurrent := false
  misfireGraceSeconds := 300
  timeoutSeconds := none
  lastRunAt := none
  lastStatus := none
  remark := none

def echoOnly : Shared where
  now := 0
  next := 1
  ext := ⟨[], []⟩
  db := Store.empty.apply [⟨.scheduledTasks, 0, some echoTask⟩]
  log := []

theorem schemasNormal_echoEnv : SchemasNormal echoEnv := by
  intro key spec schema hs hschema p q h
  simp only [echoEnv] at hs
  split at hs
  · cases hs
    cases hschema
  · split at hs
    · cases hs
      cases hschema
      dsimp only at h ⊢
      split at h
      · next hp =>
        cases h
        exact ⟨_, if_pos hp⟩
      · cases h
    · cases hs

theorem drawn_echoOnly : Drawn echoOnly := by
  intro t i r hr
  have hm := echoOnly.db.complete t i r hr
  cases t with
  | scheduledTasks =>
    have hk : echoOnly.db.keys .scheduledTasks = [0] := by decide
    rw [hk, List.mem_singleton] at hm
    rw [hm]
    exact Nat.one_pos
  | _ => cases hm

theorem allRunnable_echoOnly : AllRunnable echoEnv echoOnly.db := by
  intro i t ht
  have hi : i = 0 := Nat.lt_one_iff.1 (drawn_echoOnly .scheduledTasks i t ht)
  subst hi
  have he : t = echoTask := (Option.some.inj ht).symm
  rw [he]
  exact ⟨⟨_, rfl, echoParams "hello", rfl⟩, everyMinute, rfl⟩

def toNoop : DefinitionOp := .update 0 { handlerKey := some "noop", params := some "\x7b\x7d" }

def sayBye : DefinitionOp := .update 0 { params := some (echoParams "bye") }

def crossedPatches : List (Label DefinitionOp) :=
  [.start toNoop, .start sayBye, .step 1] ++ List.replicate 3 (.step 0) ++ List.replicate 2 (.step 1)

theorem not_allRunnable_crossedPatches :
    AllRunnable echoEnv echoOnly.db ∧ ∃ S, Reach (DefinitionOp.call echoEnv) .crash .free echoOnly S ∧
      ¬ AllRunnable echoEnv S.world.db := by
  have hrun : ∃ S, Reach (DefinitionOp.call echoEnv) .crash .free echoOnly S ∧
      decide (S.world.db.rows .scheduledTasks 0 =
        some { echoTask with handlerKey := "noop", paramsJson := echoParams "bye" }) = true :=
    exists_reach_of_follow (fun _ _ ↦ true) crossedPatches (fun _ _ ↦ trivial) (fun _ _ _ ↦ trivial)
      (by decide +kernel)
  obtain ⟨S, hS, hp⟩ := hrun
  refine ⟨allRunnable_echoOnly, S, hS, fun hall ↦ ?_⟩
  obtain ⟨spec, hs, p, hv⟩ := (hall 0 _ (of_decide_eq_true hp)).params
  cases hs
  cases hv

instance (t loaded : ScheduledTask) (written : List TaskColumn) :
    Decidable (PairsKept t loaded written) :=
  decidable_of_iff
    ((.paramsJson ∈ written → .handlerKey ∉ written → t.handlerKey = loaded.handlerKey) ∧
      (.handlerKey ∈ written → .paramsJson ∉ written → t.paramsJson = loaded.paramsJson) ∧
      (.cronTimezone ∈ written → .cronExpression ∉ written → t.cronExpression = loaded.cronExpression) ∧
      (.cronExpression ∈ written → .cronTimezone ∉ written → t.cronTimezone = loaded.cronTimezone))
    ⟨fun ⟨h₁, h₂, h₃, h₄⟩ ↦ ⟨h₁, h₂, h₃, h₄⟩, fun h ↦ ⟨h.handler, h.params, h.expression, h.timezone⟩⟩

def keptCheck (w : Shared) : Note → Bool
  | .taskPatched taskId loaded written =>
    (w.db.rows .scheduledTasks taskId).all fun t ↦ decide (PairsKept t loaded written)
  | _ => true

def freshAt (S : State Table Row LockName Storage Note Failure Unit) : Label DefinitionOp → Bool
  | .step i => match S.sessions[i]? with
    | some ⟨.step effect _, l⟩ => (effect (S.world.view l)).notes.all (keptCheck S.world)
    | _ => true
  | _ => true

theorem admits_of_freshAt (S : State Table Row LockName Storage Note Failure Unit)
    (a : Label DefinitionOp) (h : freshAt S a = true) : freshGuard.admits S a := by
  cases a with
  | step i =>
    rintro ⟨p, l⟩ hi
    cases p with
    | step effect rest =>
      simp only [freshAt, hi] at h
      intro taskId loaded written hm t ht
      have hk : keptCheck S.world (.taskPatched taskId loaded written) = true := List.all_eq_true.1 h _ hm
      simp only [keptCheck, ht, Option.all_some, decide_eq_true_eq] at hk
      exact hk
    | commit rest => trivial
    | _ => trivial
  | _ => trivial

def patchesInTurn : List (Label DefinitionOp) :=
  .start sayBye :: List.replicate 3 (.step 0) ++ .start toNoop :: List.replicate 3 (.step 1)

theorem allRunnable_of_reach_patchesInTurn :
    ∃ S, Reach (DefinitionOp.call echoEnv) .crash freshGuard echoOnly S ∧
      S.world.db.rows .scheduledTasks 0 =
        some { echoTask with handlerKey := "noop", paramsJson := "\x7b\x7d" } ∧
      AllRunnable echoEnv S.world.db := by
  have hrun : ∃ S, Reach (DefinitionOp.call echoEnv) .crash freshGuard echoOnly S ∧
      decide (S.world.db.rows .scheduledTasks 0 =
        some { echoTask with handlerKey := "noop", paramsJson := "\x7b\x7d" }) = true :=
    exists_reach_of_walk freshAt patchesInTurn admits_of_freshAt (by decide +kernel)
  obtain ⟨S, hS, hp⟩ := hrun
  exact ⟨S, hS, of_decide_eq_true hp,
    allRunnable_of_reach echoEnv echoOnly S schemasNormal_echoEnv allRunnable_echoOnly drawn_echoOnly hS⟩

end Example

end AdminPlatform.ScheduledTask.Definitions
