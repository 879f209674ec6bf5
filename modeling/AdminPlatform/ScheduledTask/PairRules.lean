import AdminPlatform.Foundation.RowRules
import AdminPlatform.ScheduledTask.Service

namespace AdminPlatform.ScheduledTask.PairRules

open Model.Schema Model.Service Model.Scope Foundation.Relational Foundation.Transaction
open Foundation.Interleaving Foundation.RelyGuarantee Foundation.RowRules
open Cron Executor Service Service.ScheduledTaskRepository

def ParamsValid (env : Environment) (handlerKey params : String) : Prop :=
  ∃ spec, env.registry handlerKey = some spec ∧
    ∃ p, validateParams spec handlerKey params = .ok p

def CronValid (env : Environment) (expr timezone : String) : Prop :=
  ∃ c, buildCronTrigger env.cron expr timezone = .ok c

/-- The task's handler takes its parameters, and its schedule builds a trigger. -/
structure Runnable (env : Environment) (t : ScheduledTask) : Prop where
  params : ParamsValid env t.handlerKey t.paramsJson
  cron : CronValid env t.cronExpression t.cronTimezone

def AllRunnable (env : Environment) (db : Db) : Prop :=
  ∀ i (t : ScheduledTask), db.rows .scheduledTasks i = some t → Runnable env t

def SchemasNormal (env : Environment) : Prop :=
  ∀ key spec schema, env.registry key = some spec → spec.paramsSchema = some schema →
    ∀ p q, schema p = .ok q → ∃ r, schema q = .ok r

def stays (env : Environment) : (t : Table) → ℕ → Option (Row t) → Option (Row t) → Prop
  | .scheduledTasks, _, a, b => (∀ t : ScheduledTask, a = some t → Runnable env t) →
    ∀ t : ScheduledTask, b = some t → Runnable env t
  | _, _, _, _ => True

def rules (env : Environment) : Rules Table Row where
  step := stays env
  refl t i r := by
    cases t with
    | scheduledTasks => exact fun h ↦ h
    | _ => trivial
  trans t i r r' r'' h h' := by
    cases t with
    | scheduledTasks => exact fun hr ↦ h' (h hr)
    | _ => trivial

def runnable (env : Environment) : Kept (rules env) where
  holds := AllRunnable env
  keep _ _ h ho i t ht := ho .scheduledTasks i (fun t' ht' ↦ h i t' ht') t ht

/-- Of each pair of columns that were checked together, the one that is not written is still
stored as it was loaded. -/
structure PairsKept (t loaded : ScheduledTask) (written : List TaskColumn) : Prop where
  handler : .paramsJson ∈ written → .handlerKey ∉ written → t.handlerKey = loaded.handlerKey
  params : .handlerKey ∈ written → .paramsJson ∉ written → t.paramsJson = loaded.paramsJson
  expression : .cronTimezone ∈ written → .cronExpression ∉ written →
    t.cronExpression = loaded.cronExpression
  timezone : .cronExpression ∈ written → .cronTimezone ∉ written →
    t.cronTimezone = loaded.cronTimezone

def freshGuard : Guard Table Row LockName Storage Note where
  stmt w g := ∀ taskId loaded written, .taskPatched taskId loaded written ∈ g.notes →
    ∀ t : ScheduledTask, w.db.rows .scheduledTasks taskId = some t → PairsKept t loaded written
  commit _ _ := True

variable {env : Environment} {G : Guard Table Row LockName Storage Note} {w w' : Shared}
  {l : Private} {T : ℕ} {loaded t : ScheduledTask} {c : Changes}

/-- What an update sets was checked, in pairs. -/
structure Checked (env : Environment) (loaded : ScheduledTask) (c : Changes) : Prop where
  params : (c.handlerKey = none ∧ c.paramsJson = none) ∨
    ∃ h p, c.handlerKey = some h ∧ c.paramsJson = some p ∧ ParamsValid env h p
  cron : (c.cronExpression = none ∧ c.cronTimezone = none) ∨
    ∃ e z, c.cronExpression = some e ∧ c.cronTimezone = some z ∧ CronValid env e z

theorem mem_written_handlerKey : .handlerKey ∈ c.written loaded ↔
    dirty loaded.handlerKey c.handlerKey = true := by
  simp [Changes.written]

theorem mem_written_paramsJson : .paramsJson ∈ c.written loaded ↔
    dirty loaded.paramsJson c.paramsJson = true := by
  simp [Changes.written]

theorem mem_written_cronExpression : .cronExpression ∈ c.written loaded ↔
    dirty loaded.cronExpression c.cronExpression = true := by
  simp [Changes.written]

theorem mem_written_cronTimezone : .cronTimezone ∈ c.written loaded ↔
    dirty loaded.cronTimezone c.cronTimezone = true := by
  simp [Changes.written]

theorem dirty_some {β : Type} [DecidableEq β] {a b : β} : dirty a (some b) = true ↔ b ≠ a := by
  simp [dirty]

/-- Two columns that are written from one checked pair, of which the unwritten one is as it was
loaded, are stored as that pair, or are left alone. -/
theorem flushed_pair {β : Type} [DecidableEq β] {a a' b b' x y : β}
    (ha : b ≠ y → ¬ a ≠ x → a' = x) (hb : a ≠ x → ¬ b ≠ y → b' = y) :
    (flushed x a' (some a) = a ∧ flushed y b' (some b) = b) ∨
      (flushed x a' (some a) = a' ∧ flushed y b' (some b) = b') := by
  simp only [flushed]
  by_cases hax : a = x
  · by_cases hby : b = y
    · rw [if_pos hax, if_pos hby]
      exact .inr ⟨rfl, rfl⟩
    · rw [if_pos hax, if_neg hby]
      exact .inl ⟨(ha hby (fun h ↦ h hax)).trans hax.symm, rfl⟩
  · by_cases hby : b = y
    · rw [if_neg hax, if_pos hby]
      exact .inl ⟨rfl, (hb hax (fun h ↦ h hby)).trans hby.symm⟩
    · rw [if_neg hax, if_neg hby]
      exact .inl ⟨rfl, rfl⟩

theorem runnable_flush (h : Checked env loaded c) (hk : PairsKept t loaded (c.written loaded))
    (ht : Runnable env t) : Runnable env (c.flush loaded t) := by
  refine ⟨?_, ?_⟩
  · show ParamsValid env (flushed loaded.handlerKey t.handlerKey c.handlerKey)
      (flushed loaded.paramsJson t.paramsJson c.paramsJson)
    rcases h.params with ⟨hh, hp⟩ | ⟨key, params, hh, hp, hv⟩
    · rw [hh, hp]
      exact ht.params
    · have hhandler := hk.handler
      have hparams := hk.params
      rw [mem_written_handlerKey, mem_written_paramsJson, hh, hp, dirty_some, dirty_some] at hhandler hparams
      rw [hh, hp]
      rcases flushed_pair hhandler hparams with ⟨he, he'⟩ | ⟨he, he'⟩
      · rw [he, he']
        exact hv
      · rw [he, he']
        exact ht.params
  · show CronValid env (flushed loaded.cronExpression t.cronExpression c.cronExpression)
      (flushed loaded.cronTimezone t.cronTimezone c.cronTimezone)
    rcases h.cron with ⟨he, hz⟩ | ⟨expr, zone, he, hz, hv⟩
    · rw [he, hz]
      exact ht.cron
    · have hexpr := hk.expression
      have hzone := hk.timezone
      rw [mem_written_cronExpression, mem_written_cronTimezone, he, hz, dirty_some, dirty_some] at hexpr hzone
      rw [he, hz]
      rcases flushed_pair hexpr hzone with ⟨hx, hx'⟩ | ⟨hx, hx'⟩
      · rw [hx, hx']
        exact hv
      · rw [hx, hx']
        exact ht.cron

end AdminPlatform.ScheduledTask.PairRules
