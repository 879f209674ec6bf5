import AdminPlatform.Model.Service
import Mathlib.Data.Finset.Basic

namespace AdminPlatform.Model.Scope

open Schema Service

structure DataScope where
  scopeType : ScopeType
  userId : ℕ
  deptId : Option ℕ := none
  visibleDeptIds : Finset ℕ := ∅
  includeSelf : Bool := false
  deriving DecidableEq

def isDeptVisible (scope : DataScope) (deptId : Option ℕ) : Bool :=
  decide (scope.scopeType = .all) || deptId.any fun d ↦ decide (d ∈ scope.visibleDeptIds)

def forbiddenScope : AppError where
  code := "auth.FORBIDDEN_BY_SCOPE"
  title := "Forbidden by data scope"
  detail := some "目标部门不在你的数据权限范围内"
  statusCode := 403

/-- A field of a `PATCH` body: `none` when it was not sent. -/
abbrev PatchField (α : Type) := Option α

/-- The flush of one column: it is written only when it differs from the value the session
loaded, whatever the row holds by now. -/
def flushed {α : Type} [DecidableEq α] (loaded current : α) : PatchField α → α
  | none => current
  | some a => if a = loaded then current else a

def dirty {α : Type} [DecidableEq α] (loaded : α) : PatchField α → Bool
  | none => false
  | some a => decide (a ≠ loaded)

theorem eq_flushed_of_dirty {α : Type} [DecidableEq α] {a b : α} {f : PatchField α} (h : dirty a f = true) :
    f = some (flushed a b f) := by
  cases f with
  | none => cases h
  | some c =>
    have hne : c ≠ a := of_decide_eq_true h
    simp [flushed, hne]

theorem flushed_eq_of_clean {α : Type} [DecidableEq α] {a b : α} {f : PatchField α} (h : dirty a f = false) :
    flushed a b f = b := by
  cases f with
  | none => rfl
  | some c =>
    have he : c = a := by simpa [dirty] using h
    simp [flushed, he]

end AdminPlatform.Model.Scope
