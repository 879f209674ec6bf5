import AdminPlatform.Model.Scope
import AdminPlatform.Foundation.Sql

namespace AdminPlatform.Authz.DataScope

open Model.Schema Model.Scope Foundation.Sql

variable {R : Type}

/-- `ownerCol` is `none` for resources without an owner. -/
def applyDataScope (stmt : Select R) (scope : DataScope) (deptCol : R → Option ℕ)
    (ownerCol : Option (R → Option ℕ)) : Select R :=
  if scope.scopeType = .all then stmt
  else
    let conditions : List (Cond R) :=
      if scope.visibleDeptIds = ∅ then [] else [.isIn deptCol scope.visibleDeptIds]
    let wantsSelf := scope.includeSelf || decide (scope.scopeType = .self)
    let conditions := match ownerCol with
      | some col => if wantsSelf then conditions ++ [.eq col scope.userId] else conditions
      | none => conditions
    match conditions with
    | [] => stmt.where [.false]
    | [c] => stmt.where [c]
    | c :: d :: _ => stmt.where [.or c d]

theorem isDeptVisible_eq_true {scope : DataScope} {deptId : Option ℕ} :
    isDeptVisible scope deptId = true ↔
      scope.scopeType = .all ∨ ∃ d ∈ scope.visibleDeptIds, deptId = some d := by
  cases deptId with
  | none => simp [isDeptVisible]
  | some d => simp [isDeptVisible]

/-- What the added condition keeps, whatever the columns hold. -/
theorem accepts_applyDataScope {stmt : Select R} {scope : DataScope} {deptCol : R → Option ℕ}
    {ownerCol : Option (R → Option ℕ)} {r : R} :
    (applyDataScope stmt scope deptCol ownerCol).accepts r = true ↔ stmt.accepts r = true ∧
      (isDeptVisible scope (deptCol r) = true ∨
        (scope.includeSelf = true ∨ scope.scopeType = .self) ∧
          ∃ col, ownerCol = some col ∧ col r = some scope.userId) := by
  rw [isDeptVisible_eq_true]
  by_cases hall : scope.scopeType = .all
  · simp [applyDataScope, hall]
  · have hself : (scope.includeSelf || decide (scope.scopeType = .self)) = true ↔
        scope.includeSelf = true ∨ scope.scopeType = .self := by simp
    simp only [applyDataScope, hall, false_or, ← hself]
    by_cases hv : scope.visibleDeptIds = ∅
    · cases ownerCol with
      | none => simp [hv]
      | some col =>
        by_cases hw : (scope.includeSelf || decide (scope.scopeType = .self)) = true
        · simp [hv, hw]
        · simp [hv, hw]
    · cases ownerCol with
      | none => simp [hv]
      | some col =>
        by_cases hw : (scope.includeSelf || decide (scope.scopeType = .self)) = true
        · simp [hv, hw]
        · simp [hv, hw]

end AdminPlatform.Authz.DataScope
