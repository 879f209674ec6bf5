import Mathlib.Data.Finset.Basic
import Mathlib.Data.Nat.Notation

namespace AdminPlatform.Foundation.Sql

/-- The truth values of a condition: `none` is `UNKNOWN`. -/
abbrev Truth := Option Bool

def Truth.or : Truth → Truth → Truth
  | some true, _ => some true
  | _, some true => some true
  | some false, some false => some false
  | _, _ => none

/-- A comparison with a nullable column is `UNKNOWN` where the column is null. -/
inductive Cond (R : Type)
  | isIn (col : R → Option ℕ) (values : Finset ℕ)
  | eq (col : R → Option ℕ) (value : ℕ)
  | or (c d : Cond R)
  | false

variable {R : Type}

def Cond.eval : Cond R → R → Truth
  | .isIn col values, r => (col r).map fun x ↦ decide (x ∈ values)
  | .eq col value, r => (col r).map fun x ↦ decide (x = value)
  | .or c d, r => (c.eval r).or (d.eval r)
  | .false, _ => some Bool.false

/-- A `SELECT` by the conditions of its `WHERE`. -/
structure Select (R : Type) where
  conds : List (Cond R) := []

def Select.where (s : Select R) (c : List (Cond R)) : Select R := ⟨s.conds ++ c⟩

/-- `WHERE` keeps a row only if every condition is true, not if one is unknown. -/
def Select.accepts (s : Select R) (r : R) : Bool := s.conds.all fun c ↦ decide (c.eval r = some true)

def Cond.Holds (c : Cond R) (r : R) : Prop := c.eval r = some true

theorem or_eq_true {a b : Truth} : a.or b = some true ↔ a = some true ∨ b = some true := by
  cases a with
  | none =>
    cases b with
    | none => simp [Truth.or]
    | some b => cases b <;> simp [Truth.or]
  | some a =>
    cases b with
    | none => cases a <;> simp [Truth.or]
    | some b => cases a <;> cases b <;> simp [Truth.or]

@[simp] theorem holds_isIn {col : R → Option ℕ} {values : Finset ℕ} {r : R} :
    (Cond.isIn col values).Holds r ↔ ∃ x ∈ values, col r = some x := by
  simp only [Cond.Holds, Cond.eval, Option.map_eq_some_iff, decide_eq_true_eq]
  constructor
  · rintro ⟨x, hx, hm⟩
    exact ⟨x, hm, hx⟩
  · rintro ⟨x, hm, hx⟩
    exact ⟨x, hx, hm⟩

@[simp] theorem holds_eq {col : R → Option ℕ} {value : ℕ} {r : R} :
    (Cond.eq col value).Holds r ↔ col r = some value := by
  simp only [Cond.Holds, Cond.eval, Option.map_eq_some_iff, decide_eq_true_eq]
  constructor
  · rintro ⟨x, hx, rfl⟩
    exact hx
  · intro h
    exact ⟨value, h, rfl⟩

@[simp] theorem holds_or {c d : Cond R} {r : R} :
    (Cond.or c d).Holds r ↔ c.Holds r ∨ d.Holds r := or_eq_true

@[simp] theorem not_holds_false {r : R} : ¬ (Cond.false : Cond R).Holds r := by
  simp [Cond.Holds, Cond.eval]

@[simp] theorem accepts_where {s : Select R} {c : List (Cond R)} {r : R} :
    (s.where c).accepts r = true ↔ s.accepts r = true ∧ ∀ x ∈ c, x.Holds r := by
  simp [Select.accepts, Select.where, Cond.Holds]

end AdminPlatform.Foundation.Sql
