import Mathlib.Algebra.GroupWithZero.Nat

namespace AdminPlatform.Foundation.Calendar

def isLeap (year : ℕ) : Bool := year % 4 == 0 && (year % 100 != 0 || year % 400 == 0)

def longest : ℕ → ℕ
  | 2 => 29
  | 4 | 6 | 9 | 11 => 30
  | _ => 31

def daysInMonth (year month : ℕ) : ℕ := if month = 2 ∧ isLeap year = false then 28 else longest month

def daysBeforeMonth (year month : ℕ) : ℕ := ((List.range (month - 1)).map fun m ↦ daysInMonth year (m + 1)).sum

def daysBeforeYear (year : ℕ) : ℕ := (year - 1) * 365 + (year - 1) / 4 - (year - 1) / 100 + (year - 1) / 400

def ordinal (year month day : ℕ) : ℕ := daysBeforeYear year + daysBeforeMonth year month + day

def weekday (year month day : ℕ) : ℕ := (ordinal year month day + 6) % 7

/-- A minute of a calendar and a clock. -/
structure Minute where
  year : ℕ
  month : ℕ
  day : ℕ
  hour : ℕ
  minute : ℕ
  year_ge : 1970 ≤ year
  year_le : year ≤ 9999
  month_ge : 1 ≤ month
  month_le : month ≤ 12
  day_ge : 1 ≤ day
  day_le : day ≤ daysInMonth year month
  hour_le : hour ≤ 23
  minute_le : minute ≤ 59

def Minute.weekday (m : Minute) : ℕ := Calendar.weekday m.year m.month m.day

variable {year month day k w : ℕ}

theorem weekday_lt : weekday year month day < 7 := Nat.mod_lt _ (by omega)

theorem longest_ge : 29 ≤ longest month := by
  unfold longest
  split <;> omega

theorem longest_le : longest month ≤ 31 := by
  unfold longest
  split <;> omega

theorem daysInMonth_le : daysInMonth year month ≤ longest month := by
  unfold daysInMonth
  split
  · rename_i h
    rw [h.1]
    simp [longest]
  · exact Nat.le_refl _

theorem daysInMonth_leap (h : isLeap year = true) : daysInMonth year month = longest month :=
  if_neg fun hm ↦ by simp [h] at hm

theorem isLeap_four (hk : k < 7) : isLeap (2000 + 4 * k) = true := by
  have h₄ : (2000 + 4 * k) % 4 = 0 := by omega
  have h₁₀₀ : (2000 + 4 * k) % 100 = 4 * k := by omega
  have h₄₀₀ : (2000 + 4 * k) % 400 = 4 * k := by omega
  simp only [isLeap, h₄, h₁₀₀, h₄₀₀]
  cases k <;> simp

theorem daysBeforeMonth_leap (h : isLeap year = true) :
    daysBeforeMonth year month = ((List.range (month - 1)).map fun m ↦ longest (m + 1)).sum := by
  simp only [daysBeforeMonth, daysInMonth_leap h]

theorem daysBeforeYear_four (hk : k < 7) : daysBeforeYear (2000 + 4 * k) = 730119 + 1461 * k := by
  unfold daysBeforeYear
  omega

/-- Every day of the year falls on every weekday. -/
theorem exists_weekday (month day : ℕ) (hw : w < 7) :
    ∃ year, 1970 ≤ year ∧ year ≤ 9999 ∧ isLeap year = true ∧ weekday year month day = w := by
  let days := ((List.range (month - 1)).map fun m ↦ longest (m + 1)).sum + day
  let k := 3 * (w + 7 - (730119 + days + 6) % 7) % 7
  have hk : k < 7 := Nat.mod_lt _ (by omega)
  refine ⟨2000 + 4 * k, by omega, by omega, isLeap_four hk, ?_⟩
  unfold weekday ordinal
  rw [daysBeforeYear_four hk, daysBeforeMonth_leap (isLeap_four hk)]
  show (730119 + 1461 * k + _ + day + 6) % 7 = w
  omega

end AdminPlatform.Foundation.Calendar
