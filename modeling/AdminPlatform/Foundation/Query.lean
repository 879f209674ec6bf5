import Mathlib.Data.List.Dedup
import Mathlib.Data.List.Sort

namespace AdminPlatform.Foundation.Query

variable {α κ : Type}

/-- The page `n` of a list, counted from one. -/
def page (n size : ℕ) (xs : List α) : List α := (xs.drop ((n - 1) * size)).take size

/-- The first `k` pages hold the first `k * size` elements. -/
theorem flatMap_page (k size : ℕ) (xs : List α) :
    ((List.range k).flatMap fun n ↦ page (n + 1) size xs) = xs.take (k * size) := by
  induction k with
  | zero => simp
  | succ k ih =>
    rw [List.range_succ, List.flatMap_append, ih]
    have hlast : ([k].flatMap fun n ↦ page (n + 1) size xs) = (xs.drop (k * size)).take size := by
      simp [page]
    rw [hlast, Nat.succ_mul, List.take_add]

theorem flatMap_pages {k size : ℕ} {xs : List α} (h : xs.length ≤ k * size) :
    ((List.range k).flatMap fun n ↦ page (n + 1) size xs) = xs := by
  rw [flatMap_page, List.take_of_length_le h]

variable [DecidableEq κ]

/-- `GROUP BY`: every key that occurs, with its rows. -/
def grouped (key : α → κ) (xs : List α) : List (κ × List α) :=
  (xs.map key).dedup.map fun k ↦ (k, xs.filter fun x ↦ decide (key x = k))

theorem mem_grouped {key : α → κ} {xs : List α} {k : κ} {ys : List α} : (k, ys) ∈ grouped key xs ↔
    (∃ x ∈ xs, key x = k) ∧ ys = xs.filter fun x ↦ decide (key x = k) := by
  simp only [grouped, List.mem_map, List.mem_dedup, Prod.mk.injEq]
  constructor
  · rintro ⟨k, hk, rfl, rfl⟩
    exact ⟨hk, rfl⟩
  · rintro ⟨hk, rfl⟩
    exact ⟨k, hk, rfl, rfl⟩

theorem grouped_keys (key : α → κ) (xs : List α) : (grouped key xs).map Prod.fst = (xs.map key).dedup := by
  rw [grouped, List.map_map]
  exact List.map_id _

/-- `MIN(f)` of the rows of a group. -/
def minimum (f : α → ℕ) (xs : List α) : ℕ := ((xs.map f).min?).getD 0

/-- `MAX(f)` of the rows of a group. -/
def maximum (f : α → ℕ) (xs : List α) : ℕ := ((xs.map f).max?).getD 0

theorem minimum_eq {f : α → ℕ} {xs : List α} {x : α} (hx : x ∈ xs) (h : ∀ y ∈ xs, f x ≤ f y) :
    minimum f xs = f x := by
  have hmin : (xs.map f).min? = some (f x) := by
    rw [List.min?_eq_some_iff]
    refine ⟨List.mem_map_of_mem hx, fun b hb ↦ ?_⟩
    obtain ⟨y, hy, rfl⟩ := List.mem_map.1 hb
    exact h y hy
  rw [minimum, hmin]
  rfl

theorem maximum_eq {f : α → ℕ} {xs : List α} {x : α} (hx : x ∈ xs) (h : ∀ y ∈ xs, f y ≤ f x) :
    maximum f xs = f x := by
  have hmax : (xs.map f).max? = some (f x) := by
    rw [List.max?_eq_some_iff]
    refine ⟨List.mem_map_of_mem hx, fun b hb ↦ ?_⟩
    obtain ⟨y, hy, rfl⟩ := List.mem_map.1 hb
    exact h y hy
  rw [maximum, hmax]
  rfl

end AdminPlatform.Foundation.Query
