import AdminPlatform.Foundation.Calendar
import Mathlib.Data.List.Basic

namespace AdminPlatform.Foundation.Crontab

open Calendar

/-- The values from `first` to `last`, `step` apart. -/
structure Item where
  first : ℕ
  last : ℕ
  step : ℕ
  deriving DecidableEq, Repr

def Item.Selects (item : Item) (v : ℕ) : Prop := item.first ≤ v ∧ v ≤ item.last ∧ (v - item.first) % item.step = 0

instance (item : Item) (v : ℕ) : Decidable (item.Selects v) := inferInstanceAs (Decidable (_ ∧ _ ∧ _))

def Selects (items : List Item) (v : ℕ) : Prop := ∃ item ∈ items, item.Selects v

instance (items : List Item) (v : ℕ) : Decidable (Selects items v) :=
  inferInstanceAs (Decidable (∃ item ∈ items, _))

def isDigit (c : Char) : Bool := decide ('0' ≤ c ∧ c ≤ '9')

def number (s : List Char) : Option ℕ :=
  if s ≠ [] ∧ s.all isDigit = true then some (s.foldl (fun n c ↦ 10 * n + (c.toNat - '0'.toNat)) 0) else none

def ends (s : List Char) : Option (ℕ × ℕ) :=
  match s.splitOn '-' with
  | [a] => (number a).map fun n ↦ (n, n)
  | [a, b] => do
    let first ← number a
    let last ← number b
    pure (first, last)
  | _ => none

section

variable (low high : ℕ)

def range (s : List Char) : Option (ℕ × ℕ) :=
  if s = ['*'] then some (low, high)
  else (ends s).filter fun r ↦ decide (low ≤ r.1 ∧ r.1 ≤ r.2 ∧ r.2 ≤ high)

def item (s : List Char) : Option Item :=
  match s.splitOn '/' with
  | [r] => (range low high r).map fun r ↦ ⟨r.1, r.2, 1⟩
  | [r, n] => do
    let bounds ← range low high r
    let step ← number n
    if 0 < step ∧ (r = ['*'] ∨ '-' ∈ r) then some ⟨bounds.1, bounds.2, step⟩ else none
  | _ => none

def field (s : List Char) : Option (List Item) := (s.splitOn ',').mapM (item low high)

end

def _MONTHS : List String := ["jan", "feb", "mar", "apr", "may", "jun", "jul", "aug", "sep", "oct", "nov", "dec"]

def month (s : List Char) : Option (List Item) :=
  match _MONTHS.findIdx? fun name ↦ decide (name.toList = s.map Char.toLower) with
  | some i => some [⟨i + 1, i + 1, 1⟩]
  | none => field 1 12 s

structure Line where
  minute : List Item
  hour : List Item
  day : List Item
  month : List Item
  dayOfWeek : List Item
  dayRestricted : Bool
  dayOfWeekRestricted : Bool
  deriving DecidableEq, Repr

def restricted (s : List Char) : Bool := decide ('*' ∉ s)

def line : List (List Char) → Option Line
  | [minute, hour, day, month, dayOfWeek] => do
    pure {
      minute := ← field 0 59 minute
      hour := ← field 0 23 hour
      day := ← field 1 31 day
      month := ← Crontab.month month
      dayOfWeek := ← field 0 7 dayOfWeek
      dayRestricted := restricted day
      dayOfWeekRestricted := restricted dayOfWeek }
  | _ => none

def SelectsWeekday (items : List Item) (w : ℕ) : Prop := ∃ v ≤ 7, Selects items v ∧ (v + 6) % 7 = w

instance (items : List Item) (w : ℕ) : Decidable (SelectsWeekday items w) :=
  inferInstanceAs (Decidable (∃ v ≤ 7, _))

def Line.Fires (l : Line) (m : Minute) : Prop :=
  Selects l.minute m.minute ∧ Selects l.hour m.hour ∧ Selects l.month m.month ∧
    if l.dayRestricted ∧ l.dayOfWeekRestricted then Selects l.day m.day ∨ SelectsWeekday l.dayOfWeek m.weekday
    else Selects l.day m.day ∧ SelectsWeekday l.dayOfWeek m.weekday

instance (l : Line) (m : Minute) : Decidable (l.Fires m) := inferInstanceAs (Decidable (_ ∧ _ ∧ _ ∧ ite _ _ _))

variable {α β : Type} {f : α → Option β} {as : List α} {bs : List β} {low high first last v : ℕ} {s : List Char}
  {it : Item} {items : List Item}

theorem mapM_eq_some : as.mapM f = some bs ↔ as.map f = bs.map some := by
  induction as generalizing bs with
  | nil => cases bs <;> simp
  | cons a as ih =>
    cases hf : f a with
    | none => cases bs <;> simp [hf]
    | some b =>
      cases bs with
      | nil => cases hm : as.mapM f <;> simp [hf, hm]
      | cons b' bs =>
        cases hm : as.mapM f with
        | none =>
          have hne : as.map f ≠ bs.map some := fun h ↦ by simp [ih.2 h] at hm
          simp [hf, hm, hne]
        | some cs =>
          have hiff : cs = bs ↔ as.map f = bs.map some := by
            rw [← ih, hm, Option.some.injEq]
          simp [hf, hm, hiff]

theorem mem_of_mapM {b : β} (h : as.mapM f = some bs) (hb : b ∈ bs) : ∃ a ∈ as, f a = some b := by
  have hmem := List.mem_map_of_mem (f := some) hb
  rw [← mapM_eq_some.1 h] at hmem
  exact List.mem_map.1 hmem

theorem exists_of_mapM {a : α} (h : as.mapM f = some bs) (ha : a ∈ as) : ∃ b ∈ bs, f a = some b := by
  have hmem := List.mem_map_of_mem (f := f) ha
  rw [mapM_eq_some.1 h] at hmem
  obtain ⟨b, hb, hfb⟩ := List.mem_map.1 hmem
  exact ⟨b, hb, hfb.symm⟩

theorem range_bounds {r : ℕ × ℕ} (h : range low high s = some r) (hl : low ≤ high) :
    low ≤ r.1 ∧ r.1 ≤ r.2 ∧ r.2 ≤ high := by
  unfold range at h
  split at h
  · cases h
    exact ⟨Nat.le_refl _, hl, Nat.le_refl _⟩
  · exact of_decide_eq_true (Option.filter_eq_some_iff.1 h).2

theorem item_bounds (h : item low high s = some it) (hl : low ≤ high) :
    low ≤ it.first ∧ it.first ≤ it.last ∧ it.last ≤ high := by
  unfold item at h
  split at h
  · obtain ⟨r, hr, rfl⟩ := Option.map_eq_some_iff.1 h
    exact range_bounds hr hl
  · obtain ⟨r, hr, h⟩ := Option.bind_eq_some_iff.1 h
    obtain ⟨n, _, h⟩ := Option.bind_eq_some_iff.1 h
    split at h
    · cases h
      exact range_bounds hr hl
    · cases h
  · cases h

theorem Item.selects_first (h : it.first ≤ it.last) : it.Selects it.first :=
  ⟨Nat.le_refl _, h, by rw [Nat.sub_self, Nat.zero_mod]⟩

theorem field_bounds (h : field low high s = some items) (hl : low ≤ high) (hv : Selects items v) :
    low ≤ v ∧ v ≤ high := by
  obtain ⟨it, hit, hfirst, hlast, _⟩ := hv
  obtain ⟨token, _, hitem⟩ := mem_of_mapM h hit
  have := item_bounds hitem hl
  omega

theorem exists_selects (h : field low high s = some items) (hl : low ≤ high) :
    ∃ v, low ≤ v ∧ v ≤ high ∧ Selects items v := by
  obtain ⟨token, ht⟩ := List.exists_mem_of_ne_nil _ (List.splitOn_ne_nil ',' s)
  obtain ⟨it, hit, hitem⟩ := exists_of_mapM h ht
  have hb := item_bounds hitem hl
  exact ⟨it.first, hb.1, by omega, it, hit, Item.selects_first hb.2.1⟩

theorem month_bounds (h : month s = some items) (hv : Selects items v) : 1 ≤ v ∧ v ≤ 12 := by
  unfold month at h
  split at h
  · rename_i i hi
    cases h
    have hlt : i < _MONTHS.length := (List.findIdx?_eq_some_iff_getElem.1 hi).1
    have hlen : _MONTHS.length = 12 := rfl
    obtain ⟨it, hit, hfirst, hlast, _⟩ := hv
    rw [List.mem_singleton.1 hit] at hfirst hlast
    dsimp only at hfirst hlast
    omega
  · exact field_bounds h (by omega) hv

theorem month_selects (h : month s = some items) : ∃ v, 1 ≤ v ∧ v ≤ 12 ∧ Selects items v := by
  unfold month at h
  split at h
  · rename_i i hi
    cases h
    have hlt : i < _MONTHS.length := (List.findIdx?_eq_some_iff_getElem.1 hi).1
    exact ⟨i + 1, by omega, hlt, _, List.mem_singleton_self _, Item.selects_first (Nat.le_refl _)⟩
  · exact exists_selects h (by omega)

/-- A character stands in a text if it stands in one of its parts. -/
theorem mem_splitOn {c sep : Char} (hc : c ≠ sep) : c ∈ s ↔ ∃ t ∈ s.splitOn sep, c ∈ t := by
  induction s with
  | nil => simp
  | cons x s ih =>
    rw [List.splitOn_cons_eq_if_modifyHead]
    cases hs : s.splitOn sep with
    | nil => exact absurd hs (List.splitOn_ne_nil _ _)
    | cons t ts =>
      rw [hs] at ih
      by_cases hx : x = sep
      · subst hx
        rw [if_pos (beq_self_eq_true x), List.mem_cons, ih]
        simp [hc]
      · rw [if_neg (by simpa using hx), List.mem_cons, ih, List.modifyHead_cons]
        simp [or_assoc]

theorem star_of_number (h : number s = some v) : '*' ∉ s := by
  unfold number at h
  split at h
  · rename_i hs
    intro hmem
    have := List.all_eq_true.1 hs.2 _ hmem
    simp [isDigit] at this
  · cases h

theorem star_of_ends {r : ℕ × ℕ} (h : ends s = some r) : '*' ∉ s := by
  rw [mem_splitOn (show '*' ≠ '-' by decide)]
  unfold ends at h
  split at h
  · rename_i a ha
    obtain ⟨n, hn, _⟩ := Option.map_eq_some_iff.1 h
    simp [ha, star_of_number hn]
  · rename_i a b hab
    obtain ⟨n, hn, h⟩ := Option.bind_eq_some_iff.1 h
    obtain ⟨n', hn', _⟩ := Option.bind_eq_some_iff.1 h
    simp [hab, star_of_number hn, star_of_number hn']
  · cases h

theorem range_star {r : ℕ × ℕ} (h : range low high s = some r) (hs : '*' ∈ s) : r = (low, high) := by
  unfold range at h
  split at h
  · exact (Option.some.inj h).symm
  · exact absurd hs (star_of_ends (Option.filter_eq_some_iff.1 h).1)

theorem item_star (h : item low high s = some it) (hs : '*' ∈ s) : it.first = low := by
  rw [mem_splitOn (show '*' ≠ '/' by decide)] at hs
  unfold item at h
  split at h
  · rename_i r hr
    obtain ⟨bounds, hb, rfl⟩ := Option.map_eq_some_iff.1 h
    have hstar : '*' ∈ r := by simpa [hr] using hs
    rw [range_star hb hstar]
  · rename_i r n hr
    obtain ⟨bounds, hb, h⟩ := Option.bind_eq_some_iff.1 h
    obtain ⟨step, hn, h⟩ := Option.bind_eq_some_iff.1 h
    have hstar : '*' ∈ r := by simpa [hr, star_of_number hn] using hs
    split at h
    · cases h
      rw [range_star hb hstar]
    · cases h
  · cases h

theorem field_star (h : field low high s = some items) (hl : low ≤ high) (hs : '*' ∈ s) : Selects items low := by
  obtain ⟨token, ht, hstar⟩ := (mem_splitOn (show '*' ≠ ',' by decide)).1 hs
  obtain ⟨it, hit, hitem⟩ := exists_of_mapM h ht
  have hfirst := item_star hitem hstar
  refine ⟨it, hit, ?_⟩
  rw [← hfirst]
  exact Item.selects_first (item_bounds hitem hl).2.1

end AdminPlatform.Foundation.Crontab
