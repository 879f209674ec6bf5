import AdminPlatform.Foundation.Crontab
import AdminPlatform.ScheduledTask.Cron
import Mathlib.Data.Fintype.Basic

namespace AdminPlatform.ScheduledTask.DayNames

open Foundation.Crontab Cron

def WEEKDAYS : List String := ["mon", "tue", "wed", "thu", "fri", "sat", "sun"]

def weekdayIndex (name : List Char) : Option ℕ := WEEKDAYS.findIdx? fun n ↦ decide (n.toList = name)

/-- A range selects the days from its first name to its last. It is refused if that comes before. -/
def namedItem (token : List Char) : Option (ℕ × ℕ) :=
  match token.splitOn '-' with
  | [a] => (weekdayIndex a).map fun i ↦ (i, i)
  | [a, b] => do
    let first ← weekdayIndex a
    let last ← weekdayIndex b
    if first ≤ last then some (first, last) else none
  | _ => none

def namedDays (field : String) : Option (List (ℕ × ℕ)) :=
  if field = "*" then some [(0, 6)] else (field.toList.splitOn ',').mapM namedItem

def Names (days : List (ℕ × ℕ)) (w : ℕ) : Prop := ∃ d ∈ days, d.1 ≤ w ∧ w ≤ d.2

instance (days : List (ℕ × ℕ)) (w : ℕ) : Decidable (Names days w) := inferInstanceAs (Decidable (∃ d ∈ days, _))

def ReadsNames (lib : CronLibrary) : Prop :=
  ∀ fields c, lib.cronTrigger fields = .ok c → ∃ days, namedDays fields.dayOfWeek = some days

inductive Token
  | single (a : Fin 8)
  | range (a b : Fin 8)
  deriving DecidableEq, Repr

def digit (a : Fin 8) : Char := Char.ofNat ('0'.toNat + a)

namespace Token

def text : Token → List Char
  | single a => [digit a]
  | range a b => [digit a, '-', digit b]

def name : Token → String
  | single a => (_CRON_DOW_NAMES [digit a]).getD ""
  | range a b => (_CRON_DOW_NAMES [digit a]).getD "" ++ "-" ++ (_CRON_DOW_NAMES [digit b]).getD ""

def first : Token → ℕ
  | single a => a
  | range a _ => a

def last : Token → ℕ
  | single a => a
  | range _ b => b

def week : Token := .range 0 7

end Token

def index (v : ℕ) : ℕ := (v + 6) % 7

variable {lib : CronLibrary} {c : CronTrigger} {expr timezone converted name : String}
  {value token field : List Char}
  {tokens : List (List Char)} {names : List String} {t : Token} {ts : List Token} {days : List (ℕ × ℕ)}
  {items : List Item} {v w : ℕ}

theorem item_text : item 0 7 t.text = if t.first ≤ t.last then some ⟨t.first, t.last, 1⟩ else none := by
  cases t with
  | single a => decide +revert +kernel
  | range a b => decide +revert +kernel

theorem namedItem_name : namedItem t.name.toList =
    if index t.first ≤ index t.last then some (index t.first, index t.last) else none := by
  cases t with
  | single a => decide +revert +kernel
  | range a b => decide +revert +kernel

theorem comma_name : ',' ∉ t.name.toList := by
  cases t with
  | single a => decide +revert +kernel
  | range a b => decide +revert +kernel

theorem star_text : '*' ∉ t.text := by
  cases t with
  | single a => decide +revert +kernel
  | range a b => decide +revert +kernel

theorem digit_le {a b : Fin 8} : digit a ≤ digit b ↔ a ≤ b := by
  decide +revert

theorem digit_inj {a b : Fin 8} (h : digit a = digit b) : a = b := by
  decide +revert

theorem dropWhile_word (h : ∀ x ∈ value, isSpace x = false) : value.dropWhile isSpace = value := by
  cases value with
  | nil => rfl
  | cons x xs => rw [List.dropWhile_cons_of_neg (by rw [h x List.mem_cons_self]; exact Bool.false_ne_true)]

theorem strip_word (h : ∀ x ∈ value, isSpace x = false) : strip value = value := by
  rw [strip, dropWhile_word h, dropWhile_word fun x hx ↦ h x (List.mem_reverse.1 hx), List.reverse_reverse]

theorem word_of_split (h : value ∈ split field) : ∀ x ∈ value, isSpace x = false := by
  have hpart : value ∈ field.splitOnP isSpace := (List.mem_filter.1 h).1
  clear h
  induction field generalizing value with
  | nil =>
    rw [List.splitOnP_nil, List.mem_singleton] at hpart
    rw [hpart]
    exact fun x hx ↦ absurd hx List.not_mem_nil
  | cons y ys ih =>
    rw [List.splitOnP_cons_eq_if_modifyHead] at hpart
    split at hpart
    · rcases List.mem_cons.1 hpart with rfl | hpart
      · exact fun x hx ↦ absurd hx List.not_mem_nil
      · exact ih hpart
    · rename_i hy
      cases hs : ys.splitOnP isSpace with
      | nil => exact absurd hs (List.splitOnP_ne_nil _ _)
      | cons word words =>
        rw [hs] at hpart ih
        rcases List.mem_cons.1 hpart with rfl | hpart
        · intro x hx
          rcases List.mem_cons.1 hx with rfl | hx
          · exact Bool.eq_false_iff.2 hy
          · exact ih List.mem_cons_self x hx
        · exact ih (List.mem_cons_of_mem _ hpart)

theorem of_dowName (h : _dowName lib value = .ok name) (hw : ∀ x ∈ value, isSpace x = false) :
    ∃ a : Fin 8, value = [digit a] ∧ name = (_CRON_DOW_NAMES [digit a]).getD "" := by
  unfold _dowName at h
  rw [strip_word hw] at h
  have hdigit : ∀ n, _CRON_DOW_NAMES value = some n → ∃ a : Fin 8, value = [digit a] := by
    intro n hn
    unfold _CRON_DOW_NAMES at hn
    split at hn
    · exact ⟨0, rfl⟩
    · exact ⟨1, rfl⟩
    · exact ⟨2, rfl⟩
    · exact ⟨3, rfl⟩
    · exact ⟨4, rfl⟩
    · exact ⟨5, rfl⟩
    · exact ⟨6, rfl⟩
    · exact ⟨7, rfl⟩
    · cases hn
  split at h
  · rename_i n hn
    obtain ⟨a, rfl⟩ := hdigit n hn
    cases h
    exact ⟨a, rfl, by rw [hn]; rfl⟩
  · cases h

theorem ok_of_bind {ε α β : Type} {m : Except ε α} {f : α → Except ε β} {y : β} (h : m >>= f = .ok y) :
    ∃ x, m = .ok x ∧ f x = .ok y := by
  cases m with
  | error e => cases h
  | ok x => exact ⟨x, rfl, h⟩

theorem partition_dash (h : '-' ∈ token) :
    token = token.takeWhile (· ≠ '-') ++ '-' :: (token.dropWhile (· ≠ '-')).drop 1 := by
  induction token with
  | nil => cases h
  | cons x xs ih =>
    by_cases hx : x = '-'
    · subst hx
      simp
    · have hxs : '-' ∈ xs := (List.mem_cons.1 h).resolve_left fun h ↦ hx h.symm
      simpa [hx] using ih hxs

theorem of_dowToken (h : dowToken lib token = .ok name) (hw : ∀ x ∈ token, isSpace x = false) :
    ∃ t : Token, token = t.text ∧ name = t.name := by
  unfold dowToken at h
  split at h
  · rename_i hdash
    obtain ⟨lo, hlo, h⟩ := ok_of_bind h
    obtain ⟨hi, hhi, h⟩ := ok_of_bind h
    cases h
    obtain ⟨a, ha, rfl⟩ := of_dowName hlo fun x hx ↦ hw x ((List.takeWhile_sublist _).subset hx)
    obtain ⟨b, hb, rfl⟩ := of_dowName hhi fun x hx ↦
      hw x ((List.dropWhile_sublist _).subset (List.mem_of_mem_drop hx))
    refine ⟨.range a b, ?_, rfl⟩
    rw [partition_dash hdash, ha, hb]
    rfl
  · obtain ⟨a, ha, hname⟩ := of_dowName h hw
    exact ⟨.single a, ha, hname⟩

theorem of_mapM (h : tokens.mapM (dowToken lib) = .ok names)
    (hw : ∀ token ∈ tokens, ∀ x ∈ token, isSpace x = false) :
    ∃ ts : List Token, tokens = ts.map Token.text ∧ names = ts.map Token.name := by
  induction tokens generalizing names with
  | nil =>
    cases h
    exact ⟨[], rfl, rfl⟩
  | cons token tokens ih =>
    rw [List.forall_mem_cons] at hw
    rw [List.mapM_cons] at h
    obtain ⟨n, hn, h⟩ := ok_of_bind h
    obtain ⟨ns, hns, h⟩ := ok_of_bind h
    cases h
    obtain ⟨t, rfl, rfl⟩ := of_dowToken hn hw.1
    obtain ⟨ts, rfl, rfl⟩ := ih hns hw.2
    exact ⟨t :: ts, rfl, rfl⟩

/-- What a built trigger was built from. -/
theorem of_buildCronTrigger (h : buildCronTrigger lib expr timezone = .ok c) :
    ∃ minute hour day month dow dayOfWeek, split (strip expr.toList) = [minute, hour, day, month, dow] ∧
      _convertDowToNames lib dow = .ok dayOfWeek ∧ lib.cronTrigger ⟨String.ofList minute, String.ofList hour,
        String.ofList day, String.ofList month, dayOfWeek, timezone⟩ = .ok c := by
  unfold buildCronTrigger at h
  dsimp only at h
  split at h
  · rename_i minute hour day month dow hsplit
    split at h
    · cases h
    · obtain ⟨_, _, h⟩ := ok_of_bind h
      split at h
      · rename_i built hbuilt
        cases h
        obtain ⟨dayOfWeek, hconvert, hlib⟩ := ok_of_bind hbuilt
        exact ⟨minute, hour, day, month, dow, dayOfWeek, hsplit, hconvert, hlib⟩
      · cases h
  · cases h

/-- A field that is converted is a star or a list of numbers and ranges. -/
theorem of_convert (h : _convertDowToNames lib field = .ok converted) (hw : ∀ x ∈ field, isSpace x = false) :
    (field = ['*'] ∧ converted = "*") ∨ ∃ ts : List Token, field.splitOn ',' = ts.map Token.text ∧
      converted = ",".intercalate (ts.map Token.name) := by
  unfold _convertDowToNames at h
  split at h
  · cases h
  · split at h
    · rename_i hstar
      cases h
      exact .inl ⟨hstar, rfl⟩
    · obtain ⟨names, hnames, h⟩ := ok_of_bind h
      cases h
      obtain ⟨ts, hts, rfl⟩ := of_mapM hnames fun token ht x hx ↦ by
        by_cases hcomma : x = ','
        · subst hcomma
          rfl
        · exact hw x ((mem_splitOn hcomma).2 ⟨token, ht, hx⟩)
      exact .inr ⟨ts, hts, rfl⟩

end AdminPlatform.ScheduledTask.DayNames
