import AdminPlatform.ScheduledTask.DayOfWeek

namespace AdminPlatform.ScheduledTask.CronMeaning

open Foundation.Crontab Foundation.Calendar Cron DayNames DayOfWeek

inductive Position
  | minute | hour | day | month
  deriving DecidableEq, Repr

def Position.items : Position → List Char → Option (List Item)
  | minute => field 0 59
  | hour => field 0 23
  | day => field 1 31
  | month => Foundation.Crontab.month

/-- A trigger is built if each of its fields can be read, and goes off when all of them match. Where
both read a field, the library and the crontab select the same values. -/
structure Documented (lib : CronLibrary) (reads : Position → String → Option (ℕ → Prop))
    (fires : CronTrigger → Minute → Prop) : Prop where
  built : ∀ fields c, lib.cronTrigger fields = .ok c → ∃ minute hour day month days,
    reads .minute fields.minute = some minute ∧ reads .hour fields.hour = some hour ∧
      reads .day fields.day = some day ∧ reads .month fields.month = some month ∧
      namedDays fields.dayOfWeek = some days ∧
      ∀ m, fires c m ↔ minute m.minute ∧ hour m.hour ∧ day m.day ∧ month m.month ∧ Names days m.weekday
  agrees : ∀ p text selects items, reads p text = some selects → p.items text.toList = some items →
    ∀ v, selects v ↔ Selects items v

/-- All fields are in the language of the crontab, the days of the week can be translated, and of the
two fields of days one has a star or both leave out no day. -/
def Faithful (minute hour day month dow : List Char) : Prop :=
  ∃ minutes hours days months weekdays, Position.minute.items minute = some minutes ∧
    Position.hour.items hour = some hours ∧ Position.day.items day = some days ∧
    Position.month.items month = some months ∧ field 0 7 dow = some weekdays ∧ Translatable dow ∧
    ('*' ∈ day ∨ '*' ∈ dow ∨
      (∀ m d, Selects months m → 1 ≤ d → d ≤ longest m → Selects days d) ∧ ∀ w < 7, SelectsWeekday weekdays w)

variable {lib : CronLibrary} {reads : Position → String → Option (ℕ → Prop)} {fires : CronTrigger → Minute → Prop}
  {c : CronTrigger} {expr timezone converted : String} {minute hour day month dow : List Char} {l : Line}
  {selects : ℕ → Prop} {items : List Item} {p : Position} {names : List (ℕ × ℕ)} {v w : ℕ}

theorem line_eq_some : line [minute, hour, day, month, dow] = some l ↔
    field 0 59 minute = some l.minute ∧ field 0 23 hour = some l.hour ∧ field 1 31 day = some l.day ∧
      Foundation.Crontab.month month = some l.month ∧ field 0 7 dow = some l.dayOfWeek ∧
      l.dayRestricted = restricted day ∧ l.dayOfWeekRestricted = restricted dow := by
  constructor
  · intro h
    obtain ⟨minutes, hminute, h⟩ := Option.bind_eq_some_iff.1 h
    obtain ⟨hours, hhour, h⟩ := Option.bind_eq_some_iff.1 h
    obtain ⟨days, hday, h⟩ := Option.bind_eq_some_iff.1 h
    obtain ⟨months, hmonth, h⟩ := Option.bind_eq_some_iff.1 h
    obtain ⟨weekdays, hdow, h⟩ := Option.bind_eq_some_iff.1 h
    cases h
    exact ⟨hminute, hhour, hday, hmonth, hdow, rfl, rfl⟩
  · intro ⟨hminute, hhour, hday, hmonth, hdow, hr, hr'⟩
    simp [line, hminute, hhour, hday, hmonth, hdow, ← hr, ← hr']

/-- A minute of every day of a selected month and every weekday. -/
theorem exists_minute (hline : line [minute, hour, day, month, dow] = some l) {mo d : ℕ} (hm : Selects l.month mo)
    (hd : 1 ≤ d) (hd' : d ≤ longest mo) (hw : w < 7) :
    ∃ m : Minute, m.day = d ∧ m.weekday = w ∧ Selects l.minute m.minute ∧ Selects l.hour m.hour ∧
      Selects l.month m.month := by
  obtain ⟨hminute, hhour, _, hmonth, _⟩ := line_eq_some.1 hline
  obtain ⟨mi, _, hmi, hmis⟩ := exists_selects hminute (by omega)
  obtain ⟨h, _, hh, hhs⟩ := exists_selects hhour (by omega)
  obtain ⟨hmo, hmo'⟩ := month_bounds hmonth hm
  obtain ⟨y, hy, hy', hleap, hwd⟩ := exists_weekday mo d hw
  have hlast : d ≤ daysInMonth y mo := by
    rw [daysInMonth_leap hleap]
    exact hd'
  exact ⟨⟨y, mo, d, h, mi, hy, hy', hmo, hmo', hd, hlast, hh, hmi⟩, rfl, hwd, hmis, hhs, hm⟩

def Matches (l : Line) (names : List (ℕ × ℕ)) (m : Minute) : Prop :=
  Selects l.minute m.minute ∧ Selects l.hour m.hour ∧ Selects l.day m.day ∧ Selects l.month m.month ∧
    Names names m.weekday

section Line

variable (hline : line [minute, hour, day, month, dow] = some l)
include hline

theorem fires_of_star {m : Minute} (hs : '*' ∈ day ∨ '*' ∈ dow) : l.Fires m ↔ Selects l.minute m.minute ∧
    Selects l.hour m.hour ∧ Selects l.month m.month ∧ Selects l.day m.day ∧
    SelectsWeekday l.dayOfWeek m.weekday := by
  obtain ⟨_, _, _, _, _, hr, hr'⟩ := line_eq_some.1 hline
  have hnot : ¬ (l.dayRestricted = true ∧ l.dayOfWeekRestricted = true) := by
    rw [hr, hr', restricted, restricted, decide_eq_true_eq, decide_eq_true_eq]
    intro h
    exact hs.elim h.1 h.2
  rw [Line.Fires, if_neg hnot]

theorem fires_of_restricted {m : Minute} (hd : '*' ∉ day) (hw : '*' ∉ dow) :
    l.Fires m ↔ Selects l.minute m.minute ∧ Selects l.hour m.hour ∧ Selects l.month m.month ∧
      (Selects l.day m.day ∨ SelectsWeekday l.dayOfWeek m.weekday) := by
  obtain ⟨_, _, _, _, _, hr, hr'⟩ := line_eq_some.1 hline
  have hboth : l.dayRestricted = true ∧ l.dayOfWeekRestricted = true := by
    rw [hr, hr', restricted, restricted]
    exact ⟨decide_eq_true hd, decide_eq_true hw⟩
  rw [Line.Fires, if_pos hboth]

theorem matches_iff_fires (h : Conversion dow converted names) : (∀ m, Matches l names m ↔ l.Fires m) ↔
    Translatable dow ∧ ('*' ∈ day ∨ '*' ∈ dow ∨
      (∀ m d, Selects l.month m → 1 ≤ d → d ≤ longest m → Selects l.day d) ∧
        ∀ w < 7, SelectsWeekday l.dayOfWeek w) := by
  obtain ⟨_, _, hday, hmonth, hdow, _, _⟩ := line_eq_some.1 hline
  constructor
  · intro hsame
    obtain ⟨mo, _, _, hmo⟩ := month_selects hmonth
    by_cases hs : '*' ∈ dow
    · rw [h.eq_star hs]
      exact ⟨star_translatable, .inr (.inl List.mem_cons_self)⟩
    by_cases hd : '*' ∈ day
    · -- The first of the month is selected, on whatever weekday it falls.
      refine ⟨h.keepsMeaning_iff_translatable.1 (h.keepsMeaning_of_names hdow fun w hw ↦ ?_), .inl hd⟩
      have hone : Selects l.day 1 := field_star hday (by omega) hd
      obtain ⟨m, hmd, hmw, hmi, hh, hmo⟩ :=
        exists_minute hline hmo (Nat.le_refl 1) (Nat.le_trans (by omega) longest_ge) hw
      have hm := hsame m
      rw [fires_of_star hline (.inl hd)] at hm
      simpa [Matches, hmd, hmw, hmi, hh, hmo, hone] using hm
    · -- Some weekday is selected, so the crontab fires on every day of the month that falls on it.
      have hboth : ∀ mo d w, Selects l.month mo → 1 ≤ d → d ≤ longest mo → w < 7 →
          ((Selects l.day d ∧ Names names w) ↔ (Selects l.day d ∨ SelectsWeekday l.dayOfWeek w)) := by
        intro mo d w hmo hd₁ hd₂ hw
        obtain ⟨m, hmd, hmw, hmi, hh, hmo⟩ := exists_minute hline hmo hd₁ hd₂ hw
        have hm := hsame m
        rw [fires_of_restricted hline hd hs] at hm
        simpa [Matches, hmd, hmw, hmi, hh, hmo] using hm
      obtain ⟨v, _, hv, hvs⟩ := exists_selects hdow (by omega)
      have hsome : SelectsWeekday l.dayOfWeek ((v + 6) % 7) := ⟨v, hv, hvs, rfl⟩
      have hall : ∀ mo d, Selects l.month mo → 1 ≤ d → d ≤ longest mo → Selects l.day d := fun mo d hmo hd₁ hd₂ ↦
        ((hboth mo d _ hmo hd₁ hd₂ (Nat.mod_lt _ (by omega))).2 (.inr hsome)).1
      have hone := hall mo 1 hmo (Nat.le_refl 1) (Nat.le_trans (by omega) longest_ge)
      have hnames : ∀ w < 7, Names names w := fun w hw ↦
        ((hboth mo 1 w hmo (Nat.le_refl 1) (Nat.le_trans (by omega) longest_ge) hw).2 (.inl hone)).2
      have hweek : ∀ w < 7, SelectsWeekday l.dayOfWeek w := fun w hw ↦ h.selects_of_names hdow hw (hnames w hw)
      refine ⟨h.keepsMeaning_iff_translatable.1 (h.keepsMeaning_of_names hdow fun w hw ↦ ?_),
        .inr (.inr ⟨hall, hweek⟩)⟩
      exact iff_of_true (hnames w hw) (hweek w hw)
  · intro ⟨htrans, hdays⟩ m
    obtain ⟨_, items, names', hitems, hnames, hkeeps⟩ := h.keepsMeaning_iff_translatable.2 htrans
    cases hdow.symm.trans hitems
    cases h.namedDays_eq.symm.trans hnames
    have hweekday := hkeeps m.weekday weekday_lt
    rcases Classical.em ('*' ∈ day ∨ '*' ∈ dow) with hs | hs
    · rw [fires_of_star hline hs, Matches, hweekday]
      tauto
    · have hnone := not_or.1 hs
      obtain ⟨hall, hweek⟩ := (hdays.resolve_left hnone.1).resolve_left hnone.2
      rw [fires_of_restricted hline hnone.1 hnone.2, Matches, hweekday]
      have hday := hall m.month m.day
      have hselected : SelectsWeekday l.dayOfWeek m.weekday := hweek _ weekday_lt
      constructor
      · intro ⟨hmi, hh, hd, hmo, _⟩
        exact ⟨hmi, hh, hmo, .inl hd⟩
      · intro ⟨hmi, hh, hmo, _⟩
        exact ⟨hmi, hh, hday hmo m.day_ge (Nat.le_trans m.day_le daysInMonth_le), hmo, hselected⟩

end Line

/-- Of the expressions that are accepted, exactly the faithful ones mean what the crontab says. -/
theorem fires_as_crontab_iff (hlib : Documented lib reads fires)
    (hb : buildCronTrigger lib expr timezone = .ok c) :
    ∃ minute hour day month dow, split (strip expr.toList) = [minute, hour, day, month, dow] ∧
      ((∃ l, line [minute, hour, day, month, dow] = some l ∧ ∀ m, fires c m ↔ l.Fires m) ↔
        Faithful minute hour day month dow) := by
  obtain ⟨minute, hour, day, month, dow, converted, hsplit, hconvert, hbuilt⟩ := of_buildCronTrigger hb
  obtain ⟨minutes, hours, days, months, names, hminute, hhour, hday, hmonth, hnames, hfires⟩ :=
    hlib.built _ _ hbuilt
  have hword : dow ∈ split (strip expr.toList) := by
    rw [hsplit]
    simp
  have hconversion := conversion_of_convert hconvert (word_of_split hword) hnames
  refine ⟨minute, hour, day, month, dow, hsplit, ?_⟩
  have hsame : ∀ {l : Line}, line [minute, hour, day, month, dow] = some l →
      ((∀ m, fires c m ↔ l.Fires m) ↔ ∀ m, Matches l names m ↔ l.Fires m) := by
    intro l hline
    obtain ⟨hminute', hhour', hday', hmonth', _, _, _⟩ := line_eq_some.1 hline
    refine forall_congr' fun m ↦ iff_congr ?_ .rfl
    rw [hfires, Matches, hlib.agrees .minute _ _ l.minute hminute (by rw [String.toList_ofList]; exact hminute'),
      hlib.agrees .hour _ _ l.hour hhour (by rw [String.toList_ofList]; exact hhour'),
      hlib.agrees .day _ _ l.day hday (by rw [String.toList_ofList]; exact hday'),
      hlib.agrees .month _ _ l.month hmonth (by rw [String.toList_ofList]; exact hmonth')]
  constructor
  · intro ⟨l, hline, h⟩
    obtain ⟨hminute', hhour', hday', hmonth', hdow', _, _⟩ := line_eq_some.1 hline
    obtain ⟨htrans, hdays⟩ := (matches_iff_fires hline hconversion).1 ((hsame hline).1 h)
    exact ⟨_, _, _, _, _, hminute', hhour', hday', hmonth', hdow', htrans, hdays⟩
  · intro ⟨minutes, hours, days, months, weekdays, hminute', hhour', hday', hmonth', hdow', htrans, hdays⟩
    have hline : line [minute, hour, day, month, dow] =
        some ⟨minutes, hours, days, months, weekdays, restricted day, restricted dow⟩ :=
      line_eq_some.2 ⟨hminute', hhour', hday', hmonth', hdow', rfl, rfl⟩
    exact ⟨_, hline, (hsame hline).2 ((matches_iff_fires hline hconversion).2 ⟨htrans, hdays⟩)⟩

def dayLength : ℕ := 1440 * Cron.minute

def moment (m : Minute) : ℕ :=
  ordinal m.year m.month m.day * dayLength + (60 * m.hour + m.minute) * Cron.minute

def mondays : CronTrigger where
  getNextFireTime prev now :=
    let next := (CronTrigger.start prev now + (Cron.minute - 1)) / Cron.minute * Cron.minute
    if (next / dayLength + 6) % 7 = 0 then some next
    else some ((next / dayLength + (7 - (next / dayLength + 6) % 7)) * dayLength)
  timezone := .utc

def mondayFields (fields : CronFields) : Prop :=
  fields.minute = "*" ∧ fields.hour = "*" ∧ (fields.day = "*" ∨ fields.day = "1-31") ∧ fields.month = "*" ∧
    fields.dayOfWeek = "mon"

instance (fields : CronFields) : Decidable (mondayFields fields) := inferInstanceAs (Decidable (_ ∧ _))

def mondaysLibrary : CronLibrary where
  zoneInfo _ := true
  cronTrigger fields := if mondayFields fields then .ok mondays else .error "other fields"
  repr := id

def Position.bounds : Position → ℕ × ℕ
  | .minute => (0, 59)
  | .hour => (0, 23)
  | .day => (1, 31)
  | .month => (1, 12)

def readsAll (p : Position) (text : String) : Option (ℕ → Prop) :=
  if text = "*" ∨ p = .day ∧ text = "1-31" then some fun v ↦ p.bounds.1 ≤ v ∧ v ≤ p.bounds.2 else none

theorem isTick_mondays {t : ℕ} :
    mondays.IsTick t ↔ t % Cron.minute = 0 ∧ (t / dayLength + 6) % 7 = 0 := by
  have hstart : CronTrigger.start none t = t := rfl
  unfold CronTrigger.IsTick mondays
  dsimp only
  rw [hstart]
  unfold dayLength Cron.minute second
  split
  · rw [Option.some.injEq]
    omega
  · rw [Option.some.injEq]
    omega

theorem isTick_moment (m : Minute) : mondays.IsTick (moment m) ↔ m.weekday = 0 := by
  have hh := m.hour_le
  have hm := m.minute_le
  rw [isTick_mondays, Minute.weekday, weekday, moment]
  unfold dayLength Cron.minute second
  omega

theorem documented_mondays : Documented mondaysLibrary readsAll fun c m ↦ c.IsTick (moment m) where
  built := by
    intro fields c h
    change (if mondayFields fields then _ else _) = _ at h
    split at h
    · rename_i hf
      obtain ⟨hminute, hhour, hday, hmonth, hdow⟩ := hf
      cases h
      refine ⟨_, _, _, _, [(0, 0)], if_pos (.inl hminute), if_pos (.inl hhour),
        if_pos (hday.imp_right fun h ↦ ⟨rfl, h⟩),
        if_pos (.inl hmonth), by rw [hdow]; rfl, fun m ↦ ?_⟩
      have hlast := Nat.le_trans m.day_le (Nat.le_trans daysInMonth_le longest_le)
      rw [isTick_moment]
      simp [Names, Position.bounds, m.minute_le, m.hour_le, m.month_ge, m.month_le, m.day_ge, hlast]
    · cases h
  agrees := by
    intro p text selects items hreads hitems v
    unfold readsAll at hreads
    split at hreads
    · rename_i htext
      cases hreads
      have hall : items = [⟨p.bounds.1, p.bounds.2, 1⟩] := by
        rcases htext with rfl | ⟨rfl, rfl⟩
        · cases p <;> exact Option.some.inj (hitems.symm.trans rfl)
        · exact Option.some.inj (hitems.symm.trans rfl)
      rw [hall]
      simp [Selects, Item.Selects, Nat.mod_one]
    · cases hreads

def newYear : Minute :=
  ⟨1970, 1, 1, 0, 0, by decide, by decide, by decide, by decide, by decide, by decide, by decide, by decide⟩

theorem fires_as_crontab_iff_mondays :
    ∃ minute hour day month dow, split (strip "* * * * 1".toList) = [minute, hour, day, month, dow] ∧
      ((∃ l, line [minute, hour, day, month, dow] = some l ∧ ∀ m, mondays.IsTick (moment m) ↔ l.Fires m) ↔
        Faithful minute hour day month dow) := by
  have hb : buildCronTrigger mondaysLibrary "* * * * 1" "UTC" = .ok mondays := rfl
  exact fires_as_crontab_iff documented_mondays hb

/-- Every day of the month or Monday: the trigger goes off on Mondays only. -/
theorem either_day_is_both : ¬ ∀ lib reads fires expr timezone c minute hour day month dow,
    Documented lib reads fires → buildCronTrigger lib expr timezone = .ok c →
    split (strip expr.toList) = [minute, hour, day, month, dow] →
    ∃ l, line [minute, hour, day, month, dow] = some l ∧ ∀ m, fires c m ↔ l.Fires m := by
  intro h
  have hb : buildCronTrigger mondaysLibrary "* * 1-31 * 1" "UTC" = .ok mondays := rfl
  obtain ⟨l, hline, hsame⟩ := h _ _ _ _ _ _ ['*'] ['*'] "1-31".toList ['*'] ['1'] documented_mondays hb rfl
  cases hline
  have hthursday : ¬ mondays.IsTick (moment newYear) := by
    rw [isTick_moment]
    decide
  exact hthursday ((hsame newYear).2 (by decide))

end AdminPlatform.ScheduledTask.CronMeaning
