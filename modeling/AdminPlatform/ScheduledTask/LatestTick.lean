import AdminPlatform.ScheduledTask.Cron

namespace AdminPlatform.ScheduledTask.LatestTick

open Cron

/-- The loop ends from `tick` and `prev` on, and returns its last argument. -/
inductive Ends (trigger : CronTrigger) (now : ℕ) : Option ℕ → Option ℕ → Option ℕ → Prop
  | exhausted (prev : Option ℕ) : Ends trigger now none prev prev
  | later {tick : ℕ} (prev : Option ℕ) : now < tick → Ends trigger now (some tick) prev prev
  | turn {tick : ℕ} {prev result : Option ℕ} : tick ≤ now →
      Ends trigger now (trigger.getNextFireTime (some tick) (trigger.timezone.plus tick 1)) (some tick) result →
      Ends trigger now (some tick) prev result

/-- The greatest tick from `start` to `now`, or none. -/
def Greatest (c : CronTrigger) (start now : ℕ) : Option ℕ → Prop
  | none => ∀ u, c.IsTick u → start ≤ u → now < u
  | some t => c.IsTick t ∧ start ≤ t ∧ t ≤ now ∧ ∀ u, c.IsTick u → u ≤ now → u ≤ t

/-- `t` is the last tick before `now` or at it. -/
structure Current (c : CronTrigger) (t now : ℕ) : Prop where
  tick : c.IsTick t
  le : t ≤ now
  last : ∀ u, c.IsTick u → t < u → now < u

variable {c : CronTrigger} {lib : CronLibrary} {now lookback fuel t r a : ℕ} {tick prev result result' : Option ℕ}
  {expr timezone : String}

theorem Ends.unique (h : Ends c now tick prev result) (h' : Ends c now tick prev result') : result = result' := by
  induction h with
  | exhausted prev =>
    cases h'
    rfl
  | later prev hlt =>
    cases h' with
    | later => rfl
    | turn hle _ => omega
  | turn hle _ ih =>
    cases h' with
    | later _ hlt => omega
    | turn _ h' => exact ih h'

/-- What the loop of the model finds is what the loop of the source ends with. -/
theorem ends_of_tickLoop (h : tickLoop c now fuel tick prev = .found result) : Ends c now tick prev result := by
  induction fuel generalizing tick prev with
  | zero => cases h
  | succ fuel ih =>
    cases tick with
    | none =>
      cases h
      exact .exhausted _
    | some t =>
      rw [tickLoop] at h
      by_cases hle : t ≤ now
      · rw [if_pos hle] at h
        exact .turn hle (ih h)
      · rw [if_neg hle] at h
        cases h
        exact .later _ (Nat.lt_of_not_le hle)

theorem Ends.not_repeated (he : Ends c now tick prev result) (h : c.Answers) (hr : c.IsTick r)
    (hrep : c.timezone.Repeated r) (hle : r ≤ now) (hf : FirstFrom c a tick) : ¬ a ≤ r := by
  intro ha
  induction he generalizing a with
  | exhausted prev => exact absurd (hf r hr) (Nat.not_lt.2 ha)
  | later prev hlt =>
    have htr := (firstFrom_before_repeated h hr hrep hf ha).1
    omega
  | turn _ _ ih =>
    obtain ⟨-, hplus, hnext⟩ := firstFrom_before_repeated h hr hrep hf ha
    exact ih hnext hplus

abbrev Returns (c : CronTrigger) (now lookback : ℕ) (result : Option ℕ) : Prop :=
  Ends c now (c.getNextFireTime none (now - lookback)) none result

theorem Ends.unrepeated (he : Returns c now lookback result) (h : c.Answers) :
    c.Unrepeated (now - lookback) now := by
  intro r hr hge hle hrep
  exact he.not_repeated h hr hrep hle (h.first _) hge

theorem returns_iff (h : c.Answers) : Returns c now lookback result ↔
    latestTick c now lookback = .found result := by
  constructor
  · intro he
    obtain ⟨result', hr, -⟩ := latestIn_latestTick h (he.unrepeated h)
    rw [hr, he.unique (ends_of_tickLoop hr)]
  · exact ends_of_tickLoop

theorem greatest_of_returns (h : c.Answers) (he : Returns c now lookback result) :
    Greatest c (now - lookback) now result := by
  have hn := (returns_iff h).1 he
  cases result with
  | none =>
    obtain ⟨result', hr, hl⟩ := latestIn_latestTick h (he.unrepeated h)
    rw [hn] at hr
    cases hr
    exact fun u hu hle ↦ hl u hu hle
  | some t =>
    obtain ⟨-, htick, hge, hle, hlast⟩ := (latestTick_eq_some h).1 hn
    refine ⟨htick, hge, hle, fun u hu hun ↦ Nat.le_of_not_lt fun hlt ↦ ?_⟩
    exact absurd (hlast u hu hlt) (Nat.not_lt.2 hun)

theorem returns_of_current (h : c.Answers) (ht : Current c t now) (hl : now ≤ t + lookback)
    (hu : c.Unrepeated (now - lookback) now) : Returns c now lookback (some t) :=
  (returns_iff h).2 ((latestTick_eq_some h).2 ⟨hu, ht.tick, by omega, ht.le, ht.last⟩)

theorem scheduledTickAt_eq (hb : buildCronTrigger lib expr timezone = .ok c) (lookbackSeconds : ℕ) :
    scheduledTickAt lib expr timezone now lookbackSeconds = .ok (latestTick c now (lookbackSeconds * second)) := by
  simp [scheduledTickAt, hb, bind, Except.bind, pure, Except.pure]

/-- The loop ends, with the greatest tick of the window, which is the same for all moments up to the
next tick, just where no tick of the window shows its time on the wall for the second time. -/
theorem scheduledTickAt_greatest_iff (hb : buildCronTrigger lib expr timezone = .ok c) (h : c.Answers)
    (lookbackSeconds : ℕ) :
    (∀ now result, scheduledTickAt lib expr timezone now lookbackSeconds = .ok (.found result) ↔
      Returns c now (lookbackSeconds * second) result) ∧
    (∀ now, (∃ result, Returns c now (lookbackSeconds * second) result ∧
        Greatest c (now - lookbackSeconds * second) now result) ↔
      c.Unrepeated (now - lookbackSeconds * second) now) ∧
    ∀ t now now', Current c t now → Current c t now' → now ≤ t + lookbackSeconds * second →
      now' ≤ t + lookbackSeconds * second →
      (Returns c now (lookbackSeconds * second) (some t) ∧ Returns c now' (lookbackSeconds * second) (some t) ↔
        c.Unrepeated (now - lookbackSeconds * second) now ∧
        c.Unrepeated (now' - lookbackSeconds * second) now') := by
  refine ⟨fun now result ↦ ?_, fun now ↦ ⟨?_, fun hu ↦ ?_⟩, fun t now now' ht ht' hl hl' ↦ ⟨?_, ?_⟩⟩
  · rw [scheduledTickAt_eq hb, Except.ok.injEq, returns_iff h]
  · rintro ⟨result, he, -⟩
    exact he.unrepeated h
  · obtain ⟨result, hr, -⟩ := latestIn_latestTick h hu
    have he := (returns_iff h).2 hr
    exact ⟨result, he, greatest_of_returns h he⟩
  · rintro ⟨he, he'⟩
    exact ⟨he.unrepeated h, he'.unrepeated h⟩
  · rintro ⟨hu, hu'⟩
    exact ⟨returns_of_current h ht hl hu, returns_of_current h ht' hl' hu'⟩

theorem unrepeated_everyMinute (from_ to_ : ℕ) : everyMinute.Unrepeated from_ to_ :=
  fun u _ _ _ ↦ Zone.not_repeated_utc u

theorem scheduledTickAt_greatest_iff_everyMinute :
    scheduledTickAt everyMinuteLibrary "* * * * *" "UTC" (minute + 5 * second) 60 = .ok (.found (some minute)) ∧
    scheduledTickAt everyMinuteLibrary "* * * * *" "UTC" (minute + 7 * second) 60 =
    .ok (.found (some minute)) := by
  have hb : buildCronTrigger everyMinuteLibrary "* * * * *" "UTC" = .ok everyMinute := rfl
  have hcurrent : ∀ d, d < minute → Current everyMinute minute (minute + d) := by
    intro d hd
    refine ⟨isTick_everyMinute.2 (Nat.mod_self _), by omega, fun u hu hlt ↦ ?_⟩
    rw [isTick_everyMinute] at hu
    unfold minute second at *
    omega
  obtain ⟨hreturns, -, hsame⟩ :=
    scheduledTickAt_greatest_iff hb (lawful_everyMinuteIn .utc).answers 60
  obtain ⟨h₁, h₂⟩ := (hsame minute _ _ (hcurrent (5 * second) (by decide)) (hcurrent (7 * second) (by decide))
    (by decide) (by decide)).2 ⟨unrepeated_everyMinute _ _, unrepeated_everyMinute _ _⟩
  exact ⟨(hreturns _ _).2 h₁, (hreturns _ _).2 h₂⟩

section Example

def hour : ℕ := 3600 * second

def setBack : ℕ := 1793512800 * second

/-- The time of New York from March 2026 to March 2027, as if the zone had no other change. -/
def newYork : Zone where
  wall t := if t < setBack then t - 4 * hour else t - 5 * hour
  instant w := if w < setBack - 4 * hour then (w + 4 * hour).toNat else (w + 5 * hour).toNat
  instant_le t := by
    unfold setBack hour second
    split <;> split <;> omega
  wall_instant t := by
    unfold setBack hour second
    split <;> split <;> omega
  instant_whole t ht := by
    unfold setBack hour second at *
    split <;> split <;> omega
  instant_succ t ht := by
    unfold setBack hour second at *
    split <;> split <;> split <;> omega

theorem repeated_setBack : newYork.Repeated setBack := by
  unfold Zone.Repeated newYork setBack hour second
  simp

/-- Half a minute after the clocks of New York have gone back, the search through the last six minutes
does not end. -/
theorem not_returns_newYork :
    buildCronTrigger (everyMinuteLibraryIn newYork) "* * * * *" "America/New_York" = .ok (everyMinuteIn newYork) ∧
    (everyMinuteIn newYork).Answers ∧
    (¬ ∃ result, Returns (everyMinuteIn newYork) (setBack + 30 * second) (360 * second) result) ∧
    scheduledTickAt (everyMinuteLibraryIn newYork) "* * * * *" "America/New_York" (setBack + 30 * second) 360 =
      .ok .endless := by
  have hb : buildCronTrigger (everyMinuteLibraryIn newYork) "* * * * *" "America/New_York" =
      .ok (everyMinuteIn newYork) := rfl
  have h : (everyMinuteIn newYork).Answers := (lawful_everyMinuteIn newYork).answers
  have htick : (everyMinuteIn newYork).IsTick setBack := isTick_everyMinuteIn.2 (by decide)
  have hge : setBack + 30 * second - 360 * second ≤ setBack := by decide
  have hle : setBack ≤ setBack + 30 * second := Nat.le_add_right _ _
  refine ⟨hb, h, fun hr ↦ ?_, ?_⟩
  · obtain ⟨result, he⟩ := hr
    exact he.unrepeated h setBack htick hge hle repeated_setBack
  · rw [scheduledTickAt_eq hb, latestTick, endless_of_repeated h htick repeated_setBack hle (h.first _) hge]

end Example

end AdminPlatform.ScheduledTask.LatestTick
