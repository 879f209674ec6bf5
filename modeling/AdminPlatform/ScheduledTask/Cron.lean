import Mathlib.Data.Int.Notation
import Mathlib.Data.Nat.Notation

namespace AdminPlatform.ScheduledTask.Cron

def second : ℕ := 1000000

/-- A time zone: what the clock on the wall shows at an instant, and the instant of a time on the
wall, the earlier one where the clock is set back and shows it twice. -/
structure Zone where
  wall : ℕ → ℤ
  instant : ℤ → ℕ
  instant_le : ∀ t, instant (wall t) ≤ t
  wall_instant : ∀ t, wall (instant (wall t)) = wall t
  instant_whole : ∀ t, t % second = 0 → instant (wall t) % second = 0
  instant_succ : ∀ t, t % second = 0 → instant (wall t + 1) = instant (wall t) + 1

namespace Zone

/-- `t + timedelta(microseconds=d)` of an aware `datetime`: it moves the time on the wall, and what
it gives is the earlier reading of that. -/
def plus (z : Zone) (t d : ℕ) : ℕ := z.instant (z.wall t + d)

/-- The clock has shown the time of `t` before. -/
def Repeated (z : Zone) (t : ℕ) : Prop := z.instant (z.wall t) < t

variable {z : Zone} {t : ℕ}

theorem plus_one (z : Zone) (ht : t % second = 0) : z.plus t 1 = z.instant (z.wall t) + 1 :=
  z.instant_succ t ht

theorem plus_one_of_not_repeated (ht : t % second = 0) (hr : ¬ z.Repeated t) : z.plus t 1 = t + 1 := by
  have hle := z.instant_le t
  have hge := Nat.le_of_not_lt hr
  rw [plus_one z ht, Nat.le_antisymm hle hge]

theorem plus_one_le_of_repeated (ht : t % second = 0) (hr : z.Repeated t) : z.plus t 1 ≤ t := by
  rw [plus_one z ht]
  exact hr

def utc : Zone where
  wall t := t
  instant w := w.toNat
  instant_le t := by omega
  wall_instant t := by omega
  instant_whole t ht := by
    rw [Int.toNat_natCast]
    exact ht
  instant_succ t _ := by omega

theorem not_repeated_utc (t : ℕ) : ¬ utc.Repeated t := Nat.lt_irrefl t

end Zone

/-- A trigger, by its `get_next_fire_time(previous, now)` and its time zone. -/
structure CronTrigger where
  getNextFireTime : Option ℕ → ℕ → Option ℕ
  timezone : Zone

/-- The arguments of a trigger's constructor. -/
structure CronFields where
  minute : String
  hour : String
  day : String
  month : String
  dayOfWeek : String
  timezone : String
  deriving DecidableEq, Repr

/-- What the cron module takes from elsewhere: the known time zones, the constructor of
triggers, which may refuse its arguments with a text, and `repr` of a string. -/
structure CronLibrary where
  zoneInfo : String → Bool
  cronTrigger : CronFields → Except String CronTrigger
  repr : String → String

namespace CronTrigger

def IsTick (c : CronTrigger) (t : ℕ) : Prop := c.getNextFireTime none t = some t

def start : Option ℕ → ℕ → ℕ
  | none, now => now
  | some p, now => if now = p then p + 1 else min now (p + 1)

/-- A trigger answers with the first tick from the start on; its ticks are whole seconds. -/
structure Lawful (c : CronTrigger) : Prop where
  tick : ∀ prev now t, c.getNextFireTime prev now = some t → start prev now ≤ t ∧ c.IsTick t
  least : ∀ prev now u, c.IsTick u → start prev now ≤ u →
    ∃ t ≤ u, c.getNextFireTime prev now = some t
  whole : ∀ t, c.IsTick t → t % second = 0

end CronTrigger

def CronLibrary.Lawful (lib : CronLibrary) : Prop :=
  ∀ fields c, lib.cronTrigger fields = .ok c → c.Lawful

def _QUARTZ_TOKENS : List Char := ['?', 'L', 'W', '#']

/-- `str.isspace` of one character. -/
def isSpace (c : Char) : Bool :=
  let n := c.toNat
  decide (9 ≤ n ∧ n ≤ 13) || decide (28 ≤ n ∧ n ≤ 32) || n == 133 || n == 160 || n == 5760 ||
    decide (8192 ≤ n ∧ n ≤ 8202) || n == 8232 || n == 8233 || n == 8239 || n == 8287 || n == 12288

def strip (s : List Char) : List Char :=
  ((s.dropWhile isSpace).reverse.dropWhile isSpace).reverse

def split (s : List Char) : List (List Char) := (s.splitOnP isSpace).filter fun w ↦ !w.isEmpty

def _CRON_DOW_NAMES : List Char → Option String
  | ['0'] => some "sun"
  | ['1'] => some "mon"
  | ['2'] => some "tue"
  | ['3'] => some "wed"
  | ['4'] => some "thu"
  | ['5'] => some "fri"
  | ['6'] => some "sat"
  | ['7'] => some "sun"
  | _ => none

variable (lib : CronLibrary)

/-- The errors of this module are known by the texts of `CronValidationError`. -/
def _dowName (value : List Char) : Except String String :=
  match _CRON_DOW_NAMES (strip value) with
  | some name => .ok name
  | none => .error ("非法 day-of-week 值: " ++ lib.repr (String.ofList value) ++ "（标准 crontab dow 为 0-7）")

def dowToken (token : List Char) : Except String String := do
  if '-' ∈ token then
    let lo ← _dowName lib (token.takeWhile (· ≠ '-'))
    let hi ← _dowName lib ((token.dropWhile (· ≠ '-')).drop 1)
    pure (lo ++ "-" ++ hi)
  else _dowName lib token

def _convertDowToNames (field : List Char) : Except String String := do
  if '/' ∈ field then .error "不支持 day-of-week 步进（如 */2）；请用单值/范围/列表"
  else if field = ['*'] then pure "*"
  else
    let tokens ← (field.splitOn ',').mapM (dowToken lib)
    pure (",".intercalate tokens)

def _resolveTz (timezone : String) : Except String Unit :=
  if lib.zoneInfo timezone then .ok () else .error ("非法时区: " ++ timezone)

def buildCronTrigger (expr timezone : String) : Except String CronTrigger := do
  let cleaned := strip expr.toList
  match split cleaned with
  | [minute, hour, day, month, dow] =>
    if cleaned.any (· ∈ _QUARTZ_TOKENS) then .error "不支持 Quartz 高级语法 ? L W #"
    else
      _resolveTz lib timezone
      let built := do
        let dayOfWeek ← _convertDowToNames lib dow
        lib.cronTrigger {
          minute := String.ofList minute
          hour := String.ofList hour
          day := String.ofList day
          month := String.ofList month
          dayOfWeek := dayOfWeek
          timezone := timezone }
      match built with
      | .ok c => pure c
      | .error text => .error ("非法 cron 表达式: " ++ text)
  | _ => .error "cron 必须是 5 字段标准 crontab（分 时 日 月 周）"

def validateCron (expr timezone : String) : Except String Unit := do
  let _ ← buildCronTrigger lib expr timezone
  pure ()

def nextRunAfter (expr timezone : String) (now : ℕ) : Except String (Option ℕ) := do
  let trigger ← buildCronTrigger lib expr timezone
  pure (trigger.getNextFireTime none now)

inductive Search
  | endless
  | found (tick : Option ℕ)
  deriving DecidableEq, Repr

/-- The loop from `tick` on, `prev` being the last tick passed. -/
def tickLoop (trigger : CronTrigger) (now : ℕ) : ℕ → Option ℕ → Option ℕ → Search
  | 0, _, _ => .endless
  | _ + 1, none, prev => .found prev
  | fuel + 1, some tick, prev =>
    if tick ≤ now then
      tickLoop trigger now fuel (trigger.getNextFireTime (some tick) (trigger.timezone.plus tick 1)) (some tick)
    else .found prev

def latestTick (trigger : CronTrigger) (now lookback : ℕ) : Search :=
  tickLoop trigger now (lookback + 2) (trigger.getNextFireTime none (now - lookback)) none

def scheduledTickAt (expr timezone : String) (now lookbackSeconds : ℕ) : Except String Search := do
  let trigger ← buildCronTrigger lib expr timezone
  pure (latestTick trigger now (lookbackSeconds * second))

variable {lib} {c : CronTrigger} {now lookback fuel t r u a : ℕ} {tick prev : Option ℕ}
  {expr timezone : String}

theorem cronTrigger_of_build (hb : buildCronTrigger lib expr timezone = .ok c) :
    ∃ fields, lib.cronTrigger fields = .ok c := by
  simp only [buildCronTrigger, bind, Except.bind, pure, Except.pure] at hb
  split at hb
  · split at hb
    · cases hb
    · split at hb
      · cases hb
      · split at hb
        · next hok =>
          cases hb
          split at hok
          · cases hok
          · exact ⟨_, hok⟩
        · cases hb
  · cases hb

theorem lawful_of_build (h : lib.Lawful) (hb : buildCronTrigger lib expr timezone = .ok c) : c.Lawful := by
  obtain ⟨fields, hf⟩ := cronTrigger_of_build hb
  exact h fields c hf

/-- `tick` is the first tick from `a` on. -/
def FirstFrom (c : CronTrigger) (a : ℕ) : Option ℕ → Prop
  | none => ∀ u, c.IsTick u → u < a
  | some t => a ≤ t ∧ c.IsTick t ∧ ∀ u, c.IsTick u → a ≤ u → t ≤ u

/-- Asked for the first fire time, or for the one after a tick, a trigger answers with the least tick
at or after its argument; its ticks are whole seconds. -/
structure CronTrigger.Answers (c : CronTrigger) : Prop where
  first : ∀ a, FirstFrom c a (c.getNextFireTime none a)
  next : ∀ t, c.IsTick t → FirstFrom c (c.timezone.plus t 1) (c.getNextFireTime (some t) (c.timezone.plus t 1))
  whole : ∀ t, c.IsTick t → t % second = 0

def CronLibrary.Answers (lib : CronLibrary) : Prop :=
  ∀ fields c, lib.cronTrigger fields = .ok c → c.Answers

/-- No tick from `from_` to `to_` shows a time on the wall for the second time. -/
def CronTrigger.Unrepeated (c : CronTrigger) (from_ to_ : ℕ) : Prop :=
  ∀ u, c.IsTick u → from_ ≤ u → u ≤ to_ → ¬ c.timezone.Repeated u

theorem firstFrom_next (h : c.Lawful) (prev : Option ℕ) (a : ℕ) :
    FirstFrom c (CronTrigger.start prev a) (c.getNextFireTime prev a) := by
  cases hn : c.getNextFireTime prev a with
  | none =>
    intro u hu
    refine Nat.lt_of_not_le fun hle ↦ ?_
    obtain ⟨t, -, ht⟩ := h.least prev a u hu hle
    rw [hn] at ht
    cases ht
  | some t =>
    obtain ⟨hle, ht⟩ := h.tick _ _ _ hn
    refine ⟨hle, ht, fun u hu hau ↦ ?_⟩
    obtain ⟨t', ht', hn'⟩ := h.least _ _ _ hu hau
    rw [hn] at hn'
    cases hn'
    exact ht'

theorem CronTrigger.Lawful.answers (h : c.Lawful) : c.Answers where
  first a := firstFrom_next h none a
  next t ht := by
    have hnext := firstFrom_next h (some t) (c.timezone.plus t 1)
    have hwhole := h.whole t ht
    have hle := c.timezone.instant_le t
    have hsec := c.timezone.instant_whole t hwhole
    rw [Zone.plus_one c.timezone hwhole] at hnext ⊢
    have hne : c.timezone.instant (c.timezone.wall t) + 1 ≠ t := by
      unfold second at hsec hwhole
      omega
    rwa [CronTrigger.start, if_neg hne, Nat.min_eq_left (Nat.succ_le_succ hle)] at hnext
  whole := h.whole

theorem CronLibrary.Lawful.answers (h : lib.Lawful) : lib.Answers := fun fields c hc ↦ (h fields c hc).answers

/-- `prev` is the greatest tick in `[from, to)`. -/
def LatestIn (c : CronTrigger) (from_ to_ : ℕ) : Option ℕ → Prop
  | none => ∀ u, c.IsTick u → from_ ≤ u → to_ ≤ u
  | some t => from_ ≤ t ∧ t < to_ ∧ c.IsTick t ∧ ∀ u, c.IsTick u → t < u → to_ ≤ u

theorem LatestIn.widen {from_ : ℕ} (h : LatestIn c from_ a prev) (hf : FirstFrom c a tick) {b : ℕ}
    (hb : a ≤ b) (ht : ∀ t, tick = some t → b ≤ t) : LatestIn c from_ b prev := by
  have hgap : ∀ u, c.IsTick u → a ≤ u → b ≤ u := by
    intro u hu hau
    cases tick with
    | none =>
      have := hf u hu
      omega
    | some t =>
      have hbt := ht t rfl
      have htu := hf.2.2 u hu hau
      omega
  cases prev with
  | none => exact fun u hu hfu ↦ hgap u hu (h u hu hfu)
  | some p =>
    obtain ⟨h₁, h₂, h₃, h₄⟩ := h
    exact ⟨h₁, by omega, h₃, fun u hu hpu ↦ hgap u hu (h₄ u hu hpu)⟩

/-- Where no tick is a repeated time the loop passes all ticks up to `now`, if it has the fuel to
reach `now`. -/
theorem latestIn_tickLoop {from_ : ℕ} (h : c.Answers) (hu : c.Unrepeated a now) (hfuel : now + 1 < fuel + a)
    (ha : a ≤ now + 1) (hf : FirstFrom c a tick) (hp : LatestIn c from_ a prev) (hfa : from_ ≤ a) :
    ∃ result, tickLoop c now fuel tick prev = .found result ∧ LatestIn c from_ (now + 1) result := by
  induction fuel generalizing a tick prev with
  | zero => omega
  | succ fuel ih =>
    cases tick with
    | none => exact ⟨prev, rfl, hp.widen hf ha fun t ht ↦ by cases ht⟩
    | some t =>
      have hat : a ≤ t := hf.1
      have htick : c.IsTick t := hf.2.1
      simp only [tickLoop]
      by_cases hle : t ≤ now
      · have hplus := Zone.plus_one_of_not_repeated (h.whole t htick) (hu t htick hat hle)
        have hnext := h.next t htick
        rw [if_pos hle]
        rw [hplus] at hnext ⊢
        refine ih (fun u hu' hle' ↦ hu u hu' (by omega)) (by omega) (by omega) hnext
          ⟨by omega, Nat.lt_succ_self t, htick, ?_⟩ (by omega)
        exact fun u _ hu ↦ hu
      · rw [if_neg hle]
        refine ⟨prev, rfl, hp.widen hf ha fun t' ht' ↦ ?_⟩
        cases ht'
        omega

/-- From a tick that is not past a repeated one, the next is not past it either. -/
theorem firstFrom_before_repeated (h : c.Answers) (hr : c.IsTick r) (hrep : c.timezone.Repeated r)
    (hf : FirstFrom c a (some t)) (ha : a ≤ r) : t ≤ r ∧ c.timezone.plus t 1 ≤ r ∧
      FirstFrom c (c.timezone.plus t 1) (c.getNextFireTime (some t) (c.timezone.plus t 1)) := by
  obtain ⟨-, htick, hleast⟩ := hf
  have htr : t ≤ r := hleast r hr ha
  refine ⟨htr, ?_, h.next t htick⟩
  by_cases ht : c.timezone.Repeated t
  · exact Nat.le_trans (Zone.plus_one_le_of_repeated (h.whole t htick) ht) htr
  · have hne : t ≠ r := fun he ↦ ht (he ▸ hrep)
    rw [Zone.plus_one_of_not_repeated (h.whole t htick) ht]
    omega

/-- The loop never gets past a tick that shows its time for the second time. -/
theorem endless_of_repeated (h : c.Answers) (hr : c.IsTick r) (hrep : c.timezone.Repeated r) (hle : r ≤ now)
    (hf : FirstFrom c a tick) (ha : a ≤ r) : tickLoop c now fuel tick prev = .endless := by
  induction fuel generalizing a tick prev with
  | zero => rfl
  | succ fuel ih =>
    cases tick with
    | none => exact absurd (hf r hr) (Nat.not_lt.2 ha)
    | some t =>
      obtain ⟨htr, hplus, hnext⟩ := firstFrom_before_repeated h hr hrep hf ha
      rw [tickLoop, if_pos (Nat.le_trans htr hle)]
      exact ih hnext hplus

theorem latestIn_latestTick (h : c.Answers) (hu : c.Unrepeated (now - lookback) now) :
    ∃ result, latestTick c now lookback = .found result ∧ LatestIn c (now - lookback) (now + 1) result := by
  refine latestIn_tickLoop h hu (by omega) (by omega) (h.first _) ?_ (Nat.le_refl _)
  exact fun u _ hu ↦ hu

theorem unrepeated_of_found {result : Option ℕ} (h : c.Answers) (hl : latestTick c now lookback = .found result) :
    c.Unrepeated (now - lookback) now := by
  intro r hr hge hle hrep
  rw [latestTick, endless_of_repeated h hr hrep hle (h.first _) hge] at hl
  cases hl

/-- The search finds the greatest tick of the window, unless a tick of it is a repeated time. -/
theorem latestTick_eq_some (h : c.Answers) : latestTick c now lookback = .found (some t) ↔
    c.Unrepeated (now - lookback) now ∧ c.IsTick t ∧ now - lookback ≤ t ∧ t ≤ now ∧
      ∀ u, c.IsTick u → t < u → now < u := by
  constructor
  · intro ht
    have hu := unrepeated_of_found h ht
    obtain ⟨result, hr, hl⟩ := latestIn_latestTick h hu
    rw [ht] at hr
    cases hr
    obtain ⟨h₁, h₂, h₃, h₄⟩ := hl
    exact ⟨hu, h₃, h₁, by omega, fun u hu htu ↦ h₄ u hu htu⟩
  · rintro ⟨hu, htick, hge, hle, hlast⟩
    obtain ⟨result, hr, hl⟩ := latestIn_latestTick h hu
    rw [hr]
    cases result with
    | none =>
      have := hl t htick hge
      omega
    | some t' =>
      obtain ⟨-, h₂, h₃, h₄⟩ := hl
      have h₅ : ¬ t' < t := fun hlt ↦ by
        have := h₄ t htick hlt
        omega
      have h₆ : ¬ t < t' := fun hlt ↦ by
        have := hlast t' h₃ hlt
        omega
      have he : t' = t := by omega
      rw [he]

def minute : ℕ := 60 * second

def everyMinuteIn (z : Zone) : CronTrigger where
  getNextFireTime prev now := some ((CronTrigger.start prev now + (minute - 1)) / minute * minute)
  timezone := z

def everyMinute : CronTrigger := everyMinuteIn .utc

def everyMinuteLibraryIn (z : Zone) : CronLibrary where
  zoneInfo _ := true
  cronTrigger _ := .ok (everyMinuteIn z)
  repr := id

def everyMinuteLibrary : CronLibrary := everyMinuteLibraryIn .utc

variable {z : Zone}

theorem isTick_everyMinuteIn : (everyMinuteIn z).IsTick t ↔ t % minute = 0 := by
  simp only [CronTrigger.IsTick, everyMinuteIn, CronTrigger.start, Option.some.injEq]
  unfold minute second
  omega

theorem isTick_everyMinute : everyMinute.IsTick t ↔ t % minute = 0 := isTick_everyMinuteIn

theorem lawful_everyMinuteIn (z : Zone) : (everyMinuteIn z).Lawful where
  tick prev now t h := by
    have he : (CronTrigger.start prev now + (minute - 1)) / minute * minute = t := Option.some.inj h
    rw [isTick_everyMinuteIn]
    unfold minute second at *
    omega
  least prev now u hu hle := by
    refine ⟨_, ?_, rfl⟩
    rw [isTick_everyMinuteIn] at hu
    unfold minute second at *
    omega
  whole t h := by
    rw [isTick_everyMinuteIn] at h
    unfold minute second at *
    omega

theorem lawful_everyMinuteLibrary : everyMinuteLibrary.Lawful := by
  intro fields c h
  cases h
  exact lawful_everyMinuteIn .utc

end AdminPlatform.ScheduledTask.Cron
