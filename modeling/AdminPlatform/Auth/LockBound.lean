import AdminPlatform.Auth.LoginRuns

namespace AdminPlatform.Auth.LockBound

open Model.Service Function LoginGuard LoginRuns

variable {s : GuardSettings} {S S' : State} {a : Attempt} {r : Redis} {u : String} {i n T C : ℕ}
  {v : Verdict}

/-- A login of `u` whose password was checked and found wrong. -/
def isFailure (u : String) (a : Attempt) : Bool :=
  decide (a.username = u) && decide (a.verdict = some .rejected)

/-- A login of `u` that has read the lock and not had its password checked. -/
def isUnverified (u : String) (a : Attempt) : Bool :=
  decide (a.username = u) && match a.stage with
    | .getUserFails | .getIpFails _ | .getdelCaptcha | .verifyPassword => true
    | _ => false

/-- A failed login of `u` that is still to count itself, or has reached the threshold `T` and is
still to set the lock. -/
def isPending (T : ℕ) (u : String) (a : Attempt) : Bool :=
  isFailure u a && match a.stage with
    | .incrUser | .setexLock => true
    | .expireUser n | .incrIp n | .expireIp n => decide (T ≤ n)
    | _ => false

/-- A login of `u` between its read of the lock and its end. Logins that have seen the lock
only record a failure; they are not counted. -/
def isInFlight (u : String) (a : Attempt) : Bool :=
  decide (a.username = u) && match a.stage with
    | .getLock | .ended _ => false
    | .incrUser | .expireUser _ | .incrIp _ | .expireIp _ | .setexLock =>
      decide (a.verdict = some .rejected)
    | _ => true

def failures (u : String) (S : State) : ℕ := S.attempts.countP (isFailure u)

def inFlight (u : String) (S : State) : ℕ := S.attempts.countP (isInFlight u)

def Healthy : Label → Bool
  | .step _ reply _ => decide (reply = .answered)
  | .issue _ _ _ reply => decide (reply = .answered)
  | _ => true

/-- The lock or the failure counter of `u` disappears: it is deleted, or it expires. -/
def clears (u : String) (S S' : State) : Bool :=
  (S.redis.getLock u && !S'.redis.getLock u) ||
    ((live S.redis.now (S.redis.failUser u)).isSome &&
      !(live S'.redis.now (S'.redis.failUser u)).isSome)

/-- A step between two clearings, with at most `C` logins of `u` in flight after it. -/
def Between (u : String) (C : ℕ) (S : State) (label : Label) (S' : State) : Prop :=
  Healthy label = true ∧ clears u S S' = false ∧ inFlight u S' ≤ C

def unverified (u : String) (S : State) : ℕ := S.attempts.countP (isUnverified u)

def pendingCount (T : ℕ) (u : String) (S : State) : ℕ := S.attempts.countP (isPending T u)

theorem countP_set_add {α : Type} {p : α → Bool} {l : List α} {i : ℕ} {a b : α} (h : l[i]? = some a) :
    (l.set i b).countP p + (p a).toNat = l.countP p + (p b).toNat := by
  induction l generalizing i with
  | nil => cases h
  | cons x xs ih =>
    cases i with
    | zero =>
      cases h
      rw [List.set_cons_zero, List.countP_cons, List.countP_cons]
      cases p a <;> cases p b <;> simp
    | succ i =>
      have hi := ih h
      rw [List.set_cons_succ, List.countP_cons, List.countP_cons]
      omega

theorem countP_add_le {α : Type} {p q r : α → Bool} {l : List α}
    (h : ∀ x, (p x).toNat + (q x).toNat ≤ (r x).toNat) : l.countP p + l.countP q ≤ l.countP r := by
  induction l with
  | nil => simp
  | cons x xs ih =>
    have hx := h x
    rw [List.countP_cons, List.countP_cons, List.countP_cons]
    cases hp : p x <;> cases hq : q x <;> cases hr : r x <;> simp [hp, hq, hr] at hx ⊢ <;> omega

theorem pending_add_unverified_le (T : ℕ) (u : String) (S : State) :
    pendingCount T u S + unverified u S ≤ inFlight u S := by
  refine countP_add_le fun a ↦ ?_
  unfold isPending isFailure isUnverified isInFlight
  cases decide (a.username = u) <;> cases decide (a.verdict = some .rejected) <;>
    cases a.stage <;> simp
  all_goals exact Bool.toNat_le _

def counted (s : GuardSettings) (r : Redis) (u : String) : ℕ :=
  min (r.userFails u) (s.authLoginLockThreshold - 1)

/-- A step of `pre_check` or `verify_captcha` leads to another, to the password or to the end. -/
structure Checked (a a' : Attempt) : Prop where
  username : a'.username = a.username
  verdict : a'.verdict = a.verdict
  stage : a'.stage = .getdelCaptcha ∨ a'.stage = .verifyPassword ∨ (∃ n, a'.stage = .getIpFails n) ∨
    ∃ result, a'.stage = .ended result

theorem checked_requireCaptcha (a : Attempt) : Checked a a.requireCaptcha := by
  unfold Attempt.requireCaptcha
  split
  · exact ⟨rfl, rfl, .inl rfl⟩
  · exact ⟨rfl, rfl, .inr (.inr (.inr ⟨_, rfl⟩))⟩

theorem checked_decideCheck (s : GuardSettings) (a : Attempt) (n m : ℕ) :
    Checked a (a.decideCheck s n m) := by
  unfold Attempt.decideCheck
  split
  · exact ⟨rfl, rfl, .inr (.inr (.inr ⟨_, rfl⟩))⟩
  · split
    · exact checked_requireCaptcha a
    · exact ⟨rfl, rfl, .inr (.inl rfl)⟩

theorem Checked.failure {a' : Attempt} (h : Checked a a') : isFailure u a' = isFailure u a := by
  simp only [isFailure, h.username, h.verdict]

theorem Checked.pending {a' : Attempt} (h : Checked a a') : isPending T u a' = false := by
  unfold isPending
  rcases h.stage with hs | hs | ⟨n, hs⟩ | ⟨result, hs⟩ <;> rw [hs] <;> exact Bool.and_false _

theorem unverified_le_of_true {a' : Attempt} (hv : isUnverified a.username a = true) :
    (isUnverified a.username a').toNat ≤ (isUnverified a.username a).toNat := by
  rw [hv]
  exact Bool.toNat_le _

/-- The first three reads, answered, and the captcha. -/
theorem checked_next (r : Redis) (h : a.stage = .getUserFails ∨ (∃ n, a.stage = .getIpFails n) ∨
    a.stage = .getdelCaptcha) : Checked a (a.next s r .answered v).2 := by
  rcases h with hs | ⟨n, hs⟩ | hs
  · simp only [Attempt.next, hs]
    split
    · exact ⟨rfl, rfl, .inr (.inr (.inl ⟨_, rfl⟩))⟩
    · exact ⟨(checked_decideCheck _ _ _ _).username, (checked_decideCheck _ _ _ _).verdict,
        (checked_decideCheck _ _ _ _).stage⟩
  · simp only [Attempt.next, hs]
    exact ⟨(checked_decideCheck _ _ _ _).username, (checked_decideCheck _ _ _ _).verdict,
      (checked_decideCheck _ _ _ _).stage⟩
  · simp only [Attempt.next, hs]
    split
    · exact ⟨rfl, rfl, .inr (.inr (.inr ⟨_, rfl⟩))⟩
    · split
      · exact ⟨rfl, rfl, .inr (.inl rfl)⟩
      · exact ⟨rfl, rfl, .inr (.inr (.inr ⟨_, rfl⟩))⟩

theorem live_expire {α : Type} {now window : ℕ} (h : 0 < window) (e : Option (Entry α)) :
    live now (expire now window e) = live now e := by
  unfold expire
  cases he : live now e with
  | none => exact he
  | some x =>
    simp [live, h]

theorem live_incr {now : ℕ} (e : Option (Entry ℕ)) :
    live now (some (incr now e)) = some ((live now e).getD 0 + 1) := by
  unfold incr
  cases he : live now e with
  | none => rfl
  | some n =>
    obtain ⟨x, rfl, hx⟩ := Option.bind_eq_some_iff.1 he
    split at hx
    · next hlt =>
      show (if x.expiresAt.all _ then some (n + 1) else none) = _
      rw [if_pos hlt]
      rfl
    · cases hx

theorem userFails_incrUser (r : Redis) (u : String) : (r.incrUser u).userFails u = r.userFails u + 1 := by
  unfold Redis.userFails Redis.incrUser
  simp only [update_self, live_incr, Option.getD_some]

theorem userFails_expireUser (r : Redis) (u : String) {window : ℕ} (h : 0 < window) :
    (r.expireUser window u).userFails u = r.userFails u := by
  unfold Redis.userFails Redis.expireUser
  simp only [update_self, live_expire h]

theorem getLock_setexLock (r : Redis) (u : String) {seconds : ℕ} (h : 0 < seconds) :
    (r.setexLock seconds u).getLock u = true := by
  unfold Redis.getLock Redis.setexLock
  simp only [update_self]
  simp [live, h]

section Step

variable (s r)

theorem failure_lockOrFail (n : ℕ) : isFailure u (a.lockOrFail s n) = isFailure u a := by
  unfold Attempt.lockOrFail
  split <;> rfl

theorem pending_lockOrFail (n : ℕ) : isPending s.authLoginLockThreshold u (a.lockOrFail s n) =
    (isFailure u a && decide (s.authLoginLockThreshold ≤ n)) := by
  unfold Attempt.lockOrFail
  split
  · next h => rw [decide_eq_true h]; rfl
  · next h => rw [decide_eq_false h]; rfl

theorem unverified_lockOrFail (n : ℕ) : isUnverified u (a.lockOrFail s n) = false := by
  unfold Attempt.lockOrFail
  split <;> exact Bool.and_false _

theorem counted_incrUser (u : String) : counted s (r.incrUser u) u =
    if s.authLoginLockThreshold ≤ r.userFails u + 1 then s.authLoginLockThreshold - 1
    else r.userFails u + 1 := by
  have hT := s.lockThreshold_ge
  unfold counted
  rw [userFails_incrUser]
  split <;> omega

/-- While the lock is absent, every failure is counted or pending. -/
theorem next_open (hl : r.getLock a.username = false)
    (hl' : (a.next s r .answered v).1.getLock a.username = false)
    (hc : (live r.now (r.failUser a.username)).isSome → (live (a.next s r .answered v).1.now
      ((a.next s r .answered v).1.failUser a.username)).isSome) :
    (isFailure a.username (a.next s r .answered v).2).toNat + counted s r a.username +
        (isPending s.authLoginLockThreshold a.username a).toNat ≤
      (isFailure a.username a).toNat + counted s (a.next s r .answered v).1 a.username +
        (isPending s.authLoginLockThreshold a.username (a.next s r .answered v).2).toNat := by
  have hpos := s.failWindow_ge
  have hsecs := s.lockSeconds_ge
  cases hs : a.stage with
  | getLock =>
    have hp : isPending s.authLoginLockThreshold a.username a = false := by
      simp only [isPending, hs, Bool.and_false]
    simp only [Attempt.next, hs, hl, Bool.false_eq_true, if_false, hp]
    exact Nat.le_add_right _ _
  | getUserFails =>
    have hp : isPending s.authLoginLockThreshold a.username a = false := by
      simp only [isPending, hs, Bool.and_false]
    have hk := checked_next (s := s) (v := v) r (.inl hs)
    rw [hk.failure, hp]
    simp only [Attempt.next, hs]
    exact Nat.le_add_right _ _
  | getIpFails n =>
    have hp : isPending s.authLoginLockThreshold a.username a = false := by
      simp only [isPending, hs, Bool.and_false]
    have hk := checked_next (s := s) (v := v) r (.inr (.inl ⟨n, hs⟩))
    rw [hk.failure, hp]
    simp only [Attempt.next, hs]
    exact Nat.le_add_right _ _
  | getdelCaptcha =>
    have hp : isPending s.authLoginLockThreshold a.username a = false := by
      simp only [isPending, hs, Bool.and_false]
    have hk := checked_next (s := s) (v := v) r (.inr (.inr hs))
    have hr : counted s (a.next s r .answered v).1 a.username = counted s r a.username := by
      simp only [Attempt.next, hs]
      split <;> rfl
    rw [hk.failure, hp, hr]
    exact Nat.le_add_right _ _
  | verifyPassword =>
    have hp : isPending s.authLoginLockThreshold a.username a = false := by
      simp only [isPending, hs, Bool.and_false]
    simp only [Attempt.next, hs, hp]
    cases v with
    | passed =>
      simp [isFailure]
      omega
    | crashed =>
      simp [isFailure, Attempt.ended]
      omega
    | rejected =>
      simp only [isPending, Bool.and_true, Bool.toNat_false]
      omega
  | incrUser =>
    have hp : isPending s.authLoginLockThreshold a.username a = isFailure a.username a := by
      simp only [isPending, hs, Bool.and_true]
    simp only [Attempt.next, hs, Reply.write, Reply.applied, if_true, hp, counted_incrUser,
      userFails_incrUser]
    have hf : isFailure a.username { a with stage := .expireUser (r.userFails a.username + 1) } =
        isFailure a.username a := rfl
    simp only [isPending, hf, counted]
    by_cases hT : s.authLoginLockThreshold ≤ r.userFails a.username + 1
    · rw [if_pos hT, decide_eq_true hT, Bool.and_true]
      omega
    · rw [if_neg hT, decide_eq_false hT, Bool.and_false]
      have hle := Bool.toNat_le (isFailure a.username a)
      simp only [Bool.toNat_false]
      omega
  | expireUser n =>
    have hp : isPending s.authLoginLockThreshold a.username a =
        (isFailure a.username a && decide (s.authLoginLockThreshold ≤ n)) := by
      simp only [isPending, hs]
    simp only [Attempt.next, hs, Reply.write, Reply.applied, if_true, hp]
    have hr : counted s (r.expireUser s.authLoginFailWindowSeconds a.username) a.username =
        counted s r a.username := by
      unfold counted
      rw [userFails_expireUser r a.username (by omega)]
    rw [hr]
    split
    · exact Nat.le_refl _
    · rw [failure_lockOrFail, pending_lockOrFail]
  | incrIp n =>
    have hp : isPending s.authLoginLockThreshold a.username a =
        (isFailure a.username a && decide (s.authLoginLockThreshold ≤ n)) := by
      simp only [isPending, hs]
    simp only [Attempt.next, hs, Reply.write, Reply.applied, if_true, hp]
    exact Nat.le_refl _
  | expireIp n =>
    have hp : isPending s.authLoginLockThreshold a.username a =
        (isFailure a.username a && decide (s.authLoginLockThreshold ≤ n)) := by
      simp only [isPending, hs]
    simp only [Attempt.next, hs, Reply.write, Reply.applied, if_true, hp]
    rw [failure_lockOrFail, pending_lockOrFail]
    exact Nat.le_refl _
  | setexLock =>
    simp only [Attempt.next, hs, Reply.write, Reply.applied, if_true] at hl'
    rw [getLock_setexLock r a.username (by omega)] at hl'
    cases hl'
  | deleteFails =>
    have hp : isPending s.authLoginLockThreshold a.username a = false := by
      simp only [isPending, hs, Bool.and_false]
    simp only [Attempt.next, hs, Reply.write, Reply.applied, if_true] at hc ⊢
    have hzero : counted s r a.username = 0 := by
      cases hn : live r.now (r.failUser a.username) with
      | none => simp only [counted, Redis.userFails, hn, Option.getD_none, Nat.zero_min]
      | some n =>
        have hx := hc (by rw [hn]; rfl)
        simp only [Redis.deleteFails, update_self] at hx
        cases hx
    rw [hzero, hp]
    simp only [isFailure, Bool.toNat_false]
    omega
  | deleteLock =>
    have hp : isPending s.authLoginLockThreshold a.username a = false := by
      simp only [isPending, hs, Bool.and_false]
    simp only [Attempt.next, hs, Reply.write, Reply.applied, if_true, hp]
    exact Nat.le_add_right _ _
  | ended result =>
    simp only [Attempt.next, hs]
    exact Nat.le_refl _

/-- The lock appears with a step that changes nothing else that is counted. -/
theorem next_setting (hl : r.getLock a.username = false)
    (hl' : (a.next s r .answered v).1.getLock a.username = true) :
    isFailure a.username (a.next s r .answered v).2 = isFailure a.username a ∧
      isUnverified a.username (a.next s r .answered v).2 = isUnverified a.username a := by
  cases hs : a.stage with
  | setexLock =>
    have hv : isUnverified a.username a = false := by simp only [isUnverified, hs, Bool.and_false]
    rw [hv]
    simp only [Attempt.next, hs]
    exact ⟨rfl, Bool.and_false _⟩
  | deleteLock =>
    simp only [Attempt.next, hs, Reply.write, Reply.applied, if_true, Redis.getLock, Redis.deleteLock,
      update_self] at hl'
    cases hl'
  | getLock =>
    simp only [Attempt.next, hs, hl, Bool.false_eq_true, if_false] at hl'
  | getdelCaptcha =>
    have hr : (a.next s r .answered v).1.getLock a.username = r.getLock a.username := by
      simp only [Attempt.next, hs]
      split <;> rfl
    rw [hr, hl] at hl'
    cases hl'
  | verifyPassword =>
    have hr : (a.next s r .answered v).1.getLock a.username = r.getLock a.username := by
      simp only [Attempt.next, hs]
      cases v <;> rfl
    rw [hr, hl] at hl'
    cases hl'
  | getUserFails =>
    have hr : (a.next s r .answered v).1.getLock a.username = r.getLock a.username := by
      simp only [Attempt.next, hs]
    rw [hr, hl] at hl'
    cases hl'
  | getIpFails n =>
    have hr : (a.next s r .answered v).1.getLock a.username = r.getLock a.username := by
      simp only [Attempt.next, hs]
    rw [hr, hl] at hl'
    cases hl'
  | incrUser =>
    have hr : (a.next s r .answered v).1.getLock a.username = r.getLock a.username := by
      simp only [Attempt.next, hs]
      rfl
    rw [hr, hl] at hl'
    cases hl'
  | expireUser n =>
    have hr : (a.next s r .answered v).1.getLock a.username = r.getLock a.username := by
      simp only [Attempt.next, hs]
      rfl
    rw [hr, hl] at hl'
    cases hl'
  | incrIp n =>
    have hr : (a.next s r .answered v).1.getLock a.username = r.getLock a.username := by
      simp only [Attempt.next, hs]
      rfl
    rw [hr, hl] at hl'
    cases hl'
  | expireIp n =>
    have hr : (a.next s r .answered v).1.getLock a.username = r.getLock a.username := by
      simp only [Attempt.next, hs]
      rfl
    rw [hr, hl] at hl'
    cases hl'
  | deleteFails =>
    have hr : (a.next s r .answered v).1.getLock a.username = r.getLock a.username := by
      simp only [Attempt.next, hs]
      rfl
    rw [hr, hl] at hl'
    cases hl'
  | ended result =>
    have hr : (a.next s r .answered v).1.getLock a.username = r.getLock a.username := by
      simp only [Attempt.next, hs]
    rw [hr, hl] at hl'
    cases hl'

/-- Once the lock is there, every failure is of a login that had read it before. -/
theorem next_locked (hl : r.getLock a.username = true) :
    (isFailure a.username (a.next s r .answered v).2).toNat +
        (isUnverified a.username (a.next s r .answered v).2).toNat ≤
      (isFailure a.username a).toNat + (isUnverified a.username a).toNat := by
  cases hs : a.stage with
  | getLock =>
    simp only [Attempt.next, hs, hl, if_true, isUnverified, Bool.and_false, Bool.toNat_false]
    exact Nat.le_refl _
  | getUserFails =>
    have hk := checked_next (s := s) (v := v) r (.inl hs)
    rw [hk.failure]
    exact Nat.add_le_add_left (unverified_le_of_true (by simp [isUnverified, hs])) _
  | getIpFails n =>
    have hk := checked_next (s := s) (v := v) r (.inr (.inl ⟨n, hs⟩))
    rw [hk.failure]
    exact Nat.add_le_add_left (unverified_le_of_true (by simp [isUnverified, hs])) _
  | getdelCaptcha =>
    have hk := checked_next (s := s) (v := v) r (.inr (.inr hs))
    rw [hk.failure]
    exact Nat.add_le_add_left (unverified_le_of_true (by simp [isUnverified, hs])) _
  | verifyPassword =>
    have hv : isUnverified a.username a = true := by simp [isUnverified, hs]
    have hle : ∀ b : Attempt, isUnverified a.username b = false →
        (isFailure a.username b).toNat + (isUnverified a.username b).toNat ≤
          (isFailure a.username a).toNat + (isUnverified a.username a).toNat := by
      intro b hb
      have hb' := Bool.toNat_le (isFailure a.username b)
      rw [hb, hv, Bool.toNat_false, Bool.toNat_true]
      omega
    refine hle _ ?_
    simp only [Attempt.next, hs]
    cases v <;> exact Bool.and_false _
  | incrUser =>
    simp only [Attempt.next, hs, if_true, isUnverified, Bool.and_false, Bool.toNat_false]
    exact Nat.le_refl _
  | expireUser n =>
    simp only [Attempt.next, hs, if_true]
    split
    · simp only [isUnverified, Bool.and_false, Bool.toNat_false]
      exact Nat.le_add_right _ _
    · rw [failure_lockOrFail, unverified_lockOrFail]
      exact Nat.le_add_right _ _
  | incrIp n =>
    simp only [Attempt.next, hs, if_true, isUnverified, Bool.and_false, Bool.toNat_false]
    exact Nat.le_refl _
  | expireIp n =>
    simp only [Attempt.next, hs, if_true]
    rw [failure_lockOrFail, unverified_lockOrFail]
    exact Nat.le_add_right _ _
  | setexLock =>
    simp only [Attempt.next, hs, Attempt.failed, Attempt.ended, isUnverified, Bool.and_false,
      Bool.toNat_false]
    exact Nat.le_refl _
  | deleteFails =>
    simp only [Attempt.next, hs, if_true, isUnverified, Bool.and_false, Bool.toNat_false]
    exact Nat.le_refl _
  | deleteLock =>
    simp only [Attempt.next, hs, Attempt.ended, isUnverified, Bool.and_false, Bool.toNat_false]
    exact Nat.le_refl _
  | ended result =>
    simp only [Attempt.next, hs]
    exact Nat.le_refl _

end Step

section Frame

variable (s r) (reply : Reply)

theorem lockOrFail_username (a : Attempt) (n : ℕ) : (a.lockOrFail s n).username = a.username := by
  unfold Attempt.lockOrFail
  split <;> rfl

theorem next_username (h : reply = .answered) : (a.next s r reply v).2.username = a.username := by
  subst h
  cases hs : a.stage with
  | getUserFails => exact (checked_next r (.inl hs)).username
  | getIpFails n => exact (checked_next r (.inr (.inl ⟨n, hs⟩))).username
  | getdelCaptcha => exact (checked_next r (.inr (.inr hs))).username
  | getLock =>
    simp only [Attempt.next, hs]
    split <;> rfl
  | verifyPassword =>
    simp only [Attempt.next, hs]
    cases v <;> rfl
  | expireUser n =>
    simp only [Attempt.next, hs, if_true]
    split
    · rfl
    · rw [lockOrFail_username]
  | expireIp n =>
    simp only [Attempt.next, hs, if_true, lockOrFail_username]
  | _ =>
    simp only [Attempt.next, hs, if_true, Attempt.failed, Attempt.ended]

structure SameKeys (u : String) (r r' : Redis) : Prop where
  now : r'.now = r.now
  failUser : r'.failUser u = r.failUser u
  lockUser : r'.lockUser u = r.lockUser u

theorem SameKeys.refl (u : String) (r : Redis) : SameKeys u r r := ⟨rfl, rfl, rfl⟩

theorem sameKeys_write {f : Redis → Redis} (h : SameKeys u r (f r)) :
    SameKeys u r (reply.write f r) := by
  unfold Reply.write
  split
  · exact h
  · exact .refl u r

theorem sameKeys_incrUser (h : u ≠ a.username) : SameKeys u r (r.incrUser a.username) :=
  ⟨rfl, update_of_ne h _ _, rfl⟩

theorem next_sameKeys (h : u ≠ a.username) : SameKeys u r (a.next s r reply v).1 := by
  cases hs : a.stage with
  | getLock =>
    cases reply with
    | answered =>
      simp only [Attempt.next, hs]
      split <;> exact .refl u r
    | raised applied =>
      simp only [Attempt.next, hs]
      exact .refl u r
  | getUserFails =>
    cases reply <;> simp only [Attempt.next, hs] <;> exact .refl u r
  | getIpFails n =>
    cases reply <;> simp only [Attempt.next, hs] <;> exact .refl u r
  | getdelCaptcha =>
    cases reply with
    | answered =>
      simp only [Attempt.next, hs]
      split <;> exact ⟨rfl, rfl, rfl⟩
    | raised applied =>
      simp only [Attempt.next, hs]
      exact sameKeys_write r _ ⟨rfl, rfl, rfl⟩
  | verifyPassword =>
    simp only [Attempt.next, hs]
    cases v <;> exact .refl u r
  | incrUser =>
    simp only [Attempt.next, hs]
    exact sameKeys_write r _ (sameKeys_incrUser r h)
  | expireUser n =>
    simp only [Attempt.next, hs]
    exact sameKeys_write r _ ⟨rfl, update_of_ne h _ _, rfl⟩
  | incrIp n =>
    simp only [Attempt.next, hs]
    exact sameKeys_write r _ ⟨rfl, rfl, rfl⟩
  | expireIp n =>
    simp only [Attempt.next, hs]
    exact sameKeys_write r _ ⟨rfl, rfl, rfl⟩
  | setexLock =>
    simp only [Attempt.next, hs]
    exact sameKeys_write r _ ⟨rfl, rfl, update_of_ne h _ _⟩
  | deleteFails =>
    simp only [Attempt.next, hs]
    exact sameKeys_write r _ ⟨rfl, update_of_ne h _ _, rfl⟩
  | deleteLock =>
    simp only [Attempt.next, hs]
    exact sameKeys_write r _ ⟨rfl, rfl, update_of_ne h _ _⟩
  | ended result =>
    simp only [Attempt.next, hs]
    exact .refl u r

end Frame

/-- The logins of `u` that failed, `F` of them before the run. -/
structure Bounded (s : GuardSettings) (u : String) (F C : ℕ) (S : State) : Prop where
  inFlight : inFlight u S ≤ C
  unlocked : S.redis.getLock u = false →
    failures u S ≤ F + counted s S.redis u + pendingCount s.authLoginLockThreshold u S
  locked : S.redis.getLock u = true →
    failures u S + unverified u S ≤ F + (s.authLoginLockThreshold - 1) + C

variable {F : ℕ}

theorem bounded_start (h : LockBound.inFlight u S ≤ C) : Bounded s u (failures u S) C S where
  inFlight := h
  unlocked _ := by omega
  locked _ := by
    have hle := pending_add_unverified_le s.authLoginLockThreshold u S
    omega

theorem Bounded.le (h : Bounded s u F C S) :
    failures u S ≤ F + (s.authLoginLockThreshold - 1) + C := by
  have hle := pending_add_unverified_le s.authLoginLockThreshold u S
  have hin := h.inFlight
  cases hl : S.redis.getLock u with
  | true =>
    have hb := h.locked hl
    omega
  | false =>
    have hb := h.unlocked hl
    have hc : counted s S.redis u ≤ s.authLoginLockThreshold - 1 := Nat.min_le_right _ _
    omega

/-- A step that neither counts nor locks. -/
theorem Bounded.frame (h : Bounded s u F C S) (hin : LockBound.inFlight u S' ≤ C)
    (hf : failures u S' = failures u S) (hv : unverified u S' = unverified u S)
    (hp : pendingCount s.authLoginLockThreshold u S' = pendingCount s.authLoginLockThreshold u S)
    (hl : S'.redis.getLock u = S.redis.getLock u)
    (hc : S'.redis.userFails u = S.redis.userFails u) : Bounded s u F C S' where
  inFlight := hin
  unlocked hl' := by
    have hb := h.unlocked (hl ▸ hl')
    unfold counted at hb ⊢
    rw [hf, hp, hc]
    exact hb
  locked hl' := by
    rw [hf, hv]
    exact h.locked (hl ▸ hl')

theorem SameKeys.getLock {r' : Redis} (h : SameKeys u r r') : r'.getLock u = r.getLock u := by
  unfold Redis.getLock
  rw [h.now, h.lockUser]

theorem SameKeys.userFails {r' : Redis} (h : SameKeys u r r') : r'.userFails u = r.userFails u := by
  unfold Redis.userFails
  rw [h.now, h.failUser]

theorem countP_set_of_false {α : Type} {p : α → Bool} {l : List α} {a b : α}
    (h : l[i]? = some a) (ha : p a = false) (hb : p b = false) :
    (l.set i b).countP p = l.countP p := by
  have hset := countP_set_add (p := p) (b := b) h
  rw [ha, hb] at hset
  exact hset

theorem not_isFailure_of_ne (h : u ≠ a.username) : isFailure u a = false := by
  unfold isFailure
  rw [decide_eq_false h.symm, Bool.false_and]

theorem not_isPending_of_ne (h : u ≠ a.username) : isPending T u a = false := by
  unfold isPending
  rw [not_isFailure_of_ne h, Bool.false_and]

theorem not_isUnverified_of_ne (h : u ≠ a.username) : isUnverified u a = false := by
  unfold isUnverified
  rw [decide_eq_false h.symm, Bool.false_and]

/-- A login of somebody else. -/
theorem bounded_step_of_ne (hb : Bounded s u F C S) (ha : S.attempts[i]? = some a)
    (hu : u ≠ a.username) (h : S.next s (.step i .answered v) = some S')
    (hin : LockBound.inFlight u S' ≤ C) : Bounded s u F C S' := by
  simp only [State.next, ha, Option.map_some, Option.some.injEq] at h
  subst h
  have hu' : u ≠ (a.next s S.redis .answered v).2.username := by
    rw [next_username s S.redis _ rfl]
    exact hu
  have hk := next_sameKeys s S.redis (v := v) .answered hu
  refine hb.frame hin ?_ ?_ ?_ hk.getLock hk.userFails
  · exact countP_set_of_false ha (not_isFailure_of_ne hu) (not_isFailure_of_ne hu')
  · exact countP_set_of_false ha (not_isUnverified_of_ne hu) (not_isUnverified_of_ne hu')
  · exact countP_set_of_false ha (not_isPending_of_ne hu) (not_isPending_of_ne hu')

theorem of_not_clears (h : clears u S S' = false) :
    (S.redis.getLock u = true → S'.redis.getLock u = true) ∧
      ((live S.redis.now (S.redis.failUser u)).isSome →
        (live S'.redis.now (S'.redis.failUser u)).isSome) := by
  obtain ⟨h₁, h₂⟩ := Bool.or_eq_false_iff.1 h
  refine ⟨fun hl ↦ ?_, fun hc ↦ ?_⟩
  · rw [hl, Bool.true_and, Bool.not_eq_false'] at h₁
    exact h₁
  · rw [hc, Bool.true_and, Bool.not_eq_false'] at h₂
    exact h₂

/-- A login of `u`. -/
theorem bounded_step_of_eq (hb : Bounded s a.username F C S) (ha : S.attempts[i]? = some a)
    (h : S.next s (.step i .answered v) = some S') (hc : clears a.username S S' = false)
    (hin : LockBound.inFlight a.username S' ≤ C) : Bounded s a.username F C S' := by
  obtain ⟨hlock, hcount⟩ := of_not_clears hc
  simp only [State.next, ha, Option.map_some, Option.some.injEq] at h
  have hf := countP_set_add (p := isFailure a.username)
    (b := (a.next s S.redis .answered v).2) ha
  have hv := countP_set_add (p := isUnverified a.username)
    (b := (a.next s S.redis .answered v).2) ha
  have hp := countP_set_add (p := isPending s.authLoginLockThreshold a.username)
    (b := (a.next s S.redis .answered v).2) ha
  have hle := pending_add_unverified_le s.authLoginLockThreshold a.username S
  have hinS := hb.inFlight
  have hmin : counted s S.redis a.username ≤ s.authLoginLockThreshold - 1 := Nat.min_le_right _ _
  subst h
  refine ⟨hin, fun hl' ↦ ?_, fun hl' ↦ ?_⟩
  · have hl : S.redis.getLock a.username = false := by
      cases hl : S.redis.getLock a.username with
      | false => rfl
      | true => exact (hlock hl).symm.trans hl'
    have hstep := next_open s S.redis (v := v) hl hl' hcount
    have hbound := hb.unlocked hl
    unfold failures pendingCount at hbound ⊢
    dsimp only at hl' ⊢
    omega
  · cases hl : S.redis.getLock a.username with
    | false =>
      obtain ⟨hf', hv'⟩ := next_setting s S.redis (v := v) hl hl'
      have hbound := hb.unlocked hl
      rw [hf'] at hf
      rw [hv'] at hv
      unfold failures at hbound
      unfold failures unverified
      dsimp only
      unfold unverified at hle
      omega
    | true =>
      have hstep := next_locked s S.redis (v := v) hl
      have hbound := hb.locked hl
      unfold failures unverified at hbound ⊢
      dsimp only
      omega

theorem live_add {α : Type} {now d : ℕ} {e : Option (Entry α)} (h : (live (now + d) e).isSome) :
    live now e = live (now + d) e := by
  cases e with
  | none => rfl
  | some x =>
    cases hx : x.expiresAt with
    | none => simp [live, hx]
    | some t =>
      simp only [live, Option.bind_some, hx, Option.all_some, decide_eq_true_eq] at h ⊢
      by_cases ht : now + d < t
      · have ht' : now < t := by omega
        rw [if_pos ht, if_pos ht']
      · rw [if_neg ht] at h
        cases h

/-- Time passes, and nothing of `u` expires. -/
theorem bounded_tick {d : ℕ} (hb : Bounded s u F C S) (h : S.next s (.tick d) = some S')
    (hc : clears u S S' = false) (hin : LockBound.inFlight u S' ≤ C) : Bounded s u F C S' := by
  obtain ⟨hlock, hcount⟩ := of_not_clears hc
  cases h
  refine hb.frame hin rfl rfl rfl ?_ ?_
  · cases hl : S.redis.getLock u with
    | true => exact hlock hl
    | false =>
      cases hl' : (live (S.redis.now + d) (S.redis.lockUser u)).isSome with
      | false => exact hl'
      | true =>
        have hlive := live_add hl'
        unfold Redis.getLock at hl
        rw [hlive, hl'] at hl
        cases hl
  · unfold Redis.userFails
    cases hn : live S.redis.now (S.redis.failUser u) with
    | some n =>
      have hsome := hcount (by rw [hn]; rfl)
      rw [← live_add hsome, hn]
    | none =>
      cases hn' : live (S.redis.now + d) (S.redis.failUser u) with
      | none => dsimp only
      | some n =>
        have hlive := live_add (d := d) (e := S.redis.failUser u) (by rw [hn']; rfl)
        rw [hn, hn'] at hlive
        cases hlive

/-- A step between two clearings. -/
theorem bounded_next {label : Label} (hb : Bounded s u F C S) (h : S.next s label = some S')
    (hP : Between u C S label S') : Bounded s u F C S' := by
  obtain ⟨hhealthy, hc, hin⟩ := hP
  cases label with
  | arrive username captchaId captchaAnswer clientIp =>
    cases h
    refine hb.frame hin ?_ ?_ ?_ rfl rfl
    · simp [failures, isFailure]
    · simp [unverified, isUnverified]
    · simp [pendingCount, isPending]
  | step i reply v =>
    have hr : reply = .answered := of_decide_eq_true hhealthy
    subst hr
    cases ha : S.attempts[i]? with
    | none =>
      simp only [State.next, ha] at h
      cases h
    | some a =>
      by_cases hu : u = a.username
      · subst hu
        exact bounded_step_of_eq hb ha h hc hin
      · exact bounded_step_of_ne hb ha hu h hin
  | issue captchaId x y reply =>
    simp only [State.next] at h
    split at h
    · cases h
    · cases h
      have hk : SameKeys u S.redis (reply.write (fun r ↦
          r.setexCaptcha s.authCaptchaTtlSeconds captchaId (answerText x y)) S.redis) :=
        sameKeys_write S.redis reply ⟨rfl, rfl, rfl⟩
      exact hb.frame hin rfl rfl rfl hk.getLock hk.userFails
  | tick d => exact bounded_tick hb h hc hin

theorem bounded_runs (h : LockBound.inFlight u S ≤ C) (hr : Runs s (Between u C) S S') :
    Bounded s u (failures u S) C S' := by
  induction hr with
  | refl => exact bounded_start h
  | step label hr hn hP ih => exact bounded_next ih hn hP

/-- Between two clearings no more logins fail than the threshold without one, and those that
are in flight at once. -/
theorem failures_le_of_runs (s : GuardSettings) (u : String) (C : ℕ) (S S' : State)
    (h : LockBound.inFlight u S ≤ C) (hr : Runs s (Between u C) S S') :
    failures u S' ≤ failures u S + (s.authLoginLockThreshold - 1) + C :=
  (bounded_runs h hr).le

/-- A login of `bob`, the `i`-th, up to its read of the counter. -/
def enter (i : ℕ) : List Label :=
  [.arrive "bob" none none none, .step i .answered .rejected, .step i .answered .rejected]

def sixAtOnce : List Label :=
  (List.range 6).flatMap enter ++ (List.range 6).map (.step · .answered .rejected)

instance (u : String) (C : ℕ) (S : State) (label : Label) (S' : State) :
    Decidable (Between u C S label S') := by
  unfold Between
  infer_instance

def betweenCheck (u : String) (C : ℕ) (S : State) (label : Label) (S' : State) : Bool :=
  decide (Between u C S label S')

theorem between_of_check (S : State) (label : Label) (S' : State)
    (h : betweenCheck u C S label S' = true) : Between u C S label S' := of_decide_eq_true h

theorem exists_sixAtOnce : ∃ S', Runs defaults (Between "bob" 6) emptyStore S' ∧
    (S'.attempts.all (fun a ↦ decide (a.verdict ≠ some .passed)) &&
      decide (defaults.authLoginLockThreshold < failures "bob" S')) = true :=
  exists_runs_of_follow (s := defaults) (S := emptyStore) (betweenCheck "bob" 6) sixAtOnce
    between_of_check (by decide +kernel)

theorem failures_le_of_runs_sixAtOnce : ∃ S', Runs defaults (Between "bob" 6) emptyStore S' ∧
    failures "bob" S' ≤ failures "bob" emptyStore + (defaults.authLoginLockThreshold - 1) + 6 := by
  obtain ⟨S', hr, -⟩ := exists_sixAtOnce
  exact ⟨S', hr, failures_le_of_runs defaults "bob" 6 emptyStore S' (by decide) hr⟩

/-- Redis answers, nothing is cleared, nobody logs in, and six logins fail. -/
theorem not_failures_le_threshold :
    ∃ S', Runs defaults (Between "bob" 6) emptyStore S' ∧
      S'.attempts.all (fun a ↦ decide (a.verdict ≠ some .passed)) = true ∧
      defaults.authLoginLockThreshold < failures "bob" S' := by
  obtain ⟨S', hr, hp⟩ := exists_sixAtOnce
  obtain ⟨hn, hf⟩ := (Bool.and_eq_true _ _).mp hp
  exact ⟨S', hr, hn, of_decide_eq_true hf⟩

end AdminPlatform.Auth.LockBound
