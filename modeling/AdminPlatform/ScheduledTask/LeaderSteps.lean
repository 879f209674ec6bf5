import AdminPlatform.ScheduledTask.LeaderElection

namespace AdminPlatform.ScheduledTask.LeaderSteps

open LeaderElection

variable {w w' : Worker} {l : NamedLock} {b c : ℕ}

theorem getLock_of_none (h : l.owner = none) : l.getLock c = (⟨some c, 1⟩, true) := by
  rw [NamedLock.getLock, h]

theorem getLock_of_self (h : l.owner = some c) : l.getLock c = (⟨some c, l.depth + 1⟩, true) := by
  rw [NamedLock.getLock, h]
  exact if_pos rfl

theorem getLock_of_other (h : l.owner = some b) (hne : b ≠ c) : l.getLock c = (l, false) := by
  rw [NamedLock.getLock, h]
  exact if_neg hne

theorem getLock_owner : (l.getLock c).1.owner = some b ↔ l.owner = some b ∨ l.owner = none ∧ b = c := by
  cases h : l.owner with
  | none =>
    rw [getLock_of_none h]
    simp only [Option.some.injEq, reduceCtorEq, false_or, true_and, eq_comm]
  | some d =>
    by_cases he : d = c
    · rw [he] at h
      rw [getLock_of_self h, he]
      simp only [reduceCtorEq, false_and, or_false]
    · rw [getLock_of_other h he, h]
      simp only [reduceCtorEq, false_and, or_false]

theorem getLock_got : (l.getLock c).2 = true ↔ (l.getLock c).1.owner = some c := by
  cases h : l.owner with
  | none =>
    rw [getLock_of_none h]
    exact iff_of_true rfl rfl
  | some d =>
    by_cases he : d = c
    · rw [he] at h
      rw [getLock_of_self h]
      exact iff_of_true rfl rfl
    · rw [getLock_of_other h he, h]
      exact iff_of_false Bool.false_ne_true fun hc ↦ he (Option.some.inj hc)

/-- A lock is taken again only by its owner. -/
theorem getLock_depth (h : 1 < (l.getLock c).1.depth) (hb : (l.getLock c).1.owner = some b) :
    l.owner = some b ∧ (1 < l.depth ∨ b = c) := by
  rcases getLock_owner.1 hb with ho | ⟨ho, -⟩
  · refine ⟨ho, ?_⟩
    by_cases he : b = c
    · exact .inr he
    · rw [getLock_of_other ho he] at h
      exact .inl h
  · rw [getLock_of_none ho] at h
    exact absurd h (Nat.lt_irrefl 1)

theorem releaseLock_owner (h : (l.releaseLock c).owner = some b) :
    l.owner = some b ∧ (b = c → 1 < l.depth) := by
  unfold NamedLock.releaseLock at h
  by_cases hc : l.owner = some c
  · rw [if_pos hc] at h
    by_cases hd : l.depth ≤ 1
    · rw [if_pos hd] at h
      cases h
    · rw [if_neg hd] at h
      obtain rfl := Option.some.inj h
      exact ⟨hc, fun _ ↦ Nat.lt_of_not_le hd⟩
  · rw [if_neg hc] at h
    exact ⟨h, fun hb ↦ absurd (hb ▸ h) hc⟩

theorem releaseLock_of_ne (h : l.owner = some b) (hne : b ≠ c) : l.releaseLock c = l := by
  have hc : l.owner ≠ some c := fun hc ↦ hne (Option.some.inj (h.symm.trans hc))
  rw [NamedLock.releaseLock, if_neg hc]

theorem releaseLock_depth (h : 1 < (l.releaseLock c).depth) : 1 < l.depth := by
  unfold NamedLock.releaseLock at h
  split at h
  · split at h
    · exact absurd h (by decide)
    · exact Nat.lt_of_lt_of_le h (Nat.sub_le _ _)
  · exact h

theorem endSession_owner : (l.endSession c).owner = some b ↔ l.owner = some b ∧ b ≠ c := by
  unfold NamedLock.endSession
  by_cases h : l.owner = some c
  · rw [if_pos h, h]
    refine iff_of_false nofun ?_
    rintro ⟨hb, hne⟩
    exact hne (Option.some.inj hb).symm
  · rw [if_neg h]
    exact ⟨fun hb ↦ ⟨hb, fun he ↦ h (he ▸ hb)⟩, And.left⟩

theorem endSession_depth (h : 1 < (l.endSession c).depth) : 1 < l.depth := by
  unfold NamedLock.endSession at h
  split at h
  · exact absurd h (by decide)
  · exact h

/-- What a phase says of `_is_leader`. -/
def standing : Phase → Option Bool
  | .idle => some false
  | .connect => some false
  | .getLock _ => some false
  | .commitLock _ _ => some false
  | .close _ _ => some false
  | .stopped => some false
  | .sleep => none
  | .drain => none
  | _ => some true

def mayRun : Phase → Bool
  | .reconcile => true
  | .sleep => true
  | .isUsedLock => true
  | .commitVerify _ => true
  | _ => false

def attempt : Phase → Option ℕ
  | .getLock conn => some conn
  | .commitLock conn _ => some conn
  | .close conn _ => some conn
  | _ => none

structure Ok (w : Worker) : Prop where
  leader : w.isLeader = w.leaderConn.isSome
  standing : ∀ b, standing w.phase = some b → w.isLeader = b
  scheduler : w.scheduler = true → mayRun w.phase = true ∧ w.isLeader = true

def Has (w : Worker) (c : ℕ) : Prop :=
  c ∈ w.pool ∨ w.leaderConn = some c ∨ attempt w.phase = some c ∨ c ∈ w.lost

def held (w : Worker) : Option ℕ :=
  match w.phase with
  | .getLock conn => if w.reply = some true then some conn else none
  | .commitLock conn got => if got then some conn else none
  | .releaseLock => if w.reply = none then w.leaderConn else none
  | .commitRelease => none
  | .closeLeader => none
  | _ => w.leaderConn

/-- A worker moves on by itself. It keeps what it holds, or counts it as lost. -/
structure Quiet (w w' : Worker) : Prop where
  has : ∀ c, Has w' c → Has w c
  held : ∀ c, held w' = some c → held w = some c
  kept : ∀ c, LeaderSteps.held w = some c → LeaderSteps.held w' = some c ∨ c ∈ w'.lost
  lost : ∀ c ∈ w.lost, c ∈ w'.lost
  ok : Ok w'

structure Steady (w w' : Worker) : Prop extends Quiet w w' where
  leaderConn : ∀ c, w'.leaderConn = some c → w.leaderConn = some c ∨ attempt w.phase = some c
  attempt : ∀ c, LeaderSteps.attempt w'.phase = some c → LeaderSteps.attempt w.phase = some c
  cycles : w'.cycles = w.cycles

variable {p : Phase} {keep : Bool}

theorem Ok.await (h : Ok w) (hs : ∀ b, LeaderSteps.standing p = some b → w.isLeader = b)
    (hr : w.scheduler = true → mayRun p = true) : Ok (w.await p) :=
  ⟨h.leader, hs, fun hw ↦ ⟨hr hw, (h.scheduler hw).2⟩⟩

theorem Ok.off (h : Ok w) {p' : Phase} (hp : w.phase = p') (hr : mayRun p' = false) : w.scheduler ≠ true := by
  intro hw
  have hmay := (h.scheduler hw).1
  rw [hp, hr] at hmay
  cases hmay

theorem Ok.stop (h : Ok w) : Ok w.stop := ⟨h.leader, nofun, nofun⟩

theorem Ok.outside (h : Ok w) (hs : LeaderSteps.standing w.phase = some false) :
    w.isLeader = false ∧ w.leaderConn = none := by
  have hl := h.standing _ hs
  refine ⟨hl, ?_⟩
  rw [← Option.isNone_iff_eq_none, ← Option.not_isSome, ← h.leader, hl]
  rfl

theorem Ok.inside (h : Ok w) (hs : LeaderSteps.standing w.phase = some true) : ∃ c, w.leaderConn = some c := by
  rw [← Option.isSome_iff_exists, ← h.leader]
  exact h.standing _ hs

theorem Ok.attempt (h : Ok w) (ha : attempt w.phase = some c) : w.leaderConn = none := by
  apply And.right (h.outside _)
  cases hp : w.phase <;> rw [hp] at ha
  case getLock => rfl
  case commitLock => rfl
  case close => rfl
  all_goals cases ha

theorem Quiet.same (hc : w'.leaderConn = w.leaderConn) (hp : w'.pool = w.pool) (hl : w'.lost = w.lost)
    (ha : ∀ c, attempt w'.phase = some c → attempt w.phase = some c)
    (hh : LeaderSteps.held w' = LeaderSteps.held w)
    (hok : Ok w') : Quiet w w' := by
  refine ⟨fun c h ↦ ?_, fun c h ↦ hh ▸ h, fun c h ↦ .inl (hh ▸ h), fun c h ↦ hl ▸ h, hok⟩
  rcases h with h | h | h | h
  · exact .inl (hp ▸ h)
  · exact .inr (.inl (hc ▸ h))
  · exact .inr (.inr (.inl (ha c h)))
  · exact .inr (.inr (.inr (hl ▸ h)))

theorem Steady.same (hc : w'.leaderConn = w.leaderConn) (hp : w'.pool = w.pool) (hl : w'.lost = w.lost)
    (ha : ∀ c, LeaderSteps.attempt w'.phase = some c → LeaderSteps.attempt w.phase = some c)
    (hh : LeaderSteps.held w' = LeaderSteps.held w) (hn : w'.cycles = w.cycles) (hok : Ok w') : Steady w w' :=
  ⟨.same hc hp hl ha hh hok, fun _ h ↦ .inl (hc ▸ h), ha, hn⟩

/-- What a worker lets go of, it had or had under way. -/
theorem Steady.lose {cs : List ℕ} (hcs : ∀ c ∈ cs, Has w c) (hkept : ∀ c, LeaderSteps.held w = some c → c ∈ cs)
    (hc : w'.leaderConn = w.leaderConn ∨ w'.leaderConn = none) (hp : ∀ c ∈ w'.pool, c ∈ w.pool)
    (hl : w'.lost = cs ++ w.lost)
    (ha : ∀ c, LeaderSteps.attempt w'.phase = some c → LeaderSteps.attempt w.phase = some c)
    (hh : ∀ c, LeaderSteps.held w' = some c → LeaderSteps.held w = some c) (hn : w'.cycles = w.cycles)
    (hok : Ok w') : Steady w w' := by
  have hleader : ∀ c, w'.leaderConn = some c → w.leaderConn = some c := by
    intro c h
    rcases hc with hc | hc
    · exact hc ▸ h
    · rw [hc] at h
      cases h
  refine ⟨⟨fun c h ↦ ?_, hh, fun c h ↦ .inr ?_, fun c h ↦ ?_, hok⟩, fun c h ↦ .inl (hleader c h), ha, hn⟩
  · rcases h with h | h | h | h
    · exact .inl (hp c h)
    · exact .inr (.inl (hleader c h))
    · exact .inr (.inr (.inl (ha c h)))
    · rw [hl] at h
      rcases List.mem_append.1 h with h | h
      · exact hcs c h
      · exact .inr (.inr (.inr h))
  · rw [hl]
    exact List.mem_append_left _ (hkept c h)
  · rw [hl]
    exact List.mem_append_right _ h

theorem Quiet.trans {w'' : Worker} (h : Quiet w w') (h' : Quiet w' w'') : Quiet w w'' := by
  refine ⟨fun c hc ↦ h.has c (h'.has c hc), fun c hc ↦ h.held c (h'.held c hc), fun c hc ↦ ?_,
    fun c hc ↦ h'.lost c (h.lost c hc), h'.ok⟩
  rcases h.kept c hc with hc | hc
  · exact h'.kept c hc
  · exact .inr (h'.lost c hc)

theorem Steady.trans {w'' : Worker} (h : Steady w w') (h' : Steady w' w'') : Steady w w'' := by
  refine ⟨h.toQuiet.trans h'.toQuiet, fun c hc ↦ ?_, fun c hc ↦ h.attempt c (h'.attempt c hc),
    h'.cycles.trans h.cycles⟩
  rcases h'.leaderConn c hc with hc | hc
  · exact h.leaderConn c hc
  · exact .inr (h.attempt c hc)

theorem steady_stop (h : Ok w) (hh : held w = w.leaderConn) : Steady w w.stop :=
  .same rfl rfl rfl nofun hh.symm rfl h.stop

theorem steady_sleep (h : Ok w) (hh : held w = w.leaderConn) : Steady w (w.await .sleep) :=
  .same rfl rfl rfl nofun hh.symm rfl (h.await nofun fun _ ↦ rfl)

theorem steady_returned (h : Ok w) (hh : held w = w.leaderConn) : Steady w w.returned :=
  .same rfl rfl rfl nofun hh.symm rfl ⟨h.leader, nofun, fun hw ↦ ⟨rfl, (h.scheduler hw).2⟩⟩

theorem steady_raised (h : Ok w) (hh : held w = w.leaderConn) : Steady w w.raised := by
  unfold Worker.raised
  split
  · exact steady_sleep h hh
  · exact steady_stop h hh

theorem steady_inside (h : Ok w) (hh : held w = w.leaderConn) (hs : standing w.phase = some true)
    (hp : standing p = some true) (hr : w.scheduler = true → mayRun p = true) (ha : attempt p = none)
    (hheld : held (w.await p) = w.leaderConn) : Steady w (w.await p) := by
  refine .same rfl rfl rfl (fun c hc ↦ ?_) (hheld.trans hh.symm) rfl (h.await (fun b hb ↦ ?_) hr)
  · exact absurd (ha.symm.trans hc) nofun
  · rw [h.standing _ hs]
    exact Option.some.inj (hp.symm.trans hb)

theorem steady_demote (h : Ok w) (hh : held w = w.leaderConn) (hs : standing w.phase = some true) :
    Steady w w.demote := by
  refine .same rfl rfl rfl nofun hh.symm rfl ⟨h.leader, fun b hb ↦ ?_, nofun⟩
  exact (h.standing _ hs).trans (Option.some.inj hb)

theorem steady_demoted (h : Ok w) (hp : w.phase = .invalidate) : Steady w w.demoted := by
  have hoff := h.off hp rfl
  have hh : held w = w.leaderConn := by rw [held, hp]
  refine .lose (fun c hc ↦ ?_) (fun c hc ↦ ?_) (.inr rfl) (fun c hc ↦ hc) rfl
    nofun nofun rfl ⟨rfl, nofun, fun hw ↦ absurd hw hoff⟩
  · exact .inr (.inl (Option.mem_toList.1 hc))
  · exact Option.mem_toList.2 (hh ▸ hc)

theorem steady_finished (h : w.scheduler ≠ true) (hh : held w = none) : Steady w w.finished := by
  refine .lose (fun c hc ↦ absurd hc List.not_mem_nil) (fun c hc ↦ ?_) (.inr rfl) (fun c hc ↦ hc) rfl
    nofun nofun rfl ⟨rfl, fun b hb ↦ Option.some.inj hb, fun hw ↦ absurd hw h⟩
  rw [hh] at hc
  cases hc

theorem steady_pooled (h : Ok w) (hc : Has w c) : Steady w (w.pooled c keep) := by
  unfold Worker.pooled
  split
  · refine ⟨⟨fun d hd ↦ ?_, fun _ hd ↦ hd, fun _ hd ↦ .inl hd, fun _ hd ↦ hd, ⟨h.leader, h.standing, h.scheduler⟩⟩,
      fun _ hd ↦ .inl hd, fun _ hd ↦ hd, rfl⟩
    rcases hd with hd | hd
    · rcases List.mem_cons.1 hd with rfl | hd
      · exact hc
      · exact .inl hd
    · exact .inr hd
  · exact .same rfl rfl rfl (fun _ hd ↦ hd) rfl rfl h

theorem pooled_phase : (w.pooled c keep).phase = w.phase := by
  unfold Worker.pooled
  split <;> rfl

theorem wake_cases (h : Ok w) (hw : w.wake = some w') : w.phase = .sleep ∧
    (w.isLeader = true ∧ w' = { w with cycles := w.cycles + 1 }.await .isUsedLock ∨
      w.isLeader = false ∧ w' = { w with cycles := w.cycles + 1 }.await .connect) := by
  unfold Worker.wake at hw
  split at hw
  · next hp =>
    refine ⟨hp, ?_⟩
    cases hl : w.isLeader with
    | false =>
      rw [if_neg (by simp only [hl, Bool.false_eq_true, not_false_eq_true])] at hw
      exact .inr ⟨rfl, (Option.some.inj hw).symm.trans (by rw [hl])⟩
    | true =>
      rw [if_pos hl] at hw
      split at hw
      · next hc =>
        have hsome := h.leader.symm.trans hl
        rw [show w.leaderConn = none from hc] at hsome
        cases hsome
      · exact .inl ⟨rfl, (Option.some.inj hw).symm.trans (by rw [hl])⟩
  · cases hw

theorem quiet_wake (h : Ok w) (hw : w.wake = some w') : Quiet w w' := by
  obtain ⟨hp, hcases⟩ := wake_cases h hw
  have hh : held w = w.leaderConn := by rw [held, hp]
  rcases hcases with ⟨hl, rfl⟩ | ⟨hl, rfl⟩
  · exact .same rfl rfl rfl nofun hh.symm
      ⟨h.leader, fun b hb ↦ hl.trans (Option.some.inj hb), fun _ ↦ ⟨rfl, hl⟩⟩
  · refine .same rfl rfl rfl nofun hh.symm ⟨h.leader, fun b hb ↦ hl.trans (Option.some.inj hb), fun hs ↦ ?_⟩
    exact absurd (hl.symm.trans (h.scheduler hs).2) Bool.false_ne_true

/-- An attempt that comes to nothing. -/
theorem steady_lost (hc : attempt w.phase = some c) (hh : ∀ d, held w = some d → d = c)
    (hleader : w'.leaderConn = w.leaderConn) (hpool : w'.pool = w.pool) (hlost : w'.lost = c :: w.lost)
    (ha : attempt w'.phase = none ∨ attempt w'.phase = some c) (hnone : held w' = none) (hn : w'.cycles = w.cycles)
    (hok : Ok w') : Steady w w' := by
  refine .lose (fun d hd ↦ ?_) (fun d hd ↦ List.mem_singleton.2 (hh d hd)) (.inl hleader)
    (fun d hd ↦ hpool ▸ hd) hlost (fun d hd ↦ ?_) (fun d hd ↦ ?_) hn hok
  · rw [List.mem_singleton.1 hd]
    exact .inr (.inr (.inl hc))
  · rcases ha with ha | ha
    · exact absurd (ha.symm.trans hd) nofun
    · exact hc.trans (ha.symm.trans hd)
  · rw [hnone] at hd
    cases hd

theorem steady_resume (h : Ok w) (hw : w.resume = some w') : Steady w w' := by
  unfold Worker.resume at hw
  split at hw
  · next conn got hp hr =>
    obtain rfl := Option.some.inj hw
    have hno := h.outside (by rw [hp]; rfl)
    refine .same rfl rfl rfl (fun c hc ↦ by rw [hp]; exact hc) ?_ rfl (h.await (fun b hb ↦ ?_) fun hs ↦ ?_)
    · rw [held, held, hp, hr]
      simp only [Worker.await, Option.some.injEq]
    · exact hno.1.trans (Option.some.inj hb)
    · exact absurd hs (h.off hp rfl)
  · next conn got reply hp hr =>
    obtain rfl := Option.some.inj hw
    have hno := h.outside (by rw [hp]; rfl)
    cases got with
    | true =>
      refine ⟨⟨fun c hc ↦ ?_, fun c hc ↦ ?_, fun c hc ↦ ?_, fun c hc ↦ hc,
        ⟨rfl, fun b hb ↦ Option.some.inj hb, fun hs ↦ ⟨rfl, rfl⟩⟩⟩, fun c hc ↦ .inr (by rw [hp]; exact hc),
        nofun, rfl⟩
      · rcases hc with hc | hc | hc | hc
        · exact .inl hc
        · refine .inr (.inr (.inl ?_))
          rw [hp]
          exact hc
        · cases hc
        · exact .inr (.inr (.inr hc))
      · rw [held, hp]
        exact hc
      · rw [held, hp] at hc
        exact .inl hc
    | false =>
      refine .same rfl rfl rfl (fun c hc ↦ by rw [hp]; exact hc) ?_ rfl (h.await (fun b hb ↦ ?_) fun hs ↦ ?_)
      · rw [held, held, hp]
        exact hno.2
      · exact hno.1.trans (Option.some.inj hb)
      · exact absurd hs (h.off hp rfl)
  · next hp =>
    obtain rfl := Option.some.inj hw
    exact steady_returned h (by rw [held, hp])
  · next ownsLock hp hr =>
    obtain rfl := Option.some.inj hw
    exact steady_inside h (by rw [held, hp]) (by rw [hp]; rfl) rfl (fun _ ↦ rfl) rfl rfl
  · next ownsLock reply hp hr =>
    obtain rfl := Option.some.inj hw
    cases ownsLock with
    | true => exact steady_inside h (by rw [held, hp]) (by rw [hp]; rfl) rfl (fun _ ↦ rfl) rfl rfl
    | false => exact steady_demote h (by rw [held, hp]) (by rw [hp]; rfl)
  · next hp =>
    obtain rfl := Option.some.inj hw
    exact steady_demoted h hp
  · next hp =>
    obtain rfl := Option.some.inj hw
    unfold Worker.drained
    split
    · next hl =>
      refine .same rfl rfl rfl nofun (by rw [held, held, hp]; rfl) rfl (h.await (fun b hb ↦ ?_) fun hs ↦ ?_)
      · exact (h.leader.trans hl).trans (Option.some.inj hb)
      · exact absurd hs (h.off hp rfl)
    · next hl =>
      refine steady_finished (h.off hp rfl) ?_
      rw [held, hp]
      exact Option.not_isSome_iff_eq_none.1 hl
  · next reply hp hr =>
    obtain rfl := Option.some.inj hw
    refine .same rfl rfl rfl nofun (by rw [held, held, hp, hr]; rfl) rfl (h.await (fun b hb ↦ ?_) fun hs ↦ ?_)
    · rw [h.standing true (by rw [hp]; rfl)]
      exact Option.some.inj hb
    · exact absurd hs (h.off hp rfl)
  · next reply hp hr =>
    obtain rfl := Option.some.inj hw
    refine .same rfl rfl rfl nofun (by rw [held, held, hp]; rfl) rfl (h.await (fun b hb ↦ ?_) fun hs ↦ ?_)
    · rw [h.standing true (by rw [hp]; rfl)]
      exact Option.some.inj hb
    · exact absurd hs (h.off hp rfl)
  · cases hw

theorem steady_failed (h : Ok w) (hs : standing w.phase = some false) (hr : mayRun w.phase = false)
    (hc : attempt w.phase = some c) (hh : ∀ d, held w = some d → d = c) :
    Steady w ({ w with lost := c :: w.lost }.await (.close c true)) := by
  have hno := h.outside hs
  refine steady_lost hc hh rfl rfl rfl (.inr rfl) hno.2 rfl
    ⟨h.leader, fun b hb ↦ hno.1.trans (Option.some.inj hb), fun hw ↦ ?_⟩
  exact absurd hw (h.off rfl hr)

theorem steady_cancelled (h : Ok w) (hs : standing w.phase = some false)
    (hc : attempt w.phase = some c) (hh : ∀ d, held w = some d → d = c) :
    Steady w { w with lost := c :: w.lost }.stop :=
  steady_lost hc hh rfl rfl rfl (.inl rfl) (h.outside hs).2 rfl ⟨h.leader, nofun, nofun⟩

theorem held_getLock (hp : w.phase = .getLock c) {d : ℕ} (h : held w = some d) : d = c := by
  have hif : held w = if w.reply = some true then some c else none := by rw [held, hp]
  exact (Option.some.inj (Option.ite_none_right_eq_some.1 (hif.symm.trans h)).2).symm

theorem held_commitLock {got : Bool} (hp : w.phase = .commitLock c got) {d : ℕ} (h : held w = some d) : d = c := by
  have hif : held w = if got then some c else none := by rw [held, hp]
  exact (Option.some.inj (Option.ite_none_right_eq_some.1 (hif.symm.trans h)).2).symm

theorem held_releaseLock (hp : w.phase = .releaseLock) (h : held w = some c) :
    w.reply = none ∧ w.leaderConn = some c := by
  have hif : held w = if w.reply = none then w.leaderConn else none := by rw [held, hp]
  exact Option.ite_none_right_eq_some.1 (hif.symm.trans h)

theorem steady_unreleased (h : Ok w) (hs : standing w.phase = some true) (hr : mayRun w.phase = false)
    (hh : ∀ d, held w = some d → w.leaderConn = some d) :
    Steady w ({ w with lost := w.leaderConn.toList ++ w.lost }.await .closeLeader) := by
  refine .lose (fun d hd ↦ ?_) (fun d hd ↦ ?_) (.inl rfl) (fun d hd ↦ hd) rfl nofun nofun rfl
    ⟨h.leader, fun b hb ↦ (h.standing _ hs).trans (Option.some.inj hb), fun hw ↦ ?_⟩
  · exact .inr (.inl (Option.mem_toList.1 hd))
  · exact Option.mem_toList.2 (hh d hd)
  · exact absurd hw (h.off rfl hr)

theorem steady_raise (h : Ok w) (hw : w.raise = some w') : Steady w w' := by
  unfold Worker.raise at hw
  split at hw
  · next hp =>
    obtain rfl := Option.some.inj hw
    exact steady_raised h (by rw [held, hp])
  · next conn hp =>
    obtain rfl := Option.some.inj hw
    exact steady_failed h (by rw [hp]; rfl) (by rw [hp]; rfl) (by rw [hp]; rfl) fun d ↦ held_getLock hp
  · next conn got hp =>
    obtain rfl := Option.some.inj hw
    exact steady_failed h (by rw [hp]; rfl) (by rw [hp]; rfl) (by rw [hp]; rfl) fun d ↦ held_commitLock hp
  · next hp =>
    obtain rfl := Option.some.inj hw
    exact steady_raised h (by rw [held, hp])
  · next hp =>
    obtain rfl := Option.some.inj hw
    exact steady_raised h (by rw [held, hp])
  · next hp =>
    obtain rfl := Option.some.inj hw
    exact steady_demote h (by rw [held, hp]) (by rw [hp]; rfl)
  · next hp =>
    obtain rfl := Option.some.inj hw
    exact steady_demote h (by rw [held, hp]) (by rw [hp]; rfl)
  · next hp =>
    obtain rfl := Option.some.inj hw
    exact steady_demoted h hp
  · next hp =>
    obtain rfl := Option.some.inj hw
    exact steady_unreleased h (by rw [hp]; rfl) (by rw [hp]; rfl) fun d hd ↦ (held_releaseLock hp hd).2
  · next hp =>
    obtain rfl := Option.some.inj hw
    refine steady_unreleased h (by rw [hp]; rfl) (by rw [hp]; rfl) fun d hd ↦ ?_
    rw [held, hp] at hd
    cases hd
  · next hp =>
    obtain rfl := Option.some.inj hw
    exact steady_finished (h.off hp rfl) (by rw [held, hp])
  · cases hw

theorem steady_closed (h : Ok w) (hw : w.closed keep = some w') : Steady w w' := by
  unfold Worker.closed at hw
  split at hw
  · next conn failed hp =>
    obtain rfl := Option.some.inj hw
    have hpool : Steady w (w.pooled conn keep) := steady_pooled h (.inr (.inr (.inl (by rw [hp]; rfl))))
    have hheld : held (w.pooled conn keep) = (w.pooled conn keep).leaderConn := by
      rw [held, pooled_phase, hp]
    refine hpool.trans ?_
    split
    · exact steady_raised hpool.ok hheld
    · exact steady_returned hpool.ok hheld
  · next conn hp hc =>
    obtain rfl := Option.some.inj hw
    have hpool : Steady w (w.pooled conn keep) := steady_pooled h (.inr (.inl hc))
    exact hpool.trans (steady_finished (hpool.ok.off (pooled_phase.trans hp) rfl) (by rw [held, pooled_phase, hp]))
  · cases hw

theorem steady_shutdown (h : Ok w) (hw : w.shutdown = some w') : Steady w w' := by
  unfold Worker.shutdown at hw
  split at hw
  · next conn hp =>
    obtain rfl := Option.some.inj hw
    exact steady_cancelled h (by rw [hp]; rfl) (by rw [hp]; rfl) fun d ↦ held_getLock hp
  · next conn got hp =>
    obtain rfl := Option.some.inj hw
    exact steady_cancelled h (by rw [hp]; rfl) (by rw [hp]; rfl) fun d ↦ held_commitLock hp
  all_goals
    first
    | next hp =>
      obtain rfl := Option.some.inj hw
      exact steady_stop h (by rw [held, hp])
    | cases hw

theorem held_statement (h : held w = some c) : w.statementConn = some c ∨ w.leaderConn = some c := by
  unfold Worker.statementConn
  split
  · next hp => exact .inl (congrArg some (held_getLock hp h).symm)
  · next hp => exact .inl (congrArg some (held_commitLock hp h).symm)
  · next hp =>
    rw [held, hp] at h
    exact .inr h
  · next hp =>
    rw [held, hp] at h
    exact .inr h
  · next hp => exact .inr (held_releaseLock hp h).2
  · next hp =>
    rw [held, hp] at h
    cases h
  · next hget hcommit _ _ hrelease _ =>
    unfold held at h
    split at h
    · next hp => exact absurd hp (hget _)
    · next hp => exact absurd hp (hcommit _ _)
    · next hp => exact absurd hp hrelease
    · cases h
    · cases h
    · exact .inr h

theorem statement_cases (h : w.statementConn = some c) : attempt w.phase = some c ∨ w.leaderConn = some c := by
  unfold Worker.statementConn at h
  split at h
  · next hp =>
    rw [hp]
    exact .inl h
  · next hp =>
    rw [hp]
    exact .inl h
  all_goals
    first
    | exact .inr h
    | cases h

theorem has_statement (h : w.statementConn = some c) : Has w c := by
  rcases statement_cases h with h | h
  · exact .inr (.inr (.inl h))
  · exact .inr (.inl h)

theorem steady_crash (w : Worker) : Steady w w.crash := by
  refine .lose (fun c hc ↦ ?_) (fun c hc ↦ ?_) (.inr rfl)
    nofun (List.append_assoc ..).symm nofun nofun rfl ⟨rfl, fun b hb ↦ Option.some.inj hb, nofun⟩
  · rcases List.mem_append.1 hc with hc | hc
    · exact has_statement (Option.mem_toList.1 hc)
    · exact .inr (.inl (Option.mem_toList.1 hc))
  · rcases held_statement hc with hc | hc
    · exact List.mem_append_left _ (Option.mem_toList.2 hc)
    · exact List.mem_append_right _ (Option.mem_toList.2 hc)

theorem steady_start (h : Ok w) (hp : w.phase = .idle) : Steady w (w.await .connect) := by
  have hno := h.outside (by rw [hp]; rfl)
  refine .same rfl rfl rfl nofun (by rw [held, held, hp]; rfl) rfl (h.await (fun b hb ↦ ?_) fun hs ↦ ?_)
  · exact hno.1.trans (Option.some.inj hb)
  · exact absurd hs (h.off hp rfl)

theorem ok_attempt (h : Ok w) (hp : w.phase = .connect) (c : ℕ) {pool : List ℕ} :
    Ok ({ w with pool := pool }.await (.getLock c)) := by
  have hno := h.outside (by rw [hp]; rfl)
  exact ⟨h.leader, fun b hb ↦ hno.1.trans (Option.some.inj hb), fun hs ↦ absurd hs (h.off hp rfl)⟩

theorem quiet_reused (h : Ok w) (hp : w.phase = .connect) (hc : c ∈ w.pool) :
    Quiet w ({ w with pool := w.pool.erase c }.await (.getLock c)) := by
  have hno := h.outside (by rw [hp]; rfl)
  have hheld : held w = none := by
    rw [held, hp]
    exact hno.2
  refine ⟨fun d hd ↦ ?_, nofun, fun d hd ↦ ?_, fun d hd ↦ hd, ok_attempt h hp c⟩
  · rcases hd with hd | hd | hd | hd
    · exact .inl (List.mem_of_mem_erase hd)
    · exact .inr (.inl hd)
    · obtain rfl := Option.some.inj hd
      exact .inl hc
    · exact .inr (.inr (.inr hd))
  · rw [hheld] at hd
    cases hd

theorem held_connect (h : Ok w) (hp : w.phase = .connect) : held w = none := by
  rw [held, hp]
  exact (h.outside (by rw [hp]; rfl)).2

theorem has_held (h : held w = some c) : Has w c := by
  rcases held_statement h with h | h
  · exact has_statement h
  · exact .inr (.inl h)

theorem quiet_answered (h : Ok w) (reply : Option Bool) (hg : ∀ c, w.phase ≠ .getLock c)
    (hr : w.phase ≠ .releaseLock) : Quiet w { w with reply := reply } := by
  refine .same rfl rfl rfl (fun c hc ↦ hc) ?_ ⟨h.leader, h.standing, h.scheduler⟩
  cases hp : w.phase with
  | getLock c => exact absurd hp (hg c)
  | releaseLock => exact absurd hp hr
  | _ => simp only [held, hp]

theorem held_mayRun (h : mayRun w.phase = true) : held w = w.leaderConn := by
  cases hp : w.phase <;> rw [hp] at h
  case reconcile => rw [held, hp]
  case sleep => rw [held, hp]
  case isUsedLock => rw [held, hp]
  case commitVerify => rw [held, hp]
  all_goals cases h

/-- What is left to a leader that asks a session that has ended. -/
def late (w : Worker) : Bool :=
  match w.phase with
  | .isUsedLock => w.reply.isNone
  | .invalidate => true
  | .drain => true
  | .releaseLock => true
  | .commitRelease => true
  | .closeLeader => true
  | _ => false

theorem late_resume (h : late w = true) (hw : w.resume = some w') : late w' = true ∨ w'.leaderConn = none := by
  unfold Worker.resume at hw
  split at hw
  · next hp hr =>
    rw [late, hp] at h
    cases h
  · next hp hr =>
    rw [late, hp] at h
    cases h
  · next hp =>
    rw [late, hp] at h
    cases h
  · next hp hr =>
    rw [late, hp, hr] at h
    cases h
  · next hp hr =>
    rw [late, hp] at h
    cases h
  · obtain rfl := Option.some.inj hw
    exact .inr rfl
  · obtain rfl := Option.some.inj hw
    unfold Worker.drained
    split
    · exact .inl rfl
    · exact .inr rfl
  · obtain rfl := Option.some.inj hw
    exact .inl rfl
  · obtain rfl := Option.some.inj hw
    exact .inl rfl
  · cases hw

theorem late_raise (h : late w = true) (hw : w.raise = some w') : late w' = true ∨ w'.leaderConn = none := by
  unfold Worker.raise at hw
  split at hw
  case h_12 => cases hw
  all_goals next hp =>
    obtain rfl := Option.some.inj hw
    first
    | exact .inl rfl
    | exact .inr rfl
    | (rw [late, hp] at h; cases h)

theorem late_closed {keep : Bool} (h : late w = true) (hw : w.closed keep = some w') : w'.leaderConn = none := by
  unfold Worker.closed at hw
  split at hw
  · next hp =>
    rw [late, hp] at h
    cases h
  · obtain rfl := Option.some.inj hw
    rfl
  · cases hw

theorem late_shutdown (hw : w.shutdown = some w') : late w' = true := by
  unfold Worker.shutdown at hw
  split at hw
  all_goals
    first
    | (obtain rfl := Option.some.inj hw; rfl)
    | cases hw

end AdminPlatform.ScheduledTask.LeaderSteps
