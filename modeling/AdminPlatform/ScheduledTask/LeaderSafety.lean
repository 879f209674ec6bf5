import AdminPlatform.ScheduledTask.LeaderSteps

namespace AdminPlatform.ScheduledTask.LeaderSafety

open LeaderElection LeaderSteps

variable {S S' : State} {w w' : Worker} {c i j : ℕ}

def Lost (S : State) (c : ℕ) : Prop := ∃ i, c ∈ (S.workers i).lost

structure Inv (S : State) : Prop where
  ok : ∀ i, Ok (S.workers i)
  opened : ∀ i c, Has (S.workers i) c → S.opened[c]? = some i
  known : ∀ c, S.alive c = true → c < S.opened.length
  lives : ∀ c, S.lock.owner = some c → S.alive c = true
  holds : ∀ i c, held (S.workers i) = some c → S.alive c = true → S.lock.owner = some c
  owned : ∀ c, S.lock.owner = some c → (∃ i, held (S.workers i) = some c) ∨ Lost S c
  again : 1 < S.lock.depth → ∀ c, S.lock.owner = some c → Lost S c

theorem inv_init : Inv {} := by
  refine ⟨fun i ↦ ⟨rfl, fun b hb ↦ Option.some.inj hb, nofun⟩, fun i c h ↦ ?_, nofun, nofun, nofun, nofun, nofun⟩
  rcases h with h | h | h | h
  · exact absurd h List.not_mem_nil
  · cases h
  · cases h
  · exact absurd h List.not_mem_nil

theorem Inv.unique (h : Inv S) (hi : Has (S.workers i) c) (hj : Has (S.workers j) c) : i = j :=
  Option.some.inj ((h.opened i c hi).symm.trans (h.opened j c hj))

theorem put_workers (S : State) (i j : ℕ) (w : Worker) :
    j = i ∧ (S.put i w).workers j = w ∨ j ≠ i ∧ (S.put i w).workers j = S.workers j := by
  by_cases h : j = i
  · subst h
    exact .inl ⟨rfl, Function.update_self ..⟩
  · exact .inr ⟨h, Function.update_of_ne h ..⟩

theorem put_self : (S.put i w).workers i = w := Function.update_self ..

theorem lost_put (hl : ∀ c ∈ (S.workers i).lost, c ∈ w.lost) (h : Lost S c) : Lost (S.put i w) c := by
  obtain ⟨j, hj⟩ := h
  refine ⟨j, ?_⟩
  rcases put_workers S i j w with ⟨rfl, he⟩ | ⟨-, he⟩
  · rw [he]
    exact hl c hj
  · rw [he]
    exact hj

theorem inv_put (h : Inv S) (hq : Quiet (S.workers i) w) : Inv (S.put i w) := by
  refine ⟨fun j ↦ ?_, fun j c hc ↦ ?_, h.known, h.lives, fun j c hc ha ↦ ?_, fun c hc ↦ ?_,
    fun hd c hc ↦ lost_put hq.lost (h.again hd c hc)⟩
  · rcases put_workers S i j w with ⟨rfl, he⟩ | ⟨-, he⟩
    · rw [he]
      exact hq.ok
    · rw [he]
      exact h.ok j
  · rcases put_workers S i j w with ⟨rfl, he⟩ | ⟨-, he⟩ <;> rw [he] at hc
    · exact h.opened j c (hq.has c hc)
    · exact h.opened j c hc
  · rcases put_workers S i j w with ⟨rfl, he⟩ | ⟨-, he⟩ <;> rw [he] at hc
    · exact h.holds j c (hq.held c hc) ha
    · exact h.holds j c hc ha
  · rcases h.owned c hc with ⟨j, hj⟩ | hl
    · rcases put_workers S i j w with ⟨rfl, he⟩ | ⟨-, he⟩
      · rcases hq.kept c hj with hk | hk
        · exact .inl ⟨j, by rw [he]; exact hk⟩
        · exact .inr ⟨j, by rw [he]; exact hk⟩
      · exact .inl ⟨j, by rw [he]; exact hj⟩
    · exact .inr (lost_put hq.lost hl)

theorem inv_opens (h : Inv S) (hp : (S.workers i).phase = .connect) :
    Inv ⟨S.lock, S.opened ++ [i], Function.update S.alive S.opened.length true,
      (S.put i ((S.workers i).await (.getLock S.opened.length))).workers⟩ := by
  have hold : ∀ j c, Has (S.workers j) c → (S.opened ++ [i])[c]? = some j := by
    intro j c hc
    have hj := h.opened j c hc
    rw [List.getElem?_append_left (List.getElem?_eq_some_iff.1 hj).1]
    exact hj
  have hne : ∀ j c, Has (S.workers j) c → c ≠ S.opened.length := by
    intro j c hc
    exact Nat.ne_of_lt (List.getElem?_eq_some_iff.1 (h.opened j c hc)).1
  have hother : ∀ c, c ≠ S.opened.length → Function.update S.alive S.opened.length true c = S.alive c :=
    fun c hc ↦ Function.update_of_ne hc ..
  have hworkers := fun j ↦ put_workers S i j ((S.workers i).await (.getLock S.opened.length))
  refine ⟨fun j ↦ ?_, fun j c hc ↦ ?_, fun c hc ↦ ?_, fun c hc ↦ ?_, fun j c hc ha ↦ ?_, fun c hc ↦ ?_,
    fun hd c hc ↦ lost_put (fun _ hd ↦ hd) (h.again hd c hc)⟩
  · rcases hworkers j with ⟨rfl, he⟩ | ⟨-, he⟩
    · exact (congrArg Ok he).mpr (ok_attempt (h.ok j) hp _)
    · exact (congrArg Ok he).mpr (h.ok j)
  · rcases hworkers j with ⟨rfl, he⟩ | ⟨-, he⟩
    · rcases (congrArg (Has · c) he).mp hc with hc | hc | hc | hc
      · exact hold j c (.inl hc)
      · exact hold j c (.inr (.inl hc))
      · obtain rfl := Option.some.inj hc
        exact List.getElem?_concat_length
      · exact hold j c (.inr (.inr (.inr hc)))
    · exact hold j c ((congrArg (Has · c) he).mp hc)
  · rw [List.length_append, List.length_singleton]
    by_cases hn : c = S.opened.length
    · exact hn ▸ Nat.lt_succ_self _
    · exact Nat.lt_succ_of_lt (h.known c ((hother c hn).symm.trans hc))
  · have ha := h.lives c hc
    exact (hother c (Nat.ne_of_lt (h.known c ha))).trans ha
  · rcases hworkers j with ⟨rfl, he⟩ | ⟨-, he⟩
    · exact absurd ((congrArg held he).symm.trans hc) (Option.some_ne_none _).symm
    · have hc := (congrArg held he).symm.trans hc
      exact h.holds j c hc ((hother c (hne j c (has_held hc))).symm.trans ha)
  · rcases h.owned c hc with ⟨j, hj⟩ | hl
    · refine .inl ⟨j, ?_⟩
      rcases hworkers j with ⟨rfl, -⟩ | ⟨-, he⟩
      · rw [held_connect (h.ok j) hp] at hj
        cases hj
      · exact (congrArg held he).trans hj
    · exact .inr (lost_put (fun _ hd ↦ hd) hl)

theorem Inv.unheld (h : Inv S) {conn : ℕ} (hc : (S.workers i).statementConn = some conn)
    (hn : held (S.workers i) ≠ some conn) (ho : S.lock.owner = some conn) : Lost S conn := by
  rcases h.owned conn ho with ⟨j, hj⟩ | hl
  · rw [h.unique (has_held hj) (has_statement hc)] at hj
    exact absurd hj hn
  · exact hl

theorem inv_getLock (h : Inv S) (hp : (S.workers i).phase = .getLock c) (hr : (S.workers i).reply = none)
    (ha : S.alive c = true) :
    Inv ⟨(S.lock.getLock c).1, S.opened, S.alive,
      (S.put i { S.workers i with reply := some (S.lock.getLock c).2 }).workers⟩ := by
  have hc : (S.workers i).statementConn = some c := by rw [Worker.statementConn, hp]
  have hnone : held (S.workers i) = none := by
    rw [held, hp, hr]
    rfl
  have hheld : held { S.workers i with reply := some (S.lock.getLock c).2 } =
      if (S.lock.getLock c).2 = true then some c else none := by
    simp only [held, hp, Option.some.injEq]
  have hno := (h.ok i).outside (by rw [hp]; rfl)
  have hworkers := fun j ↦ put_workers S i j { S.workers i with reply := some (S.lock.getLock c).2 }
  refine ⟨fun j ↦ ?_, fun j d hd ↦ ?_, h.known, fun d hd ↦ ?_, fun j d hd hda ↦ ?_, fun d hd ↦ ?_,
    fun hdepth d hd ↦ ?_⟩
  · rcases hworkers j with ⟨rfl, he⟩ | ⟨-, he⟩
    · exact (congrArg Ok he).mpr ⟨(h.ok j).leader, (h.ok j).standing, (h.ok j).scheduler⟩
    · exact (congrArg Ok he).mpr (h.ok j)
  · rcases hworkers j with ⟨rfl, he⟩ | ⟨-, he⟩
    · exact h.opened j d ((congrArg (Has · d) he).mp hd)
    · exact h.opened j d ((congrArg (Has · d) he).mp hd)
  · rcases getLock_owner.1 hd with hd | ⟨-, rfl⟩
    · exact h.lives d hd
    · exact ha
  · rcases hworkers j with ⟨rfl, he⟩ | ⟨-, he⟩
    · have hd := hheld.symm.trans ((congrArg held he).symm.trans hd)
      obtain ⟨hgot, hd⟩ := Option.ite_none_right_eq_some.1 hd
      exact (getLock_got.1 hgot).trans hd
    · exact getLock_owner.2 (.inl (h.holds j d ((congrArg held he).symm.trans hd) hda))
  · rcases getLock_owner.1 hd with hd | ⟨ho, rfl⟩
    · rcases h.owned d hd with ⟨j, hj⟩ | hl
      · refine .inl ⟨j, ?_⟩
        rcases hworkers j with ⟨rfl, -⟩ | ⟨-, he⟩
        · rw [hnone] at hj
          cases hj
        · exact (congrArg held he).trans hj
      · exact .inr (lost_put (fun _ hd ↦ hd) hl)
    · refine .inl ⟨i, (congrArg held put_self).trans (hheld.trans (if_pos (getLock_got.2 hd)))⟩
  · obtain ⟨ho, hdepth | rfl⟩ := getLock_depth hdepth hd
    · exact lost_put (fun _ hd ↦ hd) (h.again hdepth d ho)
    · exact lost_put (fun _ hd ↦ hd) (h.unheld hc (by rw [hnone]; exact (Option.some_ne_none _).symm) ho)

theorem inv_releaseLock (h : Inv S) (hp : (S.workers i).phase = .releaseLock)
    (hc : (S.workers i).leaderConn = some c) :
    Inv ⟨S.lock.releaseLock c, S.opened, S.alive,
      (S.put i { S.workers i with reply := some true }).workers⟩ := by
  have hnone : held { S.workers i with reply := some true } = none := by
    simp only [held, hp]
    rfl
  have hworkers := fun j ↦ put_workers S i j { S.workers i with reply := some true }
  refine ⟨fun j ↦ ?_, fun j d hd ↦ ?_, h.known, fun d hd ↦ ?_, fun j d hd hda ↦ ?_, fun d hd ↦ ?_,
    fun hdepth d hd ↦ ?_⟩
  · rcases hworkers j with ⟨rfl, he⟩ | ⟨-, he⟩
    · exact (congrArg Ok he).mpr ⟨(h.ok j).leader, (h.ok j).standing, (h.ok j).scheduler⟩
    · exact (congrArg Ok he).mpr (h.ok j)
  · rcases hworkers j with ⟨rfl, he⟩ | ⟨-, he⟩
    · exact h.opened j d ((congrArg (Has · d) he).mp hd)
    · exact h.opened j d ((congrArg (Has · d) he).mp hd)
  · exact h.lives d (releaseLock_owner hd).1
  · rcases hworkers j with ⟨rfl, he⟩ | ⟨hne, he⟩
    · exact absurd (hnone.symm.trans ((congrArg held he).symm.trans hd)) (Option.some_ne_none _).symm
    · have hheld : held (S.workers j) = some d := (congrArg held he).symm.trans hd
      have ho := h.holds j d hheld hda
      have hother : d ≠ c := by
        rintro rfl
        exact hne (h.unique (has_held hheld) (.inr (.inl hc)))
      rw [releaseLock_of_ne ho hother]
      exact ho
  · obtain ⟨ho, hdepth⟩ := releaseLock_owner hd
    by_cases he : d = c
    · exact .inr (lost_put (fun _ hd ↦ hd) (h.again (hdepth he) d ho))
    · rcases h.owned d ho with ⟨j, hj⟩ | hl
      · refine .inl ⟨j, ?_⟩
        rcases hworkers j with ⟨rfl, -⟩ | ⟨-, hj'⟩
        · exact absurd (Option.some.inj ((held_releaseLock hp hj).2.symm.trans hc)) he
        · exact (congrArg held hj').trans hj
      · exact .inr (lost_put (fun _ hd ↦ hd) hl)
  · exact lost_put (fun _ hd ↦ hd) (h.again (releaseLock_depth hdepth) d (releaseLock_owner hd).1)

theorem inv_endSession (h : Inv S) (c : ℕ) :
    Inv ⟨S.lock.endSession c, S.opened, Function.update S.alive c false, S.workers⟩ := by
  have halive : ∀ d, Function.update S.alive c false d = true → d ≠ c ∧ S.alive d = true := by
    intro d hd
    by_cases he : d = c
    · rw [he, Function.update_self] at hd
      cases hd
    · rw [Function.update_of_ne he] at hd
      exact ⟨he, hd⟩
  refine ⟨h.ok, h.opened, fun d hd ↦ h.known d (halive d hd).2, fun d hd ↦ ?_, fun j d hd hda ↦ ?_,
    fun d hd ↦ h.owned d (endSession_owner.1 hd).1, fun hdepth d hd ↦ ?_⟩
  · obtain ⟨hd, hne⟩ := endSession_owner.1 hd
    exact (Function.update_of_ne hne ..).trans (h.lives d hd)
  · obtain ⟨hne, hda⟩ := halive d hda
    exact endSession_owner.2 ⟨h.holds j d hd hda, hne⟩
  · exact h.again (endSession_depth hdepth) d (endSession_owner.1 hd).1

theorem inv_stray (h : Inv S) (hl : c ∈ (S.workers i).lost) (ha : S.alive c = true) :
    Inv { S with lock := (S.lock.getLock c).1 } := by
  refine ⟨h.ok, h.opened, h.known, fun d hd ↦ ?_, fun j d hd hda ↦ getLock_owner.2 (.inl (h.holds j d hd hda)),
    fun d hd ↦ ?_, fun hdepth d hd ↦ ?_⟩
  · rcases getLock_owner.1 hd with hd | ⟨-, rfl⟩
    · exact h.lives d hd
    · exact ha
  · rcases getLock_owner.1 hd with hd | ⟨-, rfl⟩
    · exact h.owned d hd
    · exact .inr ⟨i, hl⟩
  · obtain ⟨ho, hdepth | rfl⟩ := getLock_depth hdepth hd
    · exact h.again hdepth d ho
    · exact ⟨i, hl⟩

theorem inv_connected (h : Inv S) {reused : Option ℕ} (hS : S.connected i reused = some S') : Inv S' := by
  unfold State.connected at hS
  dsimp only at hS
  split at hS
  · next hp =>
    obtain rfl := Option.some.inj hS
    exact inv_opens h hp
  · next conn hp =>
    split at hS
    · next hc =>
      obtain rfl := Option.some.inj hS
      exact inv_put h (quiet_reused (h.ok i) hp hc.1)
    · cases hS
  · cases hS

theorem inv_serve (h : Inv S) (hS : S.serve i = some S') : Inv S' := by
  unfold State.serve at hS
  dsimp only at hS
  split at hS
  · cases hS
  · next conn hc =>
    split at hS
    · next hready =>
      split at hS
      · next c hp =>
        obtain rfl := Option.some.inj hS
        have hconn : (S.workers i).statementConn = some c := by rw [Worker.statementConn, hp]
        obtain rfl := Option.some.inj (hc.symm.trans hconn)
        exact inv_getLock h hp hready.2 hready.1
      · next hp =>
        obtain rfl := Option.some.inj hS
        exact inv_put h (quiet_answered (h.ok i) _ (fun c hg ↦ by rw [hp] at hg; cases hg) (by rw [hp]; nofun))
      · next hp =>
        obtain rfl := Option.some.inj hS
        have hconn : (S.workers i).statementConn = (S.workers i).leaderConn := by rw [Worker.statementConn, hp]
        exact inv_releaseLock h hp (hconn.symm.trans hc)
      · next hg hu hr =>
        obtain rfl := Option.some.inj hS
        exact inv_put h (quiet_answered (h.ok i) _ hg hr)
    · cases hS

/-- A step of anybody. -/
theorem inv_next (h : Inv S) {label : Label} (hS : S.next label = some S') : Inv S' := by
  cases label with
  | start i =>
    rw [State.next] at hS
    split at hS
    · next hp =>
      obtain rfl := Option.some.inj hS
      exact inv_put h (steady_start (h.ok i) hp).toQuiet
    · cases hS
  | wake i =>
    obtain ⟨w, hw, rfl⟩ := Option.map_eq_some_iff.1 hS
    exact inv_put h (quiet_wake (h.ok i) hw)
  | connected i reused => exact inv_connected h hS
  | serve i => exact inv_serve h hS
  | resume i =>
    obtain ⟨w, hw, rfl⟩ := Option.map_eq_some_iff.1 hS
    exact inv_put h (steady_resume (h.ok i) hw).toQuiet
  | raise i =>
    obtain ⟨w, hw, rfl⟩ := Option.map_eq_some_iff.1 hS
    exact inv_put h (steady_raise (h.ok i) hw).toQuiet
  | closed i keep =>
    obtain ⟨w, hw, rfl⟩ := Option.map_eq_some_iff.1 hS
    exact inv_put h (steady_closed (h.ok i) hw).toQuiet
  | shutdown i =>
    obtain ⟨w, hw, rfl⟩ := Option.map_eq_some_iff.1 hS
    exact inv_put h (steady_shutdown (h.ok i) hw).toQuiet
  | crash i =>
    obtain rfl := Option.some.inj hS
    exact inv_put h (steady_crash _).toQuiet
  | endSession c =>
    obtain rfl := Option.some.inj hS
    exact inv_endSession h c
  | stray i c =>
    rw [State.next] at hS
    split at hS
    · next hc =>
      obtain rfl := Option.some.inj hS
      exact inv_stray h hc.1 hc.2
    · cases hS

theorem inv_runs (h : Inv S) (hr : Runs S S') : Inv S' := by
  induction hr with
  | refl => exact h
  | step label _ hn ih => exact inv_next ih hn

theorem inv_reach (h : Reach S) : Inv S := inv_runs inv_init h

def Leads (S : State) (i : ℕ) : Prop := ∃ c, (S.workers i).leaderConn = some c ∧ S.lock.owner = some c

def Stale (S : State) (i : ℕ) : Prop := ∃ c, (S.workers i).leaderConn = some c ∧ S.alive c = false

theorem Inv.leads_or_stale (h : Inv S) (hs : (S.workers i).scheduler = true) : Leads S i ∨ Stale S i := by
  obtain ⟨hmay, hl⟩ := (h.ok i).scheduler hs
  obtain ⟨c, hc⟩ := Option.isSome_iff_exists.1 ((h.ok i).leader.symm.trans hl)
  cases ha : S.alive c with
  | false => exact .inr ⟨c, hc, ha⟩
  | true => exact .inl ⟨c, hc, h.holds i c ((held_mayRun hmay).trans hc) ha⟩

theorem Inv.leads_unique (h : Inv S) (hi : Leads S i) (hj : Leads S j) : i = j := by
  obtain ⟨c, hc, ho⟩ := hi
  obtain ⟨d, hd, hod⟩ := hj
  obtain rfl := Option.some.inj (ho.symm.trans hod)
  exact h.unique (.inr (.inl hc)) (.inr (.inl hd))

/-- Whoever runs the scheduler owns the lock, unless its session has ended, and only one owns it. -/
theorem schedulers_exclude (h : Reach S) :
    (∀ i, (S.workers i).scheduler = true → (S.workers i).isLeader = true ∧ (Leads S i ∨ Stale S i)) ∧
    ∀ i j, Leads S i → Leads S j → i = j := by
  have hinv := inv_reach h
  exact ⟨fun i hs ↦ ⟨((hinv.ok i).scheduler hs).2, hinv.leads_or_stale hs⟩, fun i j ↦ hinv.leads_unique⟩

def takeover (i : ℕ) (reused : Option ℕ) : List Label :=
  [.wake i, .connected i reused, .serve i, .resume i, .serve i, .resume i]

def orphaned : List Label :=
  [.start 0, .connected 0 none, .serve 0, .resume 0, .serve 0, .resume 0, .resume 0,
    .start 1, .connected 1 none, .serve 1, .resume 1, .serve 1, .resume 1, .closed 1 false,
    .endSession 0, .endSession 1]

theorem exists_follow (as : List Label) (p : State → Bool) (h : (S.follow as).any p = true) :
    ∃ S', Runs S S' ∧ p S' = true := by
  obtain ⟨S', hS, hp⟩ := (Option.any_eq_true _ _).1 h
  exact ⟨S', runs_follow .refl hS, hp⟩

theorem schedulers_exclude_orphaned : ∃ S, Reach S ∧ (S.workers 0).scheduler = true ∧
    (S.workers 1).scheduler = true ∧ Stale S 0 ∧ Leads S 1 ∧ ¬ Leads S 0 := by
  obtain ⟨S, hS, hp⟩ := exists_follow (S := {}) (orphaned ++ takeover 1 none) (fun S ↦ (S.workers 0).scheduler &&
    (S.workers 1).scheduler && decide ((S.workers 1).leaderConn = S.lock.owner) && S.lock.owner.isSome) (by decide)
  simp only [Bool.and_eq_true, decide_eq_true_eq] at hp
  obtain ⟨⟨⟨h₀, h₁⟩, hc⟩, ho⟩ := hp
  obtain ⟨c, ho⟩ := Option.isSome_iff_exists.1 ho
  have hleads : Leads S 1 := ⟨c, hc.trans ho, ho⟩
  have hnot : ¬ Leads S 0 := fun h ↦ absurd ((schedulers_exclude hS).2 0 1 h hleads) (by decide)
  exact ⟨S, hS, h₀, h₁, ((schedulers_exclude hS).1 0 h₀).2.resolve_left hnot, hleads, hnot⟩

/-- What a step means for one worker. -/
inductive Step (S S' : State) (i : ℕ) : Prop
  | rests (same : S'.workers i = S.workers i)
  | wakes (wake : (S.workers i).wake = some (S'.workers i))
  | moves (steady : Steady (S.workers i) (S'.workers i))
      (late : late (S.workers i) = true → late (S'.workers i) = true ∨ (S'.workers i).leaderConn = none)
  | attempts (conn : ℕ) (phase : (S.workers i).phase = .connect)
      (known : conn = S.opened.length ∨ S.alive conn = true) (attempt : attempt (S'.workers i).phase = some conn)
      (leaderConn : (S'.workers i).leaderConn = (S.workers i).leaderConn)
  | answered (conn : ℕ) (reply : Option Bool) (statement : (S.workers i).statementConn = some conn)
      (alive : S.alive conn = true) (worker : S'.workers i = { S.workers i with reply := reply })

theorem step_update (hw : S'.workers = Function.update S.workers i w) (h : S'.workers i = w → Step S S' i)
    (j : ℕ) :
    Step S S' j := by
  by_cases hji : j = i
  · refine hji ▸ h ?_
    rw [hw, Function.update_self]
  · refine .rests ?_
    rw [hw, Function.update_of_ne hji]

theorem step_moves (hs : Steady (S.workers i) w)
    (hl : late (S.workers i) = true → late w = true ∨ w.leaderConn = none)
    (j : ℕ) : Step S (S.put i w) j :=
  step_update rfl (fun he ↦ .moves (he.symm ▸ hs) (he.symm ▸ hl)) j

theorem step_connected {reused : Option ℕ} (hS : S.connected i reused = some S') (j : ℕ) : Step S S' j := by
  unfold State.connected at hS
  dsimp only at hS
  split at hS
  · next hp =>
    obtain rfl := Option.some.inj hS
    exact step_update rfl (fun he ↦ .attempts S.opened.length hp (.inl rfl) (by rw [he]; rfl) (by rw [he]; rfl)) j
  · next conn hp =>
    split at hS
    · next hc =>
      obtain rfl := Option.some.inj hS
      exact step_update rfl (fun he ↦ .attempts conn hp (.inr hc.2) (by rw [he]; rfl) (by rw [he]; rfl)) j
    · cases hS
  · cases hS

theorem step_serve (hS : S.serve i = some S') (j : ℕ) : Step S S' j := by
  unfold State.serve at hS
  dsimp only at hS
  split at hS
  · cases hS
  · next conn hc =>
    split at hS
    · next hready =>
      split at hS
      all_goals
        obtain rfl := Option.some.inj hS
        exact step_update rfl (fun he ↦ .answered conn _ hc hready.1 he) j
    · cases hS

theorem step_next (h : Inv S) {label : Label} (hS : S.next label = some S') (j : ℕ) : Step S S' j := by
  cases label with
  | start i =>
    rw [State.next] at hS
    split at hS
    · next hp =>
      obtain rfl := Option.some.inj hS
      refine step_moves (steady_start (h.ok i) hp) (fun hl ↦ ?_) j
      rw [late, hp] at hl
      cases hl
    · cases hS
  | wake i =>
    obtain ⟨w, hw, rfl⟩ := Option.map_eq_some_iff.1 hS
    exact step_update rfl (fun he ↦ .wakes (hw.trans (congrArg some he.symm))) j
  | connected i reused => exact step_connected hS j
  | serve i => exact step_serve hS j
  | resume i =>
    obtain ⟨w, hw, rfl⟩ := Option.map_eq_some_iff.1 hS
    exact step_moves (steady_resume (h.ok i) hw) (fun hl ↦ late_resume hl hw) j
  | raise i =>
    obtain ⟨w, hw, rfl⟩ := Option.map_eq_some_iff.1 hS
    exact step_moves (steady_raise (h.ok i) hw) (fun hl ↦ late_raise hl hw) j
  | closed i keep =>
    obtain ⟨w, hw, rfl⟩ := Option.map_eq_some_iff.1 hS
    exact step_moves (steady_closed (h.ok i) hw) (fun hl ↦ .inr (late_closed hl hw)) j
  | shutdown i =>
    obtain ⟨w, hw, rfl⟩ := Option.map_eq_some_iff.1 hS
    exact step_moves (steady_shutdown (h.ok i) hw) (fun _ ↦ .inl (late_shutdown hw)) j
  | crash i =>
    obtain rfl := Option.some.inj hS
    exact step_moves (steady_crash _) (fun _ ↦ .inr rfl) j
  | endSession c =>
    obtain rfl := Option.some.inj hS
    exact .rests rfl
  | stray i c =>
    rw [State.next] at hS
    split at hS
    · obtain rfl := Option.some.inj hS
      exact .rests rfl
    · cases hS

/-- The session ended when the worker was in round `k`, or the worker has given it up. -/
structure Ended (i c k : ℕ) (S : State) : Prop where
  opened : S.opened[c]? = some i
  dead : S.alive c = false
  worker : (S.workers i).leaderConn = some c ∧
      ((S.workers i).cycles ≤ k ∨ (S.workers i).cycles = k + 1 ∧ late (S.workers i) = true) ∨
    (S.workers i).leaderConn ≠ some c ∧ attempt (S.workers i).phase ≠ some c

theorem opened_next {label : Label} (hS : S.next label = some S') (ho : S.opened[c]? = some i)
    (hd : S.alive c = false) :
    S'.opened[c]? = some i ∧ S'.alive c = false := by
  have hput : ∀ (j : ℕ) (w : Option Worker), w.map (S.put j) = some S' →
      S'.opened[c]? = some i ∧ S'.alive c = false := by
    intro j w hw
    obtain ⟨w, -, rfl⟩ := Option.map_eq_some_iff.1 hw
    exact ⟨ho, hd⟩
  cases label with
  | start j =>
    rw [State.next] at hS
    split at hS
    · obtain rfl := Option.some.inj hS
      exact ⟨ho, hd⟩
    · cases hS
  | wake j => exact hput j _ hS
  | connected j reused =>
    change S.connected j reused = some S' at hS
    unfold State.connected at hS
    dsimp only at hS
    split at hS
    · obtain rfl := Option.some.inj hS
      have hlt := (List.getElem?_eq_some_iff.1 ho).1
      exact ⟨(List.getElem?_append_left hlt).trans ho, (Function.update_of_ne (Nat.ne_of_lt hlt) ..).trans hd⟩
    · split at hS
      · obtain rfl := Option.some.inj hS
        exact ⟨ho, hd⟩
      · cases hS
    · cases hS
  | serve j =>
    change S.serve j = some S' at hS
    unfold State.serve at hS
    dsimp only at hS
    split at hS
    · cases hS
    · split at hS
      · split at hS
        all_goals
          obtain rfl := Option.some.inj hS
          exact ⟨ho, hd⟩
      · cases hS
  | resume j => exact hput j _ hS
  | raise j => exact hput j _ hS
  | closed j keep => exact hput j _ hS
  | shutdown j => exact hput j _ hS
  | crash j =>
    obtain rfl := Option.some.inj hS
    exact ⟨ho, hd⟩
  | endSession d =>
    obtain rfl := Option.some.inj hS
    refine ⟨ho, ?_⟩
    by_cases hdc : c = d
    · rw [hdc]
      exact Function.update_self ..
    · exact (Function.update_of_ne hdc ..).trans hd
  | stray j d =>
    rw [State.next] at hS
    split at hS
    · obtain rfl := Option.some.inj hS
      exact ⟨ho, hd⟩
    · cases hS

theorem ended_next {k : ℕ} (hinv : Inv S) (h : Ended i c k S) {label : Label} (hS : S.next label = some S') :
    Ended i c k S' := by
  obtain ⟨ho, hd⟩ := opened_next hS h.opened h.dead
  refine ⟨ho, hd, ?_⟩
  have hok := hinv.ok i
  cases step_next hinv hS i with
  | rests same =>
    rw [same]
    exact h.worker
  | wakes wake =>
    obtain ⟨hp, hcases⟩ := wake_cases hok wake
    rcases h.worker with ⟨hc, hk⟩ | ⟨hc, ha⟩
    · have hl := hok.leader
      rw [hc] at hl
      rcases hcases with ⟨-, hw⟩ | ⟨hno, -⟩
      · refine .inl ⟨by rw [hw]; exact hc, ?_⟩
        rcases hk with hk | ⟨-, hlate⟩
        · rw [hw]
          rcases Nat.lt_or_ge (S.workers i).cycles k with hlt | hge
          · exact .inl hlt
          · exact .inr ⟨congrArg (· + 1) (Nat.le_antisymm hk hge), rfl⟩
        · rw [late, hp] at hlate
          cases hlate
      · exact absurd (hno.symm.trans hl) Bool.false_ne_true
    · refine .inr ⟨?_, ?_⟩
      · rcases hcases with ⟨-, hw⟩ | ⟨-, hw⟩ <;> rw [hw] <;> exact hc
      · rcases hcases with ⟨-, hw⟩ | ⟨-, hw⟩ <;> rw [hw] <;> exact (Option.some_ne_none _).symm
  | moves steady hlate =>
    rcases h.worker with ⟨hc, hk⟩ | ⟨hc, ha⟩
    · by_cases hc' : (S'.workers i).leaderConn = some c
      · refine .inl ⟨hc', ?_⟩
        rw [steady.cycles]
        rcases hk with hk | ⟨hk, hl⟩
        · exact .inl hk
        · rcases hlate hl with hl | hnone
          · exact .inr ⟨hk, hl⟩
          · exact absurd (hnone.symm.trans hc') (Option.some_ne_none _).symm
      · refine .inr ⟨hc', fun ha ↦ ?_⟩
        exact absurd ((hok.attempt (steady.attempt c ha)).symm.trans hc) (Option.some_ne_none _).symm
    · refine .inr ⟨fun hc' ↦ ?_, fun ha' ↦ ha (steady.attempt c ha')⟩
      rcases steady.leaderConn c hc' with h' | h'
      · exact hc h'
      · exact ha h'
  | attempts conn phase known hattempt hleader =>
    have hno := hok.outside (by rw [phase]; rfl)
    have hne : conn ≠ c := by
      rintro rfl
      rcases known with rfl | ha
      · exact absurd (List.getElem?_eq_some_iff.1 h.opened).1 (Nat.lt_irrefl _)
      · exact absurd (h.dead.symm.trans ha) Bool.false_ne_true
    refine .inr ⟨?_, ?_⟩
    · rw [hleader, hno.2]
      exact (Option.some_ne_none _).symm
    · rw [hattempt]
      exact fun he ↦ hne (Option.some.inj he)
  | answered conn reply statement halive hworker =>
    rcases h.worker with ⟨hc, -⟩ | hgone
    · rcases statement_cases statement with ha | hconn
      · exact absurd ((hok.attempt ha).symm.trans hc) (Option.some_ne_none _).symm
      · obtain rfl := Option.some.inj (hc.symm.trans hconn)
        exact absurd (h.dead.symm.trans halive) Bool.false_ne_true
    · rw [hworker]
      exact .inr hgone

theorem ended_runs {k : ℕ} (hinv : Inv S) (h : Ended i c k S) (hr : Runs S S') : Ended i c k S' := by
  induction hr with
  | refl => exact h
  | step label hr hn ih => exact ended_next (inv_runs hinv hr) ih hn

/-- A leader whose session has ended gives up within its next full round. -/
theorem stale_leader_demotes (h : Reach S) (hc : (S.workers i).leaderConn = some c) (hd : S.alive c = false)
    (hr : Runs S S') (hk : (S.workers i).cycles + 2 ≤ (S'.workers i).cycles) :
    (S'.workers i).leaderConn ≠ some c := by
  have hinv := inv_reach h
  have hended : Ended i c (S.workers i).cycles S' :=
    ended_runs hinv ⟨hinv.opened i c (.inr (.inl hc)), hd, .inl ⟨hc, .inl (Nat.le_refl _)⟩⟩ hr
  rcases hended.worker with ⟨-, hle | ⟨heq, -⟩⟩ | ⟨hne, -⟩
  · omega
  · omega
  · exact hne

def rounds : List Label :=
  [.start 0, .connected 0 none, .serve 0, .resume 0, .serve 0, .resume 0, .resume 0, .endSession 0]

theorem stale_leader_demotes_rounds : ∃ S S', Reach S ∧ Runs S S' ∧ (S.workers 0).leaderConn = some 0 ∧
    S.alive 0 = false ∧ (S.workers 0).cycles + 2 ≤ (S'.workers 0).cycles ∧ (S'.workers 0).leaderConn ≠ some 0 := by
  obtain ⟨S, hS, hp⟩ := exists_follow (S := {}) rounds (fun S ↦ decide ((S.workers 0).leaderConn = some 0 ∧
    S.alive 0 = false ∧ ((S.follow [.wake 0, .raise 0, .resume 0, .wake 0]).any fun S' ↦
      decide ((S.workers 0).cycles + 2 ≤ (S'.workers 0).cycles)) = true)) (by decide)
  obtain ⟨hc, hd, hany⟩ := of_decide_eq_true hp
  obtain ⟨S', hS', hk⟩ := exists_follow _ _ hany
  have hk := of_decide_eq_true hk
  exact ⟨S, S', hS, hS', hc, hd, hk, stale_leader_demotes hS hc hd hS' hk⟩

theorem Inv.free (h : Inv S)
    (hfree : ∀ j d, held (S.workers j) = some d ∨ d ∈ (S.workers j).lost → S.alive d = false) :
    S.lock.owner = none := by
  cases ho : S.lock.owner with
  | none => rfl
  | some d =>
    have ha := h.lives d ho
    rcases h.owned d ho with ⟨j, hj⟩ | ⟨j, hj⟩
    · exact absurd ((hfree j d (.inl hj)).symm.trans ha) Bool.false_ne_true
    · exact absurd ((hfree j d (.inr hj)).symm.trans ha) Bool.false_ne_true

def Usable (S : State) (i : ℕ) (reused : Option ℕ) : Prop :=
  ∀ c, reused = some c → c ∈ (S.workers i).pool ∧ S.alive c = true

theorem any_takeover {reused : Option ℕ} (hp : (S.workers i).phase = .sleep) (hl : (S.workers i).isLeader = false)
    (hu : Usable S i reused) (hfree : S.lock.owner = none) :
    (S.follow (takeover i reused)).any (fun S' ↦ (S'.workers i).scheduler &&
      decide ((S'.workers i).leaderConn = some (reused.getD S.opened.length) ∧
        S'.lock.owner = some (reused.getD S.opened.length))) = true := by
  cases reused with
  | none =>
    have hlock := getLock_of_none (c := S.opened.length) hfree
    simp only [takeover, State.follow, State.next, Worker.wake, hp, hl, Bool.false_eq_true, if_false,
      Option.map_some,
      Option.bind_some, State.connected, State.put, Function.update_self, Worker.await, State.serve,
      Worker.statementConn, and_self, if_true, hlock, Worker.resume, Worker.acquired, Option.any_some]
    simp
  | some c =>
    obtain ⟨hpool, halive⟩ := hu c rfl
    have hlock := getLock_of_none (c := c) hfree
    simp only [takeover, State.follow, State.next, Worker.wake, hp, hl, Bool.false_eq_true, if_false,
      Option.map_some,
      Option.bind_some, State.connected, State.put, Function.update_self, Worker.await, State.serve, hpool, halive,
      Worker.statementConn, and_self, if_true, hlock, Worker.resume, Worker.acquired, Option.any_some]
    simp

/-- A worker leads, another one is refused and keeps its connection, and the session of the first ends. -/
def refused : List Label :=
  [.start 0, .connected 0 none, .serve 0, .resume 0, .serve 0, .resume 0, .resume 0,
    .start 1, .connected 1 none, .serve 1, .resume 1, .serve 1, .resume 1, .closed 1 true, .endSession 0]

end AdminPlatform.ScheduledTask.LeaderSafety
