import AdminPlatform.Frontend.ClientStores
import AdminPlatform.Frontend.LogoutWins

namespace AdminPlatform.Frontend.Bootstrap

open Foundation.RoseTree Menu.Routers VueRouter DynamicRoutes LogoutWins
open ApiSession (Session Settlement Tokens truthy)
open ClientStores (Phase UserInfoResponse)
open SingleFlight (flights_settle inflight_settle)

def LOGIN_ROUTE_NAME : String := "login"

def NOT_FOUND_ROUTE_NAME : String := "not-found"

inductive Owner
  | bootstrap
  | loginPage
  deriving DecidableEq, Repr

/-- A run of `setupAfterLogin`; without a phase it has yet to be called. -/
structure Setup where
  owner : Owner
  phase : Option Phase
  deriving DecidableEq, Repr

def Setup.running (x : Setup) : Bool :=
  decide (x.phase = none ∨ x.phase = some .loadUserInfo ∨ x.phase = some .loadRouters)

/-- Where the one run of `bootstrap` stands. -/
inductive Progress
  | idle
  | refreshing (p : ℕ)
  | setup (i : ℕ)
  | done
  deriving DecidableEq, Repr

/-- What the guard returns. -/
inductive Verdict
  | admitted
  | login (redirect : String)
  | replace (path : String)
  deriving DecidableEq, Repr

/-- The guard has yet to be called, awaits `bootstrap`, or has returned. -/
inductive Stage
  | begun
  | waiting
  | ended (verdict : Verdict)
  deriving DecidableEq, Repr

/-- A navigation, with the record that its target matched when it began. -/
structure Navigation where
  fullPath : String
  name : String
  stage : Stage
  deriving DecidableEq, Repr

/-- The session and the stores of the client, the setups so far, how many of them began before a
session last ended, and the navigations so far. -/
structure App (υ : Type) where
  session : Session
  user : Option υ
  roles : List String
  perms : Finset String
  routers : Trees RouterVO
  loaded : Bool
  routing : Routing
  setups : List Setup
  since : ℕ
  bootstrap : Progress
  navigations : List Navigation

/-- A navigation begins, or its guard is called or goes on; `bootstrap` goes on after what it awaits;
a 401 asks for a refresh, or one is answered; a login succeeds, and its page calls the setup; a
request of a setup is answered, `none` where it fails; a logout ends, or a replay is refused. -/
inductive Event (υ : Type)
  | visit (fullPath : String)
  | guard (n : ℕ)
  | resume (n : ℕ)
  | bootstrapNext
  | refresh
  | answer (p : ℕ) (response : Option Tokens)
  | login (tokens : Tokens)
  | setupAfterLogin (i : ℕ)
  | userInfo (i : ℕ) (answer : Option (UserInfoResponse υ))
  | routers (i : ℕ) (answer : Option (Trees RouterVO))
  | logout
  | expire

namespace App

variable {υ : Type}

/-- A refresh token may have been stored before. -/
def start (stored : Option String) : App υ where
  session := { refreshToken := stored }
  user := none
  roles := []
  perms := ∅
  routers := .nil
  loaded := false
  routing := ⟨createRouter, []⟩
  setups := []
  since := 0
  bootstrap := .idle
  navigations := []

def phase (s : App υ) (i : ℕ) : Option Phase := s.setups[i]?.bind Setup.phase

def setPhase (s : App υ) (i : ℕ) (phase : Phase) : App υ :=
  { s with setups := s.setups.modify i fun x ↦ { x with phase := some phase } }

def setStage (s : App υ) (n : ℕ) (stage : Stage) : App υ :=
  { s with navigations := s.navigations.modify n fun x ↦ { x with stage } }

def reset (s : App υ) : App υ :=
  { s with
    user := none
    roles := []
    perms := ∅
    routers := .nil
    loaded := false
    routing := resetDynamicRoutes s.routing
    since := s.setups.length }

def performLogout (s : App υ) : App υ := { s with session := s.session.clearTokens }.reset

/-- The subscriber of `sessionExpired` runs whenever the session signals its end. -/
def update (s : App υ) (session : Session) : App υ :=
  if session.expired = s.session.expired then { s with session }
  else { s with session := session.clearTokens }.reset

def expire (s : App υ) : App υ := s.update s.session.clearTokens.emitSessionExpired

/-- The call of `bootstrap`, up to its first `await`. -/
def callBootstrap (s : App υ) : App υ :=
  if s.bootstrap = .idle then
    if s.session.hasRefresh then
      { s.update s.session.refreshOnce.1 with bootstrap := .refreshing s.session.refreshOnce.2 }
    else { s with bootstrap := .done }
  else s

def bootstrapFailed (s : App υ) : App υ :=
  { if s.session.hasRefresh then s.expire else s with bootstrap := .done }

/-- `none` while what it awaits has not settled. -/
def bootstrapNext (s : App υ) : Option (App υ) :=
  match s.bootstrap with
  | .idle | .done => none
  | .refreshing p => s.session.flights[p]?.bind fun f ↦ f.settlement.map fun
      | .resolved _ => { s with
          setups := s.setups ++ [⟨.bootstrap, some .loadUserInfo⟩]
          bootstrap := .setup s.setups.length }
      | .rejected => s.bootstrapFailed
  | .setup i => match s.phase i with
      | some (.installed true) => some { s with bootstrap := .done }
      | some (.installed false) | some .failed => some s.bootstrapFailed
      | _ => none

def loadUserInfo (s : App υ) (i : ℕ) : Option (UserInfoResponse υ) → App υ
  | none => s.setPhase i .failed
  | some info => { s.setPhase i .loadRouters with
      user := some info.user
      roles := info.roles
      perms := info.permissions.toFinset }

def loadRouters (pages : List String) (s : App υ) (i : ℕ) : Option (Trees RouterVO) → App υ
  | none => s.setPhase i .failed
  | some payload =>
    let result := installDynamicRoutes pages payload s.routing
    { s.setPhase i (.installed result.2) with routers := payload, loaded := true, routing := result.1 }

/-- The end of the guard. `resolve` gives the name of the record that a path matches. -/
def verdict (resolve : Router View → String → String) (s : App υ) (x : Navigation) : Verdict :=
  if !s.session.hasRefresh then .login x.fullPath
  else if x.name = NOT_FOUND_ROUTE_NAME ∧ resolve s.routing.router x.fullPath ≠ NOT_FOUND_ROUTE_NAME then
    .replace x.fullPath
  else .admitted

/-- `none` for an event that cannot happen. A login whose response has no refresh token is refused. -/
def step (pages : List String) (resolve : Router View → String → String) (s : App υ) : Event υ → Option (App υ)
  | .visit fullPath => some { s with
      navigations := s.navigations ++ [⟨fullPath, resolve s.routing.router fullPath, .begun⟩] }
  | .guard n => s.navigations[n]?.bind fun x ↦
      if x.stage = .begun then
        if x.name = LOGIN_ROUTE_NAME then some (s.setStage n (.ended .admitted))
        else some (s.callBootstrap.setStage n .waiting)
      else none
  | .resume n => s.navigations[n]?.bind fun x ↦
      if x.stage = .waiting ∧ s.bootstrap = .done then some (s.setStage n (.ended (s.verdict resolve x)))
      else none
  | .bootstrapNext => s.bootstrapNext
  | .refresh => some (s.update s.session.refreshOnce.1)
  | .answer p response => some (s.update (s.session.settle p response))
  | .login tokens =>
      if truthy (some tokens.refreshToken) then
        some { s with session := s.session.setTokens tokens, setups := s.setups ++ [⟨.loginPage, none⟩] }
      else none
  | .setupAfterLogin i =>
      if s.setups[i]? = some ⟨.loginPage, none⟩ then some (s.setPhase i .loadUserInfo) else none
  | .userInfo i answer => if s.phase i = some .loadUserInfo then some (s.loadUserInfo i answer) else none
  | .routers i answer => if s.phase i = some .loadRouters then some (s.loadRouters pages i answer) else none
  | .logout => some s.performLogout
  | .expire => some s.expire

end App

/-- The states that events lead to whose steps all meet the condition `c`. -/
inductive Reach {υ : Type} (pages : List String) (resolve : Router View → String → String)
    (c : App υ → App υ → Prop) (s : App υ) : App υ → Prop
  | refl : Reach pages resolve c s s
  | step {t u : App υ} (e : Event υ) : Reach pages resolve c s t → t.step pages resolve e = some u → c t u →
      Reach pages resolve c s u

theorem Reach.weaken {υ : Type} {pages : List String} {resolve : Router View → String → String}
    {c d : App υ → App υ → Prop} {s t : App υ} (h : Reach pages resolve c s t) (hd : ∀ s t, c s t → d s t) :
    Reach pages resolve d s t := by
  induction h with
  | refl => exact .refl
  | step e _ hs hc ih => exact .step e ih hs (hd _ _ hc)

namespace App

variable {υ : Type} {pages : List String} {resolve : Router View → String → String} {s t : App υ} {i p : ℕ}
  {phase : Phase} {e : Event υ}

/-- `bootstrap` has ended, or is about to end well. -/
def Assembled (s : App υ) : Prop :=
  s.bootstrap = .done ∨ ∃ i, s.bootstrap = .setup i ∧ s.phase i = some (.installed true)

/-- `bootstrap` waits for a setup. -/
def Awaits (s : App υ) : Prop := ∃ i x, s.bootstrap = .setup i ∧ s.setups[i]? = some x ∧ x.running = true

def Bounded (session : Session) : Prop := ∀ p, session.inflight = some p → p < session.flights.length

structure Extends (a b : Session) : Prop where
  length : a.flights.length ≤ b.flights.length
  bounded : Bounded a → Bounded b

/-- The cases of a step. -/
inductive Does (pages : List String) (s : App υ) : App υ → Prop
  | moves (session : Session) (navigations : List Navigation)
      (hp : ∀ p, session.pending p = true → s.session.pending p = true ∨ s.session.hasRefresh = true)
      (hr : session.hasRefresh = s.session.hasRefresh ∨ ∃ p, s.session.pending p = true)
      (hl : Extends s.session session) : Does pages s { s with session, navigations }
  | ends (session : Session)
      (hp : ∀ p, session.pending p = true → s.session.pending p = true ∨ s.session.hasRefresh = true)
      (hr : session.hasRefresh = false)
      (hl : Extends s.session session) : Does pages s { s with session }.reset
  | refreshes (p : ℕ) (session : Session) (navigations : List Navigation) (hs : s.bootstrap = .idle)
      (hp : ∀ p, session.pending p = true → s.session.pending p = true ∨ s.session.hasRefresh = true)
      (hr : session.hasRefresh = s.session.hasRefresh) (hl : Extends s.session session)
      (hlt : Bounded s.session → p < session.flights.length) :
      Does pages s { s with session, navigations, bootstrap := .refreshing p }
  | begins (p : ℕ) (hs : s.bootstrap = .refreshing p) : Does pages s { s with
      setups := s.setups ++ [⟨.bootstrap, some .loadUserInfo⟩], bootstrap := .setup s.setups.length }
  | finishes (navigations : List Navigation) (hs : ¬ Awaits s)
      (hr : s.session.hasRefresh = true → Assembled s) : Does pages s { s with navigations, bootstrap := .done }
  | fails (session : Session) (hs : ¬ Awaits s)
      (hp : ∀ p, session.pending p = true → s.session.pending p = true ∨ s.session.hasRefresh = true)
      (hr : session.hasRefresh = false)
      (hl : Extends s.session session) :
      Does pages s { { s with session }.reset with bootstrap := .done }
  | login (tokens : Tokens) (ht : truthy (some tokens.refreshToken) = true) :
      Does pages s { s with session := s.session.setTokens tokens, setups := s.setups ++ [⟨.loginPage, none⟩] }
  | calls (i : ℕ) (hi : s.setups[i]? = some ⟨.loginPage, none⟩) : Does pages s (s.setPhase i .loadUserInfo)
  | userInfo (i : ℕ) (answer : Option (UserInfoResponse υ)) (hi : s.phase i = some .loadUserInfo) :
      Does pages s (s.loadUserInfo i answer)
  | routers (i : ℕ) (answer : Option (Trees RouterVO)) (hi : s.phase i = some .loadRouters) :
      Does pages s (s.loadRouters pages i answer)

theorem hasRefresh_clearTokens (session : Session) : session.clearTokens.hasRefresh = false := rfl

theorem does_update {session : Session}
    (hp : ∀ p, session.pending p = true → s.session.pending p = true ∨ s.session.hasRefresh = true)
    (hr : session.expired = s.session.expired → session.hasRefresh = s.session.hasRefresh ∨
      ∃ p, s.session.pending p = true)
    (hl : Extends s.session session) : Does pages s (s.update session) := by
  unfold update
  by_cases h : session.expired = s.session.expired
  · rw [if_pos h]
    exact .moves session s.navigations hp (hr h) hl
  · rw [if_neg h]
    exact .ends _ hp (hasRefresh_clearTokens session) ⟨hl.length, hl.bounded⟩

theorem expire_eq (s : App υ) : s.expire =
    { s with session := s.session.clearTokens.emitSessionExpired }.reset := by
  have h : s.session.clearTokens.emitSessionExpired.expired ≠ s.session.expired := Nat.succ_ne_self _
  unfold expire update
  rw [if_neg h]
  rfl

theorem expired_refreshOnce (session : Session) : session.refreshOnce.1.expired = session.expired →
    session.refreshOnce.1.hasRefresh = session.hasRefresh := by
  unfold Session.refreshOnce Session.startFlight
  cases session.inflight with
  | some p => exact fun _ ↦ rfl
  | none =>
    dsimp only
    by_cases h : truthy session.refreshToken = true
    · rw [if_pos h]
      exact fun _ ↦ rfl
    · rw [if_neg h]
      exact fun h ↦ absurd h (Nat.succ_ne_self _)

theorem refreshOnce_of_hasRefresh {session : Session} (h : session.hasRefresh = true) :
    session.refreshOnce.1.expired = session.expired := by
  unfold Session.refreshOnce Session.startFlight
  cases session.inflight with
  | some p => rfl
  | none =>
    have ht : truthy session.refreshToken = true := h
    dsimp only
    rw [if_pos ht]

theorem refreshOnce_lt {session : Session} (h : Bounded session) :
    session.refreshOnce.2 < session.refreshOnce.1.flights.length := by
  unfold Session.refreshOnce Session.startFlight
  cases hi : session.inflight with
  | some p => exact h p hi
  | none =>
    dsimp only
    split
    · simp
    · simp

theorem inflight_refreshOnce (session : Session) :
    session.refreshOnce.1.inflight = some session.refreshOnce.2 := by
  unfold Session.refreshOnce
  cases hi : session.inflight with
  | some p => exact hi
  | none => rfl

theorem extends_refreshOnce (session : Session) : Extends session session.refreshOnce.1 where
  length := length_refresh
  bounded h p hp := by
    cases (inflight_refreshOnce session).symm.trans hp
    exact refreshOnce_lt h

theorem extends_refl (session : Session) : Extends session session := ⟨Nat.le_refl _, id⟩

theorem extends_settle (session : Session) (p : ℕ) (response : Option Tokens) :
    Extends session (session.settle p response) := by
  cases hp : session.pending p with
  | false =>
    rw [settle_of_not_pending hp]
    exact extends_refl session
  | true =>
    refine ⟨Nat.le_of_eq ?_, fun _ q hq ↦ ?_⟩
    · rw [flights_settle hp, List.length_modify]
    · rw [inflight_settle hp] at hq
      cases hq

theorem pending_refreshOnce (h : s.session.refreshOnce.1.pending p = true) :
    s.session.pending p = true ∨ s.session.hasRefresh = true :=
  (pending_refresh h).imp_right And.right

theorem does_settle (s : App υ) (p : ℕ) (response : Option Tokens) :
    Does pages s (s.update (s.session.settle p response)) := by
  refine does_update (fun q hq ↦ .inl (pending_settle hq)) (fun _ ↦ ?_) (extends_settle _ p response)
  cases hp : s.session.pending p with
  | false =>
    rw [settle_of_not_pending hp]
    exact .inl rfl
  | true => exact .inr ⟨p, hp⟩

theorem does_callBootstrap (s : App υ) (n : ℕ) : Does pages s (s.callBootstrap.setStage n .waiting) := by
  unfold callBootstrap
  by_cases hb : s.bootstrap = .idle
  · rw [if_pos hb]
    by_cases hr : s.session.hasRefresh = true
    · rw [if_pos hr, update, if_pos (refreshOnce_of_hasRefresh hr)]
      exact .refreshes _ _ _ hb (fun _ ↦ pending_refreshOnce)
        (expired_refreshOnce s.session (refreshOnce_of_hasRefresh hr)) (extends_refreshOnce _) refreshOnce_lt
    · rw [if_neg hr]
      refine .finishes _ ?_ fun h ↦ absurd h hr
      rintro ⟨i, x, hi, -⟩
      rw [hb] at hi
      cases hi
  · rw [if_neg hb]
    exact .moves s.session _ (fun _ h ↦ .inl h) (.inl rfl) (extends_refl _)

theorem does_bootstrapFailed (hs : ¬ Awaits s) : Does pages s s.bootstrapFailed := by
  unfold bootstrapFailed
  by_cases hr : s.session.hasRefresh = true
  · rw [if_pos hr, expire_eq]
    exact .fails _ hs (fun _ h ↦ .inl h) rfl ⟨Nat.le_refl _, id⟩
  · rw [if_neg hr]
    exact .finishes s.navigations hs fun h ↦ absurd h hr

theorem not_awaits_of_phase (hb : s.bootstrap = .setup i) (hp : s.phase i = some phase)
    (h₁ : phase ≠ .loadUserInfo) (h₂ : phase ≠ .loadRouters) : ¬ Awaits s := by
  rintro ⟨j, x, hj, hx, hrun⟩
  cases hb.symm.trans hj
  rw [App.phase, hx, Option.bind_some] at hp
  simp [Setup.running, hp, h₁, h₂] at hrun

theorem does_bootstrapNext (h : s.bootstrapNext = some t) : Does pages s t := by
  unfold bootstrapNext at h
  cases hb : s.bootstrap with
  | idle =>
    rw [hb] at h
    cases h
  | done =>
    rw [hb] at h
    cases h
  | refreshing p =>
    rw [hb] at h
    obtain ⟨f, -, h⟩ := Option.bind_eq_some_iff.1 h
    obtain ⟨settlement, -, h⟩ := Option.map_eq_some_iff.1 h
    subst h
    cases settlement with
    | resolved token => exact .begins p hb
    | rejected =>
      refine does_bootstrapFailed ?_
      rintro ⟨i, x, hi, -⟩
      rw [hb] at hi
      cases hi
  | setup i =>
    rw [hb] at h
    dsimp only at h
    split at h
    · rename_i hp
      cases h
      exact .finishes s.navigations (not_awaits_of_phase hb hp (by decide) (by decide)) fun _ ↦ .inr ⟨i, hb, hp⟩
    · rename_i hp
      cases h
      exact does_bootstrapFailed (not_awaits_of_phase hb hp (by decide) (by decide))
    · rename_i hp
      cases h
      exact does_bootstrapFailed (not_awaits_of_phase hb hp (by decide) (by decide))
    · cases h

theorem does_of_step (h : s.step pages resolve e = some t) : Does pages s t := by
  cases e with
  | visit fullPath =>
    cases h
    exact .moves s.session _ (fun _ h ↦ .inl h) (.inl rfl) (extends_refl _)
  | guard n =>
    obtain ⟨x, -, h⟩ := Option.bind_eq_some_iff.1 h
    rw [Option.ite_none_right_eq_some] at h
    by_cases hn : x.name = LOGIN_ROUTE_NAME
    · rw [if_pos hn] at h
      cases h.2
      exact .moves s.session _ (fun _ h ↦ .inl h) (.inl rfl) (extends_refl _)
    · rw [if_neg hn] at h
      cases h.2
      exact does_callBootstrap s n
  | resume n =>
    obtain ⟨x, -, h⟩ := Option.bind_eq_some_iff.1 h
    rw [Option.ite_none_right_eq_some] at h
    cases h.2
    exact .moves s.session _ (fun _ h ↦ .inl h) (.inl rfl) (extends_refl _)
  | bootstrapNext => exact does_bootstrapNext h
  | refresh =>
    cases h
    exact does_update (fun _ ↦ pending_refreshOnce) (fun h ↦ .inl (expired_refreshOnce s.session h))
      (extends_refreshOnce _)
  | answer p response =>
    cases h
    exact does_settle s p response
  | login tokens =>
    obtain ⟨ht, h⟩ := Option.ite_none_right_eq_some.1 h
    cases h
    exact .login tokens ht
  | setupAfterLogin i =>
    obtain ⟨hi, h⟩ := Option.ite_none_right_eq_some.1 h
    cases h
    exact .calls i hi
  | userInfo i answer =>
    obtain ⟨hi, h⟩ := Option.ite_none_right_eq_some.1 h
    cases h
    exact .userInfo i answer hi
  | routers i answer =>
    obtain ⟨hi, h⟩ := Option.ite_none_right_eq_some.1 h
    cases h
    exact .routers i answer hi
  | logout =>
    cases h
    exact .ends _ (fun _ h ↦ .inl h) rfl ⟨Nat.le_refl _, id⟩
  | expire =>
    cases h
    rw [expire_eq]
    exact .ends _ (fun _ h ↦ .inl h) rfl ⟨Nat.le_refl _, id⟩

end App

end AdminPlatform.Frontend.Bootstrap
