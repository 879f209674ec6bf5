import AdminPlatform.Frontend.Bootstrap

namespace AdminPlatform.Frontend.BootstrapInvariant

open Foundation.RoseTree Menu.Routers VueRouter DynamicRoutes Bootstrap App
open ApiSession (Session Settlement Tokens)
open ClientStores (Phase UserInfoResponse)

variable {υ : Type} {pages : List String} {resolve : Router View → String → String} {s t u : App υ}
  {x y : Setup} {i j p : ℕ} {phase : Phase} {e : Event υ}

structure Idle (s : App υ) : Prop where
  flights : ∀ p, s.session.pending p = false
  setups : ∀ x ∈ s.setups, x.running = false

def Ends (s t : App υ) : Prop :=
  s.since ≠ t.since ∨ s.session.hasRefresh = true ∧ t.session.hasRefresh = false

def Calm (s t : App υ) : Prop := Ends s t → Idle t

def Unfinished (s : App υ) : Prop := ∃ i x, s.since ≤ i ∧ s.setups[i]? = some x ∧ x.owner = .loginPage ∧
  x.phase ≠ some (.installed true)

/-- The user and the menus are there, and the routes of all of them have been installed. -/
structure Complete (pages : List String) (s : App υ) : Prop where
  user : s.user.isSome = true
  loaded : s.loaded = true
  routes : ∃ r, installDynamicRoutes pages s.routers r = (s.routing, true)

theorem getElem?_snoc {xs : List Setup} : (xs ++ [y])[i]? = some x ↔ xs[i]? = some x ∨ i = xs.length ∧ x = y := by
  rcases Nat.lt_trichotomy i xs.length with hi | rfl | hi
  · rw [List.getElem?_append_left hi]
    exact ⟨.inl, fun h ↦ h.resolve_right fun h ↦ absurd h.1 (Nat.ne_of_lt hi)⟩
  · simp [eq_comm]
  · rw [List.getElem?_eq_none (by simpa using Nat.succ_le_of_lt hi), List.getElem?_eq_none (Nat.le_of_lt hi)]
    simp [Nat.ne_of_gt hi]

theorem setups_setPhase : (s.setPhase i phase).setups[j]? = some y ↔
    ∃ x, s.setups[j]? = some x ∧ y = if i = j then { x with phase := some phase } else x := by
  rw [setPhase, List.getElem?_modify, Option.map_eq_map, Option.map_eq_some_iff]
  simp only [eq_comm]

theorem setup_of_phase (h : s.phase i = some phase) : ∃ x, s.setups[i]? = some x ∧ x.phase = some phase :=
  Option.bind_eq_some_iff.1 h

theorem phase_eq (h : s.setups[i]? = some x) : s.phase i = x.phase := by
  rw [App.phase, h]
  rfl

/-- What holds whatever is out when a session ends. -/
structure Once (s : App υ) : Prop where
  handle : Bounded s.session
  flight : ∀ p, s.bootstrap = .refreshing p → p < s.session.flights.length
  called : ∀ i, s.bootstrap = .setup i → ∃ phase, s.setups[i]? = some ⟨.bootstrap, some phase⟩
  owned : ∀ i x, s.setups[i]? = some x → x.owner = .bootstrap →
    s.bootstrap = .setup i ∨ s.bootstrap = .done ∧ x.running = false
  one : ∀ (i j : ℕ) (x y : Setup), s.setups[i]? = some x → s.setups[j]? = some y → x.owner = .bootstrap →
    y.owner = .bootstrap → i = j

theorem once_start (stored : Option String) : Once (start stored : App υ) where
  handle _ hp := by cases hp
  flight _ hp := by cases hp
  called _ hi := by cases hi
  owned _ _ hx := by cases hx
  one _ _ _ _ hx := by cases hx

theorem Once.congr (h : Once s) (hs : t.session = s.session) (hx : t.setups = s.setups)
    (hb : t.bootstrap = s.bootstrap) : Once t where
  handle := hs ▸ h.handle
  flight p hp := hs ▸ h.flight p (hb ▸ hp)
  called i hi := hx ▸ h.called i (hb ▸ hi)
  owned i x hi := by
    rw [hx] at hi
    rw [hb]
    exact h.owned i x hi
  one := by
    rw [hx]
    exact h.one

theorem Once.moves {session : Session} (h : Once s) (hl : Extends s.session session) :
    Once { s with session } where
  handle := hl.bounded h.handle
  flight p hp := Nat.lt_of_lt_of_le (h.flight p hp) hl.length
  called := h.called
  owned := h.owned
  one := h.one

theorem Once.done (h : Once s) (hs : ¬ Awaits s) : Once { s with bootstrap := .done } where
  handle := h.handle
  flight _ hp := by cases hp
  called _ hi := by cases hi
  owned i x hx hb := by
    refine .inr ⟨rfl, ?_⟩
    rcases h.owned i x hx hb with hi | ⟨-, hrun⟩
    · exact Bool.eq_false_iff.2 fun hrun ↦ hs ⟨i, x, hi, hx, hrun⟩
    · exact hrun
  one := h.one

/-- A setup that is running goes on. -/
theorem Once.setPhase (h : Once s) (hx : s.setups[i]? = some x) (hrun : x.running = true) :
    Once (s.setPhase i phase) where
  handle := h.handle
  flight := h.flight
  called j hj := by
    obtain ⟨old, hold⟩ := h.called j hj
    refine ⟨if i = j then phase else old, setups_setPhase.2 ⟨_, hold, ?_⟩⟩
    split
    · rfl
    · rfl
  owned j y hy hb := by
    obtain ⟨z, hz, rfl⟩ := setups_setPhase.1 hy
    by_cases hij : i = j
    · subst hij
      rw [if_pos rfl] at hb
      cases hx.symm.trans hz
      refine .inl ((h.owned i x hx hb).resolve_right fun h ↦ ?_)
      rw [hrun] at h
      cases h.2
    · rw [if_neg hij] at hb ⊢
      exact h.owned j z hz hb
  one j k y z hy hz hyb hzb := by
    obtain ⟨y', hy', rfl⟩ := setups_setPhase.1 hy
    obtain ⟨z', hz', rfl⟩ := setups_setPhase.1 hz
    refine h.one j k y' z' hy' hz' ?_ ?_
    · split at hyb
      · exact hyb
      · exact hyb
    · split at hzb
      · exact hzb
      · exact hzb

theorem Once.begins (h : Once s) (hs : s.bootstrap = .refreshing p) : Once { s with
    setups := s.setups ++ [⟨.bootstrap, some .loadUserInfo⟩], bootstrap := .setup s.setups.length } := by
  have hnone : ∀ (i : ℕ) (x : Setup), s.setups[i]? = some x → x.owner ≠ .bootstrap := by
    intro i x hx hb
    rcases h.owned i x hx hb with hi | ⟨hi, -⟩
    · rw [hs] at hi
      cases hi
    · rw [hs] at hi
      cases hi
  have hlast : ∀ (i : ℕ) (x : Setup), (s.setups ++ [⟨.bootstrap, some .loadUserInfo⟩])[i]? = some x →
      x.owner = .bootstrap → i = s.setups.length := fun i x hx hb ↦
    ((getElem?_snoc.1 hx).resolve_left fun hx ↦ hnone i x hx hb).1
  refine ⟨h.handle, fun p hp ↦ (by cases hp), fun i hi ↦ ?_, fun i x hx hb ↦ .inl ?_,
    fun i j x y hx hy hxb hyb ↦ ?_⟩
  · cases hi
    exact ⟨_, List.getElem?_concat_length⟩
  · exact congrArg Progress.setup (hlast i x hx hb).symm
  · exact (hlast i x hx hxb).trans (hlast j y hy hyb).symm

theorem Once.login (h : Once s) (tokens : Tokens) : Once { s with
    session := s.session.setTokens tokens, setups := s.setups ++ [⟨.loginPage, none⟩] } := by
  have hold : ∀ (i : ℕ) (x : Setup), (s.setups ++ [⟨.loginPage, none⟩])[i]? = some x → x.owner = .bootstrap →
      s.setups[i]? = some x := by
    intro i x hx hb
    refine (getElem?_snoc.1 hx).resolve_right fun hx ↦ ?_
    rw [hx.2] at hb
    cases hb
  refine ⟨h.handle, h.flight, fun i hi ↦ ?_, fun i x hx hb ↦ h.owned i x (hold i x hx hb) hb,
    fun i j x y hx hy hxb hyb ↦ h.one i j x y (hold i x hx hxb) (hold j y hy hyb) hxb hyb⟩
  obtain ⟨phase, hphase⟩ := h.called i hi
  exact ⟨phase, getElem?_snoc.2 (.inl hphase)⟩

theorem running_of_phase (h : s.setups[i]? = some x)
    (hp : s.phase i = some .loadUserInfo ∨ s.phase i = some .loadRouters) : x.running = true := by
  rw [phase_eq h] at hp
  exact decide_eq_true (.inr hp)

theorem once_step (h : Once s) (hd : Does pages s t) : Once t := by
  cases hd with
  | moves session navigations hp hr hl => exact (h.moves hl).congr rfl rfl rfl
  | ends session hp hr hl => exact (h.moves hl).congr rfl rfl rfl
  | refreshes p session navigations hs hp hr hl hlt =>
    refine ⟨hl.bounded h.handle, fun q hq ↦ ?_, fun i hi ↦ (by cases hi), fun i x hx hb ↦ ?_, h.one⟩
    · cases hq
      exact hlt h.handle
    · rcases h.owned i x hx hb with hi | ⟨hi, -⟩
      · rw [hs] at hi
        cases hi
      · rw [hs] at hi
        cases hi
  | begins p hs => exact h.begins hs
  | finishes navigations hs hr => exact (h.done hs).congr rfl rfl rfl
  | fails session hs hp hr hl => exact ((h.done hs).moves hl).congr rfl rfl rfl
  | login tokens ht => exact h.login tokens
  | calls i hi => exact h.setPhase hi rfl
  | userInfo i answer hi =>
    obtain ⟨x, hx, -⟩ := setup_of_phase hi
    have hrun := running_of_phase hx (.inl hi)
    cases answer with
    | none => exact h.setPhase hx hrun
    | some info => exact (h.setPhase hx hrun).congr rfl rfl rfl
  | routers i answer hi =>
    obtain ⟨x, hx, -⟩ := setup_of_phase hi
    have hrun := running_of_phase hx (.inr hi)
    cases answer with
    | none => exact h.setPhase hx hrun
    | some payload => exact (h.setPhase hx hrun).congr rfl rfl rfl

theorem once_of_reach {stored : Option String} {c : App υ → App υ → Prop}
    (h : Reach pages resolve c (start stored) s) : Once s := by
  induction h with
  | refl => exact once_start stored
  | step e _ hs _ ih => exact once_step ih (does_of_step hs)

structure Inv (pages : List String) (s : App υ) : Prop where
  bound : s.since ≤ s.setups.length
  running : ∀ i x, s.setups[i]? = some x → x.running = true → s.since ≤ i
  pending : ∀ p, s.session.pending p = true → s.session.hasRefresh = true
  user : ∀ i x, s.setups[i]? = some x → s.since ≤ i → x.phase = some .loadRouters → s.user.isSome = true
  assembled : s.session.hasRefresh = true → Assembled s → Unfinished s ∨ Complete pages s

theorem inv_start (stored : Option String) : Inv pages (start stored : App υ) where
  bound := Nat.le_refl _
  running _ _ hx := by cases hx
  pending _ hp := by cases hp
  user _ _ hx := by cases hx
  assembled _ ha := by
    rcases ha with ha | ⟨_, ha, -⟩
    · cases ha
    · cases ha

/-- The end of a session. -/
theorem inv_reset {session : Session} (h : Inv pages s) (hc : Calm s t) (hs : t.session = session)
    (hx : t.setups = s.setups) (hsince : t.since = s.setups.length) (hr : session.hasRefresh = false)
    (hp : ∀ p, session.pending p = true → s.session.pending p = true ∨ s.session.hasRefresh = true) :
    Inv pages t := by
  subst hs
  have hout : ∀ j y, t.setups[j]? = some y → t.since ≤ j → False := by
    intro j y hy hj
    have hlt := (List.getElem?_eq_some_iff.1 hy).1
    rw [hsince] at hj
    rw [hx] at hlt
    omega
  refine ⟨by rw [hsince, hx], fun i x hi hrun ↦ ?_, fun p hq ↦ ?_, fun i x hi hle _ ↦ (hout i x hi hle).elim,
    fun h ↦ by rw [hr] at h; cases h⟩
  · by_cases he : Ends s t
    · rw [(hc he).setups x (List.mem_of_getElem? hi)] at hrun
      cases hrun
    · rw [hx] at hi
      have hsame : s.since = t.since := not_not.1 fun hne ↦ he (.inl hne)
      exact hsame ▸ h.running i x hi hrun
  · by_cases he : Ends s t
    · rw [(hc he).flights p] at hq
      cases hq
    · have hs : s.session.hasRefresh = true := (hp p hq).elim (h.pending p) id
      exact absurd (.inr ⟨hs, hr⟩) he

theorem Complete.congr (h : Complete pages s) (hu : t.user = s.user) (hl : t.loaded = s.loaded)
    (hr : t.routers = s.routers) (hg : t.routing = s.routing) : Complete pages t where
  user := hu ▸ h.user
  loaded := hl ▸ h.loaded
  routes := by
    rw [hr, hg]
    exact h.routes

/-- The setups and the user are as before. -/
theorem Inv.congr (h : Inv pages s) (hx : t.setups = s.setups) (hsince : t.since = s.since) (hu : t.user = s.user)
    (hp : ∀ p, t.session.pending p = true → t.session.hasRefresh = true)
    (ha : t.session.hasRefresh = true → Assembled t → Unfinished t ∨ Complete pages t) : Inv pages t := by
  refine ⟨?_, ?_, hp, ?_, ha⟩
  · rw [hx, hsince]
    exact h.bound
  · rw [hx, hsince]
    exact h.running
  · rw [hx, hsince, hu]
    exact h.user

theorem inv_moves {session : Session} {navigations : List Navigation} (h : Inv pages s)
    (hc : Calm s { s with session, navigations })
    (hp : ∀ p, session.pending p = true → s.session.pending p = true ∨ s.session.hasRefresh = true)
    (hr : session.hasRefresh = s.session.hasRefresh ∨ ∃ p, s.session.pending p = true) :
    Inv pages { s with session, navigations } := by
  have hs : session.hasRefresh = true → s.session.hasRefresh = true := by
    intro ht
    rcases hr with hr | ⟨p, hp⟩
    · exact hr ▸ ht
    · exact h.pending p hp
  refine h.congr rfl rfl rfl (fun p hq ↦ ?_) fun ht ha ↦
    (h.assembled (hs ht) ha).imp id fun hc ↦ hc.congr rfl rfl rfl rfl
  have hold : s.session.hasRefresh = true := (hp p hq).elim (h.pending p) id
  refine Bool.not_eq_false _ ▸ fun hnot ↦ ?_
  have hidle := hc (.inr ⟨hold, hnot⟩)
  rw [hidle.flights p] at hq
  cases hq

theorem inv_append (h : Inv pages s) (hx : t.setups = s.setups ++ [y]) (hsince : t.since = s.since)
    (hu : t.user = s.user) (hy : y.phase ≠ some .loadRouters)
    (hp : ∀ p, t.session.pending p = true → t.session.hasRefresh = true)
    (ha : t.session.hasRefresh = true → Assembled t → Unfinished t ∨ Complete pages t) : Inv pages t := by
  refine ⟨?_, fun i x hi hrun ↦ ?_, hp, fun i x hi hle hphase ↦ ?_, ha⟩
  · rw [hx, hsince, List.length_append]
    exact Nat.le_trans h.bound (Nat.le_add_right _ _)
  · rw [hx] at hi
    rw [hsince]
    rcases getElem?_snoc.1 hi with hi | ⟨rfl, -⟩
    · exact h.running i x hi hrun
    · exact h.bound
  · rw [hx] at hi
    rw [hsince] at hle
    rw [hu]
    rcases getElem?_snoc.1 hi with hi | ⟨-, rfl⟩
    · exact h.user i x hi hle hphase
    · exact absurd hphase hy

/-- A setup that is running gets its answer. -/
structure Answers (s t : App υ) (i : ℕ) (phase : Phase) : Prop where
  session : t.session = s.session
  setups : t.setups = (s.setPhase i phase).setups
  since : t.since = s.since
  bootstrap : t.bootstrap = s.bootstrap

/-- Unless it is the last of a setup, `bootstrap` still waits or a login is not finished. -/
theorem unfinished_of_answers (ho : Once s) (h : Inv pages s) (ht : Answers s t i phase)
    (hx : s.setups[i]? = some x)
    (hrun : x.running = true) (hphase : phase ≠ .installed true) (ha : Assembled t) : Unfinished t := by
  have hi : t.setups[i]? = some { x with phase := some phase } := by
    rw [ht.setups]
    exact setups_setPhase.2 ⟨x, hx, (if_pos rfl).symm⟩
  cases hown : x.owner with
  | loginPage =>
    refine ⟨i, _, ?_, hi, hown, ?_⟩
    · rw [ht.since]
      exact h.running i x hx hrun
    · exact fun he ↦ hphase (Option.some.inj he)
  | bootstrap =>
    have hb : t.bootstrap = .setup i := by
      rw [ht.bootstrap]
      refine (ho.owned i x hx hown).resolve_right fun hd ↦ ?_
      rw [hrun] at hd
      cases hd.2
    rcases ha with ha | ⟨j, ha, hj⟩
    · rw [hb] at ha
      cases ha
    · rw [hb] at ha
      cases ha
      rw [phase_eq hi] at hj
      exact absurd (Option.some.inj hj) hphase

theorem inv_answers (h : Inv pages s) (ht : Answers s t i phase) (hx : s.setups[i]? = some x)
    (hrun : x.running = true)
    (hu : ∀ j y, t.setups[j]? = some y → t.since ≤ j → y.phase = some .loadRouters → t.user.isSome = true)
    (ha : t.session.hasRefresh = true → Assembled t → Unfinished t ∨ Complete pages t) : Inv pages t := by
  refine ⟨?_, fun j y hy hyrun ↦ ?_, ?_, hu, ha⟩
  · rw [ht.setups, ht.since, setPhase, List.length_modify]
    exact h.bound
  · rw [ht.setups] at hy
    rw [ht.since]
    obtain ⟨z, hz, rfl⟩ := setups_setPhase.1 hy
    by_cases hij : i = j
    · subst hij
      exact h.running i x hx hrun
    · rw [if_neg hij] at hyrun
      exact h.running j z hz hyrun
  · rw [ht.session]
    exact h.pending

/-- The user stays, and no setup comes to wait for the menus. -/
theorem user_of_answers (h : Inv pages s) (ht : Answers s t i phase) (hu : t.user = s.user)
    (hphase : phase ≠ .loadRouters) :
    ∀ j y, t.setups[j]? = some y → t.since ≤ j → y.phase = some .loadRouters → t.user.isSome = true := by
  intro j y hy hle hp
  rw [ht.setups] at hy
  rw [ht.since] at hle
  rw [hu]
  obtain ⟨z, hz, rfl⟩ := setups_setPhase.1 hy
  by_cases hij : i = j
  · rw [if_pos hij] at hp
    exact absurd (Option.some.inj hp) hphase
  · rw [if_neg hij] at hp
    exact h.user j z hz hle hp

theorem inv_loadUserInfo (ho : Once s) (h : Inv pages s) (hi : s.phase i = some .loadUserInfo)
    (answer : Option (UserInfoResponse υ)) : Inv pages (s.loadUserInfo i answer) := by
  obtain ⟨x, hx, -⟩ := setup_of_phase hi
  have hrun := running_of_phase hx (.inl hi)
  cases answer with
  | none =>
    have ht : Answers s (s.loadUserInfo i none) i .failed := ⟨rfl, rfl, rfl, rfl⟩
    exact inv_answers h ht hx hrun (user_of_answers h ht rfl (by decide)) fun _ ha ↦
      .inl (unfinished_of_answers ho h ht hx hrun (by decide) ha)
  | some info =>
    have ht : Answers s (s.loadUserInfo i (some info)) i .loadRouters := ⟨rfl, rfl, rfl, rfl⟩
    exact inv_answers h ht hx hrun (fun _ _ _ _ _ ↦ rfl) fun _ ha ↦
      .inl (unfinished_of_answers ho h ht hx hrun (by decide) ha)

theorem inv_loadRouters (ho : Once s) (h : Inv pages s) (hi : s.phase i = some .loadRouters)
    (answer : Option (Trees RouterVO)) : Inv pages (s.loadRouters pages i answer) := by
  obtain ⟨x, hx, hxp⟩ := setup_of_phase hi
  have hrun := running_of_phase hx (.inr hi)
  cases answer with
  | none =>
    have ht : Answers s (s.loadRouters pages i none) i .failed := ⟨rfl, rfl, rfl, rfl⟩
    exact inv_answers h ht hx hrun (user_of_answers h ht rfl (by decide)) fun _ ha ↦
      .inl (unfinished_of_answers ho h ht hx hrun (by decide) ha)
  | some payload =>
    have ht : Answers s (s.loadRouters pages i (some payload)) i
      (.installed (installDynamicRoutes pages payload s.routing).2) := ⟨rfl, rfl, rfl, rfl⟩
    refine inv_answers h ht hx hrun (user_of_answers h ht rfl (by simp)) fun _ ha ↦ ?_
    cases hres : (installDynamicRoutes pages payload s.routing).2 with
    | true => exact .inr ⟨h.user i x hx (h.running i x hx hrun) hxp, rfl, s.routing, Prod.ext rfl hres⟩
    | false =>
      rw [hres] at ht
      exact .inl (unfinished_of_answers ho h ht hx hrun (by decide) ha)

theorem inv_step (ho : Once s) (h : Inv pages s) (hd : Does pages s t) (hc : Calm s t) : Inv pages t := by
  cases hd with
  | moves session navigations hp hr hl => exact inv_moves h hc hp hr
  | ends session hp hr hl => exact inv_reset h hc rfl rfl rfl hr hp
  | refreshes p session navigations hs hp hr hl hlt =>
    refine h.congr rfl rfl rfl (fun q hq ↦ ?_) fun _ ha ↦ ?_
    · exact hr.trans ((hp q hq).elim (h.pending q) id)
    · rcases ha with ha | ⟨i, ha, -⟩
      · cases ha
      · cases ha
  | begins p hs =>
    refine inv_append h rfl rfl rfl (by decide) h.pending fun _ ha ↦ ?_
    rcases ha with ha | ⟨i, ha, hi⟩
    · cases ha
    · cases ha
      rw [phase_eq List.getElem?_concat_length] at hi
      cases hi
  | finishes navigations hs hr =>
    refine h.congr rfl rfl rfl h.pending fun ht _ ↦ ?_
    exact (h.assembled ht (hr ht)).imp id fun hc ↦ hc.congr rfl rfl rfl rfl
  | fails session hs hp hr hl => exact inv_reset h hc rfl rfl rfl hr hp
  | login tokens ht =>
    refine inv_append h rfl rfl rfl (by decide) (fun _ _ ↦ ht) fun _ _ ↦ .inl ?_
    exact ⟨_, _, h.bound, List.getElem?_concat_length, rfl, by decide⟩
  | calls i hi =>
    have ht : Answers s (s.setPhase i .loadUserInfo) i .loadUserInfo := ⟨rfl, rfl, rfl, rfl⟩
    exact inv_answers h ht hi rfl (user_of_answers h ht rfl (by decide)) fun _ ha ↦
      .inl (unfinished_of_answers ho h ht hi rfl (by decide) ha)
  | userInfo i answer hi => exact inv_loadUserInfo ho h hi answer
  | routers i answer hi => exact inv_loadRouters ho h hi answer

theorem inv_of_reach {stored : Option String} (h : Reach pages resolve Calm (start stored) s) : Inv pages s := by
  induction h with
  | refl => exact inv_start stored
  | step e hr hs hc ih => exact inv_step (once_of_reach hr) ih (does_of_step hs) hc

end AdminPlatform.Frontend.BootstrapInvariant
