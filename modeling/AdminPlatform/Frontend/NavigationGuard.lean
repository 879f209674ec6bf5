import AdminPlatform.Frontend.BootstrapInvariant

namespace AdminPlatform.Frontend.NavigationGuard

open Foundation.RoseTree Menu.Routers VueRouter DynamicRoutes Bootstrap App BootstrapInvariant
open ApiSession (Session Settlement Tokens)
open ClientStores (Phase UserInfoResponse)

variable {υ : Type} {pages : List String} {resolve : Router View → String → String} {s t u : App υ} {x : Setup}
  {i n p : ℕ} {phase : Phase} {e : Event υ} {a b : Navigation} {v : Verdict}

/-- What is true of the client when the guard of `a` returns a verdict. -/
def Justified (pages : List String) (resolve : Router View → String → String) (stored : Option String)
    (s : App υ) (a : Navigation) : Verdict → Prop
  | .admitted => a.name = LOGIN_ROUTE_NAME ∨ s.bootstrap = .done ∧ s.session.hasRefresh = true ∧
      (Reach pages resolve Calm (start stored) s → Unfinished s ∨ Complete pages s) ∧
      (a.name = NOT_FOUND_ROUTE_NAME → resolve s.routing.router a.fullPath = NOT_FOUND_ROUTE_NAME)
  | .login redirect => redirect = a.fullPath ∧ s.bootstrap = .done ∧ s.session.hasRefresh = false
  | .replace path => path = a.fullPath ∧ s.bootstrap = .done ∧ a.name = NOT_FOUND_ROUTE_NAME ∧
      s.verdict resolve ⟨path, resolve s.routing.router path, .waiting⟩ = .admitted

theorem navigations_update (s : App υ) (session : Session) : (s.update session).navigations = s.navigations := by
  unfold update
  split
  · rfl
  · rfl

theorem navigations_bootstrapFailed (s : App υ) : s.bootstrapFailed.navigations = s.navigations := by
  unfold bootstrapFailed
  split
  · exact navigations_update _ _
  · rfl

theorem navigations_bootstrapNext (h : s.bootstrapNext = some t) : t.navigations = s.navigations := by
  unfold bootstrapNext at h
  split at h
  · cases h
  · cases h
  · obtain ⟨f, -, h⟩ := Option.bind_eq_some_iff.1 h
    obtain ⟨settlement, -, rfl⟩ := Option.map_eq_some_iff.1 h
    cases settlement with
    | resolved token => rfl
    | rejected => exact navigations_bootstrapFailed s
  · split at h
    · cases h
      rfl
    · cases h
      exact navigations_bootstrapFailed s
    · cases h
      exact navigations_bootstrapFailed s
    · cases h

theorem navigations_callBootstrap (s : App υ) : s.callBootstrap.navigations = s.navigations := by
  unfold callBootstrap
  split
  · split
    · exact navigations_update _ _
    · rfl
  · rfl

theorem navigations_loadUserInfo (s : App υ) (i : ℕ) (answer : Option (UserInfoResponse υ)) :
    (s.loadUserInfo i answer).navigations = s.navigations := by
  cases answer with
  | none => rfl
  | some info => rfl

theorem navigations_loadRouters (s : App υ) (i : ℕ) (answer : Option (Trees RouterVO)) :
    (s.loadRouters pages i answer).navigations = s.navigations := by
  cases answer with
  | none => rfl
  | some payload => rfl

theorem callBootstrap_ne_idle (s : App υ) : s.callBootstrap.bootstrap ≠ .idle := by
  unfold callBootstrap
  split
  · split
    · exact Progress.noConfusion
    · exact Progress.noConfusion
  · assumption

/-- What a step does to the navigations. A guard returns at once on the way to the login page, and else
after `bootstrap`. -/
inductive Navigates (resolve : Router View → String → String) (s t : App υ) : Prop
  | stay (h : t.navigations = s.navigations)
  | begin (a : Navigation) (ha : a.stage = .begun) (h : t.navigations = s.navigations ++ [a])
  | wait (m : ℕ) (hb : t.bootstrap ≠ .idle) (h : t.navigations = (s.setStage m .waiting).navigations)
  | reply (m : ℕ) (x : Navigation) (v : Verdict) (hx : s.navigations[m]? = some x)
      (hv : x.name = LOGIN_ROUTE_NAME ∧ v = .admitted ∨ s.bootstrap = .done ∧ v = s.verdict resolve x)
      (h : t.navigations = (s.setStage m (.ended v)).navigations)

theorem navigates_of_step (h : s.step pages resolve e = some t) : Navigates resolve s t := by
  cases e with
  | visit fullPath =>
    cases h
    exact .begin _ rfl rfl
  | guard m =>
    obtain ⟨x, hx, h⟩ := Option.bind_eq_some_iff.1 h
    obtain ⟨-, h⟩ := Option.ite_none_right_eq_some.1 h
    by_cases hlogin : x.name = LOGIN_ROUTE_NAME
    · rw [if_pos hlogin] at h
      cases h
      exact .reply m x .admitted hx (.inl ⟨hlogin, rfl⟩) rfl
    · rw [if_neg hlogin] at h
      cases h
      refine .wait m (callBootstrap_ne_idle s) ?_
      simp only [setStage, navigations_callBootstrap]
  | resume m =>
    obtain ⟨x, hx, h⟩ := Option.bind_eq_some_iff.1 h
    obtain ⟨⟨-, hdone⟩, h⟩ := Option.ite_none_right_eq_some.1 h
    cases h
    exact .reply m x _ hx (.inr ⟨hdone, rfl⟩) rfl
  | bootstrapNext => exact .stay (navigations_bootstrapNext h)
  | refresh =>
    cases h
    exact .stay (navigations_update _ _)
  | answer p response =>
    cases h
    exact .stay (navigations_update _ _)
  | login tokens =>
    obtain ⟨-, h⟩ := Option.ite_none_right_eq_some.1 h
    cases h
    exact .stay rfl
  | setupAfterLogin i =>
    obtain ⟨-, h⟩ := Option.ite_none_right_eq_some.1 h
    cases h
    exact .stay rfl
  | userInfo i answer =>
    obtain ⟨-, h⟩ := Option.ite_none_right_eq_some.1 h
    cases h
    exact .stay (navigations_loadUserInfo s i answer)
  | routers i answer =>
    obtain ⟨-, h⟩ := Option.ite_none_right_eq_some.1 h
    cases h
    exact .stay (navigations_loadRouters s i answer)
  | logout =>
    cases h
    exact .stay rfl
  | expire =>
    cases h
    exact .stay (navigations_update _ _)

theorem getElem?_setStage {stage : Stage} {m : ℕ} (ht : t.navigations = (s.setStage m stage).navigations)
    (hb : t.navigations[n]? = some b) :
    ∃ a, s.navigations[n]? = some a ∧ (m = n ∧ b = { a with stage } ∨ m ≠ n ∧ b = a) := by
  rw [ht, setStage, List.getElem?_modify, Option.map_eq_map] at hb
  obtain ⟨a, ha, hb⟩ := Option.map_eq_some_iff.1 hb
  refine ⟨a, ha, ?_⟩
  by_cases hm : m = n
  · rw [if_pos hm] at hb
    exact .inl ⟨hm, hb.symm⟩
  · rw [if_neg hm] at hb
    exact .inr ⟨hm, hb.symm⟩

theorem returns (h : Navigates resolve s t) (ha : s.navigations[n]? = some a) (hb : t.navigations[n]? = some b)
    (hv : b.stage = .ended v) (hnot : a.stage ≠ .ended v) :
    a.name = LOGIN_ROUTE_NAME ∧ v = .admitted ∨ s.bootstrap = .done ∧ v = s.verdict resolve a := by
  have hne : a ≠ b := by
    rintro rfl
    exact hnot hv
  cases h with
  | stay h =>
    rw [h, ha] at hb
    exact absurd (Option.some.inj hb) hne
  | begin c _ h =>
    rw [h, List.getElem?_append_left (List.getElem?_eq_some_iff.1 ha).1, ha] at hb
    exact absurd (Option.some.inj hb) hne
  | wait m _ h =>
    obtain ⟨c, hc, ⟨-, rfl⟩ | ⟨-, rfl⟩⟩ := getElem?_setStage h hb
    · cases hv
    · exact absurd (Option.some.inj (ha.symm.trans hc)) hne
  | reply m x w hx hw h =>
    obtain ⟨c, hc, ⟨rfl, rfl⟩ | ⟨-, rfl⟩⟩ := getElem?_setStage h hb
    · cases hx.symm.trans ha
      cases hv
      exact hw
    · exact absurd (Option.some.inj (ha.symm.trans hc)) hne

theorem justified_verdict (stored : Option String) (hd : s.bootstrap = .done) :
    Justified pages resolve stored s a (s.verdict resolve a) := by
  unfold verdict
  cases hr : s.session.hasRefresh with
  | false => exact ⟨rfl, hd, hr⟩
  | true =>
    rw [Bool.not_true, if_neg Bool.false_ne_true]
    split
    · rename_i hlost
      refine ⟨rfl, hd, hlost.1, ?_⟩
      unfold verdict
      rw [hr, Bool.not_true, if_neg Bool.false_ne_true, if_neg fun h ↦ hlost.2 h.1]
    · rename_i hfound
      exact .inr ⟨hd, hr, fun h ↦ (inv_of_reach h).assembled hr (.inl hd),
        fun hname ↦ not_not.1 fun hne ↦ hfound ⟨hname, hne⟩⟩

instance (s t : App υ) : Decidable (Ends s t) := inferInstanceAs (Decidable (_ ∨ _))

def follow (pages : List String) (resolve : Router View → String → String) (s : App υ) :
    List (Event υ) → Option (App υ)
  | [] => some s
  | e :: events => (s.step pages resolve e).bind fun t ↦
      if Ends s t then none else follow pages resolve t events

theorem reach_follow {events : List (Event υ)} (h : Reach pages resolve Calm u s)
    (hf : follow pages resolve s events = some t) : Reach pages resolve Calm u t := by
  induction events generalizing s with
  | nil =>
    cases hf
    exact h
  | cons e events ih =>
    obtain ⟨r, hr, hf⟩ := Option.bind_eq_some_iff.1 hf
    by_cases he : Ends s r
    · rw [if_pos he] at hf
      cases hf
    · rw [if_neg he] at hf
      exact ih (.step e h hr fun h ↦ absurd h he) hf

def resolvePath (router : Router View) (path : String) : String :=
  if path = "/login" then LOGIN_ROUTE_NAME
  else if path = "/posts" ∧ router.hasRoute "Posts" then "Posts"
  else if path = "/home" then "home"
  else NOT_FOUND_ROUTE_NAME

def posts : Trees RouterVO :=
  .cons ⟨"Posts", "/posts", false, "system/post/index", none, false, ⟨"岗位管理", "post", true, none⟩⟩ .nil .nil

def reload : List (Event String) :=
  [.visit "/posts", .guard 0, .answer 0 (some ⟨"a1", "r1"⟩), .bootstrapNext,
    .userInfo 0 (some ⟨"alice", [], ["system:post:list"]⟩), .routers 0 (some posts), .bootstrapNext,
    .resume 0, .visit "/posts", .guard 1]

/-- Whatever the guard answers is right when it answers. -/
theorem navigation_guard (pages : List String) (resolve : Router View → String → String) (stored : Option String)
    (s t : App υ) (e : Event υ) (n : ℕ) (a b : Navigation) (v : Verdict)
    (he : s.step pages resolve e = some t) (ha : s.navigations[n]? = some a) (hb : t.navigations[n]? = some b)
    (hv : b.stage = .ended v) (hnot : a.stage ≠ .ended v) : Justified pages resolve stored s a v := by
  rcases returns (navigates_of_step he) ha hb hv hnot with ⟨hlogin, rfl⟩ | ⟨hd, rfl⟩
  · exact .inl hlogin
  · exact justified_verdict stored hd

theorem navigation_guard_reload : ∃ s t : App String,
    Reach ["system/post/index"] resolvePath Calm (start (some "r0")) s ∧
    s.step ["system/post/index"] resolvePath (.resume 1) = some t ∧
    s.navigations = [⟨"/posts", "not-found", .ended (.replace "/posts")⟩, ⟨"/posts", "Posts", .waiting⟩] ∧
    Justified ["system/post/index"] resolvePath (some "r0") s ⟨"/posts", "Posts", .waiting⟩ .admitted := by
  have hrun : ((follow ["system/post/index"] resolvePath (start (some "r0")) reload).bind fun s ↦
      (s.step ["system/post/index"] resolvePath (.resume 1)).map fun t ↦ (s.navigations, t.navigations)) =
      some ([⟨"/posts", "not-found", .ended (.replace "/posts")⟩, ⟨"/posts", "Posts", .waiting⟩],
        [⟨"/posts", "not-found", .ended (.replace "/posts")⟩, ⟨"/posts", "Posts", .ended .admitted⟩]) := by
    decide +kernel
  obtain ⟨s, hs, hrun⟩ := Option.bind_eq_some_iff.1 hrun
  obtain ⟨t, ht, hn⟩ := Option.map_eq_some_iff.1 hrun
  obtain ⟨hsn, htn⟩ := Prod.mk.inj hn
  have hreach := reach_follow .refl hs
  refine ⟨s, t, hreach, ht, hsn, ?_⟩
  refine navigation_guard _ _ _ s t _ 1 _ ⟨"/posts", "Posts", .ended .admitted⟩ .admitted ht ?_ ?_ rfl ?_
  · rw [hsn]
    rfl
  · rw [htn]
    rfl
  · decide

theorem bootstrap_update (s : App υ) (session : Session) : (s.update session).bootstrap = s.bootstrap := by
  unfold update
  split
  · rfl
  · rfl

theorem bootstrapFailed_done (s : App υ) : s.bootstrapFailed.bootstrap = .done := rfl

theorem ne_idle_of_does (hd : Does pages s t) (h : s.bootstrap ≠ .idle) : t.bootstrap ≠ .idle := by
  cases hd with
  | moves => exact h
  | ends => exact h
  | refreshes => exact Progress.noConfusion
  | begins => exact Progress.noConfusion
  | finishes => exact Progress.noConfusion
  | fails => exact Progress.noConfusion
  | login => exact h
  | calls => exact h
  | userInfo i answer =>
    cases answer with
    | none => exact h
    | some info => exact h
  | routers i answer =>
    cases answer with
    | none => exact h
    | some payload => exact h

theorem ne_idle_of_waiting {stored : Option String} {c : App υ → App υ → Prop}
    (h : Reach pages resolve c (start stored) s) (ha : s.navigations[n]? = some a) (hw : a.stage = .waiting) :
    s.bootstrap ≠ .idle := by
  induction h generalizing a with
  | refl => cases ha
  | step e _ hs _ ih =>
    have hold := fun {b : Navigation} hb hw ↦ ne_idle_of_does (does_of_step hs) (ih (a := b) hb hw)
    cases navigates_of_step hs with
    | stay h => exact hold (h ▸ ha) hw
    | begin b hb h =>
      rw [h] at ha
      rcases Nat.lt_or_ge n (List.length _) with hn | hn
      · rw [List.getElem?_append_left hn] at ha
        exact hold ha hw
      · rw [List.getElem?_append_right hn, List.getElem?_singleton] at ha
        split at ha
        · cases ha
          rw [hb] at hw
          cases hw
        · cases ha
    | wait m hb h => exact hb
    | reply m x v hx hv h =>
      obtain ⟨b, hb, ⟨-, rfl⟩ | ⟨-, rfl⟩⟩ := getElem?_setStage h ha
      · cases hw
      · exact hold hb hw

section Settles

variable (pages : List String) (resolve : Router View → String → String) (response : Option Tokens)
  (info : Option (UserInfoResponse υ)) (payload : Option (Trees RouterVO))

/-- An answer to a request of `bootstrap`, or what it does with it. -/
def Answered : Event υ → Prop
  | .bootstrapNext => True
  | .answer _ r => r = response
  | .userInfo _ r => r = info
  | .routers _ r => r = payload
  | _ => False

/-- At most `k` answers later `bootstrap` has ended. -/
def Settles (k : ℕ) (s : App υ) : Prop := ∃ events : List (Event υ), events.length ≤ k ∧
  (∀ e ∈ events, Answered response info payload e) ∧
  ∃ t, events.foldlM (fun s e ↦ step pages resolve s e) s = some t ∧ t.bootstrap = .done ∧
    t.navigations = s.navigations

variable {pages resolve response info payload} {k : ℕ}

theorem settles_done (h : s.bootstrap = .done) : Settles pages resolve response info payload k s :=
  ⟨[], Nat.zero_le _, fun _ he ↦ absurd he List.not_mem_nil, s, rfl, h, rfl⟩

theorem Settles.after (h : Settles pages resolve response info payload k t) (he : Answered response info payload e)
    (hs : s.step pages resolve e = some t) (hn : t.navigations = s.navigations) :
    Settles pages resolve response info payload (k + 1) s := by
  obtain ⟨events, hlen, hall, u, hu, hd, hun⟩ := h
  refine ⟨e :: events, Nat.succ_le_succ hlen, List.forall_mem_cons.2 ⟨he, hall⟩, u, ?_, hd, hun.trans hn⟩
  rw [List.foldlM_cons, hs]
  exact hu

theorem settles_ended (hb : s.bootstrap = .setup i) (hp : s.phase i = some phase) (h₁ : phase ≠ .loadUserInfo)
    (h₂ : phase ≠ .loadRouters) : Settles pages resolve response info payload (k + 1) s := by
  have hnext : ∃ t, s.bootstrapNext = some t ∧ t.bootstrap = .done := by
    unfold bootstrapNext
    rw [hb]
    dsimp only
    rw [hp]
    cases phase with
    | loadUserInfo => exact absurd rfl h₁
    | loadRouters => exact absurd rfl h₂
    | failed => exact ⟨_, rfl, rfl⟩
    | installed complete =>
      cases complete with
      | true => exact ⟨_, rfl, rfl⟩
      | false => exact ⟨_, rfl, rfl⟩
  obtain ⟨t, ht, hd⟩ := hnext
  exact (settles_done hd).after (e := .bootstrapNext) trivial ht (navigations_bootstrapNext ht)

theorem phase_setPhase (phase : Phase) (hx : s.setups[i]? = some x) :
    (s.setPhase i phase).phase i = some phase := by
  rw [phase_eq (setups_setPhase.2 ⟨x, hx, (if_pos rfl).symm⟩)]

theorem settles_loadRouters (hb : s.bootstrap = .setup i) (hp : s.phase i = some .loadRouters) :
    Settles pages resolve response info payload (k + 2) s := by
  obtain ⟨x, hx, -⟩ := setup_of_phase hp
  have hs : s.step pages resolve (.routers i payload) = some (s.loadRouters pages i payload) := if_pos hp
  refine Settles.after ?_ (e := .routers i payload) rfl hs (navigations_loadRouters s i payload)
  cases payload with
  | none => exact settles_ended hb (phase_setPhase .failed hx) Phase.noConfusion Phase.noConfusion
  | some routers =>
    exact settles_ended hb (phase_setPhase (.installed _) hx) Phase.noConfusion Phase.noConfusion

theorem settles_loadUserInfo (hb : s.bootstrap = .setup i) (hp : s.phase i = some .loadUserInfo) :
    Settles pages resolve response info payload (k + 3) s := by
  obtain ⟨x, hx, -⟩ := setup_of_phase hp
  have hs : s.step pages resolve (.userInfo i info) = some (s.loadUserInfo i info) := if_pos hp
  refine Settles.after ?_ (e := .userInfo i info) rfl hs (navigations_loadUserInfo s i info)
  cases info with
  | none => exact settles_ended hb (phase_setPhase .failed hx) Phase.noConfusion Phase.noConfusion
  | some user => exact settles_loadRouters hb (phase_setPhase .loadRouters hx)

theorem settles_settled {f : ApiSession.Flight} {settlement : Settlement} (hb : s.bootstrap = .refreshing p)
    (hf : s.session.flights[p]? = some f) (hx : f.settlement = some settlement) :
    Settles pages resolve response info payload (k + 4) s := by
  cases settlement with
  | resolved token =>
    have hs : s.step pages resolve .bootstrapNext = some { s with
        setups := s.setups ++ [⟨.bootstrap, some .loadUserInfo⟩], bootstrap := .setup s.setups.length } := by
      show s.bootstrapNext = _
      unfold bootstrapNext
      rw [hb]
      simp [hf, hx]
    refine Settles.after ?_ (e := .bootstrapNext) trivial hs rfl
    refine settles_loadUserInfo rfl ?_
    exact phase_eq (x := ⟨.bootstrap, some .loadUserInfo⟩) List.getElem?_concat_length
  | rejected =>
    have hs : s.step pages resolve .bootstrapNext = some s.bootstrapFailed := by
      show s.bootstrapNext = _
      unfold bootstrapNext
      rw [hb]
      simp [hf, hx]
    exact (settles_done (bootstrapFailed_done s)).after (e := .bootstrapNext) trivial hs
      (navigations_bootstrapFailed s)

theorem flights_update (s : App υ) (session : Session) : (s.update session).session.flights = session.flights := by
  unfold update
  split
  · rfl
  · rfl

theorem settles_refreshing (h : Once s) (hb : s.bootstrap = .refreshing p) :
    Settles pages resolve response info payload (k + 5) s := by
  have hlt := h.flight p hb
  cases hx : s.session.flights[p].settlement with
  | some settlement => exact settles_settled hb (List.getElem?_eq_getElem hlt) hx
  | none =>
    have hp : s.session.pending p = true :=
      ApiSession.pending_iff.2 ⟨_, List.getElem?_eq_getElem hlt, hx⟩
    have hf : (s.update (s.session.settle p response)).session.flights[p]? =
        some { s.session.flights[p] with settlement := some (SingleFlight.outcome response) } := by
      rw [flights_update, SingleFlight.flights_settle hp, List.getElem?_modify_eq, List.getElem?_eq_getElem hlt]
      rfl
    refine Settles.after ?_ (e := .answer p response) rfl rfl (navigations_update _ _)
    exact settles_settled ((bootstrap_update _ _).trans hb) hf rfl

theorem settles_of_once (h : Once s) (hb : s.bootstrap ≠ .idle) :
    Settles pages resolve response info payload 5 s := by
  cases hp : s.bootstrap with
  | idle => exact absurd hp hb
  | done => exact settles_done hp
  | refreshing p => exact settles_refreshing (k := 0) h hp
  | setup i =>
    obtain ⟨phase, hx⟩ := h.called i hp
    have hphase : s.phase i = some phase := phase_eq hx
    by_cases h₁ : phase = .loadUserInfo
    · exact settles_loadUserInfo (k := 2) hp (h₁ ▸ hphase)
    · by_cases h₂ : phase = .loadRouters
      · exact settles_loadRouters (k := 3) hp (h₂ ▸ hphase)
      · exact settles_ended (k := 4) hp hphase h₁ h₂

end Settles

/-- The setup of `bootstrap` runs once, and whatever the server answers, a guard that waits for it
returns after at most five answers and continuations. -/
theorem guard_returns (pages : List String) (resolve : Router View → String → String) (stored : Option String)
    (s : App υ) (response : Option Tokens) (info : Option (UserInfoResponse υ)) (payload : Option (Trees RouterVO))
    (h : Reach pages resolve (fun _ _ ↦ True) (start stored) s) :
    (∀ (i j : ℕ) (x y : Setup), s.setups[i]? = some x → s.setups[j]? = some y → x.owner = .bootstrap →
      y.owner = .bootstrap → i = j) ∧
    ∀ (n : ℕ) (a : Navigation), s.navigations[n]? = some a → a.stage = .waiting →
      ∃ events : List (Event υ), events.length ≤ 5 ∧ (∀ e ∈ events, Answered response info payload e) ∧
        ∃ t u, events.foldlM (fun s e ↦ step pages resolve s e) s = some t ∧
          t.step pages resolve (.resume n) = some u ∧
          u.navigations[n]? = some { a with stage := .ended (t.verdict resolve a) } := by
  have ho := once_of_reach h
  refine ⟨ho.one, fun n a ha hw ↦ ?_⟩
  have hsettles : Settles pages resolve response info payload 5 s :=
    settles_of_once ho (ne_idle_of_waiting h ha hw)
  obtain ⟨events, hlen, hall, t, ht, hd, hn⟩ := hsettles
  have hta : t.navigations[n]? = some a := hn ▸ ha
  refine ⟨events, hlen, hall, t, t.setStage n (.ended (t.verdict resolve a)), ht, ?_, ?_⟩
  · show (t.navigations[n]?.bind _) = _
    rw [hta, Option.bind_some, if_pos ⟨hw, hd⟩]
  · rw [setStage, List.getElem?_modify_eq, hta]
    rfl

def waiting : List (Event String) := [.visit "/posts", .guard 0, .visit "/home", .guard 1]

theorem guard_returns_waiting : ∃ s : App String, s.bootstrap = .refreshing 0 ∧
    ∃ events : List (Event String), events.length ≤ 5 ∧ (∀ e ∈ events, Answered none none none e) ∧ ∃ t u,
      events.foldlM (fun s e ↦ step ["system/post/index"] resolvePath s e) s = some t ∧
      t.step ["system/post/index"] resolvePath (.resume 1) = some u ∧
      u.navigations[1]? = some ⟨"/home", "home", .ended (t.verdict resolvePath ⟨"/home", "home", .waiting⟩)⟩ := by
  have hrun : (follow ["system/post/index"] resolvePath (start (some "r0")) waiting).map
      (fun s ↦ (s.bootstrap, s.navigations[1]?)) = some (.refreshing 0, some ⟨"/home", "home", .waiting⟩) := by
    decide +kernel
  obtain ⟨s, hs, hx⟩ := Option.map_eq_some_iff.1 hrun
  obtain ⟨hb, ha⟩ := Prod.mk.inj hx
  have hreach := (reach_follow .refl hs).weaken (d := fun _ _ ↦ True) fun _ _ _ ↦ trivial
  exact ⟨s, hb, (guard_returns _ _ _ s none none none hreach).2 1 _ ha rfl⟩

end AdminPlatform.Frontend.NavigationGuard
