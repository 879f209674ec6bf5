import AdminPlatform.Frontend.SessionEvents

namespace AdminPlatform.Frontend.OwnRun

open Foundation.RoseTree Menu.Routers DynamicRoutes RemovableRoutes Renumbering ClientStores Client
  SessionEvents

variable {υ : Type} {pages : List String} {events : List (Event υ)} {e : Event υ} {s s' t t' : Client υ}
  {j k i n : ℕ} {f : ℕ → ℕ}

/-- The stores of a client that has seen the events of one session only. -/
structure Matches (k : ℕ) (f : ℕ → ℕ) (t s : Client υ) : Prop where
  session : t.session = some k
  setups : ∀ i, t.setups k i = s.setups k i
  visited : t.visited = s.visited
  info : Informed s k → t.user = s.user ∧ t.roles = s.roles ∧ t.perms = s.perms
  routes : Installed s k → t.routers = s.routers ∧ t.loaded = s.loaded ∧ Alike f t.routing s.routing
  before : ¬ Installed s k → t.routing = ⟨createRouter, []⟩

theorem informed_congr (h : ∀ i, s'.setups k i = s.setups k i) : Informed s' k ↔ Informed s k := by
  simp only [Informed, h]

theorem installed_congr (h : ∀ i, s'.setups k i = s.setups k i) : Installed s' k ↔ Installed s k := by
  simp only [Installed, h]

theorem setups_other {phase : Phase} (ha : Answered s s' j i phase) (hj : j ≠ k) (n : ℕ) :
    s'.setups k n = s.setups k n := by
  rw [ha.setups, if_neg fun hkn ↦ hj hkn.1.symm]

theorem answered_enter {phase : Phase} : Answered s (s.enter k i phase) k i phase :=
  ⟨rfl, rfl, rfl, setups_enter⟩

section Own

variable {phase : Phase} (hs : Answered s s' k i phase) (hi : ∀ b, s.setups k i ≠ some (.installed b))
include hs

theorem informed_of_answered (h : Informed s' k) :
    (phase = .loadRouters ∨ ∃ b, phase = .installed b) ∨ Informed s k := by
  obtain ⟨n, hn⟩ := h
  rw [hs.setups] at hn
  split at hn
  · simp only [Option.some.injEq] at hn
    exact .inl hn
  · exact .inr ⟨n, hn⟩

include hi

theorem installed_answered : Installed s' k ↔ (∃ b, phase = .installed b) ∨ Installed s k := by
  constructor
  · intro ⟨n, b, hn⟩
    rw [hs.setups] at hn
    split at hn
    · exact .inl ⟨b, Option.some.inj hn⟩
    · exact .inr ⟨n, b, hn⟩
  · intro h
    rcases h with ⟨b, hb⟩ | ⟨n, b, hn⟩
    · exact ⟨i, b, by rw [hs.setups, if_pos ⟨rfl, rfl⟩, hb]⟩
    · refine ⟨n, b, ?_⟩
      rw [hs.setups, if_neg (fun hkn : k = k ∧ n = i ↦ hi b (hkn.2 ▸ hn)), hn]

end Own

namespace Matches

variable (h : Matches k f t s)
include h

/-- A setup of the session goes on, and the stores stay as they are. -/
theorem enter {phase : Phase} (hi : ∀ b, s.setups k i ≠ some (.installed b)) (hp : phase ≠ .loadRouters)
    (hp' : ∀ b, phase ≠ .installed b) : Matches k f (t.enter k i phase) (s.enter k i phase) where
  session := h.session
  setups n := by rw [setups_enter, setups_enter, h.setups]
  visited := h.visited
  info hinf := h.info <| (informed_of_answered answered_enter hinf).resolve_left fun hq ↦
    hq.elim hp fun ⟨b, hb⟩ ↦ hp' b hb
  routes hins := h.routes <| ((installed_answered answered_enter hi).1 hins).resolve_left fun ⟨b, hb⟩ ↦ hp' b hb
  before hins := h.before fun hold ↦ hins ((installed_answered answered_enter hi).2 (.inr hold))

theorem enter_other {phase : Phase} (hj : j ≠ k) : Matches k f t (s.enter j i phase) where
  session := h.session
  setups n := by rw [h.setups, setups_other answered_enter hj]
  visited := h.visited
  info hinf := h.info ((informed_congr (setups_other answered_enter hj)).1 hinf)
  routes hins := h.routes ((installed_congr (setups_other answered_enter hj)).1 hins)
  before hins := h.before fun hold ↦ hins ((installed_congr (setups_other answered_enter hj)).2 hold)

theorem loadUserInfo (hi : s.setups k i = some .loadUserInfo) (answer : Option (UserInfoResponse υ)) :
    Matches k f (t.loadUserInfo k i answer) (s.loadUserInfo k i answer) := by
  have hold : ∀ b, s.setups k i ≠ some (.installed b) := by simp [hi]
  cases answer with
  | none => exact h.enter hold (by simp) (by simp)
  | some info =>
    have ha : Answered s (s.loadUserInfo k i (some info)) k i .loadRouters := ⟨rfl, rfl, rfl, setups_enter⟩
    refine ⟨h.session, fun n ↦ ?_, h.visited, fun _ ↦ ⟨rfl, rfl, rfl⟩, fun hins ↦ ?_, fun hins ↦ ?_⟩
    · rw [ha.setups, ← h.setups]
      exact setups_enter k n
    · exact h.routes (((installed_answered ha hold).1 hins).resolve_left fun ⟨b, hb⟩ ↦ nomatch hb)
    · exact h.before fun hins' ↦ hins ((installed_answered ha hold).2 (.inr hins'))

theorem loadUserInfo_other (hj : j ≠ k) (answer : Option (UserInfoResponse υ))
    (ha : answer.isSome = true → ¬ Informed s k) : Matches k f t (s.loadUserInfo j i answer) := by
  cases answer with
  | none => exact h.enter_other hj
  | some info =>
    have hsetups : ∀ n, (s.loadUserInfo j i (some info)).setups k n = s.setups k n :=
      setups_other (answered_loadUserInfo _) hj
    refine ⟨h.session, fun n ↦ (h.setups n).trans (hsetups n).symm, h.visited, fun hinf ↦ ?_, fun hins ↦ ?_,
      fun hins ↦ ?_⟩
    · exact absurd ((informed_congr hsetups).1 hinf) (ha rfl)
    · exact h.routes ((installed_congr hsetups).1 hins)
    · exact h.before fun hold ↦ hins ((installed_congr hsetups).2 hold)

theorem loadRouters_other (hj : j ≠ k) (answer : Option (Trees RouterVO))
    (ha : answer.isSome = true → ¬ Installed s k) : Matches k f t (s.loadRouters pages j i answer) := by
  cases answer with
  | none => exact h.enter_other hj
  | some payload =>
    obtain ⟨phase, hphase⟩ := answered_loadRouters pages s j i (some payload)
    have hsetups := setups_other (k := k) hphase hj
    refine ⟨h.session, fun n ↦ (h.setups n).trans (hsetups n).symm, h.visited, fun hinf ↦ ?_, fun hins ↦ ?_,
      fun hins ↦ ?_⟩
    · exact h.info ((informed_congr hsetups).1 hinf)
    · exact absurd ((installed_congr hsetups).1 hins) (ha rfl)
    · exact h.before fun hold ↦ hins ((installed_congr hsetups).2 hold)

end Matches

/-- The first routes of a session start from what is there anyway, all others from those before. -/
theorem Matches.loadRouters (pages : List String) (h : Matches k f t s) (hi : s.setups k i = some .loadRouters)
    (answer : Option (Trees RouterVO)) (hr : answer.isSome = true → Installed s k ∨ Removable s.routing) :
    ∃ f, Matches k f (t.loadRouters pages k i answer) (s.loadRouters pages k i answer) := by
  have hold : ∀ b, s.setups k i ≠ some (.installed b) := by simp [hi]
  cases answer with
  | none => exact ⟨f, h.enter hold (by simp) (by simp)⟩
  | some payload =>
    have hreset : ∃ f, Alike f (resetDynamicRoutes t.routing) (resetDynamicRoutes s.routing) := by
      by_cases hins : Installed s k
      · exact ⟨f, (h.routes hins).2.2.reset⟩
      · rw [h.before hins]
        exact ⟨_, ((hr rfl).resolve_left hins).alike⟩
    obtain ⟨g, hg⟩ := hreset
    obtain ⟨halike, hok⟩ := alike_install pages payload hg
    have hdone : Installed (s.loadRouters pages k i (some payload)) k :=
      ⟨i, _, (setups_enter k i).trans (if_pos ⟨rfl, rfl⟩)⟩
    refine ⟨g, h.session, fun n ↦ ?_, h.visited, fun _ ↦ ?_, fun _ ↦ ⟨rfl, rfl, halike⟩, fun hn ↦ absurd hdone hn⟩
    · refine (setups_enter k n).trans (Eq.trans ?_ (setups_enter k n).symm)
      rw [h.setups, hok]
    · exact h.info ⟨i, .inl hi⟩

/-- At a login nothing is left but what its answers will replace. -/
theorem matches_login (hk : k ∉ s.logins) (hknown : Known events s) (hv : s.visited = [HOME_TAG]) :
    Matches k f { start with session := some k, logins := [k] }
      { s with session := some k, logins := k :: s.logins } := by
  have hnone : ∀ i, s.setups k i = none := by
    intro i
    by_contra hi
    exact hk (hknown.setups k i hi)
  refine ⟨rfl, fun i ↦ (hnone i).symm, hv.symm, fun ⟨i, hi⟩ ↦ ?_, fun ⟨i, b, hi⟩ ↦ ?_, fun _ ↦ rfl⟩
  · rcases hi with hi | ⟨b, hi⟩
    · cases (hnone i).symm.trans hi
    · cases (hnone i).symm.trans hi
  · cases (hnone i).symm.trans hi

/-- One event of a session that goes on. -/
theorem Matches.step (h : Matches k f t s) (hk : s.session = some k) (hs : s.step pages e = some s')
    (hk' : s'.session = some k) (hlogin : isLogin k e = false) (hf : Fits s e) :
    ∃ f t', [e].filter (belongs k) = [] ∧ t' = t ∧ Matches k f t' s' ∨
      [e].filter (belongs k) = [e] ∧ t.step pages e = some t' ∧ Matches k f t' s' := by
  cases does_of_step hs with
  | login j hj h' =>
    subst h'
    cases hk'
    simp [isLogin] at hlogin
  | setup j i hj hi h' =>
    subst h'
    cases hk.symm.trans hj
    refine ⟨f, _, .inr ⟨rfl, ?_, h.enter (by simp [hi]) (by simp) (by simp)⟩⟩
    simp [Client.step, h.session, h.setups, hi]
  | userInfo j i answer hi h' =>
    subst h'
    by_cases hj : j = k
    · subst hj
      refine ⟨f, _, .inr ⟨by simp [belongs], ?_, h.loadUserInfo hi answer⟩⟩
      simp [Client.step, h.setups, hi]
    · refine ⟨f, t, .inl ⟨by simp [belongs, hj], rfl, h.loadUserInfo_other hj answer fun ha ↦ ?_⟩⟩
      obtain ⟨info, rfl⟩ := Option.isSome_iff_exists.1 ha
      exact (hf k hk).resolve_left hj
  | routers j i answer hi h' =>
    subst h'
    by_cases hj : j = k
    · subst hj
      have hr : answer.isSome = true → Installed s j ∨ Removable s.routing := by
        intro ha
        obtain ⟨payload, rfl⟩ := Option.isSome_iff_exists.1 ha
        have hfits := hf j hk
        rwa [if_pos rfl] at hfits
      obtain ⟨g, hg⟩ := h.loadRouters pages hi answer hr
      refine ⟨g, _, .inr ⟨by simp [belongs], ?_, hg⟩⟩
      simp [Client.step, h.setups, hi]
    · refine ⟨f, t, .inl ⟨by simp [belongs, hj], rfl, h.loadRouters_other hj answer fun ha ↦ ?_⟩⟩
      obtain ⟨payload, rfl⟩ := Option.isSome_iff_exists.1 ha
      have hfits := hf k hk
      rwa [if_neg hj] at hfits
  | logout h' =>
    subst h'
    cases hk'
  | expire h' =>
    subst h'
    cases hk'
  | tab a hv h' =>
    subst h'
    have hstep : t.step pages (.tab a) = some { t with visited := a.apply t.visited } := by
      cases a with
      | visit path title => simp [Client.step, h.session]
      | closeTag path => rfl
      | closeOthers path => rfl
      | closeAll => rfl
    refine ⟨f, _, .inr ⟨rfl, hstep, ⟨h.session, h.setups, ?_, h.info, h.routes, h.before⟩⟩⟩
    exact congrArg a.apply h.visited

theorem session_before (hs : s.step pages e = some s') (hlogin : isLogin k e = false) (hk : s'.session = some k) :
    s.session = some k := by
  cases does_of_step hs with
  | login j _ h' =>
    subst h'
    cases hk
    simp [isLogin] at hlogin
  | setup _ _ _ _ h' =>
    subst h'
    exact hk
  | userInfo _ _ answer _ h' =>
    subst h'
    exact (answered_loadUserInfo answer).session ▸ hk
  | routers _ _ answer _ h' =>
    subst h'
    obtain ⟨_, ha⟩ := answered_loadRouters pages s _ _ answer
    exact ha.session ▸ hk
  | logout h' =>
    subst h'
    cases hk
  | expire h' =>
    subst h'
    cases hk
  | tab _ _ h' =>
    subst h'
    exact hk

theorem eq_login (h : isLogin k e = true) : e = .login k := by
  cases e with
  | login j => exact congrArg Event.login (of_decide_eq_true h)
  | _ => cases h

theorem follows (h : Meets pages events) (hs : run pages events = some s) (hk : s.session = some k) :
    ∃ f t, run pages (own k events) = some t ∧ Matches k f t s := by
  induction events using List.reverseRecOn generalizing s with
  | nil =>
    cases hs
    cases hk
  | append_singleton events e ih =>
    obtain ⟨hmeets, hfits⟩ := h.snoc
    rw [run_snoc] at hs
    obtain ⟨r, hr, hs⟩ := Option.bind_eq_some_iff.1 hs
    have hknown := known hr
    cases hlogin : isLogin k e with
    | true =>
      cases eq_login hlogin
      obtain ⟨hfresh, hs⟩ := Option.ite_none_left_eq_some.1 hs
      cases hs
      have hfirst : ∀ l ∈ events, isLogin k l = false := by
        intro l hl
        by_contra hl'
        exact hfresh ((hknown.logins k).2 ⟨l, hl, by simpa using hl'⟩)
      rw [own_login hfirst]
      refine ⟨id, _, ?_, matches_login hfresh hknown (hfits r hr)⟩
      simp [run, Client.step, start]
    | false =>
      have hk' := session_before hs hlogin hk
      obtain ⟨f, t, ht, hmatch⟩ := ih hmeets hr hk'
      obtain ⟨g, t', hstep⟩ := hmatch.step hk' hs hk hlogin (hfits r hr)
      refine ⟨g, t', ?_⟩
      rw [own_snoc ((hknown.logins k).1 (hknown.session k hk'))]
      rcases hstep with ⟨hnil, rfl, hm⟩ | ⟨hown, hstep, hm⟩
      · rw [hnil, List.append_nil]
        exact ⟨ht, hm⟩
      · rw [hown, run_snoc, ht]
        exact ⟨hstep, hm⟩

theorem Matches.shown_eq (h : Matches k f t s) (hs : Ready s k) : Ready t k ∧ shown t = shown s := by
  obtain ⟨hcurrent, i, hi⟩ := hs
  obtain ⟨hu, hr, hp⟩ := h.info ⟨i, .inr ⟨true, hi⟩⟩
  obtain ⟨hrouters, hloaded, halike⟩ := h.routes ⟨i, true, hi⟩
  refine ⟨⟨h.session, i, (h.setups i).trans hi⟩, ?_⟩
  simp only [shown, hu, hr, hp, hrouters, hloaded, h.visited, halike.names, halike.router.shape_eq]

end AdminPlatform.Frontend.OwnRun
