import AdminPlatform.Frontend.OwnRun

namespace AdminPlatform.Frontend.SessionResidue

open Foundation.RoseTree Menu.Routers RemovableRoutes ClientStores Client SessionEvents OwnRun

variable {υ : Type} {pages : List String} {events : List (Event υ)} {s : Client υ} {k i : ℕ}

/-- As long as all payloads are tidy, everything that was installed can be removed. -/
theorem removable (h : run pages events = some s)
    (ht : ∀ k i payload, .routers k i (some payload) ∈ events → Tidy payload) : Removable s.routing := by
  induction events using List.reverseRecOn generalizing s with
  | nil =>
    cases h
    exact removable_start
  | append_singleton events e ih =>
    rw [run_snoc] at h
    obtain ⟨r, hr, hs⟩ := Option.bind_eq_some_iff.1 h
    have hold := ih hr fun k i payload hin ↦ ht k i payload (List.mem_append_left _ hin)
    cases does_of_step hs with
    | login _ _ h' =>
      subst h'
      exact hold
    | setup _ _ _ _ h' =>
      subst h'
      exact hold
    | userInfo _ _ answer _ h' =>
      subst h'
      cases answer with
      | none => exact hold
      | some _ => exact hold
    | routers k i answer _ h' =>
      subst h'
      cases answer with
      | none => exact hold
      | some payload => exact hold.install (ht k i payload (List.mem_append_right _ (List.mem_singleton.2 rfl)))
    | logout h' =>
      subst h'
      exact hold.reset
    | expire h' =>
      subst h'
      exact hold.reset
    | tab _ _ h' =>
      subst h'
      exact hold

def session (k : ℕ) (user : String) (permissions : List String) (tabs : List TabAction) : List (Event String) :=
  [.login k, .setupAfterLogin 0, .userInfo k 0 (some ⟨user, [], permissions⟩), .routers k 0 (some .nil)] ++
    tabs.map .tab

def handover (tabs : List TabAction) : List (Event String) :=
  session 0 "alice" ["*:*:*"] tabs ++ .logout :: session 1 "bob" ["system:user:list"] []

theorem meets_tabs (tabs : List TabAction) : MeetsFrom pages s (tabs.map .tab) := by
  induction tabs generalizing s with
  | nil => trivial
  | cons a tabs ih => exact ⟨trivial, fun s' _ ↦ ih⟩

variable {user : String} {permissions : List String} {tabs : List TabAction} {c : Client String}

theorem begun {c₁ c₂ : Client String} (h₁ : c.step pages (.login k) = some c₁)
    (h₂ : c₁.step pages (.setupAfterLogin i) = some c₂) : c₂.session = some k ∧ c₂.routing = c.routing := by
  cases does_of_step h₁ with
  | login _ _ h' =>
    subst h'
    cases does_of_step h₂ with
    | setup _ _ _ _ h' =>
      subst h'
      exact ⟨rfl, rfl⟩

theorem meets_session (hv : c.visited = [HOME_TAG]) (hr : Removable c.routing) :
    MeetsFrom pages c (session k user permissions tabs) := by
  refine ⟨hv, fun c₁ h₁ ↦ ⟨trivial, fun c₂ h₂ ↦ ?_⟩⟩
  obtain ⟨hcurrent, hrouting⟩ := begun h₁ h₂
  refine ⟨fun j hj ↦ .inl (Option.some.inj (hcurrent.symm.trans hj)), fun c₃ h₃ ↦ ?_⟩
  cases does_of_step h₃ with
  | userInfo _ _ _ _ h' =>
    subst h'
    refine ⟨fun j hj ↦ ?_, fun _ _ ↦ meets_tabs tabs⟩
    rw [if_pos (Option.some.inj (hcurrent.symm.trans hj))]
    exact .inr (hrouting ▸ hr)

theorem tidy_nil : Tidy .nil := ⟨fun _ h ↦ absurd h List.not_mem_nil, trivial, fun _ h ↦ absurd h List.not_mem_nil⟩

theorem meets_handover (tabs : List TabAction)
    (hs : run [] (session 0 "alice" ["*:*:*"] tabs ++ [.logout]) = some c) (hv : c.visited = [HOME_TAG]) :
    Meets [] (handover tabs) := by
  have hr : Removable c.routing := by
    refine removable hs fun k i payload hin ↦ ?_
    have hnil : k = 0 ∧ i = 0 ∧ payload = .nil := by simpa [session] using hin
    rw [hnil.2.2]
    exact tidy_nil
  have hfirst : Meets [] (session 0 "alice" ["*:*:*"] tabs ++ [.logout]) :=
    (meets_session rfl removable_start).append fun _ _ ↦ ⟨trivial, fun _ _ ↦ trivial⟩
  have happend : Meets [] ((session 0 "alice" ["*:*:*"] tabs ++ [.logout]) ++
      session 1 "bob" ["system:user:list"] []) := by
    refine hfirst.append fun s' hs' ↦ ?_
    cases hs.symm.trans hs'
    exact meets_session hv hr
  rwa [List.append_assoc] at happend

/-- Under the condition nothing of an earlier session is left, and two runs that end in one session
with the same events of its own show the same. -/
theorem isolated_of_meets {others : List (Event υ)} (h : Meets pages events) (h' : Meets pages others) :
    Isolated pages events ∧ ∀ s t k, run pages events = some s → run pages others = some t → Ready s k →
      Ready t k → own k events = own k others → shown s = shown t := by
  refine ⟨fun s k hs hk ↦ ?_, fun s t k hs ht hk hk' he ↦ ?_⟩
  · obtain ⟨f, r, hr, hm⟩ := follows h hs hk.current
    exact ⟨r, hr, hm.shown_eq hk⟩
  · obtain ⟨f, r, hr, hm⟩ := follows h hs hk.current
    obtain ⟨g, r', hr', hm'⟩ := follows h' ht hk'.current
    rw [he, hr'] at hr
    cases hr
    exact (hm.shown_eq hk).2.symm.trans (hm'.shown_eq hk').2

theorem isolated_of_meets_handover : Isolated [] (handover [.visit "/system/user" "用户管理", .closeAll]) ∧
    ∃ s t, run [] (handover [.visit "/system/user" "用户管理", .closeAll]) = some s ∧
      run [] (handover []) = some t ∧ shown s = shown t := by
  have h := meets_handover [.visit "/system/user" "用户管理", .closeAll] rfl rfl
  have h' := meets_handover [] rfl rfl
  obtain ⟨hisolated, hsame⟩ := isolated_of_meets h h'
  exact ⟨hisolated, _, _, rfl, rfl, hsame _ _ 1 rfl rfl ⟨rfl, 0, rfl⟩ ⟨rfl, 0, rfl⟩ rfl⟩

/-- The tab of the first user is still there. -/
theorem not_isolated_handover : ¬ Isolated [] (handover [.visit "/system/user" "用户管理"]) := by
  intro h
  obtain ⟨s', hs', -, hshown⟩ := h _ 1 rfl ⟨rfl, 0, rfl⟩
  cases hs'
  have hvisited := congrArg Shown.visited hshown
  exact absurd hvisited (by decide)

end AdminPlatform.Frontend.SessionResidue
