import AdminPlatform.Frontend.ClientStores
import AdminPlatform.Frontend.RemovableRoutes

namespace AdminPlatform.Frontend.SessionEvents

open Foundation.RoseTree Menu.Routers DynamicRoutes RemovableRoutes Renumbering ClientStores Client

variable {υ : Type}

def isLogin (k : ℕ) : Event υ → Bool
  | .login j => decide (j = k)
  | _ => false

/-- Of the events since the login: all but the ends of sessions and what belongs to another one. -/
def belongs (k : ℕ) : Event υ → Bool
  | .login j | .userInfo j _ _ | .routers j _ _ => decide (j = k)
  | .setupAfterLogin _ | .tab _ => true
  | .logout | .expire => false

def own (k : ℕ) : List (Event υ) → List (Event υ)
  | [] => []
  | e :: events => if isLogin k e then e :: events.filter (belongs k) else own k events

/-- What is in the five stores. The routes are seen without the numbers of their records. -/
structure Shown (υ : Type) where
  user : Option υ
  roles : List String
  perms : Finset String
  routers : Trees RouterVO
  loaded : Bool
  visited : List TagView
  routes : List (VueRouter.RouteRecord View × Option ℕ)
  installedRouteNames : List String

def shown (s : Client υ) : Shown υ where
  user := s.user
  roles := s.roles
  perms := s.perms
  routers := s.routers
  loaded := s.loaded
  visited := s.visited
  routes := shape s.routing.router
  installedRouteNames := s.routing.installedRouteNames

/-- A setup of the session has finished, and the session has not ended. -/
structure Ready (s : Client υ) (k : ℕ) : Prop where
  current : s.session = some k
  finished : ∃ i, s.setups k i = some (.installed true)

def Isolated (pages : List String) (events : List (Event υ)) : Prop :=
  ∀ s k, run pages events = some s → Ready s k →
    ∃ s', run pages (own k events) = some s' ∧ Ready s' k ∧ shown s' = shown s

def Informed (s : Client υ) (k : ℕ) : Prop :=
  ∃ i, s.setups k i = some .loadRouters ∨ ∃ b, s.setups k i = some (.installed b)

def Installed (s : Client υ) (k : ℕ) : Prop := ∃ i b, s.setups k i = some (.installed b)

/-- Who logs in finds no tabs; an answer to another session comes before its own counterpart; and
the first routes of a session are installed where those from before can all be removed. -/
def Fits (s : Client υ) : Event υ → Prop
  | .login _ => s.visited = [HOME_TAG]
  | .userInfo j _ (some _) => ∀ k, s.session = some k → j = k ∨ ¬ Informed s k
  | .routers j _ (some _) => ∀ k, s.session = some k →
      if j = k then Installed s k ∨ Removable s.routing else ¬ Installed s k
  | _ => True

def MeetsFrom (pages : List String) (s : Client υ) : List (Event υ) → Prop
  | [] => True
  | e :: events => Fits s e ∧ ∀ s', s.step pages e = some s' → MeetsFrom pages s' events

def Meets (pages : List String) (events : List (Event υ)) : Prop := MeetsFrom pages start events

variable {pages : List String} {events : List (Event υ)} {e : Event υ} {s s' t t' : Client υ} {j k i n : ℕ}
  {f : ℕ → ℕ}

theorem MeetsFrom.snoc (h : MeetsFrom pages s (events ++ [e])) :
    MeetsFrom pages s events ∧ ∀ s', events.foldlM (step pages) s = some s' → Fits s' e := by
  induction events generalizing s with
  | nil =>
    refine ⟨trivial, fun s' hs ↦ ?_⟩
    cases hs
    exact h.1
  | cons first events ih =>
    refine ⟨⟨h.1, fun s' hs ↦ (ih (h.2 s' hs)).1⟩, fun s' hs ↦ ?_⟩
    rw [List.foldlM_cons] at hs
    obtain ⟨r, hr, hs⟩ := Option.bind_eq_some_iff.1 hs
    exact (ih (h.2 r hr)).2 s' hs

theorem MeetsFrom.append {more : List (Event υ)} (h : MeetsFrom pages s events)
    (h' : ∀ s', events.foldlM (step pages) s = some s' → MeetsFrom pages s' more) :
    MeetsFrom pages s (events ++ more) := by
  induction events generalizing s with
  | nil => exact h' s rfl
  | cons first events ih =>
    refine ⟨h.1, fun r hr ↦ ih (h.2 r hr) fun s' hs ↦ h' s' ?_⟩
    rw [List.foldlM_cons, hr]
    exact hs

theorem Meets.snoc (h : Meets pages (events ++ [e])) :
    Meets pages events ∧ ∀ s, run pages events = some s → Fits s e := MeetsFrom.snoc h

theorem own_snoc (h : ∃ l ∈ events, isLogin k l = true) :
    own k (events ++ [e]) = own k events ++ [e].filter (belongs k) := by
  induction events with
  | nil => exact absurd h.choose_spec.1 List.not_mem_nil
  | cons first events ih =>
    rw [List.cons_append, own, own]
    cases hfirst : isLogin k first with
    | true => simp
    | false =>
      obtain ⟨l, hl, hlogin⟩ := h
      rcases List.mem_cons.1 hl with rfl | hl
      · cases hfirst.symm.trans hlogin
      · exact ih ⟨l, hl, hlogin⟩

theorem own_login (h : ∀ l ∈ events, isLogin k l = false) : own k (events ++ [.login k]) = [.login k] := by
  induction events with
  | nil => simp [own, isLogin]
  | cons first events ih =>
    rw [List.forall_mem_cons] at h
    rw [List.cons_append, own, h.1]
    exact ih h.2

structure Known (events : List (Event υ)) (s : Client υ) : Prop where
  logins : ∀ k, k ∈ s.logins ↔ ∃ l ∈ events, isLogin k l = true
  setups : ∀ k i, s.setups k i ≠ none → k ∈ s.logins
  session : ∀ k, s.session = some k → k ∈ s.logins

theorem Known.snoc_of_logins (h : Known events s) (hl : s'.logins = s.logins) (he : ∀ k, isLogin k e = false)
    (hsetups : ∀ k i, s'.setups k i ≠ none → k ∈ s.logins) (hsession : ∀ k, s'.session = some k → k ∈ s.logins) :
    Known (events ++ [e]) s' where
  logins k := by
    rw [hl, h.logins]
    simp [he]
  setups k i hs := hl ▸ hsetups k i hs
  session k hk := hl ▸ hsession k hk

theorem Known.answered {phase : Phase} (h : Known events s) (ha : Answered s s' k i phase)
    (hi : s.setups k i ≠ none) (he : ∀ k, isLogin k e = false) : Known (events ++ [e]) s' := by
  refine h.snoc_of_logins ha.logins he (fun j n hs ↦ ?_) fun j hj ↦ h.session j (ha.session ▸ hj)
  rw [ha.setups] at hs
  split at hs
  · rename_i hjn
    rw [hjn.1]
    exact h.setups k i hi
  · exact h.setups j n hs

theorem Known.step (h : Known events s) (hs : s.step pages e = some s') : Known (events ++ [e]) s' := by
  cases does_of_step hs with
  | login k hk h' =>
    subst h'
    refine ⟨fun j ↦ ⟨fun hj ↦ ?_, fun ⟨l, hl, hlogin⟩ ↦ ?_⟩,
      fun j i hi ↦ List.mem_cons_of_mem _ (h.setups j i hi), fun j hj ↦ ?_⟩
    · rcases List.mem_cons.1 hj with rfl | hj
      · exact ⟨_, List.mem_append_right _ (List.mem_singleton.2 rfl), decide_eq_true rfl⟩
      · obtain ⟨l, hl, hlogin⟩ := (h.logins j).1 hj
        exact ⟨l, List.mem_append_left _ hl, hlogin⟩
    · rcases List.mem_append.1 hl with hl | hl
      · exact List.mem_cons_of_mem _ ((h.logins j).2 ⟨l, hl, hlogin⟩)
      · cases List.mem_singleton.1 hl
        exact List.mem_cons.2 (.inl (of_decide_eq_true hlogin).symm)
    · cases hj
      exact List.mem_cons_self
  | setup k i hk hi h' =>
    subst h'
    refine h.snoc_of_logins rfl (fun _ ↦ rfl) (fun j n hs ↦ ?_) h.session
    rw [setups_enter] at hs
    split at hs
    · rename_i hjn
      rw [hjn.1]
      exact h.session k hk
    · exact h.setups j n hs
  | userInfo k i answer hi h' =>
    subst h'
    exact h.answered (answered_loadUserInfo answer) (by simp [hi]) fun _ ↦ rfl
  | routers k i answer hi h' =>
    subst h'
    obtain ⟨phase, ha⟩ := answered_loadRouters pages s k i answer
    exact h.answered ha (by simp [hi]) fun _ ↦ rfl
  | logout h' =>
    subst h'
    exact h.snoc_of_logins rfl (fun _ ↦ rfl) h.setups fun _ hk ↦ nomatch hk
  | expire h' =>
    subst h'
    exact h.snoc_of_logins rfl (fun _ ↦ rfl) h.setups fun _ hk ↦ nomatch hk
  | tab a _ h' =>
    subst h'
    exact h.snoc_of_logins rfl (fun _ ↦ rfl) h.setups h.session

theorem known (h : run pages events = some s) : Known events s := by
  induction events using List.reverseRecOn generalizing s with
  | nil =>
    cases h
    exact ⟨by simp [start], by simp [start], by simp [start]⟩
  | append_singleton events e ih =>
    rw [run_snoc] at h
    obtain ⟨r, hr, hs⟩ := Option.bind_eq_some_iff.1 h
    exact (ih hr).step hs

end AdminPlatform.Frontend.SessionEvents
