import AdminPlatform.Frontend.DynamicRoutes
import Mathlib.Data.Finset.Dedup

namespace AdminPlatform.Frontend.ClientStores

open Foundation.RoseTree Menu.Routers DynamicRoutes

structure TagView where
  path : String
  title : String
  affix : Bool := false
  deriving DecidableEq, Repr

def HOME_TAG : TagView := ⟨"/home", "首页", true⟩

def addView (visited : List TagView) (view : TagView) : List TagView :=
  if visited.any fun v ↦ decide (v.path = view.path) then visited else visited ++ [view]

def removeView (visited : List TagView) (path : String) : List TagView :=
  match visited.findIdx? fun v ↦ decide (v.path = path) with
  | none => visited
  | some idx => if visited[idx]?.any TagView.affix then visited else visited.eraseIdx idx

def closeOthers (visited : List TagView) (path : String) : List TagView :=
  visited.filter fun v ↦ v.affix || decide (v.path = path)

def closeAll (visited : List TagView) : List TagView := visited.filter TagView.affix

/-- What the tab bar does with its store. -/
inductive TabAction
  | visit (path title : String)
  | closeTag (path : String)
  | closeOthers (path : String)
  | closeAll
  deriving DecidableEq, Repr

def TabAction.apply (visited : List TagView) : TabAction → List TagView
  | .visit path title => if path = "" ∨ path = "/login" then visited else addView visited { path, title }
  | .closeTag path => removeView visited path
  | .closeOthers path => ClientStores.closeOthers visited path
  | .closeAll => ClientStores.closeAll visited

structure UserInfoResponse (υ : Type) where
  user : υ
  roles : List String
  permissions : List String

/-- Where one run of `setupAfterLogin` stands: it waits for one of its two responses, a request has
failed, or the routes have been installed, completely or up to an error. -/
inductive Phase
  | loadUserInfo
  | loadRouters
  | failed
  | installed (complete : Bool)
  deriving DecidableEq, Repr

/-- The stores, the session whose refresh token is held, the logins so far, and the setups begun in
each of them. -/
structure Client (υ : Type) where
  session : Option ℕ
  logins : List ℕ
  setups : ℕ → ℕ → Option Phase
  user : Option υ
  roles : List String
  perms : Finset String
  routers : Trees RouterVO
  loaded : Bool
  visited : List TagView
  routing : Routing

/-- A login with its number, the start of a setup, an answer to a request of a setup, which is
`none` where the request fails, the end of a logout, an expiry, or a use of the tab bar. -/
inductive Event (υ : Type)
  | login (k : ℕ)
  | setupAfterLogin (i : ℕ)
  | userInfo (k i : ℕ) (answer : Option (UserInfoResponse υ))
  | routers (k i : ℕ) (answer : Option (Trees RouterVO))
  | logout
  | expire
  | tab (a : TabAction)

namespace Client

variable {υ : Type}

def start : Client υ where
  session := none
  logins := []
  setups _ _ := none
  user := none
  roles := []
  perms := ∅
  routers := .nil
  loaded := false
  visited := [HOME_TAG]
  routing := ⟨createRouter, []⟩

def enter (s : Client υ) (k i : ℕ) (phase : Phase) : Client υ :=
  { s with setups := Function.update s.setups k (Function.update (s.setups k) i (some phase)) }

def clearTokens (s : Client υ) : Client υ := { s with session := none }

def resetUserInfo (s : Client υ) : Client υ := { s with user := none, roles := [] }

def resetMenu (s : Client υ) : Client υ := { s with routers := .nil, loaded := false }

def resetPermission (s : Client υ) : Client υ := { s with perms := ∅ }

def resetRoutes (s : Client υ) : Client υ := { s with routing := resetDynamicRoutes s.routing }

def performLogout (s : Client υ) : Client υ :=
  s.clearTokens.resetUserInfo.resetMenu.resetPermission.resetRoutes

def sessionExpired (s : Client υ) : Client υ :=
  s.clearTokens.resetUserInfo.resetMenu.resetPermission.resetRoutes

def loadUserInfo (s : Client υ) (k i : ℕ) : Option (UserInfoResponse υ) → Client υ
  | none => s.enter k i .failed
  | some info => { s.enter k i .loadRouters with
      user := some info.user
      roles := info.roles
      perms := info.permissions.toFinset }

def loadRouters (pages : List String) (s : Client υ) (k i : ℕ) : Option (Trees RouterVO) → Client υ
  | none => s.enter k i .failed
  | some payload =>
    let s := { s with routers := payload, loaded := true }
    let result := installDynamicRoutes pages s.routers s.routing
    { s.enter k i (.installed result.2) with routing := result.1 }

/-- `none` for an event that cannot happen. The guard of the router lets nobody visit a page without
a refresh token. -/
def step (pages : List String) (s : Client υ) : Event υ → Option (Client υ)
  | .login k => if k ∈ s.logins then none else some { s with session := some k, logins := k :: s.logins }
  | .setupAfterLogin i => s.session.bind fun k ↦
      if s.setups k i = none then some (s.enter k i .loadUserInfo) else none
  | .userInfo k i answer => if s.setups k i = some .loadUserInfo then some (s.loadUserInfo k i answer) else none
  | .routers k i answer =>
      if s.setups k i = some .loadRouters then some (s.loadRouters pages k i answer) else none
  | .logout => some s.performLogout
  | .expire => some s.sessionExpired
  | .tab (.visit path title) => s.session.map fun _ ↦
      { s with visited := TabAction.apply s.visited (.visit path title) }
  | .tab a => some { s with visited := a.apply s.visited }

def run (pages : List String) (events : List (Event υ)) : Option (Client υ) := events.foldlM (step pages) start

variable {pages : List String} {s s' : Client υ} {events : List (Event υ)} {e : Event υ} {j k i : ℕ}

theorem run_snoc : run pages (events ++ [e]) = (run pages events).bind fun s ↦ s.step pages e := by
  rw [run, List.foldlM_append, run]
  cases events.foldlM (step pages) start with
  | none => rfl
  | some s => simp

theorem setups_enter {phase : Phase} (j n : ℕ) :
    (s.enter k i phase).setups j n = if j = k ∧ n = i then some phase else s.setups j n := by
  unfold enter
  by_cases hj : j = k
  · subst hj
    by_cases hn : n = i
    · subst hn
      simp
    · simp [hn]
  · simp [hj]

/-- Only the setup of the answer moves, and neither the session nor the tabs do. -/
structure Answered (s s' : Client υ) (k i : ℕ) (phase : Phase) : Prop where
  session : s'.session = s.session
  logins : s'.logins = s.logins
  visited : s'.visited = s.visited
  setups : ∀ j n, s'.setups j n = if j = k ∧ n = i then some phase else s.setups j n

/-- The cases of a step. -/
inductive Does (pages : List String) (s s' : Client υ) : Event υ → Prop
  | login (k : ℕ) (hk : k ∉ s.logins) (h : s' = { s with session := some k, logins := k :: s.logins }) :
      Does pages s s' (.login k)
  | setup (k i : ℕ) (hk : s.session = some k) (hi : s.setups k i = none) (h : s' = s.enter k i .loadUserInfo) :
      Does pages s s' (.setupAfterLogin i)
  | userInfo (k i : ℕ) (answer : Option (UserInfoResponse υ)) (hi : s.setups k i = some .loadUserInfo)
      (h : s' = s.loadUserInfo k i answer) : Does pages s s' (.userInfo k i answer)
  | routers (k i : ℕ) (answer : Option (Trees RouterVO)) (hi : s.setups k i = some .loadRouters)
      (h : s' = s.loadRouters pages k i answer) : Does pages s s' (.routers k i answer)
  | logout (h : s' = s.performLogout) : Does pages s s' .logout
  | expire (h : s' = s.sessionExpired) : Does pages s s' .expire
  | tab (a : TabAction) (hv : s.session ≠ none ∨ ∀ path title, a ≠ .visit path title)
      (h : s' = { s with visited := a.apply s.visited }) : Does pages s s' (.tab a)

theorem does_of_step (h : s.step pages e = some s') : Does pages s s' e := by
  cases e with
  | login k =>
    simp only [step, Option.ite_none_left_eq_some, Option.some.injEq] at h
    exact .login k h.1 h.2.symm
  | setupAfterLogin i =>
    obtain ⟨k, hk, h⟩ := Option.bind_eq_some_iff.1 h
    simp only [Option.ite_none_right_eq_some, Option.some.injEq] at h
    exact .setup k i hk h.1 h.2.symm
  | userInfo k i answer =>
    simp only [step, Option.ite_none_right_eq_some, Option.some.injEq] at h
    exact .userInfo k i answer h.1 h.2.symm
  | routers k i answer =>
    simp only [step, Option.ite_none_right_eq_some, Option.some.injEq] at h
    exact .routers k i answer h.1 h.2.symm
  | logout => exact .logout (Option.some.inj h).symm
  | expire => exact .expire (Option.some.inj h).symm
  | tab a =>
    cases a with
    | visit path title =>
      obtain ⟨k, hk, h⟩ := Option.map_eq_some_iff.1 h
      exact .tab _ (.inl (by simp [hk])) h.symm
    | closeTag path => exact .tab _ (.inr (by simp)) (Option.some.inj h).symm
    | closeOthers path => exact .tab _ (.inr (by simp)) (Option.some.inj h).symm
    | closeAll => exact .tab _ (.inr (by simp)) (Option.some.inj h).symm

theorem answered_loadUserInfo (answer : Option (UserInfoResponse υ)) :
    Answered s (s.loadUserInfo k i answer) k i (if answer.isSome then .loadRouters else .failed) := by
  cases answer with
  | none => exact ⟨rfl, rfl, rfl, setups_enter⟩
  | some info => exact ⟨rfl, rfl, rfl, setups_enter⟩

theorem answered_loadRouters (pages : List String) (s : Client υ) (k i : ℕ) (answer : Option (Trees RouterVO)) :
    ∃ phase, Answered s (s.loadRouters pages k i answer) k i phase := by
  cases answer with
  | none => exact ⟨_, rfl, rfl, rfl, setups_enter⟩
  | some payload => exact ⟨_, rfl, rfl, rfl, setups_enter⟩

end Client

end AdminPlatform.Frontend.ClientStores
