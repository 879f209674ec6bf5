import AdminPlatform.Frontend.AddedRoutes
import AdminPlatform.Menu.Routers

namespace AdminPlatform.Frontend.DynamicRoutes

open Foundation.RoseTree Menu.Provider Menu.Routers VueRouter AddedRoutes

/-- A shell, a page, or what every object inherits. -/
inductive View
  | shell (name : String)
  | page (key : String)
  | inherited (name : String)
  deriving DecidableEq, Repr

def SHELL_ALLOWLIST : List String := ["Layout", "ParentView"]

/-- The names that `in` finds in any object. -/
def OBJECT_PROTOTYPE : List String :=
  ["constructor", "__defineGetter__", "__defineSetter__", "hasOwnProperty", "__lookupGetter__",
   "__lookupSetter__", "isPrototypeOf", "propertyIsEnumerable", "toString", "valueOf", "__proto__",
   "toLocaleString"]

section

variable (pages : List String)

def resolveComponent (component : String) : Option View :=
  if component ∈ SHELL_ALLOWLIST then some (.shell component)
  else if component ∈ OBJECT_PROTOTYPE then some (.inherited component)
  else if component ∈ pages then some (.page component)
  else none

def toRecord (node : RouterVO) (component : View) : RouteRecord View where
  path := node.path
  name := node.name
  component := component
  «meta» := {
    title := some node.meta.title
    icon := some node.meta.icon
    noCache := some node.meta.noCache
    link := node.meta.link
    hidden := some node.hidden }
  redirect := node.redirect.filter fun redirect ↦ decide (redirect ≠ "" ∧ redirect ≠ "noRedirect")

/-- `none` when a component has no page. -/
def toRoutes : Trees RouterVO → Option (Trees (RouteRecord View))
  | .nil => some .nil
  | .cons node children rest => do
    let component ← resolveComponent pages node.component
    let children ← toRoutes children
    let rest ← toRoutes rest
    some (.cons (toRecord node component) children rest)

def staticRoutes : Trees (RouteRecord View) :=
  .cons ⟨"/login", "login", .page "login/index", { title := some "登录", isPublic := some true }, none⟩ .nil
    (.cons ⟨"/", "root", .shell "Layout", {}, some "/home"⟩
      (.cons ⟨"home", "home", .page "home/index", { title := some "首页" }, none⟩ .nil .nil)
      (.cons
        ⟨"/:pathMatch(.*)*", "not-found", .page "error/404", { title := some "404", isPublic := some true }, none⟩
        .nil .nil))

structure Routing where
  router : Router View
  installedRouteNames : List String
  deriving DecidableEq, Repr

def createRouter : Router View := .add none staticRoutes ⟨[], 0⟩

def resetDynamicRoutes (s : Routing) : Routing where
  router := s.installedRouteNames.foldl
    (fun router name ↦ if router.hasRoute name then router.removeRoute name else router) s.router
  installedRouteNames := []

/-- The loop over the routes; `false` when `addRoute` throws. -/
def addRoutes : Trees (RouteRecord View) → Routing → Routing × Bool
  | .nil, s => (s, true)
  | .cons record children rest, s =>
    if startsWith record.path "/" then
      addRoutes rest {
        router := .add none (.cons record children .nil) s.router
        installedRouteNames := s.installedRouteNames ++ [record.name] }
    else (s, false)

def installDynamicRoutes (routers : Trees RouterVO) (s : Routing) : Routing × Bool :=
  let s := resetDynamicRoutes s
  match toRoutes pages routers with
  | none => (s, false)
  | some routes => addRoutes routes s

/-- The states after payloads of the server have been installed and removed in any order. -/
inductive Reach (upper : Char → String) : Routing → Prop
  | start : Reach upper ⟨createRouter, []⟩
  | install {s : Routing} (tree : Trees MenuNode) (h : Reach upper s) :
      Reach upper (installDynamicRoutes pages (buildRouters upper tree) s).1
  | reset {s : Routing} (h : Reach upper s) : Reach upper (resetDynamicRoutes s)

/-- The installation completes, the records that it adds are those of the nodes of the payload with their
components, the static records are still there, and the reset removes all that was added. -/
def Delivers (payload : Trees RouterVO) (s : Routing) : Prop :=
  ∃ s', installDynamicRoutes pages payload s = (s', true) ∧
    (s'.router.since s.router.next).map (fun m ↦ some m.record) =
      payload.values.map (fun node ↦ (resolveComponent pages node.component).map (toRecord node)) ∧
    (∀ m ∈ createRouter.matchers, m ∈ s'.router.matchers) ∧
    (resetDynamicRoutes s').router.since s.router.next = []

end

variable {pages : List String} {s : Routing} {payload : Trees RouterVO} {routes : Trees (RouteRecord View)}
  {upper : Char → String} {t : Trees MenuNode} {topLevel : Bool}

@[simp] theorem resetDynamicRoutes_router :
    (resetDynamicRoutes s).router = s.router.removeRoutes s.installedRouteNames := by
  have hstep : ∀ (router : Router View) (name : String),
      (if router.hasRoute name then router.removeRoute name else router) = router.removeRoute name := by
    intro router name
    cases hf : router.getRecordMatcher name with
    | none => simp [Router.hasRoute, Router.removeRoute, hf]
    | some m => simp [Router.hasRoute, hf]
  simp only [resetDynamicRoutes, hstep]
  rfl

theorem addRoutes_ok (h : ∀ record ∈ routes.roots, startsWith record.path "/" = true) :
    addRoutes routes s = (⟨.add none routes s.router,
      s.installedRouteNames ++ routes.roots.map RouteRecord.name⟩, true) := by
  induction routes generalizing s with
  | nil => simp [addRoutes, Router.add]
  | cons record children rest _ ih =>
    rw [addRoutes, if_pos (h record List.mem_cons_self), ih fun r hr ↦ h r (List.mem_cons_of_mem _ hr)]
    simp [Router.add]

theorem startsWith_of_addRoutes (h : (addRoutes routes s).2 = true) :
    ∀ record ∈ routes.roots, startsWith record.path "/" = true := by
  induction routes generalizing s with
  | nil => exact fun _ hr ↦ nomatch hr
  | cons record children rest _ ih =>
    unfold addRoutes at h
    split at h
    · rename_i hs
      intro r hr
      rcases List.mem_cons.1 hr with rfl | hr
      · exact hs
      · exact ih h r hr
    · cases h

theorem toRoutes_cons {node : RouterVO} {children rest : Trees RouterVO}
    (h : toRoutes pages (.cons node children rest) = some routes) :
    ∃ component cs ts, resolveComponent pages node.component = some component ∧
      toRoutes pages children = some cs ∧ toRoutes pages rest = some ts ∧
      routes = .cons (toRecord node component) cs ts := by
  obtain ⟨component, hc, h⟩ := Option.bind_eq_some_iff.1 h
  obtain ⟨cs, hcs, h⟩ := Option.bind_eq_some_iff.1 h
  obtain ⟨ts, hts, h⟩ := Option.bind_eq_some_iff.1 h
  exact ⟨component, cs, ts, hc, hcs, hts, (Option.some.inj h).symm⟩

theorem values_toRoutes (h : toRoutes pages payload = some routes) :
    routes.values.map some =
      payload.values.map fun node ↦ (resolveComponent pages node.component).map (toRecord node) := by
  induction payload generalizing routes with
  | nil =>
    cases h
    rfl
  | cons node children rest ih ih' =>
    obtain ⟨component, cs, ts, hc, hcs, hts, rfl⟩ := toRoutes_cons h
    simp [hc, ih hcs, ih' hts]

theorem names_toRoutes (h : toRoutes pages payload = some routes) :
    routes.values.map RouteRecord.name = payload.values.map RouterVO.name := by
  induction payload generalizing routes with
  | nil =>
    cases h
    rfl
  | cons node children rest ih ih' =>
    obtain ⟨component, cs, ts, _, hcs, hts, rfl⟩ := toRoutes_cons h
    rw [Trees.values_cons, Trees.values_cons, List.map_cons, List.map_cons, List.map_append, List.map_append,
      ih hcs, ih' hts]
    rfl

theorem roots_toRoutes (h : toRoutes pages payload = some routes) :
    routes.roots.map (fun r ↦ (r.path, r.name)) = payload.roots.map fun node ↦ (node.path, node.name) := by
  induction payload generalizing routes with
  | nil =>
    cases h
    rfl
  | cons node children rest _ ih =>
    obtain ⟨component, cs, ts, _, _, hts, rfl⟩ := toRoutes_cons h
    rw [Trees.roots_cons, Trees.roots_cons, List.map_cons, List.map_cons, ih hts]
    rfl

/-- A payload is converted when its components are there. -/
theorem exists_toRoutes (h : ∀ node ∈ payload.values, (resolveComponent pages node.component).isSome) :
    ∃ routes, toRoutes pages payload = some routes := by
  induction payload with
  | nil => exact ⟨.nil, rfl⟩
  | cons node children rest ih ih' =>
    simp only [Trees.values_cons, List.mem_cons, List.mem_append, forall_eq_or_imp] at h
    obtain ⟨component, hc⟩ := Option.isSome_iff_exists.1 h.1
    obtain ⟨cs, hcs⟩ := ih fun n hn ↦ h.2 n (.inl hn)
    obtain ⟨ts, hts⟩ := ih' fun n hn ↦ h.2 n (.inr hn)
    refine ⟨.cons (toRecord node component) cs ts, ?_⟩
    simp only [toRoutes, hc, hcs, hts, Option.bind_eq_bind, Option.bind_some]

end AdminPlatform.Frontend.DynamicRoutes
