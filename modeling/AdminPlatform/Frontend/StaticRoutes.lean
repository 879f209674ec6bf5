import AdminPlatform.Frontend.DynamicRoutes

namespace AdminPlatform.Frontend.StaticRoutes

open Foundation.RoseTree Menu.Provider Menu.Routers VueRouter AddedRoutes DynamicRoutes

def staticNames : List String := createRouter.matchers.map Matcher.name

def isStatic (serial : ℕ) : Bool := decide (serial < createRouter.next)

/-- The static records are there, as they were registered first. -/
structure Kept (router : Router View) : Prop where
  wellFormed : WellFormed router
  next : createRouter.next ≤ router.next
  records : router.matchers.filter (fun m ↦ isStatic m.serial) = createRouter.matchers

structure Sound (s : Routing) : Prop where
  kept : Kept s.router
  names : ∀ name ∈ s.installedRouteNames, name ∉ staticNames

/-- What is used of `str.upper`: it does not give a text that starts with a lower-case letter. -/
def UpperCase (upper : Char → String) : Prop := ∀ c, ∃ d ds, (upper c).toList = d :: ds ∧ d.isLower = false

variable {pages : List String} {s : Routing} {payload : Trees RouterVO} {routes : Trees (RouteRecord View)}
  {upper : Char → String} {t : Trees MenuNode} {topLevel : Bool} {router : Router View} {names : List String}

theorem routeName_not_static (hupper : UpperCase upper) (path : String) :
    _routeName upper path ∉ staticNames := by
  unfold _routeName
  split
  · decide
  · rename_i c segment _
    obtain ⟨d, ds, hd, hlower⟩ := hupper c
    intro h
    have hhead : ∀ name ∈ staticNames, ∃ e es, name.toList = e :: es ∧ e.isLower = true := by
      intro name hname
      have hlist : name ∈ ["login", "root", "home", "not-found"] := hname
      simp only [List.mem_cons, List.not_mem_nil, or_false] at hlist
      rcases hlist with rfl | rfl | rfl | rfl
      · exact ⟨_, _, rfl, by decide⟩
      · exact ⟨_, _, rfl, by decide⟩
      · exact ⟨_, _, rfl, by decide⟩
      · exact ⟨_, _, rfl, by decide⟩
    obtain ⟨e, es, he, helower⟩ := hhead _ h
    rw [String.toList_append, hd] at he
    cases he
    rw [hlower] at helower
    cases helower

theorem names_render :
    (render upper topLevel t).values.map RouterVO.name = t.values.map fun node ↦ _routeName upper node.path := by
  induction t generalizing topLevel with
  | nil => rfl
  | cons node cs ts ih ih' =>
    rw [render, Trees.values_cons, Trees.values_cons, List.map_cons, List.map_cons, List.map_append,
      List.map_append, ih, ih']
    rfl

theorem names_buildRouters (hupper : UpperCase upper) :
    ∀ name ∈ (buildRouters upper t).values.map RouterVO.name, name ∉ staticNames := by
  intro name hname
  rw [buildRouters, toRouters_eq, names_render] at hname
  obtain ⟨node, _, rfl⟩ := List.mem_map.1 hname
  exact routeName_not_static hupper node.path

theorem kept_createRouter : Kept createRouter where
  wellFormed := wellFormed_empty.add fun _ h ↦ nomatch h
  next := Nat.le_refl _
  records := by decide

theorem Kept.apart (h : Kept router) (hnames : ∀ name ∈ names, name ∉ staticNames) :
    Apart isStatic names router := by
  have hmem : ∀ m ∈ router.matchers, isStatic m.serial = true → m ∈ createRouter.matchers := by
    intro m hm hs
    rw [← h.records]
    exact List.mem_filter.2 ⟨hm, hs⟩
  refine ⟨fun m hm hs p hp ↦ ?_, fun m hm hs _ hin ↦ hnames _ hin (List.mem_map_of_mem (hmem m hm hs))⟩
  have hlt := kept_createRouter.wellFormed.parent m (hmem m hm hs) p hp
  exact decide_eq_true (Nat.lt_trans hlt (of_decide_eq_true hs))

theorem Kept.removeRoutes (h : Kept router) (hnames : ∀ name ∈ names, name ∉ staticNames) :
    Kept (router.removeRoutes names) where
  wellFormed := h.wellFormed.removeRoutes names
  next := by
    rw [removeRoutes_next]
    exact h.next
  records := (filter_removeRoutes (h.apart hnames)).trans h.records

theorem Kept.add (h : Kept router)
    (hnames : ∀ name ∈ routes.values.map RouteRecord.name, name ∉ staticNames) :
    Kept (.add none routes router) where
  wellFormed := h.wellFormed.add fun _ hp ↦ nomatch hp
  next := Nat.le_trans h.next le_add_next
  records := by
    refine (filter_add (h.apart hnames) fun n hn ↦ ?_).trans h.records
    exact decide_eq_false (Nat.not_lt.2 (Nat.le_trans h.next hn))

theorem Kept.mem (h : Kept router) {m : Matcher View} (hm : m ∈ createRouter.matchers) : m ∈ router.matchers := by
  rw [← h.records] at hm
  exact (List.mem_filter.1 hm).1

theorem Sound.reset (h : Sound s) : Sound (resetDynamicRoutes s) where
  kept := by
    rw [resetDynamicRoutes_router]
    exact h.kept.removeRoutes h.names
  names _ hn := nomatch hn

theorem Sound.addRoutes (h : Sound s)
    (hnames : ∀ name ∈ routes.values.map RouteRecord.name, name ∉ staticNames) :
    Sound (addRoutes routes s).1 := by
  induction routes generalizing s with
  | nil => exact h
  | cons record cs ts _ ih =>
    have hfirst : ∀ name ∈ (Trees.cons record cs .nil).values.map RouteRecord.name, name ∉ staticNames := by
      intro name hn
      refine hnames name ?_
      simp only [Trees.values_cons, Trees.values_nil, List.append_nil, List.map_cons, List.map_append] at hn ⊢
      exact List.cons_subset_cons _ (List.subset_append_left _ _) hn
    have hrest : ∀ name ∈ ts.values.map RouteRecord.name, name ∉ staticNames := by
      intro name hn
      refine hnames name ?_
      simp only [Trees.values_cons, List.map_cons, List.map_append]
      exact List.mem_cons_of_mem _ (List.mem_append_right _ hn)
    unfold DynamicRoutes.addRoutes
    split
    · refine ih ⟨h.kept.add hfirst, fun name hn ↦ ?_⟩ hrest
      rcases List.mem_append.1 hn with hn | hn
      · exact h.names name hn
      · rw [List.mem_singleton.1 hn]
        exact hfirst _ List.mem_cons_self
    · exact h

theorem Sound.install (h : Sound s) (hnames : ∀ name ∈ payload.values.map RouterVO.name, name ∉ staticNames) :
    Sound (installDynamicRoutes pages payload s).1 := by
  unfold installDynamicRoutes
  cases hr : toRoutes pages payload with
  | none => exact h.reset
  | some routes => exact h.reset.addRoutes (by rwa [names_toRoutes hr])

theorem sound_of_reach (hupper : UpperCase upper) (h : Reach pages upper s) : Sound s := by
  induction h with
  | start => exact ⟨kept_createRouter, fun _ hn ↦ absurd hn List.not_mem_nil⟩
  | install tree _ ih => exact ih.install (names_buildRouters hupper)
  | reset _ ih => exact ih.reset

end AdminPlatform.Frontend.StaticRoutes
