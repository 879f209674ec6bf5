import AdminPlatform.Foundation.AsciiChars
import AdminPlatform.Frontend.StaticRoutes

namespace AdminPlatform.Frontend.DeliveredMenus

open Foundation.RoseTree Foundation.Relational Foundation.Forest Foundation.AsciiChars Model.Schema
open Menu.Provider Menu.Routers Menu.Service Menu.ButtonLeaves
open VueRouter AddedRoutes DynamicRoutes StaticRoutes

variable {pages : List String} {s : Routing} {payload : Trees RouterVO} {routes : Trees (RouteRecord View)}
  {upper : Char → String} {t : Trees MenuNode} {topLevel : Bool}

theorem install_eq (hroutes : toRoutes pages payload = some routes)
    (hroots : ∀ record ∈ routes.roots, startsWith record.path "/" = true) :
    installDynamicRoutes pages payload s = (⟨.add none routes (resetDynamicRoutes s).router,
      routes.roots.map RouteRecord.name⟩, true) := by
  unfold installDynamicRoutes
  rw [hroutes]
  exact addRoutes_ok hroots

section Payload

variable (h : Sound s) (hnames : ∀ name ∈ payload.values.map RouterVO.name, name ∉ staticNames)
  (hroutes : toRoutes pages payload = some routes)
include h

theorem added_reset : Added s.router.next [] (resetDynamicRoutes s).router where
  le := by simp
  records := by
    have hnil : (resetDynamicRoutes s).router.since s.router.next = [] := by
      refine List.filter_eq_nil_iff.2 fun m hm ↦ ?_
      have hlt := h.reset.kept.wellFormed.below m hm
      rw [resetDynamicRoutes_router, removeRoutes_next] at hlt
      simpa using hlt
    rw [hnil]
    rfl
  closed m hm hs := by
    have hlt := h.reset.kept.wellFormed.below m hm
    rw [resetDynamicRoutes_router, removeRoutes_next] at hlt
    exact absurd hs (Nat.not_le.2 hlt)

include hroutes hnames

theorem delivers_of_fits (hroots : ∀ record ∈ routes.roots, startsWith record.path "/" = true ∧ record.name ≠ "")
    (hdistinct : Distinct (routes.values.map RouteRecord.name)) : Delivers pages payload s := by
  have hinstall := install_eq (s := s) hroutes fun r hr ↦ (hroots r hr).1
  have hkept : Kept (.add none routes (resetDynamicRoutes s).router) :=
    h.reset.kept.add (by rwa [names_toRoutes hroutes])
  obtain ⟨hadded, _⟩ := (added_reset h).add (t := routes) hdistinct fun _ (hp : none = some _) ↦ nomatch hp
  refine ⟨_, hinstall, ?_, fun m hm ↦ hkept.mem hm, ?_⟩
  · have hrecords := congrArg (List.map some) hadded.records
    rw [List.map_map] at hrecords
    exact hrecords.trans (values_toRoutes hroutes)
  · rw [resetDynamicRoutes_router]
    refine since_eq_nil (hadded.closed.removeRoutes hkept.wellFormed _) (hkept.wellFormed.removeRoutes _) ?_
    intro m hm hs hp
    rcases mem_add (removeRoutes_sublist.subset hm) with hold | ⟨p, hpp⟩ | ⟨-, hroot⟩
    · have hnil := (added_reset h).records
      rw [List.map_eq_nil_iff] at hnil
      exact List.not_mem_nil (hnil ▸ mem_since.2 ⟨hold, hs⟩)
    · rw [hp] at hpp
      cases hpp
    · obtain ⟨r, hr, hrn⟩ := List.mem_map.1 hroot
      exact name_not_mem_removeRoutes hkept.wellFormed hm (hrn ▸ (hroots r hr).2) hroot

theorem fits_of_delivers (hd : Delivers pages payload s) :
    (∀ record ∈ routes.roots, startsWith record.path "/" = true ∧ record.name ≠ "") ∧
      Distinct (routes.values.map RouteRecord.name) := by
  obtain ⟨s', hs', hview, _, hreset⟩ := hd
  have hroots : ∀ record ∈ routes.roots, startsWith record.path "/" = true := by
    have htrue := congrArg Prod.snd hs'
    unfold installDynamicRoutes at htrue
    rw [hroutes] at htrue
    exact startsWith_of_addRoutes htrue
  rw [install_eq hroutes hroots] at hs'
  cases hs'
  have hkept : Kept (.add none routes (resetDynamicRoutes s).router) :=
    h.reset.kept.add (by rwa [names_toRoutes hroutes])
  refine ⟨fun record hr ↦ ⟨hroots record hr, fun hname ↦ ?_⟩, ?_⟩
  · obtain ⟨m, hm, hle, hn, hp⟩ := exists_nameless h.reset.kept.wellFormed hr hname
    rw [resetDynamicRoutes_router, removeRoutes_next] at hle
    rw [resetDynamicRoutes_router] at hreset
    have hstay := mem_removeRoutes_of_nameless hkept.wellFormed hm hn hp (routes.roots.map RouteRecord.name)
    exact List.not_mem_nil (hreset ▸ mem_since.2 ⟨hstay, hle⟩)
  · have hmap := congrArg (List.map fun r : Option (RouteRecord View) ↦ (r.map RouteRecord.name).getD "")
      (hview.trans (values_toRoutes hroutes).symm)
    rw [List.map_map, List.map_map] at hmap
    have hpair : Distinct (routes.values.map RouteRecord.name) ↔
        Distinct (((Router.add none routes (resetDynamicRoutes s).router).since
          s.router.next).map Matcher.name) := by
      exact iff_of_eq (congrArg Distinct hmap.symm)
    rw [hpair, Distinct, List.pairwise_map]
    exact hkept.wellFormed.unique.sublist List.filter_sublist

end Payload

variable {db : Db} {userId : ℕ}

def KnownComponents (pages : List String) (db : Db) : Prop := ∀ i (m : Menu), db.rows .menus i = some m →
  ∀ c, m.component = some c → c = "" ∨ c ∈ SHELL_ALLOWLIST ∨ c ∈ pages

/-- The names of the routes differ, as far as they are not empty, and those at the top have a name
and no external path. -/
structure Routable (upper : Char → String) (db : Db) (userId : ℕ) : Prop where
  names : ∀ x y, Shown db userId x → Shown db userId y → _routeName upper x.2.path ≠ "" →
    _routeName upper x.2.path = _routeName upper y.2.path → x.1 = y.1
  top : ∀ x, Shown db userId x → (∀ p m, x.2.parentId = some p → ¬ Shown db userId (p, m)) →
    isExternal x.2.path = false ∧ _routeName upper x.2.path ≠ ""

theorem startsWith_routePath (path : String) :
    startsWith (_routePath path true) "/" = true ↔ isExternal path = false := by
  unfold _routePath
  cases he : isExternal path with
  | true =>
    have hhead : ∃ cs, path.toList = 'h' :: cs := by
      obtain ⟨start, hs, hp⟩ := List.any_eq_true.1 he
      have hprefix := List.isPrefixOf_iff_prefix.1 hp
      simp only [_EXTERNAL_PREFIXES, List.mem_cons, List.not_mem_nil, or_false] at hs
      rcases hs with rfl | rfl
      · obtain ⟨cs, hcs⟩ := hprefix
        exact ⟨_, hcs.symm⟩
      · obtain ⟨cs, hcs⟩ := hprefix
        exact ⟨_, hcs.symm⟩
    obtain ⟨cs, hcs⟩ := hhead
    simp [startsWith, hcs]
  | false =>
    simp only [Bool.false_eq_true, if_false, if_true, iff_true]
    split
    · assumption
    · simp [startsWith]

theorem roots_render : (render upper topLevel t).roots.map (fun r ↦ (r.path, r.name)) =
    t.roots.map fun node ↦ (_routePath node.path topLevel, _routeName upper node.path) := by
  induction t with
  | nil => rfl
  | cons node cs ts _ ih =>
    rw [render, Trees.roots_cons, Trees.roots_cons, List.map_cons, List.map_cons, ih]
    rfl

theorem mem_render {r : RouterVO} (h : r ∈ (render upper topLevel t).values) : ∃ node ∈ t.values, ∃ top,
    r.component = _component node top (decide (node.menuType = .directory)) := by
  induction t generalizing topLevel with
  | nil => cases h
  | cons node cs ts ih ih' =>
    rcases List.mem_cons.1 h with rfl | h
    · exact ⟨node, List.mem_cons_self, topLevel, rfl⟩
    · rcases List.mem_append.1 h with h | h
      · obtain ⟨n, hn, hc⟩ := ih h
        exact ⟨n, List.mem_cons_of_mem _ (List.mem_append_left _ hn), hc⟩
      · obtain ⟨n, hn, hc⟩ := ih' h
        exact ⟨n, List.mem_cons_of_mem _ (List.mem_append_right _ hn), hc⟩

theorem resolveComponent_isSome {c : String} (h : c ∈ SHELL_ALLOWLIST ∨ c ∈ pages) :
    (resolveComponent pages c).isSome := by
  unfold resolveComponent
  split
  · rfl
  · rename_i hshell
    split
    · rfl
    · rw [if_pos (h.resolve_left hshell)]
      rfl

theorem component_known {node : MenuNode} {top isDir : Bool}
    (h : ∀ c, node.component = some c → c = "" ∨ c ∈ SHELL_ALLOWLIST ∨ c ∈ pages) :
    (resolveComponent pages (_component node top isDir)).isSome := by
  have hlayout : "Layout" ∈ SHELL_ALLOWLIST := by decide
  have hparent : "ParentView" ∈ SHELL_ALLOWLIST := by decide
  unfold _component
  split
  · split
    · exact resolveComponent_isSome (.inl hlayout)
    · exact resolveComponent_isSome (.inl hparent)
  · split
    · exact resolveComponent_isSome (.inl hlayout)
    · rename_i c hc
      split
      · exact resolveComponent_isSome (.inl hlayout)
      · rename_i hne
        exact resolveComponent_isSome ((h c hc).resolve_left hne)

theorem exists_routes (hrooted : ∀ i, Rooted (parentOf db) i) (hbutton : NoButtonParent db)
    (hknown : KnownComponents pages db) : ∃ routes, toRoutes pages (getRouters upper db userId) = some routes := by
  refine exists_toRoutes fun r hr ↦ ?_
  rw [getRouters_eq] at hr
  obtain ⟨node, hnode, top, hc⟩ := mem_render hr
  rw [Trees.values_map] at hnode
  obtain ⟨x, hx, rfl⟩ := List.mem_map.1 hnode
  rw [hc]
  exact component_known (hknown x.1 x.2 ((mem_shownForest hrooted hbutton).1 hx).row)

theorem names_getRouters : (getRouters upper db userId).values.map RouterVO.name =
    (shownForest (listed db userId)).values.map fun x ↦ _routeName upper x.2.path := by
  rw [getRouters_eq, names_render, Trees.values_map, List.map_map]
  rfl

def FitsTop (z : String × String) : Prop := startsWith z.1 "/" = true ∧ z.2 ≠ ""

section Menus

variable (hrooted : ∀ i, Rooted (parentOf db) i) (hbutton : NoButtonParent db)
include hbutton

theorem roots_iff : (∀ node ∈ (getRouters upper db userId).roots,
      startsWith node.path "/" = true ∧ node.name ≠ "") ↔
    ∀ x, Shown db userId x → (∀ p m, x.2.parentId = some p → ¬ Shown db userId (p, m)) →
      isExternal x.2.path = false ∧ _routeName upper x.2.path ≠ "" := by
  have hroots : (getRouters upper db userId).roots.map (fun r ↦ (r.path, r.name)) =
      (shownForest (listed db userId)).roots.map fun x ↦
        (_routePath x.2.path true, _routeName upper x.2.path) := by
    rw [getRouters_eq, roots_render, Trees.roots_map, List.map_map]
    rfl
  have hforall : (∀ node ∈ (getRouters upper db userId).roots, startsWith node.path "/" = true ∧ node.name ≠ "") ↔
      ∀ z ∈ (getRouters upper db userId).roots.map (fun r ↦ (r.path, r.name)), FitsTop z :=
    (List.forall_mem_map (f := fun r : RouterVO ↦ (r.path, r.name)) (P := FitsTop)).symm
  rw [hforall, hroots, List.forall_mem_map]
  simp only [roots_shownForest hbutton, FitsTop, startsWith_routePath, and_imp]

include hrooted

theorem distinct_iff : Distinct ((getRouters upper db userId).values.map RouterVO.name) ↔
    ∀ x y, Shown db userId x → Shown db userId y → _routeName upper x.2.path ≠ "" →
      _routeName upper x.2.path = _routeName upper y.2.path → x.1 = y.1 := by
  rw [names_getRouters, Distinct, List.pairwise_map]
  have hmem : ∀ x, x ∈ (shownForest (listed db userId)).values ↔ Shown db userId x :=
    fun _ ↦ mem_shownForest hrooted hbutton
  constructor
  · intro h x y hx hy hne he
    by_contra hid
    have hsymm : Std.Symm fun x y : ℕ × Menu ↦
        _routeName upper x.2.path ≠ "" → _routeName upper x.2.path ≠ _routeName upper y.2.path :=
      ⟨fun _ _ hab hb he ↦ hab (he ▸ hb) he.symm⟩
    exact h.forall ((hmem x).2 hx) ((hmem y).2 hy) (fun hxy ↦ hid (congrArg Prod.fst hxy)) hne he
  · intro h
    refine (nodup_shownForest hrooted hbutton).pairwise_of_forall_ne fun x hx y hy hxy hne he ↦ hxy ?_
    have hx' := (hmem x).1 hx
    have hy' := (hmem y).1 hy
    have hid := h x y hx' hy' hne he
    have hrow := hx'.row
    rw [hid] at hrow
    exact Prod.ext hid (Option.some.inj (hrow.symm.trans hy'.row))

/-- Exactly under this condition everything that a user is sent becomes a route, and goes again. -/
theorem delivers_iff (hupper : UpperCase upper) (hknown : KnownComponents pages db) (h : Reach pages upper s) :
    Delivers pages (getRouters upper db userId) s ↔ Routable upper db userId := by
  obtain ⟨routes, hroutes⟩ : ∃ routes, toRoutes pages (getRouters upper db userId) = some routes :=
    exists_routes hrooted hbutton hknown
  have hs := sound_of_reach hupper h
  have hnames := names_buildRouters (t := aGetUserMenuTree db userId) hupper
  have htop : (∀ record ∈ routes.roots, startsWith record.path "/" = true ∧ record.name ≠ "") ↔
      ∀ node ∈ (getRouters upper db userId).roots, startsWith node.path "/" = true ∧ node.name ≠ "" := by
    have hmap := List.forall_mem_map (l := routes.roots) (f := fun r ↦ (r.path, r.name)) (P := FitsTop)
    rw [roots_toRoutes hroutes, List.forall_mem_map] at hmap
    exact hmap.symm
  have hfits : Delivers pages (getRouters upper db userId) s ↔
      (∀ record ∈ routes.roots, startsWith record.path "/" = true ∧ record.name ≠ "") ∧
        Distinct (routes.values.map RouteRecord.name) :=
    ⟨fits_of_delivers hs hnames hroutes, fun hd ↦ delivers_of_fits hs hnames hroutes hd.1 hd.2⟩
  rw [hfits, htop, names_toRoutes hroutes, roots_iff hbutton, distinct_iff hrooted hbutton]
  exact ⟨fun ⟨htop, hn⟩ ↦ ⟨hn, htop⟩, fun ⟨hn, htop⟩ ↦ ⟨htop, hn⟩⟩

end Menus

def asciiUpper (c : Char) : String := String.singleton c.toUpper

theorem isLower_toUpper (c : Char) : c.toUpper.isLower = false := by
  have ha : 'a'.val.toNat = 97 := rfl
  have hz : 'z'.val.toNat = 122 := rfl
  unfold Char.toUpper
  split
  · rename_i h
    have hlo := UInt32.le_iff_toNat_le.1 h.1
    have hhi := UInt32.le_iff_toNat_le.1 h.2
    have hshift : ('A'.val - 'a'.val).toNat = 4294967264 := rfl
    rw [Bool.eq_false_iff, Ne, isLower_iff, Char.toNat, UInt32.toNat_add, hshift]
    omega
  · rename_i h
    cases hl : c.isLower with
    | false => rfl
    | true =>
      obtain ⟨hlow, hhigh⟩ := isLower_iff.1 hl
      exact absurd ⟨UInt32.le_iff_toNat_le.2 hlow, UInt32.le_iff_toNat_le.2 hhigh⟩ h

theorem upperCase_ascii : UpperCase asciiUpper :=
  fun c ↦ ⟨c.toUpper, [], String.toList_singleton c.toUpper, isLower_toUpper c⟩

theorem delivers_iff_oneBranch : Delivers [] (getRouters asciiUpper oneBranch 0) ⟨createRouter, []⟩ := by
  refine (delivers_iff rooted_oneBranch noButtonParent_oneBranch upperCase_ascii ?_ .start).2 ⟨?_, ?_⟩
  · intro i m hm c hc
    rcases rows_oneBranch hm with ⟨rfl, rfl⟩ | ⟨rfl, rfl⟩ | ⟨rfl, rfl⟩ <;> cases hc
  · intro ⟨i, m⟩ ⟨j, n⟩ hx hy _ he
    rcases rows_oneBranch hx.row with ⟨rfl, rfl⟩ | ⟨rfl, rfl⟩ | ⟨rfl, rfl⟩
    · rcases rows_oneBranch hy.row with ⟨rfl, rfl⟩ | ⟨rfl, rfl⟩ | ⟨rfl, rfl⟩
      · rfl
      · exact absurd he (by decide)
      · exact absurd rfl hy.routable
    · rcases rows_oneBranch hy.row with ⟨rfl, rfl⟩ | ⟨rfl, rfl⟩ | ⟨rfl, rfl⟩
      · exact absurd he (by decide)
      · rfl
      · exact absurd rfl hy.routable
    · exact absurd rfl hx.routable
  · intro ⟨i, m⟩ hx _
    rcases rows_oneBranch hx.row with ⟨rfl, rfl⟩ | ⟨rfl, rfl⟩ | ⟨rfl, rfl⟩
    · exact ⟨by decide, by decide⟩
    · exact ⟨by decide, by decide⟩
    · exact absurd rfl hx.routable

def twoLists : Db := Store.empty.apply
  [⟨.users, 0, some admin⟩, ⟨.menus, 0, some (menuRow none "系统" "/system" .directory)⟩,
   ⟨.menus, 1, some (menuRow none "工具" "/tool" .directory)⟩,
   ⟨.menus, 2, some (menuRow (some 0) "用户" "list" .menu)⟩,
   ⟨.menus, 3, some (menuRow (some 1) "任务" "list" .menu)⟩]

theorem rows_twoLists {i : ℕ} {m : Menu} (h : twoLists.rows .menus i = some m) :
    (i = 0 ∧ m = menuRow none "系统" "/system" .directory) ∨ (i = 1 ∧ m = menuRow none "工具" "/tool" .directory) ∨
      (i = 2 ∧ m = menuRow (some 0) "用户" "list" .menu) ∨ (i = 3 ∧ m = menuRow (some 1) "任务" "list" .menu) := by
  have hk : i ∈ [0, 1, 2, 3] := twoLists.complete .menus i m h
  simp only [List.mem_cons, List.not_mem_nil, or_false] at hk
  rcases hk with rfl | rfl | rfl | rfl
  · exact .inl ⟨rfl, (Option.some.inj h).symm⟩
  · exact .inr (.inl ⟨rfl, (Option.some.inj h).symm⟩)
  · exact .inr (.inr (.inl ⟨rfl, (Option.some.inj h).symm⟩))
  · exact .inr (.inr (.inr ⟨rfl, (Option.some.inj h).symm⟩))

theorem rooted_twoLists (i : ℕ) : Rooted (parentOf twoLists) i := by
  cases hp : parentOf twoLists i with
  | none => exact rooted_of_none hp
  | some p =>
    obtain ⟨m, hm, hmp⟩ := Option.bind_eq_some_iff.1 hp
    refine rooted_of_parent hp (rooted_of_none ?_)
    rcases rows_twoLists hm with ⟨rfl, rfl⟩ | ⟨rfl, rfl⟩ | ⟨rfl, rfl⟩ | ⟨rfl, rfl⟩ <;> cases hmp
    · rfl
    · rfl

theorem noButtonParent_twoLists : NoButtonParent twoLists := by
  intro i p m _ hm
  rcases rows_twoLists hm with ⟨rfl, rfl⟩ | ⟨rfl, rfl⟩ | ⟨rfl, rfl⟩ | ⟨rfl, rfl⟩ <;> decide

theorem known_twoLists : KnownComponents [] twoLists := by
  intro i m hm c hc
  rcases rows_twoLists hm with ⟨rfl, rfl⟩ | ⟨rfl, rfl⟩ | ⟨rfl, rfl⟩ | ⟨rfl, rfl⟩ <;> cases hc

/-- The route of the second list replaces that of the first. -/
theorem not_delivers_twoLists : (∀ i, Rooted (parentOf twoLists) i) ∧ NoButtonParent twoLists ∧
    KnownComponents [] twoLists ∧ ¬ Delivers [] (getRouters asciiUpper twoLists 0) ⟨createRouter, []⟩ := by
  refine ⟨rooted_twoLists, noButtonParent_twoLists, known_twoLists, fun hd ↦ ?_⟩
  obtain ⟨routes, hroutes⟩ : ∃ routes, toRoutes [] (getRouters asciiUpper twoLists 0) = some routes :=
    exists_routes rooted_twoLists noButtonParent_twoLists known_twoLists
  have hreach : Reach [] asciiUpper ⟨createRouter, []⟩ := .start
  have hsound := sound_of_reach upperCase_ascii hreach
  have hnames := names_buildRouters (t := aGetUserMenuTree twoLists 0) upperCase_ascii
  have hdistinct := (fits_of_delivers hsound hnames hroutes hd).2
  rw [names_toRoutes hroutes] at hdistinct
  have huser : ∃ u : User, twoLists.rows .users 0 = some u ∧ u.status = .active ∧ u.isSuperAdmin = true :=
    ⟨admin, rfl, rfl, rfl⟩
  obtain ⟨u, hu, hactive, hsuper⟩ := huser
  have h2 : Shown twoLists 0 (2, menuRow (some 0) "用户" "list" .menu) :=
    ⟨⟨u, hu, hactive, .inl hsuper⟩, rfl, rfl, by decide⟩
  have h3 : Shown twoLists 0 (3, menuRow (some 1) "任务" "list" .menu) :=
    ⟨⟨u, hu, hactive, .inl hsuper⟩, rfl, rfl, by decide⟩
  have hid := (distinct_iff rooted_twoLists noButtonParent_twoLists).1 hdistinct _ _ h2 h3 (by decide) rfl
  cases hid

end AdminPlatform.Frontend.DeliveredMenus
