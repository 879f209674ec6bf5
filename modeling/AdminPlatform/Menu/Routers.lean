import AdminPlatform.Menu.ButtonLeaves
import AdminPlatform.Menu.Provider

namespace AdminPlatform.Menu.Routers

open Model.Schema Foundation.Relational Foundation.RoseTree Foundation.Forest Foundation.Ordering
open Provider ButtonLeaves Service

structure RouterMeta where
  title : String
  icon : String
  noCache : Bool
  link : Option String
  deriving DecidableEq, Repr

/-- A node of the payload. Its key `children` is left out when nothing hangs on it. -/
structure RouterVO where
  name : String
  path : String
  hidden : Bool
  component : String
  redirect : Option String
  alwaysShow : Bool
  «meta» : RouterMeta
  deriving DecidableEq, Repr

def startsWith (value start : String) : Bool := start.toList.isPrefixOf value.toList

def _EXTERNAL_PREFIXES : List String := ["http://", "https://"]

def isExternal (path : String) : Bool := _EXTERNAL_PREFIXES.any (startsWith path)

section

-- `str.upper` of a single character.
variable (upper : Char → String)

def _routeName (path : String) : String :=
  match path.toList.dropWhile fun c ↦ decide (c = '/') with
  | [] => ""
  | c :: segment => upper c ++ String.ofList segment

def _routePath (path : String) (topLevel : Bool) : String :=
  if isExternal path then path
  else if topLevel then if startsWith path "/" then path else "/" ++ path
  else path

def _component (node : MenuNode) (topLevel isDir : Bool) : String :=
  if isDir then if topLevel then "Layout" else "ParentView"
  else match node.component with
    | none => "Layout"
    | some component => if component = "" then "Layout" else component

def _meta (node : MenuNode) : RouterMeta where
  title := node.name
  icon := node.icon
  noCache := false
  link := if isExternal node.path then some node.path else none

def _toRouter (node : MenuNode) (topLevel : Bool) (childRouters : Trees RouterVO) : RouterVO :=
  let isDir := decide (node.menuType = .directory)
  let dirWithChildren := isDir && decide (childRouters ≠ .nil)
  { name := _routeName upper node.path
    path := _routePath node.path topLevel
    hidden := !node.visible
    component := _component node topLevel isDir
    redirect := if dirWithChildren then some "noRedirect" else none
    alwaysShow := dirWithChildren
    «meta» := _meta node }

def toRouters (topLevel : Bool) : Trees MenuNode → Trees RouterVO
  | .nil => .nil
  | .cons node children rest =>
    if node.menuType ≠ .button then
      let childRouters := toRouters false children
      .cons (_toRouter upper node topLevel childRouters) childRouters (toRouters topLevel rest)
    else toRouters topLevel rest

def buildRouters (tree : Trees MenuNode) : Trees RouterVO := toRouters upper true tree

def getRouters (db : Db) (userId : ℕ) : Trees RouterVO := buildRouters upper (aGetUserMenuTree db userId)

def render (topLevel : Bool) : Trees MenuNode → Trees RouterVO
  | .nil => .nil
  | .cons node children rest =>
    .cons (_toRouter upper node topLevel (render false children)) (render false children)
      (render topLevel rest)

end

def isRoutable (node : MenuNode) : Bool := decide (node.menuType ≠ .button)

/-- The menus that a user is to get. -/
structure Shown (db : Db) (userId : ℕ) (x : ℕ × Menu) : Prop where
  user : ∃ u : User, db.rows .users userId = some u ∧ u.status = .active ∧
    (u.isSuperAdmin = true ∨ ∃ i j roleId, ∃ role : Role, db.rows .userRoles i = some ⟨userId, roleId⟩ ∧
      db.rows .roles roleId = some role ∧ role.status = .active ∧ db.rows .roleMenus j = some ⟨roleId, x.1⟩)
  row : db.rows .menus x.1 = some x.2
  active : x.2.status = .active
  routable : x.2.menuType ≠ .button

variable {upper : Char → String} {db : Db} {userId : ℕ} {x : ℕ × Menu} {menus : List (ℕ × Menu)}
  {topLevel : Bool} {t : Trees MenuNode}

theorem toRouters_eq : toRouters upper topLevel t = render upper topLevel (t.keep isRoutable) := by
  induction t generalizing topLevel with
  | nil => rfl
  | cons node children rest ih ih' =>
    by_cases h : node.menuType = .button
    · simp [toRouters, Trees.keep, isRoutable, h, ih']
    · simp [toRouters, Trees.keep, isRoutable, h, ih, ih', render]

def listed (db : Db) (userId : ℕ) : List (ℕ × Menu) :=
  match db.rows .users userId with
  | none => []
  | some (user : User) =>
    if user.status ≠ .active then []
    else if user.isSuperAdmin then listAllActive db
    else listActiveByIds db (listMenuIdsForUser db userId)

@[simp] theorem assemble_nil : assembleMenuForest [] = .nil := by
  simp [assembleMenuForest, build, ordered, sort, Trees.ofList]

theorem aGetUserMenuTree_eq : aGetUserMenuTree db userId = assembleMenuForest (listed db userId) := by
  unfold aGetUserMenuTree listed
  cases db.rows .users userId with
  | none => simp
  | some u =>
    by_cases h : u.status = .active
    · simp [h]
    · simp [h]

theorem nodup_ids_listed : ((listed db userId).map Prod.fst).Nodup := by
  have hselect : ∀ f : ℕ → Menu → Bool, ((sort menuOrder (db.select .menus f)).map Prod.fst).Nodup := by
    intro f
    rw [((arranged_sort menuOrder _).perm.map _).nodup_iff]
    exact (scan_keys_nodup db .menus).sublist (List.filter_sublist.map _)
  unfold listed
  split
  · exact List.nodup_nil
  · split
    · exact List.nodup_nil
    · split
      · exact hselect _
      · unfold listActiveByIds
        split
        · exact List.nodup_nil
        · exact hselect _

theorem shown_iff : Shown db userId x ↔ x ∈ (listed db userId).filter fun x ↦ isRoutable (menuNode x) := by
  rw [List.mem_filter, isRoutable, decide_eq_true_eq]
  unfold listed
  constructor
  · intro ⟨⟨u, hu, hactive, hgranted⟩, hrow, hstatus, hbutton⟩
    refine ⟨?_, hbutton⟩
    rw [hu]
    dsimp only
    rw [if_neg (not_not.2 hactive)]
    cases hs : u.isSuperAdmin with
    | true =>
      rw [if_pos rfl]
      exact mem_listAllActive.2 ⟨hrow, hstatus⟩
    | false =>
      rw [if_neg Bool.false_ne_true]
      refine mem_listActiveByIds.2 ⟨hrow, hstatus, mem_listMenuIdsForUser.2 ?_⟩
      exact hgranted.resolve_left (by rw [hs]; exact Bool.false_ne_true)
  · intro ⟨hx, hbutton⟩
    cases hu : db.rows .users userId with
    | none =>
      rw [hu] at hx
      cases hx
    | some u =>
      rw [hu] at hx
      dsimp only at hx
      split at hx
      · cases hx
      · rename_i hactive
        split at hx
        · rename_i hs
          obtain ⟨hrow, hstatus⟩ := mem_listAllActive.1 hx
          exact ⟨⟨u, hu, not_not.1 hactive, .inl hs⟩, hrow, hstatus, hbutton⟩
        · obtain ⟨hrow, hstatus, hid⟩ := mem_listActiveByIds.1 hx
          exact ⟨⟨u, hu, not_not.1 hactive, .inr (mem_listMenuIdsForUser.1 hid)⟩, hrow, hstatus, hbutton⟩

theorem row_of_listed (hx : x ∈ listed db userId) : db.rows .menus x.1 = some x.2 := by
  unfold listed at hx
  split at hx
  · cases hx
  · split at hx
    · cases hx
    · split at hx
      · exact (mem_listAllActive.1 hx).1
      · exact (mem_listActiveByIds.1 hx).1

def shownForest (menus : List (ℕ × Menu)) : Trees (ℕ × Menu) :=
  .grow (fun key ↦ (ordered menus key).filter fun x ↦ isRoutable (menuNode x)) Prod.fst (menus.length + 1) none

theorem getRouters_eq :
    getRouters upper db userId = render upper true ((shownForest (listed db userId)).map menuNode) := by
  rw [getRouters, buildRouters, toRouters_eq, aGetUserMenuTree_eq, assembleMenuForest, build_eq,
    Trees.keep_map, Trees.keep_grow]
  rfl

theorem parentOf_of_parentIn {i j : ℕ} (h : parentIn (listed db userId) i = some j) :
    parentOf db i = some j := by
  obtain ⟨x, hx, rfl, hp, _⟩ := parentIn_eq_some h
  rw [parentOf, row_of_listed hx]
  exact hp

section Tree

variable (hrooted : ∀ i, Rooted (parentOf db) i) (hbutton : NoButtonParent db)

theorem rooted_listed (hrooted : ∀ i, Rooted (parentOf db) i) (i : ℕ) :
    Rooted (parentIn (listed db userId)) i :=
  (hrooted i).of_le fun _ _ h ↦ parentOf_of_parentIn h

theorem mem_children {key : Option ℕ} :
    x ∈ ((ordered (listed db userId) key).filter fun x ↦ isRoutable (menuNode x)) ↔
      x ∈ ((listed db userId).filter fun x ↦ isRoutable (menuNode x)) ∧ parentIn (listed db userId) x.1 = key := by
  rw [List.mem_filter, List.mem_filter, mem_ordered_iff nodup_ids_listed]
  exact and_right_comm

include hbutton

theorem parent_shown {i j : ℕ} (h : parentIn (listed db userId) i = some j) :
    ∃ x ∈ (listed db userId).filter fun x ↦ isRoutable (menuNode x), x.1 = j := by
  have hparent := parentOf_of_parentIn h
  obtain ⟨_, _, _, _, y, hy, rfl⟩ := parentIn_eq_some h
  refine ⟨y, List.mem_filter.2 ⟨hy, ?_⟩, rfl⟩
  exact decide_eq_true (hbutton i y.1 y.2 hparent (row_of_listed hy))

/-- The menus at the top are those whose parent is not delivered. -/
theorem roots_shownForest : x ∈ (shownForest (listed db userId)).roots ↔
    Shown db userId x ∧ ∀ p m, x.2.parentId = some p → ¬ Shown db userId (p, m) := by
  rw [shownForest, Trees.roots_grow (Nat.succ_pos _), mem_children, ← shown_iff]
  refine and_congr_right fun hx ↦ ?_
  have hlisted := (List.mem_filter.1 (shown_iff.1 hx)).1
  rw [parentIn_of_mem nodup_ids_listed hlisted]
  constructor
  · intro h p m hp hs
    have hm := (List.mem_filter.1 (shown_iff.1 hs)).1
    rw [parentKey_eq_some.2 ⟨hp, (p, m), hm, rfl⟩] at h
    cases h
  · intro h
    cases hp : parentKey (listed db userId) x.2 with
    | none => rfl
    | some p =>
      obtain ⟨hparent, y, hy, rfl⟩ := parentKey_eq_some.1 hp
      have hin : parentIn (listed db userId) x.1 = some y.1 := by
        rw [parentIn_of_mem nodup_ids_listed hlisted, hp]
      obtain ⟨z, hz, hzy⟩ := parent_shown hbutton hin
      rw [← hzy] at hparent
      exact absurd (shown_iff.2 hz) (h z.1 z.2 hparent)

include hrooted

omit hbutton in
theorem climb_listed (i : ℕ) : ∃ n ≤ (listed db userId).length, ∃ r,
    climb (parentIn (listed db userId)) n i = some r ∧ parentIn (listed db userId) r = none := by
  obtain ⟨n, hn, r, hr, hroot⟩ := exists_climb_le (rooted_listed hrooted i) ((listed db userId).map Prod.fst)
    fun c _ hc ↦ by
      obtain ⟨j, hj⟩ := Option.ne_none_iff_exists'.1 hc
      obtain ⟨y, hy, hyc, _⟩ := parentIn_eq_some hj
      exact List.mem_map.2 ⟨y, hy, hyc⟩
  rw [List.length_map] at hn
  exact ⟨n, hn, r, hr, hroot⟩

theorem mem_shownForest : x ∈ (shownForest (listed db userId)).values ↔ Shown db userId x := by
  rw [shown_iff, shownForest, Trees.mem_grow (fun _ _ ↦ mem_children) fun _ _ h ↦ parent_shown hbutton h]
  refine and_iff_left_of_imp fun _ ↦ ?_
  obtain ⟨n, hn, r, hr, hroot⟩ := climb_listed hrooted x.1
  exact ⟨n, Nat.lt_succ_of_le hn, r, hr, hroot⟩

/-- On a menu hang the menus that have it as their parent. -/
theorem roots_of_mem_nodes {cs : Trees (ℕ × Menu)} {y : ℕ × Menu}
    (h : (x, cs) ∈ (shownForest (listed db userId)).nodes) :
    y ∈ cs.roots ↔ Shown db userId y ∧ y.2.parentId = some x.1 := by
  have hx : Shown db userId x := (mem_shownForest hrooted hbutton).1 (Trees.mem_values_of_mem_nodes h)
  have hlisted := (List.mem_filter.1 (shown_iff.1 hx)).1
  rw [Trees.roots_of_mem_nodes_grow (fun _ _ hc ↦ (mem_children.1 hc).2) (fun k b _ d i hd hi ↦ ?_) h,
    mem_children, ← shown_iff]
  · refine and_congr_right fun hy ↦ ?_
    rw [parentIn_of_mem nodup_ids_listed (List.mem_filter.1 (shown_iff.1 hy)).1, parentKey_eq_some]
    exact and_iff_left ⟨x, hlisted, rfl⟩
  · have hclimb : ∃ n ≤ (listed db userId).length, ∃ r, climb (parentIn (listed db userId)) n b.1 = some r ∧
        parentIn (listed db userId) r = none := climb_listed hrooted b.1
    obtain ⟨n, hn, r, hr, hroot⟩ := hclimb
    have hdn := climb_root_unique hd hi hr hroot
    omega

theorem nodup_shownForest : (shownForest (listed db userId)).values.Nodup := by
  have hids : ((listed db userId).map Prod.fst).Nodup := nodup_ids_listed
  refine Trees.nodup_grow (fun _ _ ↦ mem_children) (fun _ _ h ↦ parent_shown hbutton h)
    (fun _ ↦ (nodup_ordered (hids.of_map _)).filter _) (fun a ha b hb hab ↦ ?_) fun i _ ↦ rooted_listed hrooted i
  exact List.inj_on_of_nodup_map hids (List.mem_filter.1 ha).1 (List.mem_filter.1 hb).1 hab

end Tree

section Rendered

variable {node : MenuNode} {r : RouterVO} {rs : Trees RouterVO}

theorem titles_render :
    (render upper topLevel t).values.map (fun r ↦ r.meta.title) = t.values.map MenuNode.name := by
  induction t generalizing topLevel with
  | nil => rfl
  | cons node children rest ih ih' => simp [render, ih, ih', _toRouter, _meta]

theorem paths_render : (render upper topLevel t).roots.map RouterVO.path =
    t.roots.map fun node ↦ _routePath node.path topLevel := by
  induction t with
  | nil => rfl
  | cons node children rest _ ih => simp [render, ih, _toRouter]

theorem mem_nodes_render (h : (r, rs) ∈ (render upper topLevel t).nodes) :
    ∃ node cs, (node, cs) ∈ t.nodes ∧ rs = render upper false cs ∧ ∃ top, r = _toRouter upper node top rs := by
  induction t generalizing topLevel with
  | nil => cases h
  | cons node children rest ih ih' =>
    rcases List.mem_cons.1 h with h | h
    · cases h
      exact ⟨node, children, List.mem_cons_self, rfl, topLevel, rfl⟩
    · rcases List.mem_append.1 h with h | h
      · obtain ⟨n, cs, hn, hr⟩ := ih h
        exact ⟨n, cs, List.mem_cons_of_mem _ (List.mem_append_left _ hn), hr⟩
      · obtain ⟨n, cs, hn, hr⟩ := ih' h
        exact ⟨n, cs, List.mem_cons_of_mem _ (List.mem_append_right _ hn), hr⟩

end Rendered

/-- A node of the payload is the menu `x`: it has its title, its path and its visibility, and on it hang, in
order, the nodes of the menus that hang on `x`, at their own paths. -/
structure Carries (r : RouterVO) (rs : Trees RouterVO) (x : ℕ × Menu) (cs : Trees (ℕ × Menu)) : Prop where
  title : r.meta.title = x.2.name
  path : ∃ top, r.path = _routePath x.2.path top
  hidden : r.hidden = !x.2.visible
  titles : rs.values.map (fun r ↦ r.meta.title) = cs.values.map fun y ↦ y.2.name
  paths : rs.roots.map RouterVO.path = cs.roots.map fun y ↦ y.2.path

theorem routePath_nested (path : String) : _routePath path false = path := by
  unfold _routePath
  split
  · rfl
  · rfl

theorem carries_of_mem {menus : Trees (ℕ × Menu)} {r : RouterVO} {rs : Trees RouterVO}
    (h : (r, rs) ∈ (render upper true (menus.map menuNode)).nodes) :
    ∃ x cs, (x, cs) ∈ menus.nodes ∧ Carries r rs x cs := by
  obtain ⟨node, ns, hn, rfl, top, rfl⟩ := mem_nodes_render h
  obtain ⟨x, cs, hx, rfl, rfl⟩ := Trees.mem_nodes_map hn
  refine ⟨x, cs, hx, rfl, ⟨top, rfl⟩, rfl, ?_, ?_⟩
  · rw [titles_render, Trees.values_map, List.map_map]
    rfl
  · rw [paths_render, Trees.roots_map, List.map_map]
    exact List.map_congr_left fun y _ ↦ routePath_nested y.2.path

/-- Every menu that a user is to get is delivered exactly once, and nothing else is: at the top where its
parent is not delivered, else under its parent. -/
theorem getRouters_exact (hrooted : ∀ i, Rooted (parentOf db) i) (hbutton : NoButtonParent db) :
    (∃ menus : Trees (ℕ × Menu), getRouters upper db userId = render upper true (menus.map menuNode) ∧
      menus.values.Nodup ∧ (∀ x, x ∈ menus.values ↔ Shown db userId x) ∧
      (∀ x, x ∈ menus.roots ↔ Shown db userId x ∧ ∀ p m, x.2.parentId = some p → ¬ Shown db userId (p, m)) ∧
      (∀ x cs, (x, cs) ∈ menus.nodes →
        ∀ y, y ∈ cs.roots ↔ Shown db userId y ∧ y.2.parentId = some x.1) ∧
      (getRouters upper db userId).values.map (fun r ↦ r.meta.title) = menus.values.map (fun x ↦ x.2.name) ∧
      ∀ r rs, (r, rs) ∈ (getRouters upper db userId).nodes → ∃ x cs, (x, cs) ∈ menus.nodes ∧ Carries r rs x cs) ∧
    ((¬ ∃ u : User, db.rows .users userId = some u ∧ u.status = .active) →
      getRouters upper db userId = .nil) := by
  refine ⟨⟨shownForest (listed db userId), getRouters_eq, nodup_shownForest hrooted hbutton,
    fun x ↦ mem_shownForest hrooted hbutton, fun x ↦ roots_shownForest hbutton,
    fun x cs h y ↦ roots_of_mem_nodes hrooted hbutton h, ?_, fun r rs h ↦ ?_⟩, fun h ↦ ?_⟩
  · rw [getRouters_eq, titles_render, Trees.values_map, List.map_map]
    rfl
  · rw [getRouters_eq] at h
    exact carries_of_mem h
  · have hlisted : listed db userId = [] := by
      unfold listed
      cases hu : db.rows .users userId with
      | none => rfl
      | some u => exact if_pos fun hactive ↦ h ⟨u, hu, hactive⟩
    rw [getRouters, aGetUserMenuTree_eq, hlisted, assemble_nil]
    rfl

def menuRow (parentId : Option ℕ) (name path : String) (menuType : MenuType) : Menu where
  parentId := parentId
  name := name
  menuType := menuType
  path := path
  component := none
  perms := none
  icon := ""
  sortOrder := 0
  visible := true
  status := .active
  seedKey := none

def admin : User := ⟨"admin", ⟨"p", 0⟩, "", .active, true, none⟩

def oneBranch : Db := Store.empty.apply
  [⟨.users, 0, some admin⟩, ⟨.menus, 0, some (menuRow none "系统" "/system" .directory)⟩,
   ⟨.menus, 1, some (menuRow (some 0) "用户" "user" .menu)⟩, ⟨.menus, 2, some (menuRow (some 1) "新增" "" .button)⟩]

theorem rows_oneBranch {i : ℕ} {m : Menu} (h : oneBranch.rows .menus i = some m) :
    (i = 0 ∧ m = menuRow none "系统" "/system" .directory) ∨ (i = 1 ∧ m = menuRow (some 0) "用户" "user" .menu) ∨
      (i = 2 ∧ m = menuRow (some 1) "新增" "" .button) := by
  have hk : i ∈ [0, 1, 2] := oneBranch.complete .menus i m h
  simp only [List.mem_cons, List.not_mem_nil, or_false] at hk
  rcases hk with rfl | rfl | rfl
  · exact .inl ⟨rfl, (Option.some.inj h).symm⟩
  · exact .inr (.inl ⟨rfl, (Option.some.inj h).symm⟩)
  · exact .inr (.inr ⟨rfl, (Option.some.inj h).symm⟩)

theorem rooted_oneBranch (i : ℕ) : Rooted (parentOf oneBranch) i := by
  have h0 : Rooted (parentOf oneBranch) 0 := rooted_of_none rfl
  have h1 : Rooted (parentOf oneBranch) 1 := rooted_of_parent rfl h0
  cases hp : parentOf oneBranch i with
  | none => exact rooted_of_none hp
  | some p =>
    obtain ⟨m, hm, hmp⟩ := Option.bind_eq_some_iff.1 hp
    refine rooted_of_parent hp ?_
    rcases rows_oneBranch hm with ⟨rfl, rfl⟩ | ⟨rfl, rfl⟩ | ⟨rfl, rfl⟩
    · cases hmp
    · cases hmp
      exact h0
    · cases hmp
      exact h1

theorem noButtonParent_oneBranch : NoButtonParent oneBranch := by
  intro i p m hp hm hbutton
  obtain ⟨c, hc, hcp⟩ := Option.bind_eq_some_iff.1 hp
  rcases rows_oneBranch hc with ⟨rfl, rfl⟩ | ⟨rfl, rfl⟩ | ⟨rfl, rfl⟩
  · cases hcp
  · cases hcp
    cases hm
    cases hbutton
  · cases hcp
    cases hm
    cases hbutton

theorem getRouters_exact_oneBranch : ∃ menus : Trees (ℕ × Menu),
    getRouters (fun c ↦ toString c.toUpper) oneBranch 0 =
      render (fun c ↦ toString c.toUpper) true (menus.map menuNode) ∧ menus.values.Nodup ∧
    (1, menuRow (some 0) "用户" "user" .menu) ∈ menus.values := by
  obtain ⟨⟨menus, hp, hn, hm, -⟩, -⟩ := @getRouters_exact (fun c ↦ toString c.toUpper) oneBranch 0 rooted_oneBranch
    noButtonParent_oneBranch
  refine ⟨menus, hp, hn, (hm _).2 ⟨⟨admin, rfl, rfl, .inl rfl⟩, rfl, rfl, ?_⟩⟩
  intro h
  cases h

end AdminPlatform.Menu.Routers
