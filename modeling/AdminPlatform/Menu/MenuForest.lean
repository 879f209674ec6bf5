import AdminPlatform.Menu.Provider

namespace AdminPlatform.Menu.MenuForest

open Model.Schema Foundation.Ordering Foundation.RoseTree Foundation.Forest Provider

def Before (x y : ℕ × Menu) : Prop :=
  x.2.sortOrder < y.2.sortOrder ∨ x.2.sortOrder = y.2.sortOrder ∧ x.1 < y.1

/-- The menus whose chain of parents comes to an end are there once, each under its parent if that
is in the list and at the top otherwise, and siblings are in order. -/
structure Exact (menus : List (ℕ × Menu)) (forest : Trees (ℕ × Menu)) : Prop where
  nodup : forest.values.Nodup
  values : ∀ x, x ∈ forest.values ↔ x ∈ menus ∧ Rooted (parentIn menus) x.1
  roots : ∀ x, x ∈ forest.roots ↔ x ∈ menus ∧ ∀ p, x.2.parentId = some p → p ∉ menus.map Prod.fst
  children : ∀ x cs, (x, cs) ∈ forest.nodes → ∀ y, y ∈ cs.roots ↔ y ∈ menus ∧ y.2.parentId = some x.1
  top_sorted : forest.roots.Pairwise Before
  sorted : ∀ x cs, (x, cs) ∈ forest.nodes → cs.roots.Pairwise Before

/-- A call of `build` and the calls it makes. -/
def Calls (menus : List (ℕ × Menu)) (inner outer : Option ℕ) : Prop := ∃ x ∈ ordered menus outer, inner = some x.1

def menuForest (menus : List (ℕ × Menu)) : Trees (ℕ × Menu) :=
    .grow (ordered menus) Prod.fst (menus.length + 1) none

variable {menus : List (ℕ × Menu)} {x y : ℕ × Menu} {key : Option ℕ} {n i r : ℕ} {cs : Trees (ℕ × Menu)}

theorem isLE_menuOrder : (menuOrder.cmp x y).isLE = true ↔
    x.2.sortOrder < y.2.sortOrder ∨ x.2.sortOrder = y.2.sortOrder ∧ x.1 ≤ y.1 := by
  rw [menuOrder, isLE_pair, isLE_asc, isLE_asc]
  have hlt : (asc fun z : ℕ × Menu ↦ z.2.sortOrder).cmp x y = .lt ↔ x.2.sortOrder < y.2.sortOrder :=
    Std.compare_eq_lt
  rw [hlt]
  omega

theorem parentKey_eq_none {m : Menu} : parentKey menus m = none ↔
    ∀ p, m.parentId = some p → p ∉ menus.map Prod.fst := by
  rw [Option.eq_none_iff_forall_ne_some]
  constructor
  · intro h p hp hmem
    obtain ⟨z, hz, hzp⟩ := List.mem_map.1 hmem
    exact h p (parentKey_eq_some.2 ⟨hp, z, hz, hzp⟩)
  · intro h p hp
    obtain ⟨hparent, z, hz, hzp⟩ := parentKey_eq_some.1 hp
    exact h p hparent (List.mem_map.2 ⟨z, hz, hzp⟩)

theorem exists_of_parentIn {j : ℕ} (h : parentIn menus i = some j) : ∃ z ∈ menus, z.1 = j :=
  let ⟨_, _, _, _, hz⟩ := parentIn_eq_some h
  hz

/-- A chain of parents that comes to an end has no more links than the list has menus. -/
theorem chain_le (h : climb (parentIn menus) n i = some r) (hr : parentIn menus r = none) : n ≤ menus.length := by
  obtain ⟨m, hm, r', hr', hroot⟩ := exists_climb_le (rooted_of_climb h hr) (menus.map Prod.fst) fun c _ hc ↦ by
    obtain ⟨j, hj⟩ := Option.ne_none_iff_exists'.1 hc
    obtain ⟨z, hz, hzc, _⟩ := parentIn_eq_some hj
    exact List.mem_map.2 ⟨z, hz, hzc⟩
  rw [List.length_map] at hm
  by_contra hlt
  obtain ⟨d, rfl⟩ : ∃ d, n = m + (d + 1) := ⟨n - m - 1, by omega⟩
  rw [climb_add, hr', Option.bind_some, climb_succ, hroot] at h
  cases h

theorem no_chain (h : menus.length < n) (hi : climb (parentIn menus) n x.1 = some i) :
    parentIn menus i ≠ none := by
  intro hroot
  have := chain_le hi hroot
  omega

theorem ordered_key (hn : (menus.map Prod.fst).Nodup) (hx : x ∈ ordered menus key) : parentIn menus x.1 = key :=
  ((mem_ordered_iff hn).1 hx).2

section Distinct

variable (hn : (menus.map Prod.fst).Nodup)
include hn

theorem sorted_ordered : (ordered menus key).Pairwise Before := by
  have hdistinct : (ordered menus key).Pairwise fun x y ↦ x ≠ y := nodup_ordered (hn.of_map _)
  refine ((arranged_sort _ _).sorted.and hdistinct).imp_of_mem fun {x y} hx hy ⟨hle, hne⟩ ↦ ?_
  have hid : x.1 ≠ y.1 := fun h ↦ hne (List.inj_on_of_nodup_map hn (mem_ordered.1 hx).1 (mem_ordered.1 hy).1 h)
  rcases isLE_menuOrder.1 hle with h | ⟨h, hxy⟩
  · exact .inl h
  · exact .inr ⟨h, by omega⟩

/-- A node that hangs deep enough to be cut off would end a chain longer than the list. -/
theorem roots_below (h : (x, cs) ∈ (menuForest menus).nodes) : cs.roots = ordered menus (some x.1) := by
  obtain ⟨d, m, hd, rfl, r, hr, hroot⟩ := Trees.mem_nodes_grow (fun _ _ h ↦ ordered_key hn h) h
  cases m with
  | succ m => exact Trees.roots_grow (Nat.succ_pos m)
  | zero =>
    have hnil : ordered menus (some x.1) = [] := by
      refine List.eq_nil_iff_forall_not_mem.2 fun y hy ↦ ?_
      have hclimb : climb (parentIn menus) (d + 1) y.1 = some r := by
        rw [climb_succ, ordered_key hn hy, Option.bind_some, hr]
      have := chain_le hclimb hroot
      omega
    rw [hnil]
    rfl

theorem mem_of_node (h : (x, cs) ∈ (menuForest menus).nodes) : x ∈ menus := by
  have hx := Trees.mem_values_of_mem_nodes h
  exact ((Trees.mem_grow (fun _ _ ↦ mem_ordered_iff hn) fun _ _ h ↦ exists_of_parentIn h).1 hx).1

theorem exact_menuForest : Exact menus (menuForest menus) where
  nodup := Trees.nodup_grow (fun _ _ ↦ mem_ordered_iff hn) (fun _ _ h ↦ exists_of_parentIn h)
    (fun _ ↦ nodup_ordered (hn.of_map _)) (fun _ ha _ hb hab ↦ List.inj_on_of_nodup_map hn ha hb hab)
    fun _ h ↦ nomatch h
  values := by
    intro x
    rw [menuForest, Trees.mem_grow (fun _ _ ↦ mem_ordered_iff hn) fun _ _ h ↦ exists_of_parentIn h]
    refine and_congr_right fun _ ↦ ⟨fun ⟨m, _, r, hr, hroot⟩ ↦ rooted_of_climb hr hroot, fun h ↦ ?_⟩
    obtain ⟨m, r, hr, hroot⟩ := h.climb
    exact ⟨m, Nat.lt_succ_of_le (chain_le hr hroot), r, hr, hroot⟩
  roots := by
    intro x
    rw [menuForest, Trees.roots_grow (Nat.succ_pos _), mem_ordered, parentKey_eq_none]
  children := by
    intro x cs h y
    have hx : ∃ z ∈ menus, z.1 = x.1 := ⟨x, mem_of_node hn h, rfl⟩
    rw [roots_below hn h, mem_ordered, parentKey_eq_some]
    simp only [hx, and_true]
  top_sorted := by
    rw [menuForest, Trees.roots_grow (Nat.succ_pos _)]
    exact sorted_ordered hn
  sorted := by
    intro x cs h
    rw [roots_below hn h]
    exact sorted_ordered hn

theorem build_of_le (h : menus.length < n) : build menus n none = assembleMenuForest menus := by
  induction n, h using Nat.le_induction with
  | base => rfl
  | succ n h ih =>
    rw [← ih, build_eq, build_eq, Trees.grow_succ (fun _ _ h ↦ ordered_key hn h)]
    exact fun _ _ _ _ hi ↦ no_chain h hi

theorem acc_build : Acc (Calls menus) none :=
  Trees.acc_grow (n := menus.length + 1) (fun _ _ h ↦ ordered_key hn h)
    fun _ _ _ _ hi ↦ no_chain (Nat.lt_succ_self _) hi

end Distinct

def page (parentId : Option ℕ) : Menu where
  parentId := parentId
  name := "page"
  menuType := .menu
  path := "page"
  component := none
  perms := none
  icon := ""
  sortOrder := 0
  visible := true
  status := .active
  seedKey := none

/-- A child listed before its parent, one whose parent is missing, and two that are each other's parents. -/
def pages : List (ℕ × Menu) :=
  [(2, page (some 1)), (1, page none), (3, page (some 9)), (4, page (some 5)), (5, page (some 4))]

end AdminPlatform.Menu.MenuForest
