import AdminPlatform.Frontend.Tree
import AdminPlatform.Listing.Pages
import AdminPlatform.RbacBinding.Service
import AdminPlatform.Menu.Service
import AdminPlatform.Dept.TreeInvariant

namespace AdminPlatform.Frontend.RoleDialogs

open Model.Schema Model.Scope Foundation.Relational Foundation.Query Foundation.Ordering
open Foundation.Forest Listing.Repositories Listing.Pages RbacBinding.Service Frontend.Tree

variable (db : Db) (scope : Option DataScope) (roleId : ℕ)

def menuItems : List TreeNodeLike :=
  (page 1 100 (sort (lexicographic (MenuRepository.listing db).order) (MenuRepository.listing db).rows)).map
    fun x ↦ ⟨x.1, x.2.parentId⟩

def deptItems : List TreeNodeLike :=
  (page 1 100 (sort (lexicographic (DeptRepository.listing db scope).order)
    (DeptRepository.listing db scope).rows)).map fun x ↦ ⟨x.1, x.2.parentId⟩

def submit (checks : Checks) : List ℕ := checks.checkedKeys ++ checks.halfCheckedKeys

/-- `RoleMenuDialog` has been opened, and the tree answers with `checks`. -/
def MenuDialog (checks : Checks) : Prop :=
  Cascades (buildTree (menuItems db)) (roleMenus.targets db roleId) checks

def DeptDialog (checks : Checks) : Prop :=
  Cascades (buildTree (deptItems db scope)) (roleDepts.targets db roleId) checks

/-- All bound ids are loaded, and a loaded node is bound if and only if the node it hangs on is. -/
def WholeTrees (items : List TreeNodeLike) (bound : List ℕ) : Prop :=
  (∀ k ∈ bound, k ∈ items.map TreeNodeLike.id) ∧
    ∀ n p, parent items n = some p → (n ∈ bound ↔ p ∈ bound)

variable {db scope roleId} {R : Type} {rows : List (ℕ × R)} {source : ℕ → Option ℕ} {xs : List (ℕ × R)}

/-- A page of a table whose tree has no cycle has distinct nodes and no cycle. -/
theorem page_rooted {items : List TreeNodeLike} {n size : ℕ} (parentId : R → Option ℕ)
    (hitems : items = (page n size xs).map fun x ↦ ⟨x.1, parentId x.2⟩) (hxs : xs.Nodup)
    (hrow : ∀ x ∈ xs, ∀ y ∈ xs, x.1 = y.1 → x = y)
    (hp : ∀ x ∈ xs, parentId x.2 = source x.1) (hr : ∀ i, Rooted source i) :
    (items.map TreeNodeLike.id).Nodup ∧ ∀ i, Rooted (parent items) i := by
  have hsub : (page n size xs).Sublist xs := (List.take_sublist _ _).trans (List.drop_sublist _ _)
  have hid : items.map TreeNodeLike.id = (page n size xs).map Prod.fst := by
    rw [hitems, List.map_map]
    rfl
  have hn : (items.map TreeNodeLike.id).Nodup := by
    rw [hid]
    exact (hxs.sublist hsub).map_on fun x hx y hy hxy ↦ hrow x (hsub.subset hx) y (hsub.subset hy) hxy
  refine ⟨hn, fun i ↦ ?_⟩
  refine (hr i).of_le fun a b hab ↦ ?_
  obtain ⟨item, hitem, rfl, hb, -⟩ := (parent_iff hn).1 hab
  rw [hitems] at hitem
  obtain ⟨x, hx, rfl⟩ := List.mem_map.1 hitem
  rw [← hp x (hsub.subset hx)]
  exact hb

theorem stored_ext {s : Store Table Row} {t : Table} {conds : List (ℕ × Row t → Bool)}
    {e : SortExpr (ℕ × Row t)} {x y : ℕ × Row t} (hx : x ∈ sort e (selectWhere s t conds))
    (hy : y ∈ sort e (selectWhere s t conds)) (hxy : x.1 = y.1) : x = y := by
  have hx' := (mem_selectWhere.1 ((arranged_sort e _).mem_iff.1 hx)).1
  have hy' := (mem_selectWhere.1 ((arranged_sort e _).mem_iff.1 hy)).1
  rw [hxy, hy', Option.some.injEq] at hx'
  exact Prod.ext hxy hx'.symm

theorem nodup_sort {e : SortExpr (ℕ × R)} (h : rows.Nodup) : (sort e rows).Nodup :=
  (arranged_sort e rows).perm.nodup_iff.2 h

theorem menuItems_rooted (h : ∀ i, Rooted (Menu.Service.parentOf db) i) :
    ((menuItems db).map TreeNodeLike.id).Nodup ∧ ∀ i, Rooted (parent (menuItems db)) i := by
  refine page_rooted Menu.parentId rfl (nodup_sort nodup_selectWhere) (fun x hx y hy hxy ↦ stored_ext hx hy hxy)
    (fun x hx ↦ ?_) h
  have hx' := (mem_selectWhere.1 ((arranged_sort _ _).mem_iff.1 hx)).1
  rw [Menu.Service.parentOf, hx']
  rfl

theorem deptItems_rooted (h : ∀ i, Rooted (Dept.TreeInvariant.parentOf db) i) :
    ((deptItems db scope).map TreeNodeLike.id).Nodup ∧ ∀ i, Rooted (parent (deptItems db scope)) i := by
  refine page_rooted Dept.parentId rfl (nodup_sort nodup_selectWhere) (fun x hx y hy hxy ↦ stored_ext hx hy hxy)
    (fun x hx ↦ ?_) h
  have hx' := (mem_selectWhere.1 ((arranged_sort _ _).mem_iff.1 hx)).1
  rw [Dept.TreeInvariant.parentOf, hx']
  rfl

theorem dialogs_unchanged_iff (db : Db) (scope : Option DataScope) (roleId : ℕ)
    (hmenus : ∀ i, Rooted (Menu.Service.parentOf db) i)
    (hdepts : ∀ i, Rooted (Dept.TreeInvariant.parentOf db) i) (menuChecks deptChecks : Checks)
    (hm : MenuDialog db roleId menuChecks) (hd : DeptDialog db scope roleId deptChecks) :
    ((∀ n, n ∈ submit menuChecks ↔ n ∈ roleMenus.targets db roleId) ↔
        WholeTrees (menuItems db) (roleMenus.targets db roleId)) ∧
      ((∀ n, n ∈ submit deptChecks ↔ n ∈ roleDepts.targets db roleId) ↔
        WholeTrees (deptItems db scope) (roleDepts.targets db roleId)) := by
  obtain ⟨hn, hr⟩ := menuItems_rooted hmenus
  obtain ⟨hn', hr'⟩ := @deptItems_rooted _ scope hdepts
  exact ⟨marked_eq_iff hn hr hm, marked_eq_iff hn' hr' hd⟩

def star : List TreeNodeLike := [⟨1, none⟩, ⟨2, some 1⟩, ⟨3, some 1⟩]

def starMenu (code : ℕ) (parentId : Option ℕ) : Write Row :=
  ⟨.menus, code, some ⟨parentId, "menu", .directory, "", none, none, "", 0, true, .active, none⟩⟩

def starDept (code : ℕ) (parentId : Option ℕ) : Write Row :=
  ⟨.depts, code, some ⟨parentId, "dept", "code", 0, .active, none, none, none⟩⟩

def starDb (bound : List ℕ) : Db := Store.empty.apply
  (star.map (fun x ↦ starMenu x.id x.parentId) ++ star.map (fun x ↦ starDept x.id x.parentId) ++
    bound.map (fun i ↦ ⟨.roleMenus, i, some ⟨1, i⟩⟩) ++ bound.map fun i ↦ ⟨.roleDepts, i, some ⟨1, i⟩⟩)

theorem parent_star {n p : ℕ} (h : parent star n = some p) : (n = 2 ∨ n = 3) ∧ p = 1 := by
  obtain ⟨x, hx, rfl, hp, -⟩ := (parent_iff (by decide)).1 h
  simp only [star, List.mem_cons, List.not_mem_nil, or_false] at hx
  rcases hx with rfl | rfl | rfl
  · cases hp
  · cases hp
    exact ⟨.inl rfl, rfl⟩
  · cases hp
    exact ⟨.inr rfl, rfl⟩

theorem star_rooted (f : ℕ → Option ℕ) (h : ∀ n p, f n = some p → (n = 2 ∨ n = 3) ∧ p = 1) (i : ℕ) :
    Rooted f i := by
  have h₁ : f 1 = none := by
    refine Option.eq_none_iff_forall_ne_some.2 fun p hp ↦ ?_
    have hn := (h 1 p hp).1
    omega
  cases hi : f i with
  | none => exact rooted_of_none hi
  | some p =>
    refine rooted_of_parent hi ?_
    rw [(h i p hi).2]
    exact rooted_of_none h₁

/-- The key of the root checks every node. -/
theorem cascades_star {keys : List ℕ} (h : 1 ∈ keys) :
    Cascades (buildTree star) keys ⟨[1, 2, 3], []⟩ := by
  have hn : (star.map TreeNodeLike.id).Nodup := by decide
  have hr := star_rooted (parent star) fun _ _ ↦ parent_star
  have hin : ∀ n, InTree (buildTree star) n ↔ n = 1 ∨ n = 2 ∨ n = 3 := by
    intro n
    rw [inTree_iff hn hr]
    simp [star]
  have hbelow : ∀ n, InTree (buildTree star) n → Within (buildTree star) n 1 := by
    intro n hn'
    rw [within_iff hn]
    rcases (hin n).1 hn' with rfl | rfl | rfl
    · exact .refl
    · exact .single (by decide)
    · exact .single (by decide)
  refine ⟨fun n hn' _ ↦ ?_, fun n hn' _ ↦ ?_, fun n hn' ↦ ?_, fun n hn' ↦ ?_, fun n hn' ↦ nomatch hn'⟩
  · exact iff_of_true (by simpa using (hin n).1 hn') ⟨1, h, (hin 1).2 (.inl rfl), hbelow n hn'⟩
  · refine iff_of_true (by simpa using (hin n).1 hn') fun m hm ↦ ?_
    have hm' := (hin m).1 (.child hn' hm)
    simpa using hm'
  · have hc : n ∈ [1, 2, 3] := by simpa using (hin n).1 hn'
    exact iff_of_false (List.not_mem_nil) fun hx ↦ hx.1 hc
  · exact (hin n).2 (by simpa using hn')


/-- What the dialogs load of these tables. -/
theorem loaded_star {bound : List ℕ} (h : bound = [1, 2] ∨ bound = [1, 2, 3]) :
    menuItems (starDb bound) = star ∧ deptItems (starDb bound) none = star ∧
      roleMenus.targets (starDb bound) 1 = bound ∧ roleDepts.targets (starDb bound) 1 = bound := by
  rcases h with rfl | rfl
  all_goals
    refine ⟨?_, ?_, ?_, ?_⟩
    · rw [menuItems, sort_of_pairwise (by decide)]
      decide
    · rw [deptItems, sort_of_pairwise (by decide)]
      decide
    · rw [LinkTable.targets, List.mergeSort_of_pairwise (by decide)]
      decide
    · rw [LinkTable.targets, List.mergeSort_of_pairwise (by decide)]
      decide

theorem rooted_starDb {bound : List ℕ} (h : bound = [1, 2] ∨ bound = [1, 2, 3]) (i : ℕ) :
    Rooted (Menu.Service.parentOf (starDb bound)) i ∧ Rooted (Dept.TreeInvariant.parentOf (starDb bound)) i := by
  rcases h with rfl | rfl
  all_goals
    refine ⟨star_rooted _ (fun n p hp ↦ ?_) i, star_rooted _ (fun n p hp ↦ ?_) i⟩
    · obtain ⟨m, hm, -⟩ := Option.bind_eq_some_iff.1 hp
      have hn : n ∈ [1, 2, 3] := (starDb _).complete .menus n m hm
      simp only [List.mem_cons, List.not_mem_nil, or_false] at hn
      rcases hn with rfl | rfl | rfl
      · cases hp
      · exact ⟨.inl rfl, (Option.some.inj hp).symm⟩
      · exact ⟨.inr rfl, (Option.some.inj hp).symm⟩
    · obtain ⟨m, hm, -⟩ := Option.bind_eq_some_iff.1 hp
      have hn : n ∈ [1, 2, 3] := (starDb _).complete .depts n m hm
      simp only [List.mem_cons, List.not_mem_nil, or_false] at hn
      rcases hn with rfl | rfl | rfl
      · cases hp
      · exact ⟨.inl rfl, (Option.some.inj hp).symm⟩
      · exact ⟨.inr rfl, (Option.some.inj hp).symm⟩

theorem dialogs_star {bound : List ℕ} (h : bound = [1, 2] ∨ bound = [1, 2, 3]) :
    MenuDialog (starDb bound) 1 ⟨[1, 2, 3], []⟩ ∧ DeptDialog (starDb bound) none 1 ⟨[1, 2, 3], []⟩ := by
  obtain ⟨hm, hd, htm, htd⟩ := loaded_star h
  have hone : 1 ∈ bound := by
    rcases h with rfl | rfl <;> decide
  rw [MenuDialog, DeptDialog, hm, hd, htm, htd]
  exact ⟨cascades_star hone, cascades_star hone⟩

theorem dialogs_unchanged_iff_star :
    (∀ n, n ∈ submit ⟨[1, 2, 3], []⟩ ↔ n ∈ roleMenus.targets (starDb [1, 2, 3]) 1) ↔
      WholeTrees (menuItems (starDb [1, 2, 3])) (roleMenus.targets (starDb [1, 2, 3]) 1) :=
  (dialogs_unchanged_iff (starDb [1, 2, 3]) none 1 (fun i ↦ (rooted_starDb (.inr rfl) i).1)
    (fun i ↦ (rooted_starDb (.inr rfl) i).2) ⟨[1, 2, 3], []⟩ ⟨[1, 2, 3], []⟩ (dialogs_star (.inr rfl)).1
    (dialogs_star (.inr rfl)).2).1

/-- The root and one child are bound, and the other child is sent with them. -/
theorem not_dialogs_unchanged_star :
    (∀ i, Rooted (Menu.Service.parentOf (starDb [1, 2])) i) ∧
      (∀ i, Rooted (Dept.TreeInvariant.parentOf (starDb [1, 2])) i) ∧
      MenuDialog (starDb [1, 2]) 1 ⟨[1, 2, 3], []⟩ ∧ DeptDialog (starDb [1, 2]) none 1 ⟨[1, 2, 3], []⟩ ∧
      ¬ (∀ n, n ∈ submit ⟨[1, 2, 3], []⟩ ↔ n ∈ roleMenus.targets (starDb [1, 2]) 1) ∧
      ¬ (∀ n, n ∈ submit ⟨[1, 2, 3], []⟩ ↔ n ∈ roleDepts.targets (starDb [1, 2]) 1) := by
  obtain ⟨-, -, htm, htd⟩ := loaded_star (.inl rfl)
  obtain ⟨hm, hd⟩ := dialogs_star (.inl rfl)
  rw [htm, htd]
  refine ⟨fun i ↦ (rooted_starDb (.inl rfl) i).1, fun i ↦ (rooted_starDb (.inl rfl) i).2, hm, hd, ?_, ?_⟩
  · intro h
    exact absurd ((h 3).1 (by decide)) (by decide)
  · intro h
    exact absurd ((h 3).1 (by decide)) (by decide)

end AdminPlatform.Frontend.RoleDialogs
