import AdminPlatform.Foundation.ParentChains
import AdminPlatform.Foundation.Ordering
import AdminPlatform.Dept.TreeSystem

namespace AdminPlatform.Dept.Breadcrumbs

open Model.Schema Model.Service Foundation.Relational Foundation.Forest Foundation.ParentChains
open Foundation.Ordering Service DeptRepository TreeInvariant TreeSystem

variable {db : Db} {a b i depth n : ℕ} {d : Dept} {l : List ℕ}

/-- A row of `dept_ancestors`. -/
structure AncestorRow where
  id : ℕ
  parentId : Option ℕ
  depth : ℕ
  deriving DecidableEq

def parentRows (db : Db) (t : AncestorRow) : List AncestorRow :=
  if t.depth < _MAX_DEPT_DEPTH then
    (db.select .depts fun i (_ : Dept) ↦ decide (some i = t.parentId)).map
      fun x ↦ ⟨x.1, x.2.parentId, t.depth + 1⟩
  else []

def ancestorTree (db : Db) (deptId : ℕ) : List AncestorRow :=
  levels (parentRows db) _MAX_DEPT_DEPTH
    ((db.select .depts fun i (_ : Dept) ↦ decide (i = deptId)).map fun x ↦ ⟨x.1, x.2.parentId, 0⟩)

def ancestorDeptIds (db : Db) (deptId : ℕ) : List ℕ :=
  (sort (desc AncestorRow.depth) ((ancestorTree db deptId).filter fun t ↦ decide (t.id ≠ deptId))).map
    AncestorRow.id

theorem parentRows_root (h : parentOf db i = none) : parentRows db ⟨i, parentOf db i, depth⟩ = [] := by
  unfold parentRows
  split
  · have hnone : (db.select .depts fun j (_ : Dept) ↦ decide (some j = parentOf db i)) = [] := by
      refine List.eq_nil_iff_forall_not_mem.2 fun x hx ↦ ?_
      have := (mem_select.1 hx).2
      simp [h] at this
    rw [hnone, List.map_nil]
  · rfl

theorem parentRows_link (h : parentOf db i = some a) (hd : db.rows .depts a = some d)
    (hdepth : depth < _MAX_DEPT_DEPTH) :
    parentRows db ⟨i, parentOf db i, depth⟩ = [⟨a, parentOf db a, depth + 1⟩] := by
  have hkey : (db.select .depts fun j (_ : Dept) ↦ decide (some j = some a)) = [(a, d)] := by
    simpa only [Option.some.injEq] using select_key hd
  have hparent : parentOf db a = d.parentId := by rw [parentOf, hd, Option.bind_some]
  rw [parentRows, if_pos hdepth, h, hkey, hparent]
  rfl

def chainRows (db : Db) : ℕ → List ℕ → List AncestorRow
  | _, [] => []
  | depth, i :: l => ⟨i, parentOf db i, depth⟩ :: chainRows db (depth + 1) l

theorem ids_chainRows : (chainRows db depth l).map AncestorRow.id = l := by
  induction l generalizing depth with
  | nil => rfl
  | cons i l ih => rw [chainRows, List.map_cons, ih]

theorem depths_chainRows : (chainRows db depth l).map AncestorRow.depth = List.range' depth l.length := by
  induction l generalizing depth with
  | nil => rfl
  | cons i l ih =>
    rw [chainRows, List.map_cons, ih]
    rfl

theorem levels_parentRows (h : Chain (parentOf db) i l) (hl : ∀ a ∈ l, (db.rows .depts a).isSome)
    (hn : depth + n = _MAX_DEPT_DEPTH) :
    levels (parentRows db) n [⟨i, parentOf db i, depth⟩] = chainRows db depth (i :: l.take n) := by
  induction h generalizing depth n with
  | @root i hp =>
    cases n with
    | zero => rfl
    | succ n => simp [levels, parentRows_root hp, levels_nil, chainRows]
  | @link i a l hp h ih =>
    cases n with
    | zero => rfl
    | succ n =>
      obtain ⟨d, hd⟩ := Option.isSome_iff_exists.1 (hl a List.mem_cons_self)
      have hnext : levels (parentRows db) n [⟨a, parentOf db a, depth + 1⟩] =
          chainRows db (depth + 1) (a :: l.take n) :=
        ih (fun c hc ↦ hl c (List.mem_cons_of_mem _ hc)) (by omega)
      rw [levels, List.flatMap_singleton, parentRows_link hp hd (by omega), hnext]
      rfl

/-- The ancestors are those of the parent chain that the bound leaves, from the root down. -/
theorem ancestorDeptIds_eq (hb : (db.rows .depts b).isSome) (h : Chain (parentOf db) b l)
    (hl : ∀ a ∈ l, (db.rows .depts a).isSome) :
    ancestorDeptIds db b = (l.take _MAX_DEPT_DEPTH).reverse := by
  obtain ⟨d, hd⟩ := Option.isSome_iff_exists.1 hb
  have hparent : parentOf db b = d.parentId := by rw [parentOf, hd, Option.bind_some]
  have htree : ancestorTree db b = ⟨b, parentOf db b, 0⟩ :: chainRows db 1 (l.take _MAX_DEPT_DEPTH) := by
    rw [ancestorTree, select_key hd, List.map_cons, List.map_nil]
    rw [← hparent]
    exact levels_parentRows h hl (Nat.zero_add _)
  have hrest : ((ancestorTree db b).filter fun t ↦ decide (t.id ≠ b)) =
      chainRows db 1 (l.take _MAX_DEPT_DEPTH) := by
    rw [htree, List.filter_cons_of_neg (by simp), List.filter_eq_self]
    intro t ht
    have hid : t.id ∈ l.take _MAX_DEPT_DEPTH := by
      rw [← @ids_chainRows db 1 (l.take _MAX_DEPT_DEPTH)]
      exact List.mem_map_of_mem ht
    rw [decide_eq_true_eq]
    intro he
    exact h.not_mem (List.mem_of_mem_take (he ▸ hid))
  have hlt : (chainRows db 1 (l.take _MAX_DEPT_DEPTH)).Pairwise fun x y ↦ x.depth < y.depth := by
    rw [← List.pairwise_map, depths_chainRows]
    exact List.pairwise_lt_range'
  have hsorted : sort (desc AncestorRow.depth) (chainRows db 1 (l.take _MAX_DEPT_DEPTH)) =
      (chainRows db 1 (l.take _MAX_DEPT_DEPTH)).reverse := by
    refine Arranged.unique (fun x hx y hy hxy ↦ ?_) (arranged_sort _ _) ⟨List.reverse_perm _, ?_⟩
    · refine List.inj_on_of_nodup_map ?_ hx hy (cmp_desc.1 hxy)
      rw [depths_chainRows]
      exact List.nodup_range'
    · rw [List.pairwise_reverse]
      exact hlt.imp fun hxy ↦ isLE_desc.2 hxy.le
  rw [ancestorDeptIds, hrest, hsorted, List.map_reverse, ids_chainRows]

theorem exists_of_chain (h : IsForest db) (hc : Chain (parentOf db) b l) :
    ∀ a ∈ l, (db.rows .depts a).isSome := by
  induction hc with
  | root => exact fun a ha ↦ nomatch ha
  | @link b c l hp _ ih =>
    intro a ha
    rcases List.mem_cons.1 ha with rfl | ha
    · obtain ⟨e, he, hparent⟩ := Option.bind_eq_some_iff.1 hp
      obtain ⟨d, hd⟩ := (h b e he).1 a hparent
      rw [hd]
      rfl
    · exact ih a ha

theorem exists_chain_of_forest (h : IsForest db) (hb : (db.rows .depts b).isSome) :
    ∃ l, Chain (parentOf db) b l := by
  obtain ⟨d, hd⟩ := Option.isSome_iff_exists.1 hb
  obtain ⟨n, r, e, hclimb, he, hroot⟩ := (h b d hd).2
  refine exists_chain (rooted_of_climb hclimb ?_)
  rw [parentOf, he, Option.bind_some, hroot]

/-- `b` lies below `a` exactly if `a` stands above `b`, at whatever depth, and the ancestors of a
department that the bound does not cut are its parents in their order. -/
theorem mem_descendants_iff_mem_ancestors (h : IsForest db) (ha : (db.rows .depts a).isSome)
    (hb : (db.rows .depts b).isSome) :
    (b ∈ descendantDeptIds db a ↔ a = b ∨ a ∈ ancestorDeptIds db b) ∧
      ∃ l, Chain (parentOf db) b l ∧ (l.length ≤ _MAX_DEPT_DEPTH →
        ancestorDeptIds db b = l.reverse ∧ (ancestorDeptIds db b).Nodup) := by
  obtain ⟨l, hl⟩ := exists_chain_of_forest h hb
  have hids := ancestorDeptIds_eq hb hl (exists_of_chain h hl)
  refine ⟨?_, l, hl, fun hlen ↦ ?_⟩
  · rw [mem_descendantDeptIds, hl.climb_le_iff, hids, List.mem_reverse]
    exact and_iff_right ha
  · rw [hids, List.take_of_length_le hlen]
    exact ⟨rfl, List.nodup_reverse.2 hl.nodup⟩

def office (parentId : Option ℕ) (code : String) : Dept where
  parentId := parentId
  name := code
  code := code
  sortOrder := 0
  status := .active
  leader := none
  phone := none
  email := none

def threeOffices : Db := Store.empty.apply
  [⟨.depts, 0, some (office none "hq")⟩, ⟨.depts, 1, some (office (some 0) "it")⟩,
   ⟨.depts, 2, some (office (some 1) "ops")⟩]

theorem isForest_threeOffices : IsForest threeOffices := by
  intro i d hd
  have hk : i ∈ [0, 1, 2] := threeOffices.complete .depts i d hd
  simp only [List.mem_cons, List.not_mem_nil, or_false] at hk
  rcases hk with rfl | rfl | rfl
  · obtain rfl : office none "hq" = d := Option.some.inj hd
    exact ⟨nofun, 0, 0, _, rfl, rfl, rfl⟩
  · obtain rfl : office (some 0) "it" = d := Option.some.inj hd
    exact ⟨fun p hp ↦ ⟨office none "hq", by cases hp; rfl⟩, 1, 0, _, rfl, rfl, rfl⟩
  · obtain rfl : office (some 1) "ops" = d := Option.some.inj hd
    exact ⟨fun p hp ↦ ⟨office (some 0) "it", by cases hp; rfl⟩, 2, 0, _, rfl, rfl, rfl⟩

theorem mem_descendants_threeOffices :
    (2 ∈ descendantDeptIds threeOffices 0 ↔ 0 = 2 ∨ 0 ∈ ancestorDeptIds threeOffices 2) ∧
      ancestorDeptIds threeOffices 2 = [0, 1] ∧ (ancestorDeptIds threeOffices 2).Nodup := by
  obtain ⟨hdual, l, hl, hanc⟩ :=
    mem_descendants_iff_mem_ancestors (a := 0) (b := 2) isForest_threeOffices rfl rfl
  have hchain : Chain (parentOf threeOffices) 2 [1, 0] := .link rfl (.link rfl (.root rfl))
  obtain rfl := hl.unique hchain
  exact ⟨hdual, hanc (by decide)⟩

end AdminPlatform.Dept.Breadcrumbs
