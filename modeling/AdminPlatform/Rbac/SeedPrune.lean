import AdminPlatform.Rbac.SeedMenus
import Mathlib.Data.Finset.Max
import Mathlib.Data.Finset.Lattice.Basic

namespace AdminPlatform.Rbac.SeedPrune

open Model.Schema Model.Service Model.Scope Foundation.Relational Foundation.Transaction
open Foundation.Sequential Foundation.Forest Menu.Service MenuRepository Seed

variable {v v₁ : Snapshot} {i j rounds : ℕ} {db : Db} {gone : Finset ℕ} {old : List (ℕ × Menu)}

theorem exists_leaf {parent : ℕ → Option ℕ} (hne : old ≠ [])
    (hp : ∀ x ∈ old, parent x.1 = x.2.parentId) (hr : ∀ i, Rooted parent i) :
    ∃ x ∈ old, isParent old x.1 = false := by
  obtain ⟨rank, hrank⟩ := exists_rank hr
  obtain ⟨x, hx, hmax⟩ := old.toFinset.exists_max_image (fun x ↦ rank x.1)
    (List.toFinset_nonempty_iff old |>.2 hne)
  refine ⟨x, List.mem_toFinset.1 hx, ?_⟩
  rw [isParent, List.any_eq_false]
  intro y hy he
  have hlt := hrank y.1 x.1 ((hp y hy).trans (of_decide_eq_true he))
  have hle := hmax y (List.mem_toFinset.2 hy)
  omega

theorem length_round (h : old.filter (fun x ↦ !isParent old x.1) ≠ []) :
    (old.filter fun x ↦ isParent old x.1).length < old.length := by
  obtain ⟨x, hx⟩ := List.exists_mem_of_ne_nil _ h
  obtain ⟨hm, hl⟩ := List.mem_filter.1 hx
  refine List.length_filter_lt_length_iff_exists.2 ⟨x, hm, ?_⟩
  rw [Bool.not_eq_true'] at hl
  rw [hl]
  exact Bool.false_ne_true

theorem prune_round (rounds : ℕ) (old : List (ℕ × Menu)) : prune (rounds + 1) old =
    if old.filter (fun x ↦ !isParent old x.1) = [] then pure 0
    else (do
      deleteAll (old.filter fun x ↦ !isParent old x.1)
      let rest ← prune rounds (old.filter fun x ↦ isParent old x.1)
      pure ((old.filter fun x ↦ !isParent old x.1).length + rest)) := rfl

theorem prune_succ (h : old.length ≤ rounds) : prune (rounds + 1) old = prune rounds old := by
  induction rounds generalizing old with
  | zero =>
    rw [List.eq_nil_of_length_eq_zero (Nat.le_zero.1 h)]
    rfl
  | succ rounds ih =>
    rw [prune_round (rounds + 1) old, prune_round rounds old]
    split
    · rfl
    · next hl =>
      have hlt := length_round hl
      rw [ih (by omega)]

/-- As many rounds as there are stale menus are enough for the loop to end by itself. -/
theorem prune_eq (h : old.length ≤ rounds) : prune rounds old = prune old.length old := by
  induction h with
  | refl => rfl
  | step hle ih => rw [prune_succ hle, ih]

/-- The menus in `gone` are deleted with their bindings. -/
structure Pruned (gone : Finset ℕ) (v₁ v : Snapshot) : Prop where
  menus : ∀ i, v.db.rows .menus i = if i ∈ gone then none else v₁.db.rows .menus i
  links : ∀ j, v.db.rows .roleMenus j =
    (v₁.db.rows .roleMenus j).filter fun r : RoleMenu ↦ decide (r.menuId ∉ gone)
  frame : ∀ t i, t ≠ .menus → t ≠ .roleMenus → v.db.rows t i = v₁.db.rows t i
  childless : ∀ x ∈ gone, ∀ c (m : Menu), v₁.db.rows .menus c = some m → m.parentId = some x → c ∈ gone
  next : v.next = v₁.next

theorem Pruned.init (v : Snapshot) : Pruned ∅ v v := by
  refine ⟨fun i ↦ rfl, fun j ↦ ?_, fun _ _ _ _ ↦ rfl, fun x hx ↦ absurd hx (Finset.notMem_empty x), rfl⟩
  cases v.db.rows .roleMenus j with
  | none => rfl
  | some r => rfl

theorem not_mem_childIds (h : childIds db i = []) {m : Menu} (hm : db.rows .menus j = some m) :
    m.parentId ≠ some i := by
  intro hp
  have hs : (j, m) ∈ db.select .menus fun _ (m : Menu) ↦ decide (m.parentId = some i) :=
    mem_select.2 ⟨hm, decide_eq_true hp⟩
  rw [List.map_eq_nil_iff.1 h] at hs
  cases hs

theorem ensures_delete (h : Pruned gone v₁ v) :
    Ensures (MenuRepository.delete i) v fun _ v' ↦ Pruned (insert i gone) v₁ v' := by
  refine ensures_query fun g a hq ↦ ?_
  split at hq
  · next hc =>
    cases hq
    have hmenus : ∀ k, (v.db.apply (v.db.delete .roleMenus (fun _ (r : RoleMenu) ↦ decide (r.menuId = i)) ++
        v.db.delete .menus (fun k _ ↦ decide (k = i)))).rows .menus k =
        (v.db.rows .menus k).filter fun _ ↦ !decide (k = i) := by
      intro k
      rw [apply_append]
      exact rows_delete (rows_delete_other (by decide : Table.roleMenus ≠ .menus) _ k)
    refine ⟨fun k ↦ ?_, fun j ↦ ?_, fun t k ht ht' ↦ ?_, fun x hx c m hm hp ↦ ?_, h.next⟩
    · refine (hmenus k).trans ?_
      rw [h.menus k]
      by_cases hk : k = i
      · subst hk
        rw [if_pos (Finset.mem_insert_self k gone)]
        exact Option.filter_eq_none_iff.2 fun m _ ↦ by simp
      · simp only [Finset.mem_insert, hk, false_or, decide_false, Bool.not_false]
        cases if k ∈ gone then none else v₁.db.rows .menus k with
        | none => rfl
        | some m => rfl
    · show (v.db.apply (_ ++ _)).rows .roleMenus j = _
      rw [apply_append, rows_delete_other (by decide : Table.menus ≠ .roleMenus), rows_delete rfl,
        h.links j, Option.filter_filter]
      refine congrArg (fun p ↦ Option.filter p _) (funext fun r ↦ ?_)
      simp only [Finset.mem_insert, not_or, Bool.decide_and, decide_not, Bool.and_comm]
    · show (v.db.apply (_ ++ _)).rows t k = _
      rw [apply_append, rows_delete_other ht.symm, rows_delete_other ht'.symm, h.frame t k ht ht']
    · by_cases hcg : c ∈ gone
      · exact Finset.mem_insert_of_mem hcg
      · have hv : v.db.rows .menus c = some m := by rw [h.menus c, if_neg hcg, hm]
        rcases Finset.mem_insert.1 hx with rfl | hx
        · exact absurd hp (not_mem_childIds hc hv)
        · exact absurd (h.childless x hx c m hm hp) hcg
  · cases hq

def idsOf (old : List (ℕ × Menu)) : Finset ℕ := (old.map Prod.fst).toFinset

theorem ensures_deleteAll (xs : List (ℕ × Menu)) (h : Pruned gone v₁ v) :
    Ensures (deleteAll xs) v fun _ v' ↦ Pruned (gone ∪ idsOf xs) v₁ v' := by
  induction xs generalizing v gone with
  | nil =>
    refine ensures_pure ?_
    rw [idsOf, List.map_nil, List.toFinset_nil, Finset.union_empty]
    exact h
  | cons x xs ih =>
    refine ensures_bind (ensures_mono (ensures_delete (i := x.1) h) fun _ v' h' ↦ ?_)
    refine ensures_mono (ih h') fun _ v'' h'' ↦ ?_
    have he : insert x.1 gone ∪ idsOf xs = gone ∪ idsOf (x :: xs) := by
      rw [idsOf, idsOf, List.map_cons, List.toFinset_cons, Finset.insert_union, Finset.union_insert]
    exact he ▸ h''

theorem idsOf_split (old : List (ℕ × Menu)) (p : ℕ × Menu → Bool) :
    idsOf (old.filter fun x ↦ !p x) ∪ idsOf (old.filter p) = idsOf old := by
  ext i
  simp only [idsOf, Finset.mem_union, List.mem_toFinset, List.mem_map, List.mem_filter]
  constructor
  · rintro (⟨x, ⟨hx, -⟩, rfl⟩ | ⟨x, ⟨hx, -⟩, rfl⟩)
    · exact ⟨x, hx, rfl⟩
    · exact ⟨x, hx, rfl⟩
  · rintro ⟨x, hx, rfl⟩
    cases hp : p x with
    | true => exact .inr ⟨x, ⟨hx, hp⟩, rfl⟩
    | false => exact .inl ⟨x, ⟨hx, by rw [hp]; rfl⟩, rfl⟩

/-- Where the tree of the loaded menus is a tree, the loop ends with all of them deleted. -/
theorem ensures_prune {parent : ℕ → Option ℕ} (hr : ∀ i, Rooted parent i)
    (hp : ∀ x ∈ old, parent x.1 = x.2.parentId) (hl : old.length ≤ rounds) (h : Pruned gone v₁ v) :
    Ensures (prune rounds old) v fun _ v' ↦ Pruned (gone ∪ idsOf old) v₁ v' := by
  induction rounds generalizing old v gone with
  | zero =>
    rw [List.eq_nil_of_length_eq_zero (Nat.le_zero.1 hl), idsOf, List.map_nil, List.toFinset_nil,
      Finset.union_empty]
    exact ensures_pure h
  | succ rounds ih =>
    rw [prune]
    split
    · next hleaves =>
      have hnil : old = [] := by
        by_contra hne
        obtain ⟨x, hx, hleaf⟩ := exists_leaf hne hp hr
        have hm : x ∈ old.filter fun x ↦ !isParent old x.1 := List.mem_filter.2 ⟨hx, by rw [hleaf]; rfl⟩
        rw [hleaves] at hm
        cases hm
      rw [hnil, idsOf, List.map_nil, List.toFinset_nil, Finset.union_empty]
      exact ensures_pure h
    · next hleaves =>
      have hlt := length_round hleaves
      refine ensures_bind (ensures_mono (ensures_deleteAll _ h) fun _ v' h' ↦ ?_)
      have hp' : ∀ x ∈ old.filter fun x ↦ isParent old x.1, parent x.1 = x.2.parentId := fun x hx ↦
        hp x (List.mem_filter.1 hx).1
      refine ensures_bind (ensures_mono (ih hp' (by omega) h') fun _ v'' h'' ↦ ensures_pure ?_)
      rw [Finset.union_assoc, idsOf_split old fun x ↦ isParent old x.1] at h''
      exact h''

end AdminPlatform.Rbac.SeedPrune
