import AdminPlatform.Foundation.Forest
import Mathlib.Logic.Function.Basic

namespace AdminPlatform.Frontend.Tree

open Foundation.Forest

structure TreeNodeLike where
  id : ℕ
  parentId : Option ℕ
  deriving DecidableEq, Repr

/-- The objects that `buildTree` makes: the children hung on each node, by its id, and the roots. -/
structure Forest where
  children : ℕ → List ℕ
  roots : List ℕ

variable (items : List TreeNodeLike)

/-- `nodeById.get(id)` finds an object. -/
def has (id : ℕ) : Bool := items.any fun x ↦ decide (x.id = id)

def attach (forest : Forest) (item : TreeNodeLike) : Forest :=
  match item.parentId.filter (has items) with
  | some p => { forest with children := Function.update forest.children p (forest.children p ++ [item.id]) }
  | none => { forest with roots := forest.roots ++ [item.id] }

def buildTree : Forest := items.foldl (attach items) ⟨fun _ ↦ [], []⟩

inductive InTree (forest : Forest) : ℕ → Prop
  | root {n : ℕ} : n ∈ forest.roots → InTree forest n
  | child {n m : ℕ} : InTree forest n → m ∈ forest.children n → InTree forest m

/-- `m` is the node `n` or one of its descendants. -/
def Within (forest : Forest) (m n : ℕ) : Prop :=
  Relation.ReflTransGen (fun m n ↦ m ∈ forest.children n) m n

/-- What `getCheckedKeys` and `getHalfCheckedKeys` return. -/
structure Checks where
  checkedKeys : List ℕ
  halfCheckedKeys : List ℕ
  deriving DecidableEq, Repr

/-- What is assumed of `el-tree` after `setCheckedKeys(keys, false)`: a key checks its node with all
that is below, a node is checked when all of its children are, and partly checked when some
descendant is checked and it is not. Keys that are not in the tree do nothing. -/
structure Cascades (forest : Forest) (keys : List ℕ) (checks : Checks) : Prop where
  leaf : ∀ n, InTree forest n → forest.children n = [] →
    (n ∈ checks.checkedKeys ↔ ∃ k ∈ keys, InTree forest k ∧ Within forest n k)
  node : ∀ n, InTree forest n → forest.children n ≠ [] →
    (n ∈ checks.checkedKeys ↔ ∀ m ∈ forest.children n, m ∈ checks.checkedKeys)
  half : ∀ n, InTree forest n → (n ∈ checks.halfCheckedKeys ↔ n ∉ checks.checkedKeys ∧
    ∃ m ∈ forest.children n, m ∈ checks.checkedKeys ∨ m ∈ checks.halfCheckedKeys)
  checked_inTree : ∀ n ∈ checks.checkedKeys, InTree forest n
  half_inTree : ∀ n ∈ checks.halfCheckedKeys, InTree forest n

def parent (id : ℕ) : Option ℕ :=
  (items.find? fun x ↦ decide (x.id = id)).bind fun x ↦ x.parentId.filter (has items)

variable {items} {n m p : ℕ} {xs : List TreeNodeLike} {forest : Forest} {keys : List ℕ} {checks : Checks}

@[simp] theorem has_iff : has items n = true ↔ n ∈ items.map TreeNodeLike.id := by
  simp [has]

theorem parent_iff (hn : (items.map TreeNodeLike.id).Nodup) : parent items m = some p ↔
    ∃ x ∈ items, x.id = m ∧ x.parentId = some p ∧ p ∈ items.map TreeNodeLike.id := by
  simp only [parent, Option.bind_eq_some_iff, Option.filter_eq_some_iff, has_iff]
  constructor
  · intro ⟨x, hx, hp⟩
    exact ⟨x, List.mem_of_find?_eq_some hx, by simpa using List.find?_some hx, hp⟩
  · intro ⟨x, hx, hid, hp⟩
    refine ⟨x, ?_, hp⟩
    cases hf : items.find? fun x ↦ decide (x.id = m) with
    | none => exact absurd (decide_eq_true hid) (List.find?_eq_none.1 hf x hx)
    | some y =>
      have hy : y.id = m := by simpa using List.find?_some hf
      exact congrArg some (List.inj_on_of_nodup_map hn (List.mem_of_find?_eq_some hf) hx (hy.trans hid.symm))

theorem mem_children_foldl : m ∈ (xs.foldl (attach items) forest).children p ↔
    m ∈ forest.children p ∨ ∃ x ∈ xs, x.id = m ∧ x.parentId.filter (has items) = some p := by
  induction xs generalizing forest with
  | nil => simp
  | cons x xs ih =>
    rw [List.foldl_cons, ih]
    have hx : m ∈ (attach items forest x).children p ↔
        m ∈ forest.children p ∨ x.id = m ∧ x.parentId.filter (has items) = some p := by
      unfold attach
      split
      · rename_i q hq
        by_cases hpq : p = q
        · subst hpq
          simp [hq, eq_comm]
        · simp [hq, Function.update_of_ne hpq, Ne.symm hpq]
      · rename_i hq
        simp [hq]
    rw [hx]
    simp [or_assoc]

theorem mem_roots_foldl : m ∈ (xs.foldl (attach items) forest).roots ↔
    m ∈ forest.roots ∨ ∃ x ∈ xs, x.id = m ∧ x.parentId.filter (has items) = none := by
  induction xs generalizing forest with
  | nil => simp
  | cons x xs ih =>
    rw [List.foldl_cons, ih]
    have hx : m ∈ (attach items forest x).roots ↔
        m ∈ forest.roots ∨ x.id = m ∧ x.parentId.filter (has items) = none := by
      unfold attach
      split
      · rename_i q hq
        simp [hq]
      · rename_i hq
        simp [hq, eq_comm]
    rw [hx]
    simp [or_assoc]

theorem mem_children (hn : (items.map TreeNodeLike.id).Nodup) :
    m ∈ (buildTree items).children p ↔ parent items m = some p := by
  rw [parent_iff hn, buildTree, mem_children_foldl]
  simp [Option.filter_eq_some_iff]

theorem mem_roots (hn : (items.map TreeNodeLike.id).Nodup) :
    m ∈ (buildTree items).roots ↔ m ∈ items.map TreeNodeLike.id ∧ parent items m = none := by
  rw [buildTree, mem_roots_foldl]
  constructor
  · rintro (h | ⟨x, hx, rfl, hp⟩)
    · cases h
    · refine ⟨List.mem_map_of_mem hx, Option.eq_none_iff_forall_ne_some.2 fun p h ↦ ?_⟩
      obtain ⟨y, hy, hid, hyp, hmem⟩ := (parent_iff hn).1 h
      rw [← List.inj_on_of_nodup_map hn hy hx hid, hyp] at hp
      simp [Option.filter_some, has_iff.2 hmem] at hp
  · intro ⟨h, hp⟩
    obtain ⟨x, hx, rfl⟩ := List.mem_map.1 h
    refine .inr ⟨x, hx, rfl, Option.eq_none_iff_forall_ne_some.2 fun p h ↦ ?_⟩
    obtain ⟨hxp, hmem⟩ := Option.filter_eq_some_iff.1 h
    have hparent := (parent_iff hn).2 ⟨x, hx, rfl, hxp, has_iff.1 hmem⟩
    rw [hp] at hparent
    cases hparent

theorem loaded_of_parent (hn : (items.map TreeNodeLike.id).Nodup) (h : parent items m = some p) :
    m ∈ items.map TreeNodeLike.id ∧ p ∈ items.map TreeNodeLike.id := by
  obtain ⟨x, hx, rfl, -, hp⟩ := (parent_iff hn).1 h
  exact ⟨List.mem_map_of_mem hx, hp⟩

theorem within_iff (hn : (items.map TreeNodeLike.id).Nodup) :
    Within (buildTree items) m n ↔ Below (parent items) m n := by
  have h : (fun m n ↦ m ∈ (buildTree items).children n) = fun m n ↦ parent items m = some n :=
    funext fun m ↦ funext fun n ↦ propext (mem_children hn)
  rw [Within, Below, h]

section Rooted

variable (hn : (items.map TreeNodeLike.id).Nodup) (hr : ∀ i, Rooted (parent items) i)
include hn hr

/-- No item of an acyclic list is lost. -/
theorem inTree_iff : InTree (buildTree items) n ↔ n ∈ items.map TreeNodeLike.id := by
  constructor
  · intro h
    cases h with
    | root h => exact ((mem_roots hn).1 h).1
    | child _ h => exact (loaded_of_parent hn ((mem_children hn).1 h)).1
  · intro h
    induction hr n with
    | intro n _ ih =>
      cases hp : parent items n with
      | none => exact .root ((mem_roots hn).2 ⟨h, hp⟩)
      | some p => exact .child (ih p hp (loaded_of_parent hn hp).2) ((mem_children hn).2 hp)

variable (h : Cascades (buildTree items) keys checks)
include h

/-- A node is checked or partly checked when a leaf at or below it lies at or below a key. -/
theorem marked_iff (n : ℕ) : n ∈ checks.checkedKeys ++ checks.halfCheckedKeys ↔
    n ∈ items.map TreeNodeLike.id ∧ ∃ l, (∀ m, parent items m ≠ some l) ∧ Below (parent items) l n ∧
      ∃ k ∈ keys, k ∈ items.map TreeNodeLike.id ∧ Below (parent items) l k := by
  rw [List.mem_append]
  refine children_induction hr (items.map TreeNodeLike.id)
    (fun a b hab ↦ (loaded_of_parent hn hab).1) (motive := fun n ↦
      n ∈ checks.checkedKeys ∨ n ∈ checks.halfCheckedKeys ↔ n ∈ items.map TreeNodeLike.id ∧
        ∃ l, (∀ m, parent items m ≠ some l) ∧ Below (parent items) l n ∧
          ∃ k ∈ keys, k ∈ items.map TreeNodeLike.id ∧ Below (parent items) l k) (fun n ih ↦ ?_) n
  by_cases hin : n ∈ items.map TreeNodeLike.id
  · have hin' := (inTree_iff hn hr).2 hin
    simp only [hin, true_and]
    cases hc : (buildTree items).children n with
    | nil =>
      have hleaf : ∀ m, parent items m ≠ some n := by
        intro m hm
        have hm' := (mem_children hn).2 hm
        rw [hc] at hm'
        cases hm'
      rw [h.leaf n hin' hc, h.half n hin', hc]
      simp only [List.not_mem_nil, false_and, exists_false, and_false, or_false, inTree_iff hn hr,
        within_iff hn]
      constructor
      · intro ⟨k, hk, hkl, hb⟩
        exact ⟨n, hleaf, .refl, k, hk, hkl, hb⟩
      · intro ⟨l, hl, hb, k, hk, hkl, hbk⟩
        rcases Relation.ReflTransGen.cases_tail hb with rfl | ⟨m, -, hm⟩
        · exact ⟨k, hk, hkl, hbk⟩
        · exact absurd hm (hleaf m)
    | cons c cs =>
      have hne : (buildTree items).children n ≠ [] := by
        rw [hc]
        exact List.cons_ne_nil _ _
      have hstep : (n ∈ checks.checkedKeys ∨ n ∈ checks.halfCheckedKeys) ↔
          ∃ m, parent items m = some n ∧ (m ∈ checks.checkedKeys ∨ m ∈ checks.halfCheckedKeys) := by
        rw [h.half n hin']
        simp only [mem_children hn]
        constructor
        · rintro (hch | ⟨-, hm⟩)
          · have hc' : c ∈ (buildTree items).children n := hc ▸ List.mem_cons_self
            exact ⟨c, (mem_children hn).1 hc', .inl ((h.node n hin' hne).1 hch c hc')⟩
          · exact hm
        · intro hm
          by_cases hch : n ∈ checks.checkedKeys
          · exact .inl hch
          · exact .inr ⟨hch, hm⟩
      rw [hstep]
      constructor
      · intro ⟨m, hm, hmarked⟩
        obtain ⟨-, l, hl, hb, hk⟩ := (ih m hm).1 hmarked
        exact ⟨l, hl, hb.tail hm, hk⟩
      · intro ⟨l, hl, hb, hk⟩
        rcases Relation.ReflTransGen.cases_tail hb with rfl | ⟨m, hbm, hm⟩
        · have hc' : c ∈ (buildTree items).children n := hc ▸ List.mem_cons_self
          exact absurd ((mem_children hn).1 hc') (hl c)
        · exact ⟨m, hm, (ih m hm).2 ⟨(loaded_of_parent hn hm).1, l, hl, hbm, hk⟩⟩
  · refine iff_of_false ?_ fun hx ↦ hin hx.1
    rintro (hx | hx)
    · exact hin ((inTree_iff hn hr).1 (h.checked_inTree n hx))
    · exact hin ((inTree_iff hn hr).1 (h.half_inTree n hx))

/-- The nodes that are read back are the keys just when all keys are loaded and every root has been
set with all or with none of its descendants. -/
theorem marked_eq_iff : (∀ n, n ∈ checks.checkedKeys ++ checks.halfCheckedKeys ↔ n ∈ keys) ↔
    (∀ k ∈ keys, k ∈ items.map TreeNodeLike.id) ∧
      ∀ n p, parent items n = some p → (n ∈ keys ↔ p ∈ keys) := by
  have hleaf := fun n ↦ exists_leaf_below hr (items.map TreeNodeLike.id)
    (fun a b hab ↦ (loaded_of_parent hn hab).1) n
  constructor
  · intro he
    have hload : ∀ k ∈ keys, k ∈ items.map TreeNodeLike.id :=
      fun k hk ↦ ((marked_iff hn hr h k).1 ((he k).2 hk)).1
    refine ⟨hload, fun n p hp ↦ ?_⟩
    obtain ⟨hn', hp'⟩ := loaded_of_parent hn hp
    obtain ⟨l, hl, hb⟩ := hleaf n
    constructor
    · intro hk
      exact (he p).1 ((marked_iff hn hr h p).2 ⟨hp', l, hl, hb.tail hp, n, hk, hn', hb⟩)
    · intro hk
      exact (he n).1 ((marked_iff hn hr h n).2 ⟨hn', l, hl, hb, p, hk, hp', hb.tail hp⟩)
  · intro ⟨hload, hclosed⟩ n
    have hup : ∀ a b, Below (parent items) a b → (a ∈ keys ↔ b ∈ keys) := by
      intro a b hab
      induction hab with
      | refl => exact Iff.rfl
      | tail _ hb ih => exact ih.trans (hclosed _ _ hb)
    rw [marked_iff hn hr h n]
    constructor
    · intro ⟨_, l, _, hb, k, hk, _, hbk⟩
      exact (hup l n hb).1 ((hup l k hbk).2 hk)
    · intro hk
      obtain ⟨l, hl, hb⟩ := hleaf n
      exact ⟨hload n hk, l, hl, hb, n, hk, hload n hk, hb⟩

end Rooted

end AdminPlatform.Frontend.Tree
