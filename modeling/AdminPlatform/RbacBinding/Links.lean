import AdminPlatform.RbacBinding.Service
import Mathlib.Data.List.Sort

namespace AdminPlatform.RbacBinding.Links

open Model.Schema Foundation.Relational
open Service

def linkTables : List LinkTable := [userRoles, userPosts, roleMenus, roleDepts]

/-- A new link has the owner and the target it is made of. -/
structure Faithful (t : LinkTable) : Prop where
  owner : ∀ o x, t.ownerOf (t.link o x) = o
  target : ∀ o x, t.targetOf (t.link o x) = x

variable {t t' : LinkTable} {db db' : Db} {o k : ℕ} {ids : List ℕ}

theorem faithful (h : t ∈ linkTables) : Faithful t := by
  simp only [linkTables, List.mem_cons, List.not_mem_nil, or_false] at h
  rcases h with rfl | rfl | rfl | rfl
  all_goals exact ⟨fun _ _ ↦ rfl, fun _ _ ↦ rfl⟩

theorem eq_of_table (h : t ∈ linkTables) (h' : t' ∈ linkTables) (he : t.table = t'.table) : t = t' := by
  simp only [linkTables, List.mem_cons, List.not_mem_nil, or_false] at h h'
  rcases h with rfl | rfl | rfl | rfl
  all_goals
    rcases h' with rfl | rfl | rfl | rfl
    all_goals first | rfl | cases he

variable (t)

/-- The target of the row `k`, if it is a link of the owner. -/
def linkAt (db : Db) (o k : ℕ) : Option ℕ :=
  (db.rows t.table k).bind fun r ↦ if t.ownerOf r = o then some (t.targetOf r) else none

variable {t} {x : ℕ}

theorem linkAt_eq_some : linkAt t db o k = some x ↔
    ∃ r, db.rows t.table k = some r ∧ t.ownerOf r = o ∧ t.targetOf r = x := by
  simp only [linkAt, Option.bind_eq_some_iff, Option.ite_none_right_eq_some, Option.some.injEq]

theorem linkAt_congr (h : db.rows t.table k = db'.rows t.table k) : linkAt t db o k = linkAt t db' o k := by
  rw [linkAt, h]
  rfl

/-- The owner's links have just the targets `ids`, each of them once. -/
structure Bound (t : LinkTable) (db : Db) (o : ℕ) (ids : List ℕ) : Prop where
  mem : ∀ x, x ∈ ids ↔ ∃ k, linkAt t db o k = some x
  once : ∀ k k' x, linkAt t db o k = some x → linkAt t db o k' = some x → k = k'

theorem Bound.congr (h : Bound t db o ids) (hl : ∀ k, linkAt t db' o k = linkAt t db o k) :
    Bound t db' o ids := by
  refine ⟨fun x ↦ ?_, fun k k' x hx hx' ↦ ?_⟩
  · rw [h.mem]
    simp only [hl]
  · rw [hl] at hx hx'
    exact h.once k k' x hx hx'

def pairs (t : LinkTable) (db : Db) (o : ℕ) : List (ℕ × ℕ) :=
  (db.select t.table fun _ r ↦ decide (t.ownerOf r = o)).map fun y ↦ (y.1, t.targetOf y.2)

theorem mem_pairs : (k, x) ∈ pairs t db o ↔ linkAt t db o k = some x := by
  rw [linkAt_eq_some]
  simp only [pairs, List.mem_map, Prod.exists, mem_select, decide_eq_true_eq, Prod.mk.injEq]
  constructor
  · rintro ⟨j, r, ⟨hr, ho⟩, rfl, hx⟩
    exact ⟨r, hr, ho, hx⟩
  · rintro ⟨r, hr, ho, hx⟩
    exact ⟨k, r, ⟨hr, ho⟩, rfl, hx⟩

theorem pairs_nodup (t : LinkTable) (db : Db) (o : ℕ) : (pairs t db o).Nodup := by
  have h : ((pairs t db o).map Prod.fst).Nodup := by
    rw [pairs, List.map_map]
    exact (List.filter_sublist.map Prod.fst).nodup (scan_keys_nodup db t.table)
  exact List.Nodup.of_map Prod.fst h

theorem targets_eq_pairs (t : LinkTable) (db : Db) (o : ℕ) :
    t.targets db o = ((pairs t db o).map Prod.snd).mergeSort fun a b ↦ decide (a ≤ b) := by
  rw [pairs, List.map_map]
  rfl

theorem mergeSort_eq_of_perm {xs ys : List ℕ} (h : xs.Perm ys) :
    (xs.mergeSort fun a b ↦ decide (a ≤ b)) = ys.mergeSort fun a b ↦ decide (a ≤ b) := by
  have hp : (xs.mergeSort fun a b ↦ decide (a ≤ b)).Perm (ys.mergeSort fun a b ↦ decide (a ≤ b)) :=
    (List.mergeSort_perm _ _).trans (h.trans (List.mergeSort_perm _ _).symm)
  exact hp.eq_of_pairwise' (List.pairwise_mergeSort' _ xs) (List.pairwise_mergeSort' _ ys)

theorem nodup_eraseDups (xs : List ℕ) : xs.eraseDups.Nodup := by
  induction hn : xs.length using Nat.strong_induction_on generalizing xs with
  | _ n ih =>
    cases xs with
    | nil => exact List.nodup_nil
    | cons a as =>
      rw [List.eraseDups_cons, List.nodup_cons]
      have hlen : (as.filter fun b ↦ !b == a).length < n := by
        have hle := List.length_filter_le (fun b ↦ !b == a) as
        rw [List.length_cons] at hn
        omega
      refine ⟨fun hm ↦ ?_, ih _ hlen _ rfl⟩
      have hf := List.mem_filter.1 (List.mem_eraseDups.1 hm)
      simp at hf

theorem targets_congr (h : ∀ k, linkAt t db o k = linkAt t db' o k) : t.targets db o = t.targets db' o := by
  have hperm : (pairs t db o).Perm (pairs t db' o) := by
    refine (List.perm_ext_iff_of_nodup (pairs_nodup t db o) (pairs_nodup t db' o)).2 ?_
    rintro ⟨k, x⟩
    rw [mem_pairs, mem_pairs, h]
  rw [targets_eq_pairs, targets_eq_pairs]
  exact mergeSort_eq_of_perm (hperm.map Prod.snd)

theorem targets_of_bound (h : Bound t db o ids) (hn : ids.Nodup) :
    t.targets db o = ids.mergeSort fun a b ↦ decide (a ≤ b) := by
  have hnodup : ((pairs t db o).map Prod.snd).Nodup := by
    refine List.Nodup.map_on ?_ (pairs_nodup t db o)
    rintro ⟨k, x⟩ hk ⟨k', x'⟩ hk' (rfl : x = x')
    rw [h.once k k' x (mem_pairs.1 hk) (mem_pairs.1 hk')]
  rw [targets_eq_pairs]
  refine mergeSort_eq_of_perm ((List.perm_ext_iff_of_nodup hnodup hn).2 fun x ↦ ?_)
  rw [h.mem, List.mem_map]
  constructor
  · rintro ⟨⟨k, y⟩, hk, rfl⟩
    exact ⟨k, mem_pairs.1 hk⟩
  · rintro ⟨k, hk⟩
    exact ⟨(k, x), mem_pairs.2 hk, rfl⟩

end AdminPlatform.RbacBinding.Links
