import AdminPlatform.Dept.Service
import AdminPlatform.Foundation.Forest

namespace AdminPlatform.Dept.TreeInvariant

open Model.Schema Model.Service Foundation.Relational Foundation.Transaction
open Foundation.Interleaving Foundation.RelyGuarantee Foundation.Forest
open Service DeptRepository

def parentOf (db : Db) (i : ℕ) : Option ℕ := (db.rows .depts i).bind Dept.parentId

/-- The departments form a forest. -/
structure TreeInv (w : Shared) : Prop where
  below : ∀ i (d : Dept), w.db.rows .depts i = some d → i < w.next
  parent : ∀ i (d : Dept) p, w.db.rows .depts i = some d → d.parentId = some p →
    ∃ d' : Dept, w.db.rows .depts p = some d'
  rooted : ∀ i, Rooted (parentOf w.db) i

def TreeKept (w w' : Shared) : Prop := ∀ i (d : Dept), w.db.rows .depts i = some d →
  ∃ d' : Dept, w'.db.rows .depts i = some d' ∧ d'.parentId = d.parentId

def NoChildAdded (p : ℕ) (w w' : Shared) : Prop := ∀ k (d' : Dept),
  w'.db.rows .depts k = some d' → d'.parentId = some p →
    ∃ d : Dept, w.db.rows .depts k = some d ∧ d.parentId = some p

def treeProt : Resource Table LockName → Shared → Shared → Prop
  | .own u, w, w' => w.db.rows .depts u = none → w'.db.rows .depts u = none
  | .named .deptTree, w, w' => TreeKept w w'
  | .row .depts p, w, w' => NoChildAdded p w w'
  | _, _, _ => True

variable {w w' w'' : Shared} {l l' : Private} {i p n : ℕ}

theorem TreeKept.refl (w : Shared) : TreeKept w w := fun _ d h ↦ ⟨d, h, rfl⟩

theorem TreeKept.trans (h : TreeKept w w') (h' : TreeKept w' w'') : TreeKept w w'' := by
  intro i d hd
  obtain ⟨d', hd', he⟩ := h i d hd
  obtain ⟨d'', hd'', he'⟩ := h' i d' hd'
  exact ⟨d'', hd'', he'.trans he⟩

theorem TreeInv.congr (h : TreeInv w) (hd : w'.db = w.db) (hn : w.next ≤ w'.next) : TreeInv w' where
  below i d hi := Nat.lt_of_lt_of_le (h.below i d (hd ▸ hi)) hn
  parent := by rw [hd]; exact h.parent
  rooted := by rw [hd]; exact h.rooted

/-- The agreement between the calls that change departments. -/
def treeProtocol : Protocol Table Row LockName Storage Note where
  inv := TreeInv
  guar _ _ := True
  change _ _ := True
  prot := treeProt
  guar_refl _ := trivial
  guar_trans _ _ _ _ _ := trivial
  prot_refl r w := by
    unfold treeProt
    split
    · exact id
    · exact .refl w
    · exact fun k d hk hp ↦ ⟨d, hk, hp⟩
    · trivial
  prot_trans r w w' w'' h h' := by
    unfold treeProt at *
    split at h
    · exact fun hn ↦ h' (h hn)
    · exact h.trans h'
    · intro k d hk hp
      obtain ⟨d', hd', hp'⟩ := h' k d hk hp
      exact h k d' hd' hp'
    · trivial
  quiet w w' h hd _ _ _ hn := by
    refine ⟨h.congr hd hn, trivial, trivial, fun r ↦ ?_⟩
    unfold treeProt
    split
    · exact fun hr ↦ hd ▸ hr
    · exact fun i d hi ↦ ⟨d, hd ▸ hi, rfl⟩
    · exact fun k d hk hp ↦ ⟨d, hd ▸ hk, hp⟩
    · trivial

theorem parentOf_eq_some : parentOf w.db i = some p ↔
    ∃ d : Dept, w.db.rows .depts i = some d ∧ d.parentId = some p := Option.bind_eq_some_iff

theorem exists_of_climb (h : TreeInv w) {d : Dept} (hd : w.db.rows .depts i = some d)
    (hc : climb (parentOf w.db) n i = some p) : ∃ d' : Dept, w.db.rows .depts p = some d' := by
  induction n generalizing i d with
  | zero =>
    cases hc
    exact ⟨d, hd⟩
  | succ n ih =>
    obtain ⟨q, hq, hn⟩ := Option.bind_eq_some_iff.1 hc
    obtain ⟨e, he, hp⟩ := parentOf_eq_some.1 hq
    obtain ⟨d', hd'⟩ := h.parent i e q he hp
    exact ih hd' hn

/-- The tree lock fixes the ancestors of every department. -/
theorem climb_of_kept (h : TreeInv w) (hk : TreeKept w w') {d : Dept}
    (hd : w.db.rows .depts i = some d) :
    climb (parentOf w'.db) n i = climb (parentOf w.db) n i := by
  induction n generalizing i d with
  | zero => rfl
  | succ n ih =>
    obtain ⟨d', hd', he⟩ := hk i d hd
    have hp : parentOf w'.db i = parentOf w.db i := by
      rw [parentOf, parentOf, hd, hd']
      exact he
    rw [climb_succ, climb_succ, hp]
    cases hq : parentOf w.db i with
    | none => rfl
    | some q =>
      obtain ⟨e, he, hp⟩ := parentOf_eq_some.1 hq
      obtain ⟨d'', hd''⟩ := h.parent i e q he hp
      exact ih hd''

theorem mem_childIds {db : Db} {a x : ℕ} : x ∈ childIds db a ↔ parentOf db x = some a := by
  simp only [childIds, List.mem_map, Prod.exists, exists_and_right, exists_eq_right, mem_select,
    decide_eq_true_eq, parentOf, Option.bind_eq_some_iff]

theorem expand_eq_levels {db : Db} {level : List ℕ} : expand db n level = levels (childIds db) n level := by
  induction n generalizing level with
  | zero => rfl
  | succ n ih => rw [expand, levels, ih]

theorem mem_expand {db : Db} {x : ℕ} {level : List ℕ} :
    x ∈ expand db n level ↔ ∃ k ≤ n, ∃ a ∈ level, climb (parentOf db) k x = some a := by
  rw [expand_eq_levels]
  exact mem_levels mem_childIds

theorem mem_descendantDeptIds {db : Db} {x : ℕ} : x ∈ descendantDeptIds db i ↔
    (db.rows .depts i).isSome ∧ ∃ k ≤ _MAX_DEPT_DEPTH, climb (parentOf db) k x = some i := by
  unfold descendantDeptIds
  split
  · next h => simp [mem_expand, h]
  · next h => simp [h]

end AdminPlatform.Dept.TreeInvariant
