import Mathlib.Data.List.Basic

namespace AdminPlatform.Foundation.RowLocks

inductive LockMode
  | shared
  | exclusive
  deriving DecidableEq, Repr

variable {ω κ : Type}

/-- A change of one row that its transaction has not committed. -/
structure Change (ω κ : Type) where
  owner : ω
  key : κ
  inserted : Bool
  deriving DecidableEq, Repr

structure RowLock (ω κ : Type) where
  owner : ω
  key : κ
  mode : LockMode
  deriving DecidableEq, Repr

/-- A table of keys, as its transactions see and lock it. The newest change comes first. -/
structure KeyTable (ω κ : Type) where
  committed : List κ
  changes : List (Change ω κ) := []
  locks : List (RowLock ω κ) := []
  deriving DecidableEq, Repr

namespace KeyTable

variable [DecidableEq ω] [DecidableEq κ] (t : KeyTable ω κ) (o : ω) (k : κ)

def change : Option Bool :=
  (t.changes.find? fun x ↦ decide (x.owner = o ∧ x.key = k)).map Change.inserted

def visible : Bool := (t.change o k).getD (decide (k ∈ t.committed))

def free (mode : LockMode) : Bool := t.locks.all fun x ↦
  decide (x.key = k → x.owner = o ∨ mode = .shared ∧ x.mode = .shared)

-- A statement that is `none` waits.

/-- `INSERT IGNORE` locks a row that it finds, in shared mode. -/
def insertIgnore : Option (KeyTable ω κ) :=
  if t.visible o k then
    if t.free o k .shared then some { t with locks := ⟨o, k, .shared⟩ :: t.locks } else none
  else if t.free o k .exclusive then
    some { t with changes := ⟨o, k, true⟩ :: t.changes, locks := ⟨o, k, .exclusive⟩ :: t.locks }
  else none

/-- `SELECT … FOR UPDATE` locks the row that it finds, and nothing when there is none. -/
def selectForUpdate : Option (KeyTable ω κ × Bool) :=
  if t.free o k .exclusive then
    if t.visible o k then some ({ t with locks := ⟨o, k, .exclusive⟩ :: t.locks }, true)
    else some (t, false)
  else none

def delete : Option (KeyTable ω κ) :=
  if t.free o k .exclusive then
    if t.visible o k then
      some { t with changes := ⟨o, k, false⟩ :: t.changes, locks := ⟨o, k, .exclusive⟩ :: t.locks }
    else some t
  else none

def rollback : KeyTable ω κ where
  committed := t.committed
  changes := t.changes.filter fun x ↦ decide (x.owner ≠ o)
  locks := t.locks.filter fun x ↦ decide (x.owner ≠ o)

def commit : KeyTable ω κ :=
  { t.rollback o with
    committed := (t.committed ++ t.changes.map Change.key).filter (t.visible o) }

end KeyTable

/-- A row is locked exclusively by one transaction only, and whoever changes a row holds it so. -/
structure Exclusive (t : KeyTable ω κ) : Prop where
  owner : ∀ x ∈ t.locks, ∀ y ∈ t.locks, x.key = y.key → x.mode = .exclusive → y.owner = x.owner
  changed : ∀ x ∈ t.changes, ⟨x.owner, x.key, .exclusive⟩ ∈ t.locks

variable [DecidableEq ω] [DecidableEq κ] {t t' : KeyTable ω κ} {o p : ω} {k j : κ} {found : Bool}

/-- The transaction holds an existing row exclusively. -/
structure Holds (t : KeyTable ω κ) (o : ω) (k : κ) : Prop where
  lock : ⟨o, k, .exclusive⟩ ∈ t.locks
  row : t.visible o k = true

theorem free_iff {mode : LockMode} : t.free o k mode = true ↔
    ∀ x ∈ t.locks, x.key = k → x.owner = o ∨ mode = .shared ∧ x.mode = .shared := by
  simp only [KeyTable.free, List.all_eq_true, decide_eq_true_eq]

theorem change_mem {b : Bool} (h : t.change o k = some b) : ⟨o, k, b⟩ ∈ t.changes := by
  obtain ⟨x, hx, rfl⟩ := Option.map_eq_some_iff.1 h
  have hkey : x.owner = o ∧ x.key = k := by simpa using List.find?_some hx
  rw [← hkey.1, ← hkey.2]
  exact List.mem_of_find?_eq_some hx

/-- Only its own changes and what is committed tell what a transaction sees of a row. -/
theorem visible_congr (hc : t'.change o k = t.change o k) (hr : k ∈ t'.committed ↔ k ∈ t.committed) :
    t'.visible o k = t.visible o k := by
  rw [KeyTable.visible, KeyTable.visible, hc]
  congr 1
  exact decide_eq_decide.2 hr

theorem change_cons {x : Change ω κ} (h : x.owner ≠ o ∨ x.key ≠ k) {locks : List (RowLock ω κ)} :
    KeyTable.change ⟨t.committed, x :: t.changes, locks⟩ o k = t.change o k := by
  have hx : ¬ (x.owner = o ∧ x.key = k) := by
    intro ⟨ho, hk⟩
    rcases h with h | h
    · exact h ho
    · exact h hk
  simp [KeyTable.change, hx]

theorem change_rollback (h : p ≠ o) : (t.rollback p).change o k = t.change o k := by
  have hfind : ∀ xs : List (Change ω κ), (xs.filter fun x ↦ decide (x.owner ≠ p)).find?
      (fun x ↦ decide (x.owner = o ∧ x.key = k)) = xs.find? fun x ↦ decide (x.owner = o ∧ x.key = k) := by
    intro xs
    induction xs with
    | nil => rfl
    | cons x xs ih =>
      by_cases hx : x.owner = p
      · rw [List.filter_cons_of_neg (by simpa using hx), ih, List.find?_cons_of_neg]
        simp only [decide_eq_true_eq, not_and]
        intro ho
        exact absurd (hx.symm.trans ho) h
      · rw [List.filter_cons_of_pos (by simpa using hx), List.find?_cons, List.find?_cons, ih]
  rw [KeyTable.change, KeyTable.rollback, hfind]
  rfl

section Lock

variable {mode : LockMode} {changes : List (Change ω κ)}

theorem Exclusive.lock (h : Exclusive t) (hf : t.free o k mode = true)
    (hc : ∀ x ∈ changes, x ∈ t.changes ∨ x.owner = o ∧ x.key = k ∧ mode = .exclusive) :
    Exclusive ⟨t.committed, changes, ⟨o, k, mode⟩ :: t.locks⟩ := by
  rw [free_iff] at hf
  refine ⟨fun x hx y hy hkey hmode ↦ ?_, fun x hx ↦ ?_⟩
  · rcases List.mem_cons.1 hx with rfl | hx
    · rcases List.mem_cons.1 hy with rfl | hy
      · rfl
      · rcases hf y hy hkey.symm with ho | ⟨hs, _⟩
        · exact ho
        · rw [hs] at hmode
          cases hmode
    · rcases List.mem_cons.1 hy with rfl | hy
      · rcases hf x hx hkey with ho | ⟨_, hs⟩
        · exact ho.symm
        · rw [hs] at hmode
          cases hmode
      · exact h.owner x hx y hy hkey hmode
  · rcases hc x hx with hx | ⟨rfl, rfl, rfl⟩
    · exact List.mem_cons_of_mem _ (h.changed x hx)
    · exact List.mem_cons_self

end Lock

theorem Exclusive.insertIgnore (h : Exclusive t) (hs : t.insertIgnore o k = some t') : Exclusive t' := by
  unfold KeyTable.insertIgnore at hs
  split at hs
  · split at hs
    · rename_i hf
      cases hs
      exact h.lock hf fun _ hx ↦ .inl hx
    · cases hs
  · split at hs
    · rename_i hf
      cases hs
      refine h.lock hf fun x hx ↦ (List.mem_cons.1 hx).elim (fun he ↦ .inr ?_) .inl
      rw [he]
      exact ⟨rfl, rfl, rfl⟩
    · cases hs

theorem Exclusive.selectForUpdate (h : Exclusive t) (hs : t.selectForUpdate o k = some (t', found)) :
    Exclusive t' := by
  unfold KeyTable.selectForUpdate at hs
  split at hs
  · rename_i hf
    split at hs
    · cases hs
      exact h.lock hf fun _ hx ↦ .inl hx
    · cases hs
      exact h
  · cases hs

theorem Exclusive.delete (h : Exclusive t) (hs : t.delete o k = some t') : Exclusive t' := by
  unfold KeyTable.delete at hs
  split at hs
  · rename_i hf
    split at hs
    · cases hs
      refine h.lock hf fun x hx ↦ (List.mem_cons.1 hx).elim (fun he ↦ .inr ?_) .inl
      rw [he]
      exact ⟨rfl, rfl, rfl⟩
    · cases hs
      exact h
  · cases hs

omit [DecidableEq κ] in
theorem Exclusive.rollback (h : Exclusive t) (o : ω) : Exclusive (t.rollback o) := by
  refine ⟨fun x hx y hy ↦ h.owner x (List.mem_filter.1 hx).1 y (List.mem_filter.1 hy).1, fun x hx ↦ ?_⟩
  obtain ⟨hx, ho⟩ := List.mem_filter.1 hx
  exact List.mem_filter.2 ⟨h.changed x hx, ho⟩

theorem Exclusive.commit (h : Exclusive t) (o : ω) : Exclusive (t.commit o) :=
  ⟨(h.rollback o).owner, (h.rollback o).changed⟩

theorem Holds.unique (h : Exclusive t) (ho : Holds t o k) (hp : Holds t p k) : p = o :=
  h.owner _ ho.lock _ hp.lock rfl rfl

theorem holds_selectForUpdate (hs : t.selectForUpdate o k = some (t', true)) : Holds t' o k := by
  unfold KeyTable.selectForUpdate at hs
  split at hs
  · split at hs
    · rename_i hv
      cases hs
      exact ⟨List.mem_cons_self, hv⟩
    · cases hs
  · cases hs

namespace Holds

theorem insertIgnore (h : Holds t o k) (hs : t.insertIgnore p j = some t') : Holds t' o k := by
  unfold KeyTable.insertIgnore at hs
  split at hs
  · split at hs
    · cases hs
      exact ⟨List.mem_cons_of_mem _ h.lock, h.row⟩
    · cases hs
  · rename_i hv
    split at hs
    · cases hs
      refine ⟨List.mem_cons_of_mem _ h.lock, ?_⟩
      have hne : p ≠ o ∨ j ≠ k := by
        by_contra hne
        rw [not_or, not_not, not_not] at hne
        rw [hne.1, hne.2] at hv
        exact hv h.row
      rw [visible_congr (change_cons hne) .rfl]
      exact h.row
    · cases hs

theorem selectForUpdate (h : Holds t o k) (hs : t.selectForUpdate p j = some (t', found)) : Holds t' o k := by
  unfold KeyTable.selectForUpdate at hs
  split at hs
  · split at hs
    · cases hs
      exact ⟨List.mem_cons_of_mem _ h.lock, h.row⟩
    · cases hs
      exact h
  · cases hs

/-- Nobody else deletes a row that is held. -/
theorem delete (h : Holds t o k) (hne : p ≠ o) (hs : t.delete p j = some t') : Holds t' o k := by
  unfold KeyTable.delete at hs
  split at hs
  · split at hs
    · cases hs
      refine ⟨List.mem_cons_of_mem _ h.lock, ?_⟩
      rw [visible_congr (change_cons (.inl hne)) .rfl]
      exact h.row
    · cases hs
      exact h
  · cases hs

theorem rollback (h : Holds t o k) (hne : p ≠ o) : Holds (t.rollback p) o k := by
  refine ⟨List.mem_filter.2 ⟨h.lock, decide_eq_true hne.symm⟩, ?_⟩
  rw [visible_congr (change_rollback hne) .rfl]
  exact h.row

theorem commit (h : Holds t o k) (he : Exclusive t) (hne : p ≠ o) : Holds (t.commit p) o k := by
  have hnone : t.change p k = none := by
    cases hc : t.change p k with
    | none => rfl
    | some b => exact absurd (he.owner _ h.lock _ (he.changed _ (change_mem hc)) rfl rfl) hne
  refine ⟨(h.rollback hne).lock, ?_⟩
  have hchange : (t.commit p).change o k = t.change o k := change_rollback hne
  have hrow : k ∈ (t.commit p).committed ↔ k ∈ t.committed := by
    have hv : t.visible p k = decide (k ∈ t.committed) := by rw [KeyTable.visible, hnone]; rfl
    rw [KeyTable.commit, List.mem_filter, hv, decide_eq_true_eq]
    exact ⟨And.right, fun hk ↦ ⟨List.mem_append_left _ hk, hk⟩⟩
  rw [visible_congr hchange hrow]
  exact h.row

end Holds

end AdminPlatform.Foundation.RowLocks
