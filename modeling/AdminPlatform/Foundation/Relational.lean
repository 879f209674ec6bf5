import Mathlib.Data.List.Dedup

namespace AdminPlatform.Foundation.Relational

variable {T : Type} {Row : T → Type}

/-- A finite relational store: each table maps primary keys to rows, and `keys`
lists every key in use so that a table can be scanned. -/
structure Store (T : Type) (Row : T → Type) where
  rows : (t : T) → ℕ → Option (Row t)
  keys : T → List ℕ
  complete : ∀ t i r, rows t i = some r → i ∈ keys t

/-- One row written by a transaction; `none` deletes the row. -/
structure Write (Row : T → Type) where
  table : T
  id : ℕ
  value : Option (Row table)

def Store.empty : Store T Row where
  rows _ _ := none
  keys _ := []
  complete _ _ _ h := by cases h

def Store.scan (db : Store T Row) (t : T) : List (ℕ × Row t) :=
  (db.keys t).dedup.filterMap fun i ↦ (db.rows t i).map (i, ·)

@[simp] theorem mem_scan {db : Store T Row} {t : T} {i : ℕ} {r : Row t} :
    (i, r) ∈ db.scan t ↔ db.rows t i = some r := by
  simp only [Store.scan, List.mem_filterMap, List.mem_dedup, Option.map_eq_some_iff, Prod.mk.injEq]
  constructor
  · rintro ⟨j, -, r', hr, rfl, rfl⟩
    exact hr
  · intro h
    exact ⟨i, db.complete t i r h, r, h, rfl, rfl⟩

theorem scan_keys_nodup (db : Store T Row) (t : T) : ((db.scan t).map Prod.fst).Nodup := by
  have h : ((db.scan t).map Prod.fst).Sublist (db.keys t).dedup := by
    unfold Store.scan
    induction (db.keys t).dedup with
    | nil => simp
    | cons i is ih =>
      cases hr : db.rows t i with
      | none => simpa [hr] using ih.cons i
      | some r => simpa [hr] using ih.cons_cons i
  exact h.nodup (List.nodup_dedup _)

/-- The rows of a table that satisfy `p`, with their keys. -/
def Store.select (db : Store T Row) (t : T) (p : ℕ → Row t → Bool) : List (ℕ × Row t) :=
  (db.scan t).filter fun x ↦ p x.1 x.2

@[simp] theorem mem_select {db : Store T Row} {t : T} {p : ℕ → Row t → Bool} {i : ℕ} {r : Row t} :
    (i, r) ∈ db.select t p ↔ db.rows t i = some r ∧ p i r = true := by
  simp [Store.select]

theorem select_key {db : Store T Row} {t : T} {i : ℕ} {r : Row t} (h : db.rows t i = some r) :
    (db.select t fun j _ ↦ decide (j = i)) = [(i, r)] := by
  have hnodup : (db.select t fun j _ ↦ decide (j = i)).Nodup :=
    ((scan_keys_nodup db t).of_map _).filter _
  refine List.perm_singleton.1 ((List.perm_ext_iff_of_nodup hnodup (List.nodup_singleton _)).2 ?_)
  rintro ⟨j, r'⟩
  rw [mem_select, decide_eq_true_eq, List.mem_singleton, Prod.mk.injEq]
  constructor
  · rintro ⟨hr, rfl⟩
    exact ⟨rfl, Option.some.inj (hr.symm.trans h)⟩
  · rintro ⟨rfl, rfl⟩
    exact ⟨h, rfl⟩

/-- The writes of an `UPDATE … SET f WHERE p`. -/
def Store.update (db : Store T Row) (t : T) (p : ℕ → Row t → Bool) (f : Row t → Row t) :
    List (Write Row) := (db.select t p).map fun x ↦ ⟨t, x.1, some (f x.2)⟩

/-- The writes of a `DELETE … WHERE p`. -/
def Store.delete (db : Store T Row) (t : T) (p : ℕ → Row t → Bool) : List (Write Row) :=
  (db.select t p).map fun x ↦ ⟨t, x.1, none⟩

theorem mem_update {db : Store T Row} {t : T} {p : ℕ → Row t → Bool} {f : Row t → Row t}
    {w : Write Row} : w ∈ db.update t p f ↔
      ∃ i r, db.rows t i = some r ∧ p i r = true ∧ w = ⟨t, i, some (f r)⟩ := by
  simp only [Store.update, List.mem_map, Prod.exists, mem_select]
  exact ⟨fun ⟨i, r, h, e⟩ ↦ ⟨i, r, h.1, h.2, e.symm⟩, fun ⟨i, r, h, h', e⟩ ↦ ⟨i, r, ⟨h, h'⟩, e.symm⟩⟩

theorem mem_delete {db : Store T Row} {t : T} {p : ℕ → Row t → Bool} {w : Write Row} :
    w ∈ db.delete t p ↔ ∃ i r, db.rows t i = some r ∧ p i r = true ∧ w = ⟨t, i, none⟩ := by
  simp only [Store.delete, List.mem_map, Prod.exists, mem_select]
  exact ⟨fun ⟨i, r, h, e⟩ ↦ ⟨i, r, h.1, h.2, e.symm⟩, fun ⟨i, r, h, h', e⟩ ↦ ⟨i, r, ⟨h, h'⟩, e.symm⟩⟩

variable [DecidableEq T]

def Write.at (w : Write Row) (t : T) (i : ℕ) : Option (Option (Row t)) :=
  if h : w.table = t then if w.id = i then some (h ▸ w.value) else none else none

def pending : List (Write Row) → (t : T) → ℕ → Option (Option (Row t))
  | [], _, _ => none
  | w :: ws, t, i => (pending ws t i).or (w.at t i)

def touches (ws : List (Write Row)) (t : T) (i : ℕ) : Prop := ∃ w ∈ ws, w.table = t ∧ w.id = i

@[simp] theorem Write.at_self (t : T) (i : ℕ) (v : Option (Row t)) :
    (⟨t, i, v⟩ : Write Row).at t i = some v := by simp [Write.at]

theorem Write.at_eq_some {w : Write Row} {t : T} {i : ℕ} {v : Option (Row t)}
    (h : w.at t i = some v) : w = ⟨t, i, v⟩ := by
  obtain ⟨t', i', v'⟩ := w
  simp only [Write.at] at h
  split at h
  · next ht =>
    split at h
    · next hi => subst ht hi; simpa using h
    · cases h
  · cases h

theorem Write.at_ne {w : Write Row} {t : T} {i : ℕ} (h : w.table = t → w.id ≠ i) :
    w.at t i = none := by
  cases hw : w.at t i with
  | none => rfl
  | some v => rw [Write.at_eq_some hw] at h; exact absurd rfl (h rfl)

@[simp] theorem Write.at_other {s t : T} (hst : s ≠ t) (i j : ℕ) (v : Option (Row s)) :
    (⟨s, j, v⟩ : Write Row).at t i = none := Write.at_ne fun h ↦ absurd h hst

theorem Write.at_id_ne {t : T} {i j : ℕ} (hij : j ≠ i) (v : Option (Row t)) :
    (⟨t, j, v⟩ : Write Row).at t i = none := Write.at_ne fun _ ↦ hij

@[simp] theorem pending_nil (t : T) (i : ℕ) : pending ([] : List (Write Row)) t i = none := rfl

theorem pending_cons (w : Write Row) (ws : List (Write Row)) (t : T) (i : ℕ) :
    pending (w :: ws) t i = (pending ws t i).or (w.at t i) := rfl

@[simp] theorem pending_singleton (w : Write Row) (t : T) (i : ℕ) :
    pending [w] t i = w.at t i := by simp [pending]

theorem of_pending_singleton {P : (s : T) → ℕ → Option (Row s) → Prop} {t : T} {i : ℕ} {v : Option (Row t)}
    (h : P t i v) (s : T) (k : ℕ) (v' : Option (Row s))
    (hp : pending [(⟨t, i, v⟩ : Write Row)] s k = some v') : P s k v' := by
  rw [pending_singleton] at hp
  cases Write.at_eq_some hp
  exact h

theorem lt_of_pending_singleton {t : T} {i n : ℕ} {v : Option (Row t)} (h : i < n) (s : T) (k : ℕ) (r : Row s)
    (hp : pending [(⟨t, i, v⟩ : Write Row)] s k = some (some r)) : k < n :=
  @of_pending_singleton _ _ _ (fun _ k _ ↦ k < n) t i v h s k (some r) hp

theorem pending_append (ws ws' : List (Write Row)) (t : T) (i : ℕ) :
    pending (ws ++ ws') t i = (pending ws' t i).or (pending ws t i) := by
  induction ws with
  | nil => simp
  | cons w ws ih => rw [List.cons_append, pending_cons, pending_cons, ih, Option.or_assoc]

theorem pending_mem {ws : List (Write Row)} {t : T} {i : ℕ} {v : Option (Row t)}
    (h : pending ws t i = some v) : (⟨t, i, v⟩ : Write Row) ∈ ws := by
  induction ws with
  | nil => cases h
  | cons w ws ih =>
    rw [pending_cons, Option.or_eq_some_iff] at h
    rcases h with h | ⟨-, h⟩
    · exact List.mem_cons_of_mem _ (ih h)
    · exact Write.at_eq_some h ▸ List.mem_cons_self

theorem pending_touches {ws : List (Write Row)} {t : T} {i : ℕ} {v : Option (Row t)}
    (h : pending ws t i = some v) : touches ws t i := ⟨_, pending_mem h, rfl, rfl⟩

theorem pending_eq_none {ws : List (Write Row)} {t : T} {i : ℕ} (h : ¬ touches ws t i) :
    pending ws t i = none := by
  cases hp : pending ws t i with
  | none => rfl
  | some v => exact absurd (pending_touches hp) h

def Store.apply (db : Store T Row) (ws : List (Write Row)) : Store T Row where
  rows t i := (pending ws t i).getD (db.rows t i)
  keys t := db.keys t ++ (ws.filter fun w ↦ w.table = t).map Write.id
  complete t i r h := by
    rw [List.mem_append]
    cases hp : pending ws t i with
    | none => rw [hp] at h; exact .inl (db.complete t i r h)
    | some v => exact .inr (List.mem_map.2 ⟨_, List.mem_filter.2 ⟨pending_mem hp, by simp⟩, rfl⟩)

@[simp] theorem apply_rows (db : Store T Row) (ws : List (Write Row)) (t : T) (i : ℕ) :
    (db.apply ws).rows t i = (pending ws t i).getD (db.rows t i) := rfl

theorem apply_rows_of_pending {db : Store T Row} {ws : List (Write Row)} {t : T} {i : ℕ}
    {v : Option (Row t)} (h : pending ws t i = some v) : (db.apply ws).rows t i = v := by
  rw [apply_rows, h]; rfl

theorem apply_rows_of_none {db : Store T Row} {ws : List (Write Row)} {t : T} {i : ℕ}
    (h : pending ws t i = none) : (db.apply ws).rows t i = db.rows t i := by
  rw [apply_rows, h]; rfl

theorem apply_append_rows (db : Store T Row) (ws ws' : List (Write Row)) (t : T) (i : ℕ) :
    (db.apply (ws ++ ws')).rows t i = ((db.apply ws).apply ws').rows t i := by
  simp only [apply_rows, pending_append]
  cases pending ws' t i <;> rfl

theorem pending_update {db : Store T Row} {t : T} {p : ℕ → Row t → Bool} {f : Row t → Row t}
    {i : ℕ} {v : Option (Row t)} (h : pending (db.update t p f) t i = some v) :
    ∃ r, db.rows t i = some r ∧ p i r = true ∧ v = some (f r) := by
  obtain ⟨j, r, hr, hp, hw⟩ := mem_update.1 (pending_mem h)
  cases hw
  exact ⟨r, hr, hp, rfl⟩

theorem pending_delete {db : Store T Row} {t : T} {p : ℕ → Row t → Bool} {i : ℕ}
    {v : Option (Row t)} (h : pending (db.delete t p) t i = some v) :
    ∃ r, db.rows t i = some r ∧ p i r = true ∧ v = none := by
  obtain ⟨j, r, hr, hp, hw⟩ := mem_delete.1 (pending_mem h)
  cases hw
  exact ⟨r, hr, hp, rfl⟩

theorem pending_isSome_of_touches {ws : List (Write Row)} {t : T} {i : ℕ} (h : touches ws t i) :
    (pending ws t i).isSome := by
  obtain ⟨w, hw, rfl, rfl⟩ := h
  induction ws with
  | nil => cases hw
  | cons w' ws ih =>
    rw [pending_cons, Option.isSome_or]
    rcases List.mem_cons.1 hw with rfl | hw
    · simp [Write.at]
    · simp [ih hw]

theorem pending_update_self {db : Store T Row} {t : T} {p : ℕ → Row t → Bool}
    {f : Row t → Row t} {i : ℕ} {r : Row t} (hr : db.rows t i = some r) (hp : p i r = true) :
    pending (db.update t p f) t i = some (some (f r)) := by
  have ht : touches (db.update t p f) t i := ⟨_, mem_update.2 ⟨i, r, hr, hp, rfl⟩, rfl, rfl⟩
  obtain ⟨v, hv⟩ := Option.isSome_iff_exists.1 (pending_isSome_of_touches ht)
  obtain ⟨r', hr', -, rfl⟩ := pending_update hv
  rw [hr] at hr'
  cases hr'
  exact hv

theorem pending_delete_self {db : Store T Row} {t : T} {p : ℕ → Row t → Bool} {i : ℕ} {r : Row t}
    (hr : db.rows t i = some r) (hp : p i r = true) : pending (db.delete t p) t i = some none := by
  have ht : touches (db.delete t p) t i := ⟨_, mem_delete.2 ⟨i, r, hr, hp, rfl⟩, rfl, rfl⟩
  obtain ⟨v, hv⟩ := Option.isSome_iff_exists.1 (pending_isSome_of_touches ht)
  obtain ⟨-, -, -, rfl⟩ := pending_delete hv
  exact hv

theorem update_other {db : Store T Row} {s t : T} (hst : s ≠ t) (p : ℕ → Row s → Bool)
    (f : Row s → Row s) (i : ℕ) : pending (db.update s p f) t i = none := by
  refine pending_eq_none ?_
  rintro ⟨w, hw, ht, -⟩
  obtain ⟨j, r, -, -, rfl⟩ := mem_update.1 hw
  exact hst ht

theorem delete_other {db : Store T Row} {s t : T} (hst : s ≠ t) (p : ℕ → Row s → Bool) (i : ℕ) :
    pending (db.delete s p) t i = none := by
  refine pending_eq_none ?_
  rintro ⟨w, hw, ht, -⟩
  obtain ⟨j, r, -, -, rfl⟩ := mem_delete.1 hw
  exact hst ht

theorem apply_one (db : Store T Row) (t : T) (i : ℕ) (v : Option (Row t)) (k : ℕ) :
    (db.apply [⟨t, i, v⟩]).rows t k = if k = i then v else db.rows t k := by
  rw [apply_rows, pending_singleton]
  by_cases hk : k = i
  · rw [hk, Write.at_self, if_pos rfl]
    rfl
  · rw [Write.at_id_ne fun he ↦ hk he.symm, if_neg hk]
    rfl

theorem apply_one_other (db : Store T Row) {s t : T} (h : s ≠ t) (i : ℕ) (v : Option (Row s)) (k : ℕ) :
    (db.apply [⟨s, i, v⟩]).rows t k = db.rows t k := by
  rw [apply_rows, pending_singleton, Write.at_other h]
  rfl

theorem apply_of_deletes {db : Store T Row} {ws : List (Write Row)} {t : T} {i : ℕ} {r : Row t}
    (hd : ∀ k v, (⟨t, k, v⟩ : Write Row) ∈ ws → v = none) (h : (db.apply ws).rows t i = some r) :
    db.rows t i = some r := by
  cases hp : pending ws t i with
  | none => rwa [apply_rows_of_none hp] at h
  | some v =>
    rw [apply_rows_of_pending hp, hd i v (pending_mem hp)] at h
    cases h

end AdminPlatform.Foundation.Relational
