import AdminPlatform.Rbac.SeedRoles
import Mathlib.Logic.Function.Basic

namespace AdminPlatform.Rbac.SeedMenus

open Model.Schema Model.Service Model.Scope Foundation.Relational Foundation.Transaction
open Foundation.Sequential Menu.Service MenuRepository Seed SeedRoles

abbrev Entry := SeedItem × Option String

def Entry.key (e : Entry) : String := e.1.seedKey

mutual

def entriesOf (parent : Option String) : SeedMenu → List Entry
  | .node item children => (item, parent) :: entriesOfAll (some item.seedKey) children

def entriesOfAll (parent : Option String) : List SeedMenu → List Entry
  | [] => []
  | n :: ns => entriesOf parent n ++ entriesOfAll parent ns

end

mutual

theorem key_entriesOf (parent : Option String) : (n : SeedMenu) →
    (entriesOf parent n).map Entry.key = keysOf n
  | .node item children => by
    rw [entriesOf, keysOf, List.map_cons, key_entriesOfAll (some item.seedKey) children]
    rfl

theorem key_entriesOfAll (parent : Option String) : (ns : List SeedMenu) →
    (entriesOfAll parent ns).map Entry.key = keysOfAll ns
  | [] => rfl
  | n :: ns => by
    rw [entriesOfAll, keysOfAll, List.map_append, key_entriesOf parent n, key_entriesOfAll parent ns]

end

variable {v v' : Snapshot} {g : Statement} {i j : ℕ} {db : Db} {ids ids' : String → ℕ}
  {es new : List Entry} {item : SeedItem} {parent : Option String} {loaded m : Menu} {key : String}

/-- The unique index `uq_menus_seed_key`. -/
def SeedKeysUnique (db : Db) : Prop := ∀ i j (m m' : Menu) key, db.rows .menus i = some m →
  db.rows .menus j = some m' → m.seedKey = some key → m'.seedKey = some key → i = j

theorem byKey_some {x : ℕ × Menu} (h : byKey (seededMenus db) key = some x) :
    db.rows .menus x.1 = some x.2 ∧ x.2.seedKey = some key := by
  have hm := List.mem_of_find?_eq_some h
  have hk := List.find?_some h
  obtain ⟨i, m⟩ := x
  exact ⟨(mem_select.1 hm).1, of_decide_eq_true hk⟩

theorem byKey_none (h : byKey (seededMenus db) key = none) (hm : db.rows .menus i = some m) :
    m.seedKey ≠ some key := by
  intro hk
  have hs : (i, m) ∈ seededMenus db := mem_select.2 ⟨hm, by rw [hk]; rfl⟩
  exact List.find?_eq_none.1 h _ hs (decide_eq_true hk)

theorem byKey_eq (hu : SeedKeysUnique db) (hm : db.rows .menus i = some m)
    (hk : m.seedKey = some key) : byKey (seededMenus db) key = some (i, m) := by
  cases hx : byKey (seededMenus db) key with
  | none => exact absurd hk (byKey_none hx hm)
  | some x =>
    obtain ⟨j, m'⟩ := x
    obtain ⟨hm', hk'⟩ := byKey_some hx
    obtain rfl := hu j i m' m key hm' hm hk' hk
    rw [hm] at hm'
    cases hm'
    rfl

theorem flushed_self {α : Type} [DecidableEq α] (a b : α) : flushed a a (some b) = b := by
  simp only [flushed]
  split
  · next h => exact h.symm
  · rfl

theorem patch_assigned {parentId : Option ℕ} (hk : loaded.seedKey = some item.seedKey) :
    patch loaded (assigned item parentId) loaded = newMenu item parentId := by
  simp only [patch, assigned, flushed_self, newMenu, Option.getD_some, hk]

theorem dirty_some {α : Type} [DecidableEq α] {a b : α} : dirty a (some b) = false ↔ b = a := by
  simp [dirty]

theorem isDirty_assigned {parentId : Option ℕ} (hk : loaded.seedKey = some item.seedKey) :
    isDirty loaded (assigned item parentId) = false ↔ loaded = newMenu item parentId := by
  simp only [isDirty, assigned, Bool.or_eq_false_iff, dirty_some, Option.some.injEq]
  constructor
  · rintro ⟨⟨⟨⟨⟨⟨⟨⟨⟨h₁, h₂⟩, h₃⟩, h₄⟩, h₅⟩, h₆⟩, h₇⟩, h₈⟩, h₉⟩, h₁₀⟩
    cases loaded
    cases h₁; cases h₂; cases h₃; cases h₄; cases h₅; cases h₆; cases h₇; cases h₈; cases h₉; cases h₁₀
    cases hk
    rfl
  · rintro rfl
    exact ⟨⟨⟨⟨⟨⟨⟨⟨⟨rfl, rfl⟩, rfl⟩, rfl⟩, rfl⟩, rfl⟩, rfl⟩, rfl⟩, rfl⟩, rfl⟩

def Origin (db : Db) (key : String) (i : ℕ) : Prop :=
  (∃ m, db.rows .menus i = some m ∧ m.seedKey = some key) ∨
    db.rows .menus i = none ∧ ∀ j m, db.rows .menus j = some m → m.seedKey ≠ some key

/-- The menus of the entries are as the manifest says under the ids they have, and the others as
they were. -/
structure MenusSeeded (ids : String → ℕ) (es : List Entry) (db : Db) (v : Snapshot) : Prop where
  rows : ∀ e ∈ es, v.db.rows .menus (ids e.key) = some (newMenu e.1 (e.2.map ids))
  parents : ∀ e ∈ es, ∀ p, e.2 = some p → p ∈ es.map Entry.key
  origin : ∀ e ∈ es, Origin db e.key (ids e.key)
  others : ∀ i, (∀ e ∈ es, ids e.key ≠ i) → v.db.rows .menus i = db.rows .menus i
  frame : ∀ t i, t ≠ .menus → v.db.rows t i = db.rows t i
  below : Below v

theorem MenusSeeded.init (h : Below v) : MenusSeeded ids [] v.db v :=
  ⟨fun _ he ↦ (by cases he), fun _ he ↦ (by cases he), fun _ he ↦ (by cases he), fun _ _ ↦ rfl,
    fun _ _ _ ↦ rfl, h⟩

theorem MenusSeeded.ne (h : MenusSeeded ids es db v) (hnew : key ∉ es.map Entry.key)
    (hi : (∃ m, db.rows .menus i = some m ∧ m.seedKey = some key) ∨ i = v.next) :
    ∀ e ∈ es, ids e.key ≠ i := by
  rintro e he rfl
  rcases hi with ⟨m, hm, hk⟩ | hi
  · rcases h.origin e he with ⟨m', hm', hk'⟩ | ⟨hn, -⟩
    · rw [hm] at hm'
      cases hm'
      rw [hk] at hk'
      cases hk'
      exact hnew (List.mem_map.2 ⟨e, he, rfl⟩)
    · rw [hm] at hn
      cases hn
  · exact absurd (h.below .menus _ _ (h.rows e he)) (by omega)

theorem map_update {i : ℕ} (hnew : key ∉ es.map Entry.key)
    (hp : ∀ p, parent = some p → p ∈ es.map Entry.key) :
    parent.map (Function.update ids key i) = parent.map ids := by
  cases parent with
  | none => rfl
  | some p =>
    have hne : p ≠ key := by
      rintro rfl
      exact hnew (hp p rfl)
    rw [Option.map_some, Option.map_some, Function.update_of_ne hne]

/-- One more item is as the manifest says. -/
theorem MenusSeeded.add (h : MenusSeeded ids es db v) (hnew : item.seedKey ∉ es.map Entry.key)
    (hp : ∀ p, parent = some p → p ∈ es.map Entry.key) (hne : ∀ e ∈ es, ids e.key ≠ i)
    (ho : Origin db item.seedKey i)
    (hrow : v'.db.rows .menus i = some (newMenu item (parent.map ids)))
    (hrest : ∀ k, k ≠ i → v'.db.rows .menus k = v.db.rows .menus k)
    (hframe : ∀ t k, t ≠ .menus → v'.db.rows t k = v.db.rows t k) (hb : Below v') :
    MenusSeeded (Function.update ids item.seedKey i) (es ++ [(item, parent)]) db v' := by
  have hids : ∀ e ∈ es, Function.update ids item.seedKey i e.key = ids e.key := by
    intro e he
    refine Function.update_of_ne ?_ i ids
    intro hk
    exact hnew (List.mem_map.2 ⟨e, he, hk⟩)
  have hself : Function.update ids item.seedKey i item.seedKey = i := Function.update_self _ _ _
  refine ⟨fun e he ↦ ?_, fun e he p hep ↦ ?_, fun e he ↦ ?_, fun k hk ↦ ?_, fun t k ht ↦ ?_, hb⟩
  · rcases List.mem_append.1 he with he | he
    · rw [hids e he, hrest _ (hne e he), h.rows e he, map_update hnew (h.parents e he)]
    · rw [List.mem_singleton.1 he, map_update hnew hp]
      show v'.db.rows .menus (Function.update ids item.seedKey i item.seedKey) = _
      rw [hself, hrow]
  · rw [List.map_append, List.mem_append]
    rcases List.mem_append.1 he with he | he
    · exact .inl (h.parents e he p hep)
    · rw [List.mem_singleton.1 he] at hep
      exact .inl (hp p hep)
  · rcases List.mem_append.1 he with he | he
    · rw [hids e he]
      exact h.origin e he
    · rw [List.mem_singleton.1 he]
      show Origin db item.seedKey (Function.update ids item.seedKey i item.seedKey)
      rwa [hself]
  · have hki : k ≠ i := by
      have hlast := hk (item, parent) (List.mem_append_right _ List.mem_cons_self)
      intro he
      exact hlast (hself.trans he.symm)
    rw [hrest k hki]
    refine h.others k fun e he ↦ ?_
    rw [← hids e he]
    exact hk e (List.mem_append_left _ he)
  · rw [hframe t k ht, h.frame t k ht]

theorem rows_write {s : Table} {x : Row s} (hw : g.writes = [⟨s, i, some x⟩]) (t : Table) (k : ℕ) :
    (runView v g).db.rows t k = (v.db.apply [⟨s, i, some x⟩]).rows t k := by
  show (v.db.apply g.writes).rows t k = _
  rw [hw]

/-- The menu of the item is written under `i`. -/
theorem MenusSeeded.write (h : MenusSeeded ids es db v) (hnew : item.seedKey ∉ es.map Entry.key)
    (hp : ∀ p, parent = some p → p ∈ es.map Entry.key)
    (hi : (∃ m, db.rows .menus i = some m ∧ m.seedKey = some item.seedKey) ∨ i = v.next)
    (ho : Origin db item.seedKey i) (hlt : i < v.next + g.fresh)
    (hw : g.writes = [⟨.menus, i, some (newMenu item (parent.map ids))⟩]) :
    MenusSeeded (Function.update ids item.seedKey i) (es ++ [(item, parent)]) db (runView v g) := by
  refine h.add hnew hp (h.ne hnew hi) ho ?_ (fun k hk ↦ ?_) (fun t k ht ↦ ?_) (h.below.write hw hlt)
  · rw [rows_write hw, apply_one, if_pos rfl]
  · rw [rows_write hw, apply_one, if_neg hk]
  · rw [rows_write hw, apply_one_other v.db ht.symm]

theorem ensures_upsertItem (h : MenusSeeded ids es db v) (hnew : item.seedKey ∉ es.map Entry.key)
    (hp : ∀ p, parent = some p → p ∈ es.map Entry.key) :
    Ensures (upsertItem (seededMenus db) item (parent.map ids)) v fun id v' ↦
      MenusSeeded (Function.update ids item.seedKey id) (es ++ [(item, parent)]) db v' := by
  unfold upsertItem
  cases hx : byKey (seededMenus db) item.seedKey with
  | none =>
    have hno : ∀ j m, db.rows .menus j = some m → m.seedKey ≠ some item.seedKey :=
      fun j m hm ↦ byKey_none hx hm
    refine ensures_bind (ensures_query fun g a hq ↦ ?_)
    split at hq
    · cases hq
    · next locks hl =>
      split at hq
      · cases hq
      · cases hq
        have hnone : db.rows .menus v.next = none := by
          rw [← h.others v.next (h.ne hnew (.inr rfl))]
          exact h.below.none
        exact ensures_pure (h.write hnew hp (.inr rfl) (.inr ⟨hnone, hno⟩) (Nat.lt_succ_self _) rfl)
  | some x =>
    obtain ⟨id, loaded⟩ := x
    obtain ⟨hm, hk⟩ := byKey_some hx
    have hi : ∃ m, db.rows .menus id = some m ∧ m.seedKey = some item.seedKey := ⟨loaded, hm, hk⟩
    have hne := h.ne hnew (.inl hi)
    have hcur : v.db.rows .menus id = some loaded := (h.others id hne).trans hm
    refine ensures_bind (ensures_query fun g a hq ↦ ?_)
    split at hq
    · cases hq
    · split at hq
      · next hd =>
        cases hq
        rw [Bool.not_eq_true', isDirty_assigned hk] at hd
        refine ensures_pure ?_
        have hv : ∀ t k, (runView v ({ notes := [.menuSeeded id (parent.map ids)
            (parentStep loaded (parent.map ids))] } : Statement)).db.rows t k = v.db.rows t k := by
          intro t k
          exact apply_rows_of_none rfl
        refine h.add hnew hp hne (.inl hi) ?_ (fun k _ ↦ hv .menus k) (fun t k _ ↦ hv t k) fun t k r hr ↦ ?_
        · rw [hv, hcur, ← hd]
        · rw [hv] at hr
          exact h.below t k r hr
      · rw [hcur] at hq
        dsimp only at hq
        split at hq
        · cases hq
        · cases hq
          refine ensures_pure (h.write hnew hp (.inl hi) (.inl hi) ?_ ?_)
          · exact Nat.lt_of_lt_of_le (h.below .menus id loaded hcur) (Nat.le_add_right _ _)
          · rw [patch_assigned hk]

def Joined (ids : String → ℕ) (es new : List Entry) (db : Db) (v : Snapshot) : Prop :=
  ∃ ids', (∀ p ∈ es.map Entry.key, ids' p = ids p) ∧ MenusSeeded ids' (es ++ new) db v

theorem map_congr (h : ∀ p ∈ es.map Entry.key, ids' p = ids p)
    (hp : ∀ p, parent = some p → p ∈ es.map Entry.key) : parent.map ids = parent.map ids' := by
  cases parent with
  | none => rfl
  | some p => rw [Option.map_some, Option.map_some, h p (hp p rfl)]

mutual

theorem ensures_upsert : (n : SeedMenu) → ∀ {v : Snapshot} {ids : String → ℕ} {es : List Entry}
    {parent : Option String}, MenusSeeded ids es db v →
    (∀ p, parent = some p → p ∈ es.map Entry.key) → (es.map Entry.key ++ keysOf n).Nodup →
    Ensures (upsert (seededMenus db) (parent.map ids) n) v fun _ v' ↦
      Joined ids es (entriesOf parent n) db v'
  | .node item children, v, ids, es, parent, h, hp, hnd => by
    have hnew : item.seedKey ∉ es.map Entry.key := by
      intro hm
      exact (List.nodup_append.1 hnd).2.2 _ hm _ List.mem_cons_self rfl
    refine ensures_bind (ensures_mono (ensures_upsertItem h hnew hp) fun id v₁ h₁ ↦ ?_)
    have hids : ∀ p ∈ es.map Entry.key, Function.update ids item.seedKey id p = ids p := by
      intro p hm
      refine Function.update_of_ne ?_ id ids
      rintro rfl
      exact hnew hm
    have hid : some id = (some item.seedKey).map (Function.update ids item.seedKey id) := by
      rw [Option.map_some, Function.update_self]
    rw [hid]
    refine ensures_mono (ensures_upsertAll children h₁ (fun p hp ↦ ?_) ?_) fun _ v₂ h₂ ↦ ?_
    · cases hp
      rw [List.map_append]
      exact List.mem_append_right _ List.mem_cons_self
    · rw [List.map_append, List.append_assoc]
      exact hnd
    · obtain ⟨ids₂, hs, h₂⟩ := h₂
      refine ⟨ids₂, fun p hm ↦ ?_, ?_⟩
      · rw [hs p (by rw [List.map_append]; exact List.mem_append_left _ hm), hids p hm]
      · rw [List.append_assoc] at h₂
        exact h₂

theorem ensures_upsertAll : (ns : List SeedMenu) → ∀ {v : Snapshot} {ids : String → ℕ}
    {es : List Entry} {parent : Option String}, MenusSeeded ids es db v →
    (∀ p, parent = some p → p ∈ es.map Entry.key) → (es.map Entry.key ++ keysOfAll ns).Nodup →
    Ensures (upsertAll (seededMenus db) (parent.map ids) ns) v fun _ v' ↦
      Joined ids es (entriesOfAll parent ns) db v'
  | [], v, ids, es, parent, h, _, _ => by
    refine ensures_pure ⟨ids, fun _ _ ↦ rfl, ?_⟩
    rw [entriesOfAll, List.append_nil]
    exact h
  | n :: ns, v, ids, es, parent, h, hp, hnd => by
    rw [keysOfAll, ← List.append_assoc] at hnd
    refine ensures_bind (ensures_mono (ensures_upsert n h hp (List.nodup_append.1 hnd).1)
      fun _ v₁ h₁ ↦ ?_)
    obtain ⟨ids₁, hs₁, h₁⟩ := h₁
    rw [map_congr hs₁ hp]
    refine ensures_mono (ensures_upsertAll ns h₁ (fun p he ↦ ?_) ?_) fun _ v₂ h₂ ↦ ?_
    · rw [List.map_append]
      exact List.mem_append_left _ (hp p he)
    · rw [List.map_append, key_entriesOf]
      exact hnd
    · obtain ⟨ids₂, hs₂, h₂⟩ := h₂
      refine ⟨ids₂, fun p hm ↦ ?_, ?_⟩
      · rw [hs₂ p (by rw [List.map_append]; exact List.mem_append_left _ hm), hs₁ p hm]
      · rw [entriesOfAll, ← List.append_assoc]
        exact h₂

end

theorem completes_upsertItem (hu : SeedKeysUnique v.db)
    (h : v.db.rows .menus (ids item.seedKey) = some (newMenu item (parent.map ids))) :
    Completes (upsertItem (seededMenus v.db) item (parent.map ids)) v fun id v' ↦
      id = ids item.seedKey ∧ v' = v := by
  have hx : byKey (seededMenus v.db) item.seedKey =
      some (ids item.seedKey, newMenu item (parent.map ids)) := byKey_eq hu h rfl
  have hd : isDirty (newMenu item (parent.map ids)) (assigned item (parent.map ids)) = false :=
    (isDirty_assigned rfl).2 rfl
  have hs : parentStep (newMenu item (parent.map ids)) (parent.map ids) = .kept := if_pos rfl
  unfold upsertItem
  rw [hx]
  refine completes_bind (completes_query (g := { notes := [.menuSeeded (ids item.seedKey)
    (parent.map ids) .kept] }) (a := newMenu item (parent.map ids)) ?_ (completes_pure ?_))
  · dsimp only
    rw [hd, hs]
    rfl
  · exact ⟨rfl, by simp only [runView, apply_nil]; rfl⟩

mutual

/-- Menus that are as the manifest says are left alone. -/
theorem completes_upsert (hu : SeedKeysUnique v.db) : (n : SeedMenu) → ∀ {parent : Option String},
    (∀ e ∈ entriesOf parent n, v.db.rows .menus (ids e.key) = some (newMenu e.1 (e.2.map ids))) →
    Completes (upsert (seededMenus v.db) (parent.map ids) n) v fun _ v' ↦ v' = v
  | .node item children, parent, h => by
    have hrow := h (item, parent) List.mem_cons_self
    refine completes_bind (completes_mono (completes_upsertItem hu hrow) fun id v' h' ↦ ?_)
    obtain ⟨hi, hv⟩ := h'
    have hid : some id = (some item.seedKey).map ids := congrArg some hi
    rw [hid, hv]
    exact completes_upsertAll hu children fun e he ↦ h e (List.mem_cons_of_mem _ he)

theorem completes_upsertAll (hu : SeedKeysUnique v.db) : (ns : List SeedMenu) →
    ∀ {parent : Option String},
    (∀ e ∈ entriesOfAll parent ns, v.db.rows .menus (ids e.key) = some (newMenu e.1 (e.2.map ids))) →
    Completes (upsertAll (seededMenus v.db) (parent.map ids) ns) v fun _ v' ↦ v' = v
  | [], _, _ => completes_pure rfl
  | n :: ns, parent, h => by
    refine completes_bind (completes_mono (completes_upsert hu n fun e he ↦
      h e (List.mem_append_left _ he)) fun _ v' he ↦ ?_)
    rw [he]
    exact completes_upsertAll hu ns fun e he ↦ h e (List.mem_append_right _ he)

end

end AdminPlatform.Rbac.SeedMenus
