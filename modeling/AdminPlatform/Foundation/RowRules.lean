import AdminPlatform.Foundation.RelyGuarantee

namespace AdminPlatform.Foundation.RowRules

open Relational Transaction Interleaving RelyGuarantee

variable {T : Type} {Row : T → Type} {K X N ε α β : Type}

/-- What may become of each row, whoever changes it. -/
structure Rules (T : Type) (Row : T → Type) where
  step : (t : T) → ℕ → Option (Row t) → Option (Row t) → Prop
  refl : ∀ t i r, step t i r r
  trans : ∀ t i r r' r'', step t i r r' → step t i r' r'' → step t i r r''

def Rules.Obeys (R : Rules T Row) (db db' : Store T Row) : Prop :=
  ∀ t i, R.step t i (db.rows t i) (db'.rows t i)

structure Kept (R : Rules T Row) where
  holds : Store T Row → Prop
  keep : ∀ db db', holds db → R.Obeys db db' → holds db'

def Drawn (w : World T Row X N) : Prop := ∀ t i r, w.db.rows t i = some r → i < w.next

/-- The agreement to change rows by the rules only. -/
def protocol (R : Rules T Row) (I : Kept R) : Protocol T Row K X N where
  inv w := I.holds w.db ∧ Drawn w
  guar w w' := R.Obeys w.db w'.db
  change _ _ := True
  prot _ _ _ := True
  guar_refl w t i := R.refl t i _
  guar_trans w w' w'' h h' t i := R.trans t i _ _ _ (h t i) (h' t i)
  prot_refl _ _ := trivial
  prot_trans _ _ _ _ _ _ := trivial
  quiet w w' h hdb _ _ _ hn := by
    refine ⟨⟨hdb ▸ h.1, fun t i r hr ↦ ?_⟩, fun t i ↦ ?_, trivial, fun _ ↦ trivial⟩
    · rw [hdb] at hr
      exact Nat.lt_of_lt_of_le (h.2 t i r hr) hn
    · rw [hdb]
      exact R.refl t i _

variable [DecidableEq T] {R : Rules T Row} {I : Kept R} {G : Guard T Row K X N}
  {l l' : Local T Row K N} {w w' : World T Row X N}

/-- What a session has written so far is locked for it and follows the rules. -/
structure RowTx (R : Rules T Row) (l : Local T Row K N) (w : World T Row X N) : Prop where
  held : Covered l
  step : ∀ t i v, pending l.redo t i = some v → R.step t i (w.db.rows t i) v
  lt : ∀ t i r, pending l.redo t i = some (some r) → i < w.next

theorem RowTx.init : RowTx R ({} : Local T Row K N) w :=
  ⟨fun _ hx ↦ (by cases hx), fun _ _ _ hp ↦ (by cases hp), fun _ _ _ hp ↦ (by cases hp)⟩

theorem RowTx.rely (h : RowTx R l w) (hr : Rely (protocol R I) l w w') : RowTx R l w' where
  held := h.held
  step t i v hp := by
    have hrow := hr.row t i .exclusive (h.held _ (pending_mem hp))
    rw [hrow]
    exact h.step t i v hp
  lt t i r hp := Nat.lt_of_lt_of_le (h.lt t i r hp) hr.later.next

/-- A statement whose writes follow the rules from what the session sees. -/
theorem RowTx.run (h : RowTx R l w) {g : Effect T Row K X N}
    (hg : ∀ t i v, pending g.writes t i = some v → R.step t i ((w.view l).db.rows t i) v)
    (hlt : ∀ t i r, pending g.writes t i = some (some r) → i < w.next + g.fresh) :
    RowTx R (l.run g w.next) (w.run g) := by
  refine ⟨covered_run h.held g _, fun t i v hp ↦ ?_, fun t i r hp ↦ ?_⟩
  · have hp' : (pending g.writes t i).or (pending l.redo t i) = some v := by
      rw [← pending_append]
      exact hp
    rcases Option.or_eq_some_iff.1 hp' with hw | ⟨-, hw⟩
    · have hs := hg t i v hw
      rw [view_db, apply_rows] at hs
      cases hl : pending l.redo t i with
      | none =>
        rw [hl] at hs
        exact hs
      | some v₀ =>
        rw [hl] at hs
        exact R.trans t i _ _ _ (h.step t i v₀ hl) hs
    · exact h.step t i v hw
  · have hp' : (pending g.writes t i).or (pending l.redo t i) = some (some r) := by
      rw [← pending_append]
      exact hp
    rcases Option.or_eq_some_iff.1 hp' with hw | ⟨-, hw⟩
    · exact hlt t i r hw
    · exact Nat.lt_of_lt_of_le (h.lt t i r hw) (Nat.le_add_right _ _)

theorem moves_commit (hi : I.holds w.db ∧ Drawn w) (h : RowTx R l w) {held : List (Resource T K × Mode)} :
    Moves (protocol R I) held w (w.commit l) := by
  have hobeys : R.Obeys w.db (w.commit l).db := by
    intro t i
    rw [commit_db, apply_rows]
    cases hp : pending l.redo t i with
    | none => exact R.refl t i _
    | some v => exact h.step t i v hp
  refine ⟨⟨I.keep _ _ hi.1 hobeys, fun t i r hr ↦ ?_⟩, hobeys, trivial, fun _ _ ↦ trivial⟩
  rw [commit_db, apply_rows] at hr
  cases hp : pending l.redo t i with
  | none =>
    rw [hp] at hr
    exact hi.2 t i r hr
  | some v =>
    rw [hp] at hr
    cases v with
    | none => cases hr
    | some r' => exact h.lt t i r' hp

theorem safe_save {p : Prog T Row K X N ε α} (h : wp (protocol R I) G p (fun _ l w ↦
      (I.holds w.db ∧ Drawn w) ∧ RowTx R l w) (fun _ _ _ ↦ True) l w) :
    safe (protocol R I) G (p >>= fun a ↦ Prog.save >>= fun _ ↦ pure a) l w := by
  refine wp_bind (wp_mono (fun a l' w' hr ↦ ?_) (fun _ _ _ _ ↦ trivial) h)
  refine wp_bind (wp_save fun w₁ hrely _ ↦ ⟨?_, trivial⟩)
  exact moves_commit hrely.inv (hr.2.rely hrely)

/-- A statement the guard admits: it may fail, or it writes by the rules. -/
theorem wp_rows_of_guard {f : View T Row X → Except ε (Effect T Row K X N × α)}
    {Q : α → Local T Row K N → World T Row X N → Prop} (h : RowTx R l w)
    (hf : ∀ w', Rely (protocol R I) l w w' → ∀ g a, f (w'.view l) = .ok (g, a) → G.stmt w' g →
      g.ext = id ∧
      (∀ t i v, pending g.writes t i = some v → R.step t i ((w'.view l).db.rows t i) v) ∧
      (∀ t i r, pending g.writes t i = some (some r) → i < w'.next + g.fresh) ∧
      (RowTx R (l.run g w'.next) (w'.run g) →
        I.holds (w'.run g).db ∧ Drawn (w'.run g) → Q a (l.run g w'.next) (w'.run g))) :
    wp (protocol R I) G (.query f) Q (fun _ _ _ ↦ True) l w := by
  refine wp_query fun w' hr ↦ ?_
  cases hq : f (w'.view l) with
  | error e => trivial
  | ok x =>
    obtain ⟨g, a⟩ := x
    intro hg
    obtain ⟨he, hs, hlt, hQ⟩ := hf w' hr g a hq hg
    refine ⟨he, hQ ((h.rely hr).run hs hlt) ⟨hr.inv.1, fun t i r hrow ↦ ?_⟩⟩
    exact Nat.lt_of_lt_of_le (hr.inv.2 t i r hrow) (Nat.le_add_right _ _)

theorem wp_rows {f : View T Row X → Except ε (Effect T Row K X N × α)}
    {Q : α → Local T Row K N → World T Row X N → Prop} (h : RowTx R l w)
    (hf : ∀ w', Rely (protocol R I) l w w' → ∀ g a, f (w'.view l) = .ok (g, a) → g.ext = id ∧
      (∀ t i v, pending g.writes t i = some v → R.step t i ((w'.view l).db.rows t i) v) ∧
      (∀ t i r, pending g.writes t i = some (some r) → i < w'.next + g.fresh) ∧
      (RowTx R (l.run g w'.next) (w'.run g) →
        I.holds (w'.run g).db ∧ Drawn (w'.run g) → Q a (l.run g w'.next) (w'.run g))) :
    wp (protocol R I) G (.query f) Q (fun _ _ _ ↦ True) l w :=
  wp_rows_of_guard h fun w' hr g a hq _ ↦ hf w' hr g a hq

end AdminPlatform.Foundation.RowRules
