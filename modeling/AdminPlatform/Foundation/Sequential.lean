import AdminPlatform.Foundation.Transaction

namespace AdminPlatform.Foundation.Sequential

open Relational Transaction Prog

variable {T : Type} {Row : T → Type} {K X N ε α β : Type}

section Store

theorem store_ext {db db' : Store T Row} (hr : db.rows = db'.rows) (hk : db.keys = db'.keys) :
    db = db' := by
  cases db
  cases db'
  cases hr
  cases hk
  rfl

variable [DecidableEq T] {db : Store T Row}

@[simp] theorem apply_nil : db.apply [] = db :=
  store_ext rfl (funext fun t ↦ List.append_nil (db.keys t))

theorem apply_append (ws ws' : List (Write Row)) :
    db.apply (ws ++ ws') = (db.apply ws).apply ws' := by
  refine store_ext (funext fun t ↦ funext fun i ↦ apply_append_rows db ws ws' t i) (funext fun t ↦ ?_)
  show db.keys t ++ _ = (db.keys t ++ _) ++ _
  rw [List.filter_append, List.map_append, List.append_assoc]

theorem rows_delete {db' : Store T Row} {t : T} {p : ℕ → Row t → Bool} {i : ℕ}
    (h : db'.rows t i = db.rows t i) :
    (db'.apply (db.delete t p)).rows t i = (db.rows t i).filter fun r ↦ !p i r := by
  cases hr : db.rows t i with
  | none =>
    cases hp : pending (db.delete t p) t i with
    | none => rw [apply_rows_of_none hp, h, hr, Option.filter_none]
    | some v =>
      obtain ⟨r, hr', -⟩ := pending_delete hp
      rw [hr] at hr'
      cases hr'
  | some r =>
    cases hpr : p i r with
    | true =>
      rw [apply_rows_of_pending (pending_delete_self hr hpr), Option.filter_some, hpr]
      rfl
    | false =>
      have hp : pending (db.delete t p) t i = none := by
        cases hp : pending (db.delete t p) t i with
        | none => rfl
        | some v =>
          obtain ⟨r', hr', hpr', -⟩ := pending_delete hp
          rw [hr] at hr'
          cases hr'
          rw [hpr] at hpr'
          cases hpr'
      rw [apply_rows_of_none hp, h, hr, Option.filter_some, hpr]
      rfl

theorem rows_delete_other {db' : Store T Row} {s t : T} (hst : s ≠ t) (p : ℕ → Row s → Bool) (i : ℕ) :
    (db'.apply (db.delete s p)).rows t i = db'.rows t i := apply_rows_of_none (delete_other hst p i)

end Store

variable [DecidableEq T]

def runView (v : View T Row X) (g : Effect T Row K X N) : View T Row X where
  now := v.now
  next := v.next + g.fresh
  ext := g.ext v.ext
  db := v.db.apply g.writes

@[simp] theorem run_empty (v : View T Row X) : runView v ({} : Effect T Row K X N) = v := by
  unfold runView
  rw [apply_nil]
  rfl

theorem view_run (w : World T Row X N) (l : Local T Row K N) (g : Effect T Row K X N) :
    (w.run g).view (l.run g w.next) = runView (w.view l) g := by
  simp only [World.view, World.run, Local.run, runView, apply_append]

theorem view_commit (w : World T Row X N) (l : Local T Row K N) :
    (w.commit l).view l.commit = w.view l := by
  simp only [World.view, World.commit, Local.commit, apply_nil]

/-- Run alone from what the transaction sees, the program can only end normally with `Q`. -/
def Ensures : Prog T Row K X N ε α → View T Row X → (α → View T Row X → Prop) → Prop
  | .done a, v, Q => Q a v
  | .fail _, _, _ => True
  | .step effect next, v, Q => Ensures (next v) (runView v (effect v)) Q
  | .commit next, v, Q => Ensures next v Q

variable {p : Prog T Row K X N ε α} {f : α → Prog T Row K X N ε β} {v v' : View T Row X}
  {Q Q' : α → View T Row X → Prop} {R : β → View T Row X → Prop}

theorem ensures_mono (h : Ensures p v Q) (hQ : ∀ a v', Q a v' → Q' a v') : Ensures p v Q' := by
  induction p generalizing v with
  | done a => exact hQ a v h
  | fail e => trivial
  | step effect next ih => exact ih v h
  | commit next ih => exact ih h

theorem ensures_bind (h : Ensures p v fun a v' ↦ Ensures (f a) v' R) : Ensures (p >>= f) v R := by
  induction p generalizing v with
  | done a => exact h
  | fail e => trivial
  | step effect next ih => exact ih v h
  | commit next ih => exact ih h

theorem ensures_pure {a : α} (h : Q a v) : Ensures (pure a : Prog T Row K X N ε α) v Q := h

theorem ensures_fail (e : ε) : Ensures (.fail e : Prog T Row K X N ε α) v Q := trivial

theorem ensures_query {q : View T Row X → Except ε (Effect T Row K X N × α)}
    (h : ∀ g a, q v = .ok (g, a) → Q a (runView v g)) : Ensures (query q) v Q := by
  rw [query, Ensures]
  cases hq : q v with
  | error e => trivial
  | ok x => exact h x.1 x.2 hq

theorem ensures_read {q : View T Row X → α} (h : Q (q v) v) :
    Ensures (read q : Prog T Row K X N ε α) v Q := by
  refine ensures_query fun g a hq ↦ ?_
  cases hq
  rw [run_empty]
  exact h

theorem ensures_runs {l l' : Local T Row K N} {w w' : World T Row X N} {a : α}
    (h : Ensures p (w.view l) Q) (hr : p.runs l w = (.ok a, l', w')) : Q a (w'.view l') := by
  induction p generalizing l w with
  | done b =>
    cases hr
    exact h
  | fail e => cases hr
  | step effect next ih =>
    refine ih (w.view l) ?_ hr
    rw [view_run]
    exact h
  | commit next ih =>
    refine ih ?_ hr
    rw [view_commit]
    exact h

/-- What a call that has committed everything leaves behind. -/
theorem ensures_exec {w w' : World T Row X N} {a : α} (h : Ensures p w.toView Q)
    (he : (p >>= fun a ↦ save >>= fun _ ↦ pure a).exec w = (w', .ok a)) : Q a w'.toView := by
  have hview : w.view ({} : Local T Row K N) = w.toView := by
    show { w.toView with db := w.db.apply [] } = w.toView
    rw [apply_nil]
  cases hr : p.runs {} w with
  | mk r x =>
    obtain ⟨l₁, w₁⟩ := x
    cases r with
    | error e =>
      rw [exec, runs_bind_error hr] at he
      cases he
    | ok b =>
      rw [exec, runs_bind hr, runs_bind (runs_save l₁ w₁)] at he
      cases he
      rw [← hview] at h
      exact ensures_runs h hr

theorem view_init (w : World T Row X N) : w.view ({} : Local T Row K N) = w.toView := by
  show { w.toView with db := w.db.apply [] } = w.toView
  rw [apply_nil]

/-- Run alone from what the transaction sees, the program ends normally, with `Q`. -/
def Completes : Prog T Row K X N ε α → View T Row X → (α → View T Row X → Prop) → Prop
  | .done a, v, Q => Q a v
  | .fail _, _, _ => False
  | .step effect next, v, Q => Completes (next v) (runView v (effect v)) Q
  | .commit next, v, Q => Completes next v Q

theorem completes_bind (h : Completes p v fun a v' ↦ Completes (f a) v' R) : Completes (p >>= f) v R := by
  induction p generalizing v with
  | done a => exact h
  | fail e => exact h
  | step effect next ih => exact ih v h
  | commit next ih => exact ih h

theorem completes_mono (h : Completes p v Q) (hQ : ∀ a v', Q a v' → Q' a v') : Completes p v Q' := by
  induction p generalizing v with
  | done a => exact hQ a v h
  | fail e => exact h
  | step effect next ih => exact ih v h
  | commit next ih => exact ih h

theorem completes_pure {a : α} (h : Q a v) : Completes (pure a : Prog T Row K X N ε α) v Q := h

theorem completes_query {q : View T Row X → Except ε (Effect T Row K X N × α)}
    {g : Effect T Row K X N} {a : α} (hq : q v = .ok (g, a)) (h : Q a (runView v g)) :
    Completes (query q) v Q := by
  rw [query, Completes, hq]
  exact h

theorem completes_read {q : View T Row X → α} (h : Q (q v) v) :
    Completes (read q : Prog T Row K X N ε α) v Q := by
  refine completes_query rfl ?_
  rw [run_empty]
  exact h

theorem completes_runs {l : Local T Row K N} {w : World T Row X N} (h : Completes p (w.view l) Q) :
    ∃ a l' w', p.runs l w = (.ok a, l', w') ∧ Q a (w'.view l') := by
  induction p generalizing l w with
  | done b => exact ⟨b, l, w, rfl, h⟩
  | fail e => exact h.elim
  | step effect next ih =>
    refine ih (w.view l) ?_
    rw [view_run]
    exact h
  | commit next ih =>
    refine ih ?_
    rw [view_commit]
    exact h

theorem completes_exec {w : World T Row X N} (h : Completes p w.toView Q) :
    ∃ w' a, (p >>= fun a ↦ save >>= fun _ ↦ pure a).exec w = (w', .ok a) ∧ Q a w'.toView := by
  rw [← view_init (K := K)] at h
  obtain ⟨a, l', w', hr, hQ⟩ := completes_runs h
  refine ⟨w'.commit l', a, ?_, hQ⟩
  rw [exec, runs_bind hr, runs_bind (runs_save l' w')]
  rfl

def Uncommitted : Prog T Row K X N ε α → Prop
  | .done _ => True
  | .fail _ => True
  | .step _ next => ∀ v, Uncommitted (next v)
  | .commit _ => False

omit [DecidableEq T] in
theorem uncommitted_bind (h : Uncommitted p) (hf : ∀ a, Uncommitted (f a)) : Uncommitted (p >>= f) := by
  induction p with
  | done a => exact hf a
  | fail e => trivial
  | step effect next ih => exact fun v ↦ ih v (h v)
  | commit next ih => exact h.elim

omit [DecidableEq T] in
theorem uncommitted_query (q : View T Row X → Except ε (Effect T Row K X N × α)) :
    Uncommitted (query q) := by
  intro v
  dsimp only
  cases q v with
  | ok x => trivial
  | error e => trivial

omit [DecidableEq T] in
theorem uncommitted_read (q : View T Row X → α) : Uncommitted (read q : Prog T Row K X N ε α) :=
  uncommitted_query _

theorem uncommitted_runs {l l' : Local T Row K N} {w w' : World T Row X N} {r : Except ε α}
    (h : Uncommitted p) (hr : p.runs l w = (r, l', w')) : w'.db = w.db := by
  induction p generalizing l w with
  | done b =>
    cases hr
    rfl
  | fail e =>
    cases hr
    rfl
  | step effect next ih => exact (ih (w.view l) (h (w.view l)) hr).trans rfl
  | commit next ih => exact h.elim

/-- A call that cannot end normally fails and leaves the database as it was. -/
theorem fails_exec {w : World T Row X N} (h : Ensures p w.toView fun _ _ ↦ False) (hu : Uncommitted p) :
    ∃ w' e, (p >>= fun a ↦ save >>= fun _ ↦ pure a).exec w = (w', .error e) ∧ w'.db = w.db := by
  cases hr : p.runs {} w with
  | mk r x =>
    obtain ⟨l₁, w₁⟩ := x
    cases r with
    | ok b =>
      rw [← view_init (K := K)] at h
      exact (ensures_runs h hr).elim
    | error e =>
      refine ⟨w₁, e, ?_, uncommitted_runs hu hr⟩
      rw [exec, runs_bind_error hr]

/-- Whatever it sees, every statement of the program is one that `E` allows, and the program
leaves the commit to its caller. -/
def Always (E : View T Row X → Effect T Row K X N → Prop) : Prog T Row K X N ε α → Prop
  | .done _ => True
  | .fail _ => True
  | .step effect next => ∀ v, E v (effect v) ∧ Always E (next v)
  | .commit _ => False

section Always

variable {E : View T Row X → Effect T Row K X N → Prop} {S : View T Row X → View T Row X → Prop}

omit [DecidableEq T] in
theorem always_bind (h : Always E p) (hf : ∀ a, Always E (f a)) : Always E (p >>= f) := by
  induction p with
  | done a => exact hf a
  | fail e => trivial
  | step effect next ih => exact fun v ↦ ⟨(h v).1, ih v (h v).2⟩
  | commit next ih => exact h.elim

omit [DecidableEq T] in
theorem always_pure (a : α) : Always E (pure a : Prog T Row K X N ε α) := trivial

omit [DecidableEq T] in
theorem always_query {q : View T Row X → Except ε (Effect T Row K X N × α)} (h₀ : ∀ v, E v {})
    (h : ∀ v g a, q v = .ok (g, a) → E v g) : Always E (query q) := by
  intro v
  dsimp only
  cases hq : q v with
  | ok x => exact ⟨h v x.1 x.2 hq, trivial⟩
  | error e => exact ⟨h₀ v, trivial⟩

omit [DecidableEq T] in
theorem always_read (h₀ : ∀ v, E v {}) (q : View T Row X → α) :
    Always E (read q : Prog T Row K X N ε α) := by
  refine always_query h₀ fun v g a hq ↦ ?_
  cases hq
  exact h₀ v

omit [DecidableEq T] in
theorem uncommitted_of_always (h : Always E p) : Uncommitted p := by
  induction p with
  | done a => trivial
  | fail e => trivial
  | step effect next ih => exact fun v ↦ ih v (h v).2
  | commit next ih => exact h.elim

/-- What every allowed statement preserves, the whole program preserves. -/
theorem ensures_of_always (hrefl : ∀ v, S v v) (htrans : ∀ v v' v'', S v v' → S v' v'' → S v v'')
    (hE : ∀ v g, E v g → S v (runView v g)) (h : Always E p) (v : View T Row X) :
    Ensures p v fun _ v' ↦ S v v' := by
  induction p generalizing v with
  | done a => exact hrefl v
  | fail e => trivial
  | step effect next ih =>
    obtain ⟨he, hn⟩ := h v
    refine ensures_mono (ih v hn (runView v (effect v))) fun a v' h' ↦ ?_
    exact htrans _ _ _ (hE v _ he) h'
  | commit next ih => exact h.elim

end Always

theorem ensures_next : Ensures p v fun _ v' ↦ v.next ≤ v'.next := by
  induction p generalizing v with
  | done a => exact Nat.le_refl _
  | fail e => trivial
  | step effect next ih =>
    refine ensures_mono (ih v) fun a v' h ↦ ?_
    have hs : v.next ≤ (runView v (effect v)).next := Nat.le_add_right _ _
    omega
  | commit next ih => exact ih

theorem ensures_and (h : Ensures p v Q) (h' : Ensures p v Q') : Ensures p v fun a v' ↦ Q a v' ∧ Q' a v' := by
  induction p generalizing v with
  | done a => exact ⟨h, h'⟩
  | fail e => trivial
  | step effect next ih => exact ih v h h'
  | commit next ih => exact ih h h'

theorem runs_next {l l' : Local T Row K N} {w w' : World T Row X N} {r : Except ε α}
    (hr : p.runs l w = (r, l', w')) : w.next ≤ w'.next := by
  induction p generalizing l w with
  | done b =>
    cases hr
    exact Nat.le_refl _
  | fail e =>
    cases hr
    exact Nat.le_refl _
  | step effect next ih => exact Nat.le_trans (Nat.le_add_right _ _) (ih (w.view l) hr)
  | commit next ih =>
    have hn : (w.commit l).next ≤ w'.next := ih (l := l.commit) hr
    exact hn

/-- A call served alone: what it leaves behind is what its program ensures, or nothing. -/
theorem exec_cases {w w' : World T Row X N} {r : Except ε α} (h : Ensures p w.toView Q) (hu : Uncommitted p)
    (he : (p >>= fun a ↦ save >>= fun _ ↦ pure a).exec w = (w', r)) :
    (∃ a, r = .ok a ∧ Q a w'.toView) ∨ w'.db = w.db := by
  cases hr : p.runs {} w with
  | mk r₁ x =>
    obtain ⟨l₁, w₁⟩ := x
    cases r₁ with
    | ok b =>
      have hex : (p >>= fun a ↦ save >>= fun _ ↦ pure a).exec w = (w₁.commit l₁, .ok b) := by
        rw [exec, runs_bind hr, runs_bind (runs_save l₁ w₁)]
        rfl
      rw [hex] at he
      cases he
      exact .inl ⟨b, rfl, ensures_exec h hex⟩
    | error e =>
      rw [exec, runs_bind_error hr] at he
      cases he
      exact .inr (uncommitted_runs hu hr)

end AdminPlatform.Foundation.Sequential
