import AdminPlatform.Foundation.Relational

namespace AdminPlatform.Foundation.Transaction

open Relational

/-- What a session can hold: a row lock, a named lock, or the sole use of a freshly
drawn value. The last kind outlives commits. -/
inductive Resource (T K : Type)
  | row (t : T) (i : ℕ)
  | named (k : K)
  | own (u : ℕ)
  deriving DecidableEq

inductive Mode
  | shared
  | exclusive
  deriving DecidableEq

/-- What one statement sees: the clock, the next fresh value, the shared store outside
the database, and the committed rows under the transaction's own writes. -/
structure View (T : Type) (Row : T → Type) (X : Type) where
  now : ℕ
  next : ℕ
  ext : X
  db : Store T Row

/-- What one statement does. Row writes stay with the transaction until it commits;
`ext` acts at once. -/
structure Effect (T : Type) (Row : T → Type) (K X N : Type) where
  locks : List (Resource T K × Mode) := []
  fresh : ℕ := 0
  writes : List (Write Row) := []
  ext : X → X := id
  notes : List N := []

/-- A database client: statements that act on the view they are given, and commits. -/
inductive Prog (T : Type) (Row : T → Type) (K X N ε α : Type)
  | done (a : α)
  | fail (e : ε)
  | step (effect : View T Row X → Effect T Row K X N) (next : View T Row X → Prog T Row K X N ε α)
  | commit (next : Prog T Row K X N ε α)

/-- The shared state: everything committed, with the notes of committed transactions. -/
structure World (T : Type) (Row : T → Type) (X N : Type) extends View T Row X where
  log : List N

/-- What a session keeps to itself until it commits. -/
structure Local (T : Type) (Row : T → Type) (K N : Type) where
  redo : List (Write Row) := []
  notes : List N := []
  held : List (Resource T K × Mode) := []

variable {T : Type} {Row : T → Type} {K X N ε α β : Type}

namespace Prog

def bind : Prog T Row K X N ε α → (α → Prog T Row K X N ε β) → Prog T Row K X N ε β
  | .done a, f => f a
  | .fail e, _ => .fail e
  | .step effect next, f => .step effect fun v ↦ (next v).bind f
  | .commit next, f => .commit (next.bind f)

instance : Monad (Prog T Row K X N ε) where
  pure := .done
  bind := bind

@[simp] theorem pure_eq (a : α) : (pure a : Prog T Row K X N ε α) = .done a := rfl

@[simp] theorem done_bind (a : α) (f : α → Prog T Row K X N ε β) : (.done a >>= f) = f a := rfl

@[simp] theorem fail_bind (e : ε) (f : α → Prog T Row K X N ε β) : (.fail e >>= f) = .fail e := rfl

theorem bind_assoc {γ : Type} (p : Prog T Row K X N ε α) (f : α → Prog T Row K X N ε β)
    (g : β → Prog T Row K X N ε γ) : (p >>= f) >>= g = p >>= fun a ↦ f a >>= g := by
  induction p with
  | done a => rfl
  | fail e => rfl
  | step effect next ih => exact congrArg (step effect) (funext ih)
  | commit next ih => exact congrArg commit ih

/-- `try … except`: a failure of the body continues with the handler in the same
transaction. -/
def tryCatch : Prog T Row K X N ε α → (ε → Prog T Row K X N ε α) → Prog T Row K X N ε α
  | .done a, _ => .done a
  | .fail e, h => h e
  | .step effect next, h => .step effect fun v ↦ (next v).tryCatch h
  | .commit next, h => .commit (next.tryCatch h)

def query (f : View T Row X → Except ε (Effect T Row K X N × α)) : Prog T Row K X N ε α :=
  .step (fun v ↦ match f v with | .ok x => x.1 | .error _ => {})
    fun v ↦ match f v with | .ok x => .done x.2 | .error e => .fail e

def read (f : View T Row X → α) : Prog T Row K X N ε α := query fun v ↦ .ok ({}, f v)

def save : Prog T Row K X N ε Unit := .commit (.done ())

def ofExcept : Except ε α → Prog T Row K X N ε α
  | .ok a => .done a
  | .error e => .fail e

end Prog

/-- Everything a statement has to lock before it acts: the locks it names, the rows it
writes and the values it draws. -/
def Effect.claims (f : Effect T Row K X N) (next : ℕ) : List (Resource T K × Mode) :=
  f.locks ++ f.writes.map (fun w ↦ (.row w.table w.id, .exclusive)) ++
    (List.range f.fresh).map fun k ↦ (.own (next + k), .exclusive)

def Resource.isOwn : Resource T K → Bool
  | .own _ => true
  | _ => false

def Local.run (l : Local T Row K N) (f : Effect T Row K X N) (next : ℕ) : Local T Row K N where
  redo := l.redo ++ f.writes
  notes := l.notes ++ f.notes
  held := l.held ++ f.claims next

def Local.commit (l : Local T Row K N) : Local T Row K N where
  held := l.held.filter fun x ↦ x.1.isOwn

def World.run (w : World T Row X N) (f : Effect T Row K X N) : World T Row X N :=
  { w with next := w.next + f.fresh, ext := f.ext w.ext }

def World.tick (w : World T Row X N) (d : ℕ) : World T Row X N := { w with now := w.now + d }

@[simp] theorem run_db (w : World T Row X N) (f : Effect T Row K X N) : (w.run f).db = w.db := rfl
@[simp] theorem run_log (w : World T Row X N) (f : Effect T Row K X N) : (w.run f).log = w.log := rfl
@[simp] theorem run_now (w : World T Row X N) (f : Effect T Row K X N) : (w.run f).now = w.now := rfl
@[simp] theorem run_next (w : World T Row X N) (f : Effect T Row K X N) :
    (w.run f).next = w.next + f.fresh := rfl

@[simp] theorem local_run_empty (l : Local T Row K N) (n : ℕ) :
    l.run ({} : Effect T Row K X N) n = l := by
  simp [Local.run, Effect.claims]

@[simp] theorem world_run_empty (w : World T Row X N) : w.run ({} : Effect T Row K X N) = w := rfl

variable [DecidableEq T]

def World.view (w : World T Row X N) (l : Local T Row K N) : View T Row X :=
  { w.toView with db := w.db.apply l.redo }

def World.commit (w : World T Row X N) (l : Local T Row K N) : World T Row X N :=
  { w with db := w.db.apply l.redo, log := w.log ++ l.notes }

@[simp] theorem view_now (w : World T Row X N) (l : Local T Row K N) : (w.view l).now = w.now := rfl
@[simp] theorem view_next (w : World T Row X N) (l : Local T Row K N) :
    (w.view l).next = w.next := rfl
@[simp] theorem view_ext (w : World T Row X N) (l : Local T Row K N) : (w.view l).ext = w.ext := rfl
@[simp] theorem view_db (w : World T Row X N) (l : Local T Row K N) :
    (w.view l).db = w.db.apply l.redo := rfl
@[simp] theorem commit_now (w : World T Row X N) (l : Local T Row K N) :
    (w.commit l).now = w.now := rfl
@[simp] theorem commit_next (w : World T Row X N) (l : Local T Row K N) :
    (w.commit l).next = w.next := rfl
@[simp] theorem commit_db (w : World T Row X N) (l : Local T Row K N) :
    (w.commit l).db = w.db.apply l.redo := rfl
@[simp] theorem commit_log (w : World T Row X N) (l : Local T Row K N) :
    (w.commit l).log = w.log ++ l.notes := rfl

namespace Prog

def runs : Prog T Row K X N ε α → Local T Row K N → World T Row X N →
    Except ε α × Local T Row K N × World T Row X N
  | .done a, l, w => (.ok a, l, w)
  | .fail e, l, w => (.error e, l, w)
  | .step effect next, l, w =>
    let f := effect (w.view l)
    (next (w.view l)).runs (l.run f w.next) (w.run f)
  | .commit next, l, w => next.runs l.commit (w.commit l)

def exec (p : Prog T Row K X N ε α) (w : World T Row X N) : World T Row X N × Except ε α :=
  ((p.runs {} w).2.2, (p.runs {} w).1)

theorem runs_bind {p : Prog T Row K X N ε α} {f : α → Prog T Row K X N ε β}
    {l l' : Local T Row K N} {w w' : World T Row X N} {a : α} (h : p.runs l w = (.ok a, l', w')) :
    (p >>= f).runs l w = (f a).runs l' w' := by
  induction p generalizing l w with
  | done b =>
    cases h
    rfl
  | fail e => cases h
  | step effect next ih => exact ih _ h
  | commit next ih => exact ih h

theorem runs_bind_error {p : Prog T Row K X N ε α} {f : α → Prog T Row K X N ε β}
    {l l' : Local T Row K N} {w w' : World T Row X N} {e : ε} (h : p.runs l w = (.error e, l', w')) :
    (p >>= f).runs l w = (.error e, l', w') := by
  induction p generalizing l w with
  | done b => cases h
  | fail e' =>
    cases h
    rfl
  | step effect next ih => exact ih _ h
  | commit next ih => exact ih h

theorem runs_tryCatch_error {p : Prog T Row K X N ε α} {f : ε → Prog T Row K X N ε α}
    {l l' : Local T Row K N} {w w' : World T Row X N} {e : ε} (h : p.runs l w = (.error e, l', w')) :
    (p.tryCatch f).runs l w = (f e).runs l' w' := by
  induction p generalizing l w with
  | done b => cases h
  | fail e' =>
    cases h
    rfl
  | step effect next ih => exact ih _ h
  | commit next ih => exact ih h

theorem runs_query {q : View T Row X → Except ε (Effect T Row K X N × α)} {l : Local T Row K N}
    {w : World T Row X N} {g : Effect T Row K X N} {a : α} (h : q (w.view l) = .ok (g, a)) :
    (query q).runs l w = (.ok a, l.run g w.next, w.run g) := by
  simp only [query, runs, h]

theorem runs_read (q : View T Row X → α) (l : Local T Row K N) (w : World T Row X N) :
    (read q : Prog T Row K X N ε α).runs l w = (.ok (q (w.view l)), l, w) := by
  have h := runs_query (w := w) (l := l) (q := fun v ↦ (.ok ({}, q v) : Except ε (Effect T Row K X N × α))) rfl
  rw [local_run_empty, world_run_empty] at h
  exact h

theorem runs_query_error {q : View T Row X → Except ε (Effect T Row K X N × α)}
    {l : Local T Row K N} {w : World T Row X N} {e : ε} (h : q (w.view l) = .error e) :
    (query q).runs l w = (.error e, l, w) := by
  simp only [query, runs, h, local_run_empty, world_run_empty]

/-- No run of the program fails with `e`. -/
def Avoids (e : ε) (p : Prog T Row K X N ε α) : Prop :=
  ∀ (l : Local T Row K N) (w : World T Row X N), (p.runs l w).1 ≠ .error e

theorem avoids_pure {e : ε} (a : α) : (pure a : Prog T Row K X N ε α).Avoids e := by
  intro l w h
  cases h

theorem avoids_fail {e e' : ε} (h : e' ≠ e) : (.fail e' : Prog T Row K X N ε α).Avoids e := by
  intro l w hr
  cases hr
  exact h rfl

theorem avoids_query {e : ε} {q : View T Row X → Except ε (Effect T Row K X N × α)}
    (h : ∀ v, q v ≠ .error e) : (query q).Avoids e := by
  intro l w hr
  cases hq : q (w.view l) with
  | ok x =>
    rw [runs_query hq] at hr
    cases hr
  | error e' =>
    rw [runs_query_error hq] at hr
    cases hr
    exact h _ hq

theorem avoids_read {e : ε} (q : View T Row X → α) : (read q : Prog T Row K X N ε α).Avoids e := by
  intro l w hr
  rw [runs_read] at hr
  cases hr

theorem Avoids.bind {e : ε} {p : Prog T Row K X N ε α} {f : α → Prog T Row K X N ε β}
    (h : p.Avoids e) (hf : ∀ a, (f a).Avoids e) : (p >>= f).Avoids e := by
  intro l w hr
  cases hp : p.runs l w with
  | mk r x =>
    obtain ⟨l', w'⟩ := x
    cases r with
    | ok a =>
      rw [runs_bind hp] at hr
      exact hf a l' w' hr
    | error e' =>
      rw [runs_bind_error hp] at hr
      cases hr
      exact h l w (congrArg Prod.fst hp)

/-- The program commits nothing, acts on nothing outside the database, and does not write the table. -/
def Spares (t : T) : Prog T Row K X N ε α → Prop
  | .done _ => True
  | .fail _ => True
  | .step effect next => ∀ v, (∀ i, pending (effect v).writes t i = none) ∧ (effect v).ext = id ∧
      (next v).Spares t
  | .commit _ => False

section Spares

variable {t : T} {p : Prog T Row K X N ε α}

theorem spares_pure (a : α) : (pure a : Prog T Row K X N ε α).Spares t := trivial

theorem spares_fail (e : ε) : (.fail e : Prog T Row K X N ε α).Spares t := trivial

theorem spares_query {q : View T Row X → Except ε (Effect T Row K X N × α)}
    (h : ∀ v g a, q v = .ok (g, a) → (∀ i, pending g.writes t i = none) ∧ g.ext = id) : (query q).Spares t := by
  intro v
  cases hq : q v with
  | ok x =>
    obtain ⟨hwrites, hext⟩ := h v x.1 x.2 hq
    simp only [hq]
    exact ⟨hwrites, hext, trivial⟩
  | error e =>
    simp only [hq]
    exact ⟨fun _ ↦ rfl, trivial, trivial⟩

theorem spares_read (q : View T Row X → α) : (read q : Prog T Row K X N ε α).Spares t :=
  spares_query fun _ _ _ h ↦ by
    cases h
    exact ⟨fun _ ↦ rfl, rfl⟩

theorem Spares.bind {f : α → Prog T Row K X N ε β} (h : p.Spares t) (hf : ∀ a, (f a).Spares t) :
    (p >>= f).Spares t := by
  induction p with
  | done a => exact hf a
  | fail e => trivial
  | step effect next ih => exact fun v ↦ ⟨(h v).1, (h v).2.1, ih v (h v).2.2⟩
  | commit next ih => exact h.elim

end Spares

/-- What holds of every way the program can go, when it commits nothing: of its result, of what its
statements saw and of the notes it takes. -/
def Gathers (Q : α → List (View T Row X) → List N → Prop) (E : ε → List (View T Row X) → List N → Prop) :
    Prog T Row K X N ε α → List (View T Row X) → List N → Prop
  | .done a, vs, ns => Q a vs ns
  | .fail e, vs, ns => E e vs ns
  | .step effect next, vs, ns => ∀ v, (next v).Gathers Q E (vs ++ [v]) (ns ++ (effect v).notes)
  | .commit _, _, _ => False

/-- The program is one transaction with its commit at the end. `R` holds of the result it has then, of
what its statements saw and of the notes it publishes. -/
def Publishes (R : Except ε α → List (View T Row X) → List N → Prop) :
    Prog T Row K X N ε α → List (View T Row X) → List N → Prop
  | .done _, _, _ => False
  | .fail _, _, _ => True
  | .step effect next, vs, ns => ∀ v, (next v).Publishes R (vs ++ [v]) (ns ++ (effect v).notes)
  | .commit next, vs, ns => ∃ r, next = .ofExcept r ∧ R r vs ns

section Publishes

variable {p : Prog T Row K X N ε α} {f : α → Prog T Row K X N ε β} {vs : List (View T Row X)} {ns : List N}
  {Q Q' : α → List (View T Row X) → List N → Prop} {E E' : ε → List (View T Row X) → List N → Prop}

omit [DecidableEq T]

theorem gathers_mono (h : p.Gathers Q E vs ns) (hQ : ∀ a vs ns, Q a vs ns → Q' a vs ns)
    (hE : ∀ e vs ns, E e vs ns → E' e vs ns) : p.Gathers Q' E' vs ns := by
  induction p generalizing vs ns with
  | done a => exact hQ a vs ns h
  | fail e => exact hE e vs ns h
  | step effect next ih => exact fun v ↦ ih v (h v)
  | commit next ih => exact h.elim

/-- Views and notes only come in. -/
theorem gathers_extends (h : p.Gathers Q E vs ns) :
    p.Gathers (fun a vs' ns' ↦ Q a vs' ns' ∧ vs <+: vs' ∧ ns <+: ns')
    (fun e vs' ns' ↦ E e vs' ns' ∧ vs <+: vs' ∧ ns <+: ns') vs ns := by
  induction p generalizing vs ns with
  | done a => exact ⟨h, List.prefix_rfl, List.prefix_rfl⟩
  | fail e => exact ⟨h, List.prefix_rfl, List.prefix_rfl⟩
  | commit next ih => exact h.elim
  | step effect next ih =>
    intro v
    have hv : vs <+: vs ++ [v] := List.prefix_append _ _
    have hn : ns <+: ns ++ (effect v).notes := List.prefix_append _ _
    refine gathers_mono (ih v (h v)) (fun a vs' ns' hq ↦ ?_) fun e vs' ns' he ↦ ?_
    · exact ⟨hq.1, hv.trans hq.2.1, hn.trans hq.2.2⟩
    · exact ⟨he.1, hv.trans he.2.1, hn.trans he.2.2⟩

theorem gathers_bind {Q : β → List (View T Row X) → List N → Prop}
    (h : p.Gathers (fun a vs ns ↦ (f a).Gathers Q E vs ns) E vs ns) : (p >>= f).Gathers Q E vs ns := by
  induction p generalizing vs ns with
  | done a => exact h
  | fail e => exact h
  | step effect next ih => exact fun v ↦ ih v (h v)
  | commit next ih => exact h.elim

theorem gathers_tryCatch {f : ε → Prog T Row K X N ε α}
    (h : p.Gathers Q (fun e vs ns ↦ (f e).Gathers Q E vs ns) vs ns) : (p.tryCatch f).Gathers Q E vs ns := by
  induction p generalizing vs ns with
  | done a => exact h
  | fail e => exact h
  | step effect next ih => exact fun v ↦ ih v (h v)
  | commit next ih => exact h.elim

theorem gathers_query {q : View T Row X → Except ε (Effect T Row K X N × α)}
    (hQ : ∀ v g a, q v = .ok (g, a) → Q a (vs ++ [v]) (ns ++ g.notes))
    (hE : ∀ v e, q v = .error e → E e (vs ++ [v]) ns) : (query q).Gathers Q E vs ns := by
  intro v
  cases hq : q v with
  | ok x =>
    simp only [hq]
    exact hQ v x.1 x.2 hq
  | error e =>
    simp only [hq]
    have h := hE v e hq
    rw [← List.append_nil ns] at h
    exact h

theorem gathers_read {q : View T Row X → α} (hQ : ∀ v, Q (q v) (vs ++ [v]) ns) :
    (read q : Prog T Row K X N ε α).Gathers Q E vs ns := by
  refine gathers_query (fun v g a h ↦ ?_) fun v e h ↦ by cases h
  cases h
  rw [List.append_nil]
  exact hQ v

theorem publishes_bind {R : Except ε β → List (View T Row X) → List N → Prop}
    (h : p.Gathers (fun a vs ns ↦ (f a).Publishes R vs ns) (fun _ _ _ ↦ True) vs ns) :
    (p >>= f).Publishes R vs ns := by
  induction p generalizing vs ns with
  | done a => exact h
  | fail e => trivial
  | step effect next ih => exact fun v ↦ ih v (h v)
  | commit next ih => exact h.elim

theorem publishes_map {R : Except ε β → List (View T Row X) → List N → Prop} {g : α → β}
    (h : p.Publishes (fun r vs ns ↦ R (r.map g) vs ns) vs ns) :
    (p >>= fun a ↦ pure (g a)).Publishes R vs ns := by
  induction p generalizing vs ns with
  | done a => exact h
  | fail e => trivial
  | step effect next ih => exact fun v ↦ ih v (h v)
  | commit next ih =>
    obtain ⟨r, rfl, hr⟩ := h
    cases r with
    | ok a => exact ⟨.ok (g a), rfl, hr⟩
    | error e => exact ⟨.error e, rfl, hr⟩

end Publishes

theorem runs_save (l : Local T Row K N) (w : World T Row X N) :
    (save : Prog T Row K X N ε Unit).runs l w = (.ok (), l.commit, w.commit l) := rfl

end Prog

end AdminPlatform.Foundation.Transaction
