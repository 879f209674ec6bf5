import AdminPlatform.Foundation.Interleaving

namespace AdminPlatform.Foundation.RelyGuarantee

open Relational Transaction Interleaving

variable {T : Type} {Row : T → Type} {K X N ε α β Op : Type}

structure Later (w w' : World T Row X N) : Prop where
  now : w.now ≤ w'.now
  next : w.next ≤ w'.next
  log : w.log <+: w'.log

theorem Later.refl (w : World T Row X N) : Later w w := ⟨Nat.le_refl _, Nat.le_refl _, List.prefix_rfl⟩

theorem Later.trans {w w' w'' : World T Row X N} (h : Later w w') (h' : Later w' w'') :
    Later w w'' := ⟨Nat.le_trans h.now h'.now, Nat.le_trans h.next h'.next, h.log.trans h'.log⟩

theorem Later.mem_log {w w' : World T Row X N} (h : Later w w') {n : N} (hn : n ∈ w.log) :
    n ∈ w'.log := h.log.subset hn

/-- What the sessions of a system agree on: an invariant of the shared state, a relation
every change respects, what holds across a single change, and for each resource what nobody
but its holder changes. -/
structure Protocol (T : Type) (Row : T → Type) (K X N : Type) where
  inv : World T Row X N → Prop
  guar : World T Row X N → World T Row X N → Prop
  change : World T Row X N → World T Row X N → Prop
  prot : Resource T K → World T Row X N → World T Row X N → Prop
  guar_refl : ∀ w, guar w w
  guar_trans : ∀ w w' w'', guar w w' → guar w' w'' → guar w w''
  prot_refl : ∀ r w, prot r w w
  prot_trans : ∀ r w w' w'', prot r w w' → prot r w' w'' → prot r w w''
  quiet : ∀ w w', inv w → w'.db = w.db → w'.log = w.log → w'.ext = w.ext → w.now ≤ w'.now →
    w.next ≤ w'.next → inv w' ∧ guar w w' ∧ change w w' ∧ ∀ r, prot r w w'

/-- What a session may expect of the others while it holds its locks. -/
structure Rely (P : Protocol T Row K X N) (l : Local T Row K N) (w w' : World T Row X N) : Prop where
  later : Later w w'
  inv : P.inv w'
  guar : P.guar w w'
  row : ∀ t i m, (.row t i, m) ∈ l.held → w'.db.rows t i = w.db.rows t i
  prot : ∀ r, (r, .exclusive) ∈ l.held → P.prot r w w'

/-- What a session that holds `held` owes the others for one change. -/
structure Moves (P : Protocol T Row K X N) (held : List (Resource T K × Mode))
    (w w' : World T Row X N) : Prop where
  inv : P.inv w'
  guar : P.guar w w'
  change : P.change w w'
  prot : ∀ r, (∀ m, (r, m) ∉ held) → P.prot r w w'

theorem Rely.refl {P : Protocol T Row K X N} {l : Local T Row K N} {w : World T Row X N}
    (h : P.inv w) : Rely P l w w :=
  ⟨.refl w, h, P.guar_refl w, fun _ _ _ _ ↦ rfl, fun r _ ↦ P.prot_refl r w⟩

theorem Rely.trans {P : Protocol T Row K X N} {l : Local T Row K N} {w w' w'' : World T Row X N}
    (h : Rely P l w w') (h' : Rely P l w' w'') : Rely P l w w'' where
  later := h.later.trans h'.later
  inv := h'.inv
  guar := P.guar_trans _ _ _ h.guar h'.guar
  row t i m hm := (h'.row t i m hm).trans (h.row t i m hm)
  prot r hr := P.prot_trans _ _ _ _ (h.prot r hr) (h'.prot r hr)

theorem moves_quiet {P : Protocol T Row K X N} {held : List (Resource T K × Mode)}
    {w : World T Row X N} (h : P.inv w) (f : Effect T Row K X N) (hf : f.ext w.ext = w.ext) :
    Moves P held w (w.run f) := by
  obtain ⟨h₁, h₂, h₃, h₄⟩ := P.quiet w (w.run f) h rfl rfl hf (Nat.le_refl _) (Nat.le_add_right _ _)
  exact ⟨h₁, h₂, h₃, fun r _ ↦ h₄ r⟩

theorem rely_run {P : Protocol T Row K X N} {l : Local T Row K N} {w w' : World T Row X N}
    (h : Rely P l w w') {g : Effect T Row K X N} (hg : g.ext = id) : Rely P l w (w'.run g) := by
  obtain ⟨h₁, h₂, -, h₃⟩ := P.quiet w' (w'.run g) h.inv rfl rfl (by simp [World.run, hg])
    (Nat.le_refl _) (Nat.le_add_right _ _)
  have hl : Later w' (w'.run g) := ⟨Nat.le_refl _, Nat.le_add_right _ _, List.prefix_rfl⟩
  exact h.trans ⟨hl, h₁, h₂, fun _ _ _ _ ↦ rfl, fun r _ ↦ h₃ r⟩

/-- How a session has come from `l, w` to `l', w'`: it kept its locks and its notes. -/
structure After (P : Protocol T Row K X N) (l : Local T Row K N) (w : World T Row X N)
    (l' : Local T Row K N) (w' : World T Row X N) : Prop where
  rely : Rely P l w w'
  held : l.held ⊆ l'.held
  notes : l.notes ⊆ l'.notes

theorem After.refl {P : Protocol T Row K X N} {l : Local T Row K N} {w : World T Row X N}
    (h : P.inv w) : After P l w l w := ⟨.refl h, fun _ h ↦ h, fun _ h ↦ h⟩

theorem Rely.weaken {P : Protocol T Row K X N} {l l' : Local T Row K N} {w w' : World T Row X N}
    (h : Rely P l' w w') (hl : l.held ⊆ l'.held) : Rely P l w w' :=
  ⟨h.later, h.inv, h.guar, fun t i m hm ↦ h.row t i m (hl hm), fun r hr ↦ h.prot r (hl hr)⟩

theorem After.trans {P : Protocol T Row K X N} {l l' l'' : Local T Row K N}
    {w w' w'' : World T Row X N} (h : After P l w l' w') (h' : After P l' w' l'' w'') :
    After P l w l'' w'' :=
  ⟨h.rely.trans (h'.rely.weaken h.held), fun _ hx ↦ h'.held (h.held hx),
    fun _ hx ↦ h'.notes (h.notes hx)⟩

theorem after_run {P : Protocol T Row K X N} {l : Local T Row K N} {w w' : World T Row X N}
    (h : Rely P l w w') {g : Effect T Row K X N} (hg : g.ext = id) :
    After P l w (l.run g w'.next) (w'.run g) :=
  ⟨rely_run h hg, List.subset_append_left _ _, List.subset_append_left _ _⟩

variable [DecidableEq T]

/-- The weakest precondition of a program that shares the world with others. Before each
step the others may act; `Q` and `E` speak of the moment of the last own step. -/
def wp (P : Protocol T Row K X N) (G : Guard T Row K X N) :
    Prog T Row K X N ε α → (α → Local T Row K N → World T Row X N → Prop) →
    (ε → Local T Row K N → World T Row X N → Prop) → Local T Row K N → World T Row X N → Prop
  | .done a, Q, _, l, w => Q a l w
  | .fail e, _, E, l, w => E e l w
  | .step effect next, Q, E, l, w => ∀ w', Rely P l w w' →
    G.stmt w' (effect (w'.view l)) →
    Moves P (l.run (effect (w'.view l)) w'.next).held w' (w'.run (effect (w'.view l))) ∧
      wp P G (next (w'.view l)) Q E (l.run (effect (w'.view l)) w'.next)
        (w'.run (effect (w'.view l)))
  | .commit next, Q, E, l, w => ∀ w', Rely P l w w' → G.commit w' l.notes →
    Moves P l.held w' (w'.commit l) ∧ wp P G next Q E l.commit (w'.commit l)

variable {P : Protocol T Row K X N} {G : Guard T Row K X N}

theorem wp_mono {p : Prog T Row K X N ε α} {Q Q' : α → Local T Row K N → World T Row X N → Prop}
    {E E' : ε → Local T Row K N → World T Row X N → Prop} (hQ : ∀ a l w, Q a l w → Q' a l w)
    (hE : ∀ e l w, E e l w → E' e l w) {l : Local T Row K N} {w : World T Row X N}
    (h : wp P G p Q E l w) : wp P G p Q' E' l w := by
  induction p generalizing l w with
  | done a => exact hQ a l w h
  | fail e => exact hE e l w h
  | step effect next ih => exact fun w' hr hg ↦ ⟨(h w' hr hg).1, ih _ (h w' hr hg).2⟩
  | commit next ih => exact fun w' hr hg ↦ ⟨(h w' hr hg).1, ih (h w' hr hg).2⟩

theorem wp_bind {p : Prog T Row K X N ε α} {f : α → Prog T Row K X N ε β}
    {Q : β → Local T Row K N → World T Row X N → Prop}
    {E : ε → Local T Row K N → World T Row X N → Prop} {l : Local T Row K N} {w : World T Row X N}
    (h : wp P G p (fun a l w ↦ wp P G (f a) Q E l w) E l w) : wp P G (p >>= f) Q E l w := by
  induction p generalizing l w with
  | done a => exact h
  | fail e => exact h
  | step effect next ih => exact fun w' hr hg ↦ ⟨(h w' hr hg).1, ih _ (h w' hr hg).2⟩
  | commit next ih => exact fun w' hr hg ↦ ⟨(h w' hr hg).1, ih (h w' hr hg).2⟩

theorem wp_tryCatch {p : Prog T Row K X N ε α} {f : ε → Prog T Row K X N ε α}
    {Q : α → Local T Row K N → World T Row X N → Prop}
    {E : ε → Local T Row K N → World T Row X N → Prop} {l : Local T Row K N} {w : World T Row X N}
    (h : wp P G p Q (fun e l w ↦ wp P G (f e) Q E l w) l w) : wp P G (p.tryCatch f) Q E l w := by
  induction p generalizing l w with
  | done a => exact h
  | fail e => exact h
  | step effect next ih => exact fun w' hr hg ↦ ⟨(h w' hr hg).1, ih _ (h w' hr hg).2⟩
  | commit next ih => exact fun w' hr hg ↦ ⟨(h w' hr hg).1, ih (h w' hr hg).2⟩

/-- A statement whose outside effect is idle only has to justify what follows it. -/
theorem wp_query {f : View T Row X → Except ε (Effect T Row K X N × α)}
    {Q : α → Local T Row K N → World T Row X N → Prop}
    {E : ε → Local T Row K N → World T Row X N → Prop} {l : Local T Row K N} {w : World T Row X N}
    (h : ∀ w', Rely P l w w' → match f (w'.view l) with
      | .ok (g, a) => G.stmt w' g → g.ext = id ∧ Q a (l.run g w'.next) (w'.run g)
      | .error e => E e l w') : wp P G (.query f) Q E l w := by
  intro w' hr hg
  specialize h w' hr
  cases hf : f (w'.view l) with
  | error e =>
    simp only [hf] at hg h ⊢
    have hl : l.run ({} : Effect T Row K X N) w'.next = l := by simp [Local.run, Effect.claims]
    have hw : w'.run ({} : Effect T Row K X N) = w' := by simp [World.run]
    refine ⟨moves_quiet hr.inv _ rfl, ?_⟩
    rw [hl, hw]
    exact h
  | ok x =>
    obtain ⟨g, a⟩ := x
    simp only [hf] at hg h ⊢
    obtain ⟨he, hq⟩ := h hg
    exact ⟨moves_quiet hr.inv _ (by rw [he]; rfl), hq⟩

theorem wp_read {f : View T Row X → α} {Q : α → Local T Row K N → World T Row X N → Prop}
    {E : ε → Local T Row K N → World T Row X N → Prop} {l : Local T Row K N} {w : World T Row X N}
    (h : ∀ w', Rely P l w w' → Q (f (w'.view l)) l w') :
    wp P G (.read f : Prog T Row K X N ε α) Q E l w := by
  refine wp_query fun w' hr _ ↦ ⟨rfl, ?_⟩
  have hl : l.run ({} : Effect T Row K X N) w'.next = l := by simp [Local.run, Effect.claims]
  have hw : w'.run ({} : Effect T Row K X N) = w' := by simp [World.run]
  rw [hl, hw]
  exact h w' hr

theorem wp_save {Q : Unit → Local T Row K N → World T Row X N → Prop}
    {E : ε → Local T Row K N → World T Row X N → Prop} {l : Local T Row K N} {w : World T Row X N}
    (h : ∀ w', Rely P l w w' → G.commit w' l.notes →
      Moves P l.held w' (w'.commit l) ∧ Q () l.commit (w'.commit l)) :
    wp P G (.save : Prog T Row K X N ε Unit) Q E l w := h

def Covered (l : Local T Row K N) : Prop :=
  ∀ x ∈ l.redo, (.row x.table x.id, .exclusive) ∈ l.held

omit [DecidableEq T] in
theorem covered_run {l : Local T Row K N} (h : Covered l) (f : Effect T Row K X N) (n : ℕ) :
    Covered (l.run f n) := by
  intro x hx
  simp only [Local.run, Effect.claims, List.mem_append, List.mem_map] at hx ⊢
  rcases hx with hx | hx
  · exact .inl (h x hx)
  · exact .inr (.inl (.inr ⟨x, hx, rfl⟩))

/-- How a session goes on from `l, w` that leaves a table alone. -/
structure Spared (P : Protocol T Row K X N) (t : T) (l : Local T Row K N) (w : World T Row X N)
    (l' : Local T Row K N) (w' : World T Row X N) : Prop where
  after : After P l w l' w'
  covered : Covered l → Covered l'
  same : ∀ i, pending l'.redo t i = pending l.redo t i

theorem Spared.refl {t : T} {l : Local T Row K N} {w : World T Row X N} (h : P.inv w) : Spared P t l w l w :=
  ⟨.refl h, id, fun _ ↦ rfl⟩

theorem Spared.trans {t : T} {l l' l'' : Local T Row K N} {w w' w'' : World T Row X N}
    (h : Spared P t l w l' w') (h' : Spared P t l' w' l'' w'') : Spared P t l w l'' w'' :=
  ⟨h.after.trans h'.after, fun hc ↦ h'.covered (h.covered hc), fun i ↦ (h'.same i).trans (h.same i)⟩

/-- A program that spares a table can be passed over. -/
theorem wp_spares {t : T} {p : Prog T Row K X N ε α} {Q : α → Local T Row K N → World T Row X N → Prop}
    {E : ε → Local T Row K N → World T Row X N → Prop} {l : Local T Row K N} {w : World T Row X N}
    (hp : p.Spares t) (hi : P.inv w) (hQ : ∀ a l' w', Spared P t l w l' w' → Q a l' w')
    (hE : ∀ e l' w', Spared P t l w l' w' → E e l' w') : wp P G p Q E l w := by
  induction p generalizing l w with
  | done a => exact hQ a l w (.refl hi)
  | fail e => exact hE e l w (.refl hi)
  | step effect next ih =>
    intro w' hr _
    obtain ⟨hwrites, hext, hnext⟩ := hp (w'.view l)
    have hstep : Spared P t l w (l.run (effect (w'.view l)) w'.next) (w'.run (effect (w'.view l))) := by
      refine ⟨after_run hr hext, fun hc ↦ covered_run hc _ _, fun i ↦ ?_⟩
      show pending (l.redo ++ (effect (w'.view l)).writes) t i = _
      rw [pending_append, hwrites i, Option.none_or]
    refine ⟨moves_quiet hr.inv _ (by rw [hext]; rfl), ih _ hnext hstep.after.rely.inv ?_ ?_⟩
    · exact fun a l' w'' h ↦ hQ a l' w'' (hstep.trans h)
    · exact fun e l' w'' h ↦ hE e l' w'' (hstep.trans h)
  | commit next ih => exact hp.elim

abbrev safe (P : Protocol T Row K X N) (G : Guard T Row K X N) (p : Prog T Row K X N ε α)
    (l : Local T Row K N) (w : World T Row X N) : Prop :=
  wp P G p (fun _ _ _ ↦ True) (fun _ _ _ ↦ True) l w

theorem safe_rely {p : Prog T Row K X N ε α} {l : Local T Row K N} {w w' : World T Row X N}
    (h : safe P G p l w) (hr : Rely P l w w') : safe P G p l w' := by
  cases p with
  | done a => trivial
  | fail e => trivial
  | step effect next => exact fun w'' hr' hg ↦ h w'' (hr.trans hr') hg
  | commit next => exact fun w'' hr' hg ↦ h w'' (hr.trans hr') hg

omit [DecidableEq T] in
theorem covered_commit (l : Local T Row K N) : Covered l.commit := fun x hx ↦ by cases hx

omit [DecidableEq T] in
theorem commit_held_subset {l : Local T Row K N} : l.commit.held ⊆ l.held :=
  List.filter_subset_self _

omit [DecidableEq T] in
theorem held_run (l : Local T Row K N) (f : Effect T Row K X N) (n : ℕ) :
    l.held ⊆ (l.run f n).held := List.subset_append_left _ _

omit [DecidableEq T] in
theorem claims_run (l : Local T Row K N) (f : Effect T Row K X N) (n : ℕ) :
    f.claims n ⊆ (l.run f n).held := List.subset_append_right _ _

/-- The session has neither written nor noted anything since its last commit. -/
structure Blank (l : Local T Row K N) : Prop where
  redo : l.redo = []
  notes : l.notes = []

omit [DecidableEq T] in
theorem Blank.init : Blank ({} : Local T Row K N) := ⟨rfl, rfl⟩

omit [DecidableEq T] in
theorem Blank.commit (l : Local T Row K N) : Blank l.commit := ⟨rfl, rfl⟩

omit [DecidableEq T] in
theorem Blank.run {l : Local T Row K N} (h : Blank l) {f : Effect T Row K X N}
    (hw : f.writes = []) (hn : f.notes = []) (n : ℕ) : Blank (l.run f n) where
  redo := by simp only [Local.run, h.redo, hw, List.append_nil]
  notes := by simp only [Local.run, h.notes, hn, List.append_nil]

theorem Blank.view {l : Local T Row K N} (h : Blank l) (w : World T Row X N) (t : T) (i : ℕ) :
    (w.view l).db.rows t i = w.db.rows t i := by
  rw [view_db, apply_rows, h.redo]
  rfl

variable [DecidableEq K]

/-- The invariant of a run: the shared invariant, lock exclusion, and a proof for each
session from where it stands. -/
structure Sound (P : Protocol T Row K X N) (G : Guard T Row K X N) (S : State T Row K X N ε α) :
    Prop where
  inv : P.inv S.world
  covered : ∀ (i : ℕ) (s : Session T Row K X N ε α), S.sessions[i]? = some s → Covered s.loc
  apart : ∀ (i j : ℕ) (s s' : Session T Row K X N ε α), S.sessions[i]? = some s → S.sessions[j]? = some s' →
    i ≠ j →
    ∀ c ∈ s.loc.held, ∀ c' ∈ s'.loc.held, conflict c c' = false
  safe : ∀ (i : ℕ) (s : Session T Row K X N ε α), S.sessions[i]? = some s →
    RelyGuarantee.safe P G s.prog s.loc S.world

theorem Sound.not_held {S : State T Row K X N ε α} (h : Sound P G S) {i j : ℕ}
    {s s' : Session T Row K X N ε α} (hs : S.sessions[i]? = some s)
    (hs' : S.sessions[j]? = some s') (hij : i ≠ j) {r : Resource T K}
    (hr : (r, .exclusive) ∈ s.loc.held) (m : Mode) : (r, m) ∉ s'.loc.held := by
  intro hm
  have hc := h.apart i j s s' hs hs' hij _ hr _ hm
  rw [conflict_of_exclusive] at hc
  cases hc

/-- Replacing one session by a later one keeps the run sound when the others can rely on
the change. -/
theorem Sound.put {S : State T Row K X N ε α} (h : Sound P G S) {i : ℕ}
    {s : Session T Row K X N ε α} {w : World T Row X N} (hw : P.inv w) (hc : Covered s.loc)
    (ha : ∀ j s', S.sessions[j]? = some s' → j ≠ i →
      ∀ c ∈ s.loc.held, ∀ c' ∈ s'.loc.held, conflict c c' = false)
    (hr : ∀ j s', S.sessions[j]? = some s' → j ≠ i → Rely P s'.loc S.world w)
    (hp : RelyGuarantee.safe P G s.prog s.loc w) : Sound P G (S.put i s w) where
  inv := hw
  covered j s' hs' := by
    rcases put_sessions S i j s w hs' with ⟨rfl, rfl⟩ | ⟨-, hs'⟩
    · exact hc
    · exact h.covered j s' hs'
  apart j k s₁ s₂ h₁ h₂ hjk c hm c' hm' := by
    rcases put_sessions S i j s w h₁ with ⟨rfl, rfl⟩ | ⟨hj, hs₁⟩
    · rcases put_sessions S j k _ w h₂ with ⟨rfl, rfl⟩ | ⟨hk, hs₂⟩
      · exact absurd rfl hjk
      · exact ha k s₂ hs₂ hk c hm c' hm'
    · rcases put_sessions S i k s w h₂ with ⟨rfl, rfl⟩ | ⟨hk, hs₂⟩
      · rw [conflict_comm]
        exact ha j s₁ hs₁ hj c' hm' c hm
      · exact h.apart j k s₁ s₂ hs₁ hs₂ hjk c hm c' hm'
  safe j s' hs' := by
    rcases put_sessions S i j s w hs' with ⟨rfl, rfl⟩ | ⟨hj, hs'⟩
    · exact hp
    · exact safe_rely (h.safe j s' hs') (hr j s' hs' hj)

omit [DecidableEq T] [DecidableEq K] in
theorem later_run (w : World T Row X N) (f : Effect T Row K X N) : Later w (w.run f) :=
  ⟨Nat.le_refl _, Nat.le_add_right _ _, List.prefix_rfl⟩

omit [DecidableEq K] in
theorem later_commit (w : World T Row X N) (l : Local T Row K N) : Later w (w.commit l) :=
  ⟨Nat.le_refl _, Nat.le_refl _, List.prefix_append _ _⟩

/-- The others keep what they rely on when one session makes a justified change. -/
theorem Sound.rely {S : State T Row K X N ε α} (h : Sound P G S) {i j : ℕ}
    {s s' : Session T Row K X N ε α} (hs : S.sessions[i]? = some s)
    (hs' : S.sessions[j]? = some s') (hij : j ≠ i) {w : World T Row X N}
    {held : List (Resource T K × Mode)} (hl : Later S.world w) (hm : Moves P held S.world w)
    (hh : ∀ c ∈ held, ∀ c' ∈ s'.loc.held, conflict c c' = false)
    (hrow : ∀ t k, pending s.loc.redo t k = none → w.db.rows t k = S.world.db.rows t k) :
    Rely P s'.loc S.world w where
  later := hl
  inv := hm.inv
  guar := hm.guar
  row t k m hk := by
    refine hrow t k ?_
    cases hp : pending s.loc.redo t k with
    | none => rfl
    | some v => exact absurd hk (h.not_held hs hs' hij.symm (h.covered i s hs _ (pending_mem hp)) m)
  prot r hr := by
    refine hm.prot r fun m hm' ↦ ?_
    have hc := hh _ hm' _ hr
    rw [conflict_comm, conflict_of_exclusive] at hc
    cases hc

theorem Sound.idle {S : State T Row K X N ε α} (h : Sound P G S) {i : ℕ} {p : Prog T Row K X N ε α}
    (hp : ∀ w, RelyGuarantee.safe P G p {} w) : Sound P G (S.put i ⟨p, {}⟩ S.world) := by
  refine h.put h.inv (fun x hx ↦ by cases hx) (fun _ _ _ _ c hc ↦ by cases hc) ?_ (hp _)
  intro j s' hs' _
  exact Rely.refl h.inv

theorem Sound.next {prog : Op → Prog T Row K X N ε α} {crash : ε} {S S' : State T Row K X N ε α}
    {label : Label Op} (hop : ∀ op w, P.inv w → RelyGuarantee.safe P G (prog op) {} w)
    (h : Sound P G S) (hg : G.admits S label) (hn : S.next prog crash label = some S') :
    Sound P G S' := by
  cases label with
  | start op =>
    cases hn
    have hs : ∀ {i : ℕ} {s : Session T Row K X N ε α},
        (S.sessions ++ [⟨prog op, {}⟩])[i]? = some s →
          S.sessions[i]? = some s ∨ i = S.sessions.length ∧ s = ⟨prog op, {}⟩ := by
      intro i s hs
      rw [List.getElem?_append] at hs
      split at hs
      · exact .inl hs
      · rw [List.getElem?_singleton] at hs
        split at hs
        · exact .inr ⟨by omega, (Option.some.inj hs).symm⟩
        · cases hs
    refine ⟨h.inv, fun i s hi ↦ ?_, fun i j s s' hi hj hij c hc c' hc' ↦ ?_, fun i s hi ↦ ?_⟩
    · rcases hs hi with hi | ⟨-, rfl⟩
      · exact h.covered i s hi
      · intro x hx
        cases hx
    · rcases hs hi with hi | ⟨-, rfl⟩
      · rcases hs hj with hj | ⟨-, rfl⟩
        · exact h.apart i j s s' hi hj hij c hc c' hc'
        · cases hc'
      · cases hc
    · rcases hs hi with hi | ⟨-, rfl⟩
      · exact h.safe i s hi
      · exact hop op _ h.inv
  | tick d =>
    cases hn
    have hq := P.quiet S.world (S.world.tick d) h.inv rfl rfl rfl (Nat.le_add_right _ _) (Nat.le_refl _)
    refine ⟨hq.1, h.covered, h.apart, fun i s hi ↦ safe_rely (h.safe i s hi) ?_⟩
    exact ⟨⟨Nat.le_add_right _ _, Nat.le_refl _, List.prefix_rfl⟩, hq.1, hq.2.1, fun _ _ _ _ ↦ rfl,
      fun r _ ↦ hq.2.2.2 r⟩
  | abort i =>
    simp only [State.next, Option.map_eq_some_iff] at hn
    obtain ⟨s, -, rfl⟩ := hn
    exact h.idle fun _ ↦ trivial
  | step i =>
    cases hs : S.sessions[i]? with
    | none => simp [State.next, hs] at hn
    | some s =>
      obtain ⟨p, l⟩ := s
      have hsafe := h.safe i _ hs
      have hadm := hg _ hs
      cases p with
      | done a =>
        simp only [State.next, hs, Option.some.injEq] at hn
        subst hn
        exact h.idle fun _ ↦ trivial
      | fail e =>
        simp only [State.next, hs, Option.some.injEq] at hn
        subst hn
        exact h.idle fun _ ↦ trivial
      | commit rest =>
        simp only [State.next, hs, Option.some.injEq] at hn
        subst hn
        obtain ⟨hm, hp⟩ := hsafe _ (Rely.refl h.inv) hadm
        refine h.put hm.inv (covered_commit l) ?_ ?_ hp
        · intro j s' hs' hj c hc
          exact h.apart i j _ s' hs hs' hj.symm c (commit_held_subset hc)
        · intro j s' hs' hj
          refine h.rely hs hs' hj (later_commit _ _) hm (h.apart i j _ s' hs hs' hj.symm) ?_
          intro t k hk
          exact apply_rows_of_none hk
      | step effect rest =>
        simp only [State.next, hs] at hn
        split at hn
        · next hgr =>
          cases hn
          obtain ⟨hm, hp⟩ := hsafe _ (Rely.refl h.inv) hadm
          have ha : ∀ j s', S.sessions[j]? = some s' → j ≠ i →
              ∀ c ∈ (l.run (effect (S.world.view l)) S.world.next).held, ∀ c' ∈ s'.loc.held,
                conflict c c' = false := by
            intro j s' hs' hj c hc c' hc'
            rcases List.mem_append.1 hc with hc | hc
            · exact h.apart i j _ s' hs hs' hj.symm c hc c' hc'
            · exact grants_iff.1 hgr j s' hs' hj c hc c' hc'
          refine h.put hm.inv (covered_run (h.covered i _ hs) _ _) ha ?_ hp
          intro j s' hs' hj
          exact h.rely hs hs' hj (later_run _ _) hm (ha j s' hs' hj) fun _ _ _ ↦ rfl
        · cases hn

/-- Rely–guarantee soundness: if every call is safe from every state that satisfies the
invariant, then the invariant holds in every state of every guarded run. -/
theorem sound_of_reach {prog : Op → Prog T Row K X N ε α} {crash : ε} {w : World T Row X N}
    {S : State T Row K X N ε α} (hop : ∀ op w, P.inv w → RelyGuarantee.safe P G (prog op) {} w)
    (hw : P.inv w) (h : Reach prog crash G w S) : Sound P G S := by
  induction h with
  | init => exact ⟨hw, fun i s hs ↦ by simp [State.init] at hs, fun i j s s' hs ↦ by
      simp [State.init] at hs, fun i s hs ↦ by simp [State.init] at hs⟩
  | step label _ hg hn ih => exact ih.next hop hg hn

/-- Whatever holds across every justified change and every quiet one holds across each step. -/
theorem Sound.across {prog : Op → Prog T Row K X N ε α} {crash : ε} {S S' : State T Row K X N ε α}
    {label : Label Op} {R : World T Row X N → World T Row X N → Prop}
    (hR : ∀ held w w', P.inv w → Later w w' → Moves P held w w' → R w w') (h : Sound P G S)
    (hg : G.admits S label) (hn : S.next prog crash label = some S') : R S.world S'.world := by
  have hquiet : ∀ d, Moves P [] S.world (S.world.tick d) := by
    intro d
    obtain ⟨h₁, h₂, h₃, h₄⟩ := P.quiet S.world (S.world.tick d) h.inv rfl rfl rfl
      (Nat.le_add_right _ _) (Nat.le_refl _)
    exact ⟨h₁, h₂, h₃, fun r _ ↦ h₄ r⟩
  have htick : ∀ d, R S.world (S.world.tick d) := fun d ↦ hR [] _ _ h.inv
    ⟨Nat.le_add_right _ _, Nat.le_refl _, List.prefix_rfl⟩ (hquiet d)
  have hstay : R S.world S.world := htick 0
  cases label with
  | start op =>
    cases hn
    exact hstay
  | tick d =>
    cases hn
    exact htick d
  | abort i =>
    simp only [State.next, Option.map_eq_some_iff] at hn
    obtain ⟨s, -, rfl⟩ := hn
    exact hstay
  | step i =>
    cases hs : S.sessions[i]? with
    | none => simp [State.next, hs] at hn
    | some s =>
      obtain ⟨p, l⟩ := s
      have hsafe := h.safe i _ hs
      have hadm := hg _ hs
      cases p with
      | done a =>
        simp only [State.next, hs, Option.some.injEq] at hn
        subst hn
        exact hstay
      | fail e =>
        simp only [State.next, hs, Option.some.injEq] at hn
        subst hn
        exact hstay
      | commit rest =>
        simp only [State.next, hs, Option.some.injEq] at hn
        subst hn
        exact hR _ _ _ h.inv (later_commit _ _) (hsafe _ (Rely.refl h.inv) hadm).1
      | step effect rest =>
        simp only [State.next, hs] at hn
        split at hn
        · cases hn
          exact hR _ _ _ h.inv (later_run _ _) (hsafe _ (Rely.refl h.inv) hadm).1
        · cases hn

/-- What every call guarantees for its changes holds across the rest of a run. -/
theorem guar_of_continues {prog : Op → Prog T Row K X N ε α} {crash : ε}
    {S S' : State T Row K X N ε α} (hop : ∀ op w, P.inv w → RelyGuarantee.safe P G (prog op) {} w)
    (h : Sound P G S) (hc : Continues prog crash G S S') :
    Sound P G S' ∧ P.guar S.world S'.world := by
  induction hc with
  | refl => exact ⟨h, P.guar_refl _⟩
  | step label _ hg hn ih =>
    obtain ⟨hs, hguar⟩ := ih
    exact ⟨hs.next hop hg hn, P.guar_trans _ _ _ hguar
      (hs.across (R := P.guar) (fun _ _ _ _ _ hm ↦ hm.guar) hg hn)⟩

end AdminPlatform.Foundation.RelyGuarantee
