import AdminPlatform.Foundation.Transaction

namespace AdminPlatform.Foundation.Interleaving

open Relational Transaction

/-- A running call. It has ended once its program is `done` or `fail` and it holds nothing. -/
structure Session (T : Type) (Row : T → Type) (K X N ε α : Type) where
  prog : Prog T Row K X N ε α
  loc : Local T Row K N

structure State (T : Type) (Row : T → Type) (K X N ε α : Type) where
  world : World T Row X N
  sessions : List (Session T Row K X N ε α)

/-- Scheduler choices: a call arrives, a session takes its next step, a session dies and
is rolled back, time passes. -/
inductive Label (Op : Type)
  | start (op : Op)
  | step (i : ℕ)
  | abort (i : ℕ)
  | tick (d : ℕ)

variable {T : Type} {Row : T → Type} {K X N ε α Op : Type}

def conflict [DecidableEq T] [DecidableEq K] (c c' : Resource T K × Mode) : Bool :=
  c.1 = c'.1 && !(c.2 = .shared && c'.2 = .shared)

def State.put (S : State T Row K X N ε α) (i : ℕ) (s : Session T Row K X N ε α)
    (w : World T Row X N) : State T Row K X N ε α where
  world := w
  sessions := S.sessions.set i s

theorem put_sessions (S : State T Row K X N ε α) (i j : ℕ) (s : Session T Row K X N ε α)
    (w : World T Row X N) {s' : Session T Row K X N ε α} (h : (S.put i s w).sessions[j]? = some s') :
    (j = i ∧ s' = s) ∨ (j ≠ i ∧ S.sessions[j]? = some s') := by
  simp only [State.put, List.getElem?_set] at h
  by_cases hj : i = j
  · rw [if_pos hj] at h
    split at h
    · exact .inl ⟨hj.symm, (Option.some.inj h).symm⟩
    · cases h
  · rw [if_neg hj] at h
    exact .inr ⟨fun he ↦ hj he.symm, h⟩

variable [DecidableEq T] [DecidableEq K]

/-- No session other than `i` holds anything in conflict with the claims. -/
def State.grants (S : State T Row K X N ε α) (i : ℕ) (claims : List (Resource T K × Mode)) : Bool :=
  S.sessions.zipIdx.all fun x ↦ x.2 = i || claims.all fun c ↦ x.1.loc.held.all fun c' ↦ !conflict c c'

/-- Read-committed execution: one statement, commit or rollback of one session at a time,
a statement that cannot get its locks waits. -/
def State.next (prog : Op → Prog T Row K X N ε α) (crash : ε) (S : State T Row K X N ε α) :
    Label Op → Option (State T Row K X N ε α)
  | .start op => some { S with sessions := S.sessions ++ [⟨prog op, {}⟩] }
  | .tick d => some { S with world := S.world.tick d }
  | .abort i => (S.sessions[i]?).map fun _ ↦ S.put i ⟨.fail crash, {}⟩ S.world
  | .step i =>
    match S.sessions[i]? with
    | none => none
    | some ⟨.done a, _⟩ => some (S.put i ⟨.done a, {}⟩ S.world)
    | some ⟨.fail e, _⟩ => some (S.put i ⟨.fail e, {}⟩ S.world)
    | some ⟨.commit rest, l⟩ => some (S.put i ⟨rest, l.commit⟩ (S.world.commit l))
    | some ⟨.step effect rest, l⟩ =>
      let v := S.world.view l
      let f := effect v
      if S.grants i (f.claims v.next) then
        some (S.put i ⟨rest v, l.run f v.next⟩ (S.world.run f))
      else none

/-- Conditions on the statements and the commits of a run. -/
structure Guard (T : Type) (Row : T → Type) (K X N : Type) where
  stmt : World T Row X N → Effect T Row K X N → Prop
  commit : World T Row X N → List N → Prop

def Guard.free : Guard T Row K X N := ⟨fun _ _ ↦ True, fun _ _ ↦ True⟩

def Guard.admits (G : Guard T Row K X N) (S : State T Row K X N ε α) : Label Op → Prop
  | .step i => ∀ s, S.sessions[i]? = some s →
    match s.prog with
    | .step effect _ => G.stmt S.world (effect (S.world.view s.loc))
    | .commit _ => G.commit S.world s.loc.notes
    | _ => True
  | _ => True

omit [DecidableEq K] in
theorem admits_free (S : State T Row K X N ε α) (label : Label Op) : Guard.free.admits S label := by
  cases label with
  | step i =>
    intro s _
    split <;> trivial
  | _ => trivial

def State.init (w : World T Row X N) : State T Row K X N ε α := ⟨w, []⟩

/-- The states of the runs from `w` whose steps all meet the guard. -/
inductive Reach (prog : Op → Prog T Row K X N ε α) (crash : ε) (G : Guard T Row K X N)
    (w : World T Row X N) : State T Row K X N ε α → Prop
  | init : Reach prog crash G w (.init w)
  | step {S S' : State T Row K X N ε α} (label : Label Op) : Reach prog crash G w S →
      G.admits S label → S.next prog crash label = some S' → Reach prog crash G w S'

/-- How a run goes on from one of its states. -/
inductive Continues (prog : Op → Prog T Row K X N ε α) (crash : ε) (G : Guard T Row K X N)
    (S : State T Row K X N ε α) : State T Row K X N ε α → Prop
  | refl : Continues prog crash G S S
  | step {S' S'' : State T Row K X N ε α} (label : Label Op) : Continues prog crash G S S' →
      G.admits S' label → S'.next prog crash label = some S'' → Continues prog crash G S S''

theorem reach_continues {prog : Op → Prog T Row K X N ε α} {crash : ε} {G : Guard T Row K X N}
    {w : World T Row X N} {S S' : State T Row K X N ε α} (h : Reach prog crash G w S)
    (hc : Continues prog crash G S S') : Reach prog crash G w S' := by
  induction hc with
  | refl => exact h
  | step label _ hg hn ih => exact .step label ih hg hn

def State.passes (check : World T Row X N → List N → Bool) (S : State T Row K X N ε α) :
    Label Op → Bool
  | .step i => match S.sessions[i]? with
    | some ⟨.commit _, l⟩ => check S.world l.notes
    | _ => true
  | _ => true

/-- The state a schedule leads to, if every step of it can be taken and every commit passes
the check. -/
def State.follow (prog : Op → Prog T Row K X N ε α) (crash : ε) (check : World T Row X N → List N → Bool)
    (S : State T Row K X N ε α) : List (Label Op) → Option (State T Row K X N ε α)
  | [] => some S
  | a :: as =>
    if S.passes check a then (S.next prog crash a).bind fun S' ↦ S'.follow prog crash check as
    else none

theorem reach_follow {prog : Op → Prog T Row K X N ε α} {crash : ε} {G : Guard T Row K X N}
    {check : World T Row X N → List N → Bool} {w : World T Row X N} {S S' : State T Row K X N ε α}
    {as : List (Label Op)} (hs : ∀ w f, G.stmt w f) (hc : ∀ w ns, check w ns = true → G.commit w ns)
    (h : Reach prog crash G w S) (hS : S.follow prog crash check as = some S') :
    Reach prog crash G w S' := by
  induction as generalizing S with
  | nil =>
    cases hS
    exact h
  | cons a as ih =>
    simp only [State.follow] at hS
    split at hS
    · next hp =>
      obtain ⟨S₁, h₁, h₂⟩ := Option.bind_eq_some_iff.1 hS
      refine ih (.step a h ?_ h₁) h₂
      cases a with
      | step i =>
        rintro ⟨p, l⟩ hi
        cases p with
        | step effect rest => exact hs _ _
        | commit rest =>
          simp only [State.passes, hi] at hp
          exact hc _ _ hp
        | _ => trivial
      | _ => trivial
    · cases hS

/-- A schedule that ends in a state with property `p` is a run to such a state. -/
theorem exists_reach_of_follow {prog : Op → Prog T Row K X N ε α} {crash : ε}
    {G : Guard T Row K X N} {w : World T Row X N} {p : State T Row K X N ε α → Bool}
    (check : World T Row X N → List N → Bool) (as : List (Label Op)) (hs : ∀ w f, G.stmt w f)
    (hc : ∀ w ns, check w ns = true → G.commit w ns)
    (h : ((State.init w).follow prog crash check as).any p = true) :
    ∃ S, Reach prog crash G w S ∧ p S = true := by
  obtain ⟨S, hS, hp⟩ := (Option.any_eq_true _ _).1 h
  exact ⟨S, reach_follow hs hc .init hS, hp⟩

/-- As `follow`, with a check of every state that takes a step. -/
def State.walk (prog : Op → Prog T Row K X N ε α) (crash : ε)
    (check : State T Row K X N ε α → Label Op → Bool) (S : State T Row K X N ε α) :
    List (Label Op) → Option (State T Row K X N ε α)
  | [] => some S
  | a :: as =>
    if check S a then (S.next prog crash a).bind fun S' ↦ S'.walk prog crash check as else none

theorem reach_walk {prog : Op → Prog T Row K X N ε α} {crash : ε} {G : Guard T Row K X N}
    {check : State T Row K X N ε α → Label Op → Bool} {w : World T Row X N}
    {S S' : State T Row K X N ε α} {as : List (Label Op)}
    (hc : ∀ S a, check S a = true → G.admits S a) (h : Reach prog crash G w S)
    (hS : S.walk prog crash check as = some S') : Reach prog crash G w S' := by
  induction as generalizing S with
  | nil =>
    cases hS
    exact h
  | cons a as ih =>
    simp only [State.walk] at hS
    split at hS
    · next hp =>
      obtain ⟨S₁, h₁, h₂⟩ := Option.bind_eq_some_iff.1 hS
      exact ih (.step a h (hc S a hp) h₁) h₂
    · cases hS

theorem exists_reach_of_walk {prog : Op → Prog T Row K X N ε α} {crash : ε}
    {G : Guard T Row K X N} {w : World T Row X N} {p : State T Row K X N ε α → Bool}
    (check : State T Row K X N ε α → Label Op → Bool) (as : List (Label Op))
    (hc : ∀ S a, check S a = true → G.admits S a)
    (h : ((State.init w).walk prog crash check as).any p = true) :
    ∃ S, Reach prog crash G w S ∧ p S = true := by
  obtain ⟨S, hS, hp⟩ := (Option.any_eq_true _ _).1 h
  exact ⟨S, reach_walk hc .init hS, hp⟩

/-- A schedule that goes on from a state of a run. -/
theorem continues_follow {prog : Op → Prog T Row K X N ε α} {crash : ε}
    {check : World T Row X N → List N → Bool} {S S₁ S₂ : State T Row K X N ε α} {as : List (Label Op)}
    (h : Continues prog crash .free S S₁) (hS : S₁.follow prog crash check as = some S₂) :
    Continues prog crash .free S S₂ := by
  induction as generalizing S₁ with
  | nil =>
    cases hS
    exact h
  | cons a as ih =>
    simp only [State.follow] at hS
    split at hS
    · obtain ⟨S', h₁, h₂⟩ := Option.bind_eq_some_iff.1 hS
      exact ih (.step a h (admits_free S₁ a) h₁) h₂
    · cases hS

theorem conflict_comm (c c' : Resource T K × Mode) : conflict c c' = conflict c' c := by
  simp only [conflict, eq_comm, Bool.and_comm]

theorem conflict_of_exclusive {r : Resource T K} {m : Mode} :
    conflict (r, .exclusive) (r, m) = true := by simp [conflict]

theorem grants_iff {S : State T Row K X N ε α} {i : ℕ} {claims : List (Resource T K × Mode)} :
    S.grants i claims = true ↔ ∀ j s, S.sessions[j]? = some s → j ≠ i →
      ∀ c ∈ claims, ∀ c' ∈ s.loc.held, conflict c c' = false := by
  simp only [State.grants, List.all_eq_true, Prod.forall, List.mem_zipIdx_iff_getElem?,
    Bool.or_eq_true, decide_eq_true_eq, Bool.not_eq_true']
  constructor
  · intro h j s hs hj
    exact (h s j hs).resolve_left hj
  · intro h s j hs
    by_cases hj : j = i
    · exact .inl hj
    · exact .inr (h j s hs hj)

def State.Free (S : State T Row K X N ε α) : Prop := ∀ s ∈ S.sessions, s.loc.held = []

omit [DecidableEq T] [DecidableEq K] in
theorem free_init (w : World T Row X N) : (State.init w : State T Row K X N ε α).Free :=
  fun _ hs ↦ by cases hs

theorem grants_of_free {ss : List (Session T Row K X N ε α)} {s : Session T Row K X N ε α}
    {w : World T Row X N} (h : ∀ s ∈ ss, s.loc.held = []) (claims : List (Resource T K × Mode)) :
    State.grants ⟨w, ss ++ [s]⟩ ss.length claims = true := by
  rw [grants_iff]
  intro j s' hs' hj c _ c' hc'
  rw [List.getElem?_append] at hs'
  split at hs'
  · rw [h s' (List.mem_of_getElem? hs')] at hc'
    cases hc'
  · rw [List.getElem?_singleton] at hs'
    split at hs'
    · omega
    · cases hs'

theorem reach_alone {prog : Op → Prog T Row K X N ε α} {crash : ε} {w v : World T Row X N}
    {ss : List (Session T Row K X N ε α)} (h : ∀ s ∈ ss, s.loc.held = [])
    (p : Prog T Row K X N ε α) (l : Local T Row K N)
    (hS : Reach prog crash .free w ⟨v, ss ++ [⟨p, l⟩]⟩) :
    ∃ S, Reach prog crash .free w S ∧ S.Free ∧ S.world = (p.runs l v).2.2 := by
  have hadm := fun S : State T Row K X N ε α ↦ admits_free S (.step ss.length : Label Op)
  have hput : ∀ (q q' : Session T Row K X N ε α), (ss ++ [q]).set ss.length q' = ss ++ [q'] := by
    intro q q'
    rw [List.set_append_right _ _ (Nat.le_refl _), Nat.sub_self]
    rfl
  have hget : ∀ q : Session T Row K X N ε α, (ss ++ [q])[ss.length]? = some q := by
    intro q
    simp
  have hend : ∀ (u : World T Row X N) (q : Prog T Row K X N ε α),
      (⟨u, ss ++ [⟨q, {}⟩]⟩ : State T Row K X N ε α).Free := by
    intro u q s hs
    rcases List.mem_append.1 hs with hs | hs
    · exact h s hs
    · rw [List.mem_singleton.1 hs]
  induction p generalizing l v with
  | done a =>
    refine ⟨⟨v, ss ++ [⟨.done a, {}⟩]⟩, .step (.step ss.length) hS (hadm _) ?_, hend _ _, rfl⟩
    simp only [State.next, hget, State.put, hput]
  | fail e =>
    refine ⟨⟨v, ss ++ [⟨.fail e, {}⟩]⟩, .step (.step ss.length) hS (hadm _) ?_, hend _ _, rfl⟩
    simp only [State.next, hget, State.put, hput]
  | step effect next ih =>
    refine ih _ _ (.step (.step ss.length) hS (hadm _) ?_)
    simp only [State.next, hget, State.put, hput, grants_of_free h, if_true]
    rfl
  | commit next ih =>
    refine ih _ (.step (.step ss.length) hS (hadm _) ?_)
    simp only [State.next, hget, State.put, hput]

theorem reach_exec {prog : Op → Prog T Row K X N ε α} {crash : ε} {w : World T Row X N}
    {S : State T Row K X N ε α} (hS : Reach prog crash .free w S) (h : S.Free) (op : Op) :
    ∃ S', Reach prog crash .free w S' ∧ S'.Free ∧ S'.world = ((prog op).exec S.world).1 := by
  refine reach_alone h (prog op) {} (.step (.start op) hS trivial ?_)
  rfl

section Publishing

variable {prog : Op → Prog T Row K X N ε α} {crash : ε} {G : Guard T Row K X N} {op : Op} {i : ℕ}
  {S S₁ S₂ S' : State T Row K X N ε α} {R : Except ε α → List (View T Row X) → List N → Prop}

theorem Continues.trans (h : Continues prog crash G S S₁) (h' : Continues prog crash G S₁ S₂) :
    Continues prog crash G S S₂ := by
  induction h' with
  | refl => exact h
  | step label _ hg hn ih => exact .step label ih hg hn

/-- The session has seen `v` on the way from `S` to `S'`. -/
def Looked (prog : Op → Prog T Row K X N ε α) (crash : ε) (G : Guard T Row K X N) (i : ℕ)
    (S S' : State T Row K X N ε α) (v : View T Row X) : Prop :=
  ∃ S₀ s, Continues prog crash G S S₀ ∧ S₀.sessions[i]? = some s ∧ v = S₀.world.view s.loc ∧
    Continues prog crash G S₀ S'

/-- The session publishes the notes in one step and has its result from there. -/
structure Commits (prog : Op → Prog T Row K X N ε α) (crash : ε) (i : ℕ) (r : Except ε α) (ns : List N)
    (S S' : State T Row K X N ε α) : Prop where
  next : S.next prog crash (.step i) = some S'
  log : S'.world.log = S.world.log ++ ns
  result : ∃ l, S'.sessions[i]? = some ⟨.ofExcept r, l⟩

/-- Where a session stands in a run that goes on from `S`: in its transaction, past it, or failed. -/
inductive Stands (prog : Op → Prog T Row K X N ε α) (crash : ε) (G : Guard T Row K X N)
    (R : Except ε α → List (View T Row X) → List N → Prop) (i : ℕ) (S S' : State T Row K X N ε α) : Prop
  | inside (p : Prog T Row K X N ε α) (l : Local T Row K N) (vs : List (View T Row X)) :
      S'.sessions[i]? = some ⟨p, l⟩ → p.Publishes R vs l.notes →
      (∀ v ∈ vs, Looked prog crash G i S S' v) → Stands prog crash G R i S S'
  | past (r : Except ε α) (l : Local T Row K N) (vs : List (View T Row X)) (ns : List N)
      (S₂ S₃ : State T Row K X N ε α) : S'.sessions[i]? = some ⟨.ofExcept r, l⟩ →
      Continues prog crash G S S₂ → Commits prog crash i r ns S₂ S₃ → Continues prog crash G S₃ S' →
      R r vs ns → (∀ v ∈ vs, Looked prog crash G i S S₂ v) → Stands prog crash G R i S S'
  | failed (e : ε) (l : Local T Row K N) : S'.sessions[i]? = some ⟨.fail e, l⟩ → Stands prog crash G R i S S'

theorem Looked.continues {v : View T Row X} (h : Looked prog crash G i S S₁ v)
    (hc : Continues prog crash G S₁ S₂) : Looked prog crash G i S S₂ v := by
  obtain ⟨S₀, s, h₀, hs, hv, h₁⟩ := h
  exact ⟨S₀, s, h₀, hs, hv, h₁.trans hc⟩

theorem stands_start (h : (prog op).Publishes R [] []) (hn : S.next prog crash (.start op) = some S₁) :
    Stands prog crash G R S.sessions.length S₁ S₁ := by
  cases hn
  refine .inside (prog op) {} [] ?_ h fun v hv ↦ by cases hv
  simp

/-- What a step of the session does: it goes on in its transaction, or publishes and has its result. -/
theorem step_cases {p : Prog T Row K X N ε α} {l : Local T Row K N} {vs : List (View T Row X)}
    (hs : S₁.sessions[i]? = some ⟨p, l⟩) (hp : p.Publishes R vs l.notes)
    (hn : S₁.next prog crash (.step i) = some S₂) :
    (S₂.world.log = S₁.world.log ∧ ∃ p' l' vs', S₂.sessions[i]? = some ⟨p', l'⟩ ∧
        (p'.Publishes R vs' l'.notes) ∧ ∀ v ∈ vs', v ∈ vs ∨ v = S₁.world.view l) ∨
      ∃ r, Commits prog crash i r l.notes S₁ S₂ ∧ R r vs l.notes := by
  have hi := (List.getElem?_eq_some_iff.1 hs).1
  have hput : ∀ (s : Session T Row K X N ε α) w, (S₁.put i s w).sessions[i]? = some s := by
    intro s w
    simp [State.put, hi]
  have hnext := hn
  cases p with
  | done a => exact hp.elim
  | fail e =>
    simp only [State.next, hs, Option.some.injEq] at hn
    subst hn
    exact .inl ⟨rfl, .fail e, {}, [], hput _ _, trivial, fun v hv ↦ by cases hv⟩
  | commit next =>
    obtain ⟨r, rfl, hr⟩ := hp
    simp only [State.next, hs, Option.some.injEq] at hn
    subst hn
    exact .inr ⟨r, ⟨hnext, rfl, l.commit, hput _ _⟩, hr⟩
  | step effect next =>
    simp only [State.next, hs] at hn
    split at hn
    · cases hn
      refine .inl ⟨rfl, next (S₁.world.view l), _, vs ++ [S₁.world.view l], hput _ _, hp _, fun v hv ↦ ?_⟩
      exact (List.mem_append.1 hv).imp_right List.mem_singleton.1
    · cases hn

theorem next_other {label : Label Op} {s : Session T Row K X N ε α} (hs : S₁.sessions[i]? = some s)
    (hn : S₁.next prog crash label = some S₂) : label = .step i ∨ S₂.sessions[i]? = some s ∨
      S₂.sessions[i]? = some ⟨.fail crash, {}⟩ := by
  have hi := (List.getElem?_eq_some_iff.1 hs).1
  have hput : ∀ j s' w, j ≠ i → (S₁.put j s' w).sessions[i]? = some s := by
    intro j s' w hj
    rw [← hs]
    exact List.getElem?_set_ne hj
  cases label with
  | start op =>
    cases hn
    exact .inr (.inl ((List.getElem?_append_left hi).trans hs))
  | tick d =>
    cases hn
    exact .inr (.inl hs)
  | abort j =>
    simp only [State.next, Option.map_eq_some_iff] at hn
    obtain ⟨s', hj, rfl⟩ := hn
    by_cases h : j = i
    · subst h
      refine .inr (.inr ?_)
      simp [State.put, hi]
    · exact .inr (.inl (hput j _ _ h))
  | step j =>
    by_cases h : j = i
    · exact .inl (h ▸ rfl)
    · refine .inr (.inl ?_)
      simp only [State.next] at hn
      split at hn
      · cases hn
      · cases hn
        exact hput j _ _ h
      · cases hn
        exact hput j _ _ h
      · cases hn
        exact hput j _ _ h
      · split at hn
        · cases hn
          exact hput j _ _ h
        · cases hn

theorem log_of_next {label : Label Op} (hn : S.next prog crash label = some S') :
    S.world.log <+: S'.world.log := by
  cases label with
  | start op =>
    cases hn
    exact List.prefix_rfl
  | tick d =>
    cases hn
    exact List.prefix_rfl
  | abort i =>
    simp only [State.next, Option.map_eq_some_iff] at hn
    obtain ⟨s, -, rfl⟩ := hn
    exact List.prefix_rfl
  | step i =>
    simp only [State.next] at hn
    split at hn
    · cases hn
    · cases hn
      exact List.prefix_rfl
    · cases hn
      exact List.prefix_rfl
    · cases hn
      exact List.prefix_append _ _
    · split at hn
      · cases hn
        exact List.prefix_rfl
      · cases hn

/-- A session that has its result has nothing left to do. -/
theorem next_ended {r : Except ε α} {l : Local T Row K N} {label : Label Op}
    (hs : S₁.sessions[i]? = some ⟨.ofExcept r, l⟩) (hn : S₁.next prog crash label = some S₂) :
    (∃ l', S₂.sessions[i]? = some ⟨.ofExcept r, l'⟩) ∨ S₂.sessions[i]? = some ⟨.fail crash, {}⟩ := by
  have hi := (List.getElem?_eq_some_iff.1 hs).1
  obtain rfl | hsame | hfail := next_other hs hn
  · cases r with
    | ok a =>
      simp only [State.next, hs, Prog.ofExcept, Option.some.injEq] at hn
      subst hn
      exact .inl ⟨{}, by simp [State.put, hi, Prog.ofExcept]⟩
    | error e =>
      simp only [State.next, hs, Prog.ofExcept, Option.some.injEq] at hn
      subst hn
      exact .inl ⟨{}, by simp [State.put, hi, Prog.ofExcept]⟩
  · exact .inl ⟨l, hsame⟩
  · exact .inr hfail

theorem Stands.next {label : Label Op} (h : Stands prog crash G R i S S₁) (hc : Continues prog crash G S S₁)
    (hg : G.admits S₁ label) (hn : S₁.next prog crash label = some S₂) : Stands prog crash G R i S S₂ := by
  have hone : Continues prog crash G S₁ S₂ := .step label .refl hg hn
  cases h with
  | failed e l hs =>
    obtain ⟨l', hs'⟩ | hs' := next_ended (r := .error e) hs hn
    · exact .failed e l' hs'
    · exact .failed crash {} hs'
  | past r l vs ns S₃ S₄ hs h₃ hcommit h₄ hr hlook =>
    obtain ⟨l', hs'⟩ | hs' := next_ended hs hn
    · exact .past r l' vs ns S₃ S₄ hs' h₃ hcommit (h₄.trans hone) hr hlook
    · exact .failed crash {} hs'
  | inside p l vs hs hp hlook =>
    obtain rfl | hsame | hfail := next_other hs hn
    · obtain ⟨-, p', l', vs', hs', hp', hvs⟩ | ⟨r, hcommit, hr⟩ := step_cases hs hp hn
      · refine .inside p' l' vs' hs' hp' fun v hv ↦ ?_
        rcases hvs v hv with hv | rfl
        · exact (hlook v hv).continues hone
        · exact ⟨S₁, ⟨p, l⟩, hc, hs, rfl, hone⟩
      · obtain ⟨l', hs'⟩ := hcommit.result
        exact .past r l' vs l.notes S₁ S₂ hs' hc hcommit .refl hr hlook
    · exact .inside p l vs hsame hp fun v hv ↦ (hlook v hv).continues hone
    · exact .failed crash {} hfail

theorem stands_of_continues (h : (prog op).Publishes R [] []) (hn : S.next prog crash (.start op) = some S₁)
    (hc : Continues prog crash G S₁ S') : Stands prog crash G R S.sessions.length S₁ S' := by
  induction hc with
  | refl => exact stands_start h hn
  | step label hc hg hn ih => exact ih.next hc hg hn

theorem log_of_continues (hc : Continues prog crash G S S') : S.world.log <+: S'.world.log := by
  induction hc with
  | refl => exact List.prefix_rfl
  | step label hc hg hn ih => exact ih.trans (log_of_next hn)

/-- A call that ended with a result has published what its program says. -/
theorem commits_of_done {a : α} {l : Local T Row K N} (h : (prog op).Publishes R [] [])
    (hn : S.next prog crash (.start op) = some S₁) (hc : Continues prog crash G S₁ S')
    (hs : S'.sessions[S.sessions.length]? = some ⟨.done a, l⟩) :
    ∃ S₂ S₃ vs ns, Continues prog crash G S₁ S₂ ∧ Commits prog crash S.sessions.length (.ok a) ns S₂ S₃ ∧
      Continues prog crash G S₃ S' ∧ R (.ok a) vs ns ∧
      ∀ v ∈ vs, Looked prog crash G S.sessions.length S₁ S₂ v := by
  cases stands_of_continues h hn hc with
  | failed e l' hs' =>
    rw [hs] at hs'
    cases hs'
  | inside p l' vs hs' hp hlook =>
    rw [hs] at hs'
    cases hs'
    exact hp.elim
  | past r l' vs ns S₂ S₃ hs' h₂ hcommit h₃ hr hlook =>
    rw [hs] at hs'
    cases r with
    | error e => cases hs'
    | ok b =>
      cases hs'
      exact ⟨S₂, S₃, vs, ns, h₂, hcommit, h₃, hr, hlook⟩

/-- A step of a call publishes nothing, or what its program says, with the result. -/
theorem commits_of_next (h : (prog op).Publishes R [] []) (hn : S.next prog crash (.start op) = some S₁)
    (hc : Continues prog crash G S₁ S₂) (hn' : S₂.next prog crash (.step S.sessions.length) = some S') :
    S'.world.log = S₂.world.log ∨ ∃ r vs ns, Commits prog crash S.sessions.length r ns S₂ S' ∧ R r vs ns ∧
      ∀ v ∈ vs, Looked prog crash G S.sessions.length S₁ S₂ v := by
  have hended : ∀ r l, S₂.sessions[S.sessions.length]? = some ⟨.ofExcept r, l⟩ →
      S'.world.log = S₂.world.log := by
    intro r l hs
    cases r with
    | ok a =>
      simp only [State.next, hs, Prog.ofExcept, Option.some.injEq] at hn'
      subst hn'
      rfl
    | error e =>
      simp only [State.next, hs, Prog.ofExcept, Option.some.injEq] at hn'
      subst hn'
      rfl
  cases stands_of_continues h hn hc with
  | failed e l hs => exact .inl (hended (.error e) l hs)
  | past r l vs ns S₃ S₄ hs => exact .inl (hended r l hs)
  | inside p l vs hs hp hlook =>
    obtain ⟨hlog, -⟩ | ⟨r, hcommit, hr⟩ := step_cases hs hp hn'
    · exact .inl hlog
    · exact .inr ⟨r, vs, l.notes, hcommit, hr, hlook⟩

end Publishing

end AdminPlatform.Foundation.Interleaving
