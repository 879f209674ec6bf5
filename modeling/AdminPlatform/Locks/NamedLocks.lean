import AdminPlatform.Locks.SentinelRows

namespace AdminPlatform.Locks.NamedLocks

open Foundation.RowLocks SentinelRows

variable {process loop : ℕ → ℕ} {S S' R : State} {a : Action} {t s : ℕ} {name : String} {phase : Phase}
  {rows rows' : KeyTable Owner String}

/-- What a call does to the table before it asks for the lock. -/
inductive Prepares (t : ℕ) (rows : KeyTable Owner String) : KeyTable Owner String → Prop
  | same : Prepares t rows rows
  | short {rows' : KeyTable Owner String} (name : String) (h : rows.insertIgnore (.short t) name = some rows') :
      Prepares t rows rows'
  | shortCommit : Prepares t rows (rows.commit (.short t))
  | shortRollback : Prepares t rows (rows.rollback (.short t))
  | current {rows' : KeyTable Owner String} (name : String)
      (h : rows.insertIgnore (.session t) name = some rows') : Prepares t rows rows'

/-- A call moves on without an answer, and ends so only by raising; it gets its answer; or it
returns with the row that it was answered. -/
inductive Moves (S S' : State) (t : ℕ) : Prop
  | moves (next : Phase) (rows : Prepares t S.rows S'.rows) (phase : S'.phase = Function.update S.phase t next)
      (answer : ∀ name left, next ≠ .answered name left true) (acquired : S'.acquired = S.acquired)
      (ends : next = .idle → S'.outcome t = some .raised)
  | answers (name : String) (left : ℕ) (found : Bool)
      (rows : S.rows.selectForUpdate (.session t) name = some (S'.rows, found))
      (phase : S'.phase = Function.update S.phase t (.answered name left found))
      (acquired : S'.acquired = S.acquired)
  | returns (name : String) (left : ℕ) (before : S.phase t = .answered name left true) (rows : S'.rows = S.rows)
      (phase : S'.phase = Function.update S.phase t .idle) (acquired : S'.acquired = (t, name) :: S.acquired)
      (outcome : S'.outcome t = some .returned)

theorem moves_of_ne {p : Phase} (rows : Prepares t S.rows S'.rows)
    (phase : S'.phase = Function.update S.phase t p) (acquired : S'.acquired = S.acquired)
    (hn : ∀ name left, p ≠ .answered name left true) (hne : p ≠ .idle) : Moves S S' t :=
  .moves p rows phase hn acquired fun hi ↦ absurd hi hne

theorem moves_finish (rows : Prepares t R.rows S.rows) (phase : S.phase = R.phase)
    (acquired : S.acquired = R.acquired) : Moves R (S.finish t .raised) t :=
  .moves .idle rows (by rw [← phase]; rfl) (by simp) acquired fun _ ↦ Function.update_self ..

theorem moves_rounds (rows : Prepares t R.rows S.rows) (phase : S.phase = R.phase)
    (acquired : S.acquired = R.acquired) (left : ℕ) : Moves R (S.rounds t name left) t := by
  cases left with
  | zero => exact moves_finish rows phase acquired
  | succ left =>
    exact moves_of_ne (p := .select name left) rows (by rw [← phase]; rfl) acquired (by simp) (by simp)

theorem moves_abandon (S : State) (t : ℕ) : Moves S (S.abandon t) t := moves_finish .shortRollback rfl rfl

theorem moves_retry (S : State) (t : ℕ) (name : String) (attempt : ℕ) : Moves S (retry S t name attempt) t := by
  unfold retry
  split
  · exact moves_abandon S t
  · exact moves_of_ne (p := .shortSelect name (attempt + 1)) .shortRollback rfl rfl (by simp) (by simp)

theorem moves_advance (hs : advance process loop S t = some S') : Moves S S' t := by
  unfold advance at hs
  cases hp : S.phase t with
  | idle =>
    rw [hp] at hs
    cases hs
  | entered name =>
    rw [hp] at hs
    dsimp only at hs
    split at hs
    · cases hs
      exact moves_rounds .same rfl rfl 2
    · split at hs
      · cases hs
        exact moves_of_ne .same rfl rfl (by simp) (by simp)
      · cases hs
        exact moves_of_ne .same rfl rfl (by simp) (by simp)
  | guardShort name =>
    rw [hp] at hs
    dsimp only at hs
    split at hs
    · cases hs
    · cases hs
      exact moves_of_ne .same rfl rfl (by simp) (by simp)
  | shortSelect name attempt =>
    rw [hp] at hs
    dsimp only at hs
    split at hs
    · cases hs
      exact moves_of_ne .same rfl rfl (by simp) (by simp)
    · cases hs
      exact moves_of_ne .same rfl rfl (by simp) (by simp)
  | shortInsert name attempt =>
    rw [hp] at hs
    obtain ⟨rows, hr, rfl⟩ := Option.map_eq_some_iff.1 hs
    exact moves_of_ne (.short name hr) rfl rfl (by simp) (by simp)
  | shortCommit name attempt =>
    rw [hp] at hs
    cases hs
    exact moves_of_ne .shortCommit rfl rfl (by simp) (by simp)
  | shortDone name =>
    rw [hp] at hs
    cases hs
    exact moves_rounds (R := S) (S := (S.remember name (process t)).leave t) .same rfl rfl 2
  | guardCurrent name left =>
    rw [hp] at hs
    dsimp only at hs
    split at hs
    · cases hs
    · split at hs
      · cases hs
        exact moves_rounds .same rfl rfl left
      · cases hs
        exact moves_of_ne .same rfl rfl (by simp) (by simp)
  | insertCurrent name left =>
    rw [hp] at hs
    obtain ⟨rows, hr, rfl⟩ := Option.map_eq_some_iff.1 hs
    exact moves_of_ne (.current name hr) rfl rfl (by simp) (by simp)
  | inserted name left =>
    rw [hp] at hs
    cases hs
    exact moves_rounds (R := S) (S := (S.remember name (process t)).leave t) .same rfl rfl left
  | select name left =>
    rw [hp] at hs
    obtain ⟨⟨rows, found⟩, hr, rfl⟩ := Option.map_eq_some_iff.1 hs
    exact .answers name left found hr rfl rfl
  | answered name left found =>
    rw [hp] at hs
    dsimp only at hs
    split at hs
    · rename_i hfound
      cases hs
      rw [hfound] at hp
      exact .returns name left hp rfl rfl rfl (Function.update_self ..)
    · cases hs
      exact moves_of_ne .same rfl rfl (by simp) (by simp)

def EndOf (a : Action) (t : ℕ) : Prop := a = .commit t ∨ a = .rollback t ∨ a = .victim t

/-- A step is one of a call, the end of a transaction, or one that leaves the calls alone. -/
inductive Steps (S S' : State) (a : Action) : Prop
  | call (t : ℕ) (name : String) (ha : a = .call t name ∧ S.phase t = .idle ∨
      (∀ s n, a ≠ .call s n) ∧ (S.phase t).name = some name) (h : Moves S S' t)
  | ends (t : ℕ) (ha : EndOf a t) (rows : S'.rows = S.rows.commit (.session t) ∨
    S'.rows = S.rows.rollback (.session t))
      (phase : S'.phase = Function.update S.phase t .idle)
      (acquired : S'.acquired = S.acquired.filter fun x ↦ decide (x.1 ≠ t))
      (outcome : S.phase t ≠ .idle → S'.outcome t = some .raised)
  | other (ha : ∀ s n, a ≠ .call s n) (rows : S'.rows = S.rows ∨ ∃ o, S'.rows = S.rows.commit (.outside o) ∨
      S'.rows = S.rows.rollback (.outside o) ∨ ∃ name, S.rows.delete (.outside o) name = some S'.rows)
      (phase : S'.phase = S.phase) (acquired : S'.acquired = S.acquired)

theorem exists_name (h : S.phase t ≠ .idle) : ∃ name, (S.phase t).name = some name := by
  cases hp : S.phase t with
  | idle => exact absurd hp h
  | _ => exact ⟨_, rfl⟩

theorem ends_of_idle {rows : KeyTable Owner String} (ha : EndOf a t) (hp : S.phase t = .idle)
    (hr : rows = S.rows.commit (.session t) ∨ rows = S.rows.rollback (.session t)) : Steps S (S.ended t rows) a :=
  .ends t ha hr (Function.update_eq_self_iff.2 hp.symm).symm rfl fun h ↦ absurd hp h

theorem ends_victim (S : State) (t : ℕ) : Steps S (S.lost t) (.victim t) :=
  .ends t (.inr (.inr rfl)) (.inr rfl) rfl rfl fun _ ↦ Function.update_self ..

theorem steps (hs : step process loop S a = some S') : Steps S S' a := by
  cases a with
  | call t name =>
    simp only [step] at hs
    split at hs
    · cases hs
    · rename_i hi
      have hidle := not_not.1 hi
      split at hs
      · cases hs
        exact .call t name (.inl ⟨rfl, hidle⟩) (moves_of_ne .same rfl rfl (by simp) (by simp))
      · cases hs
        exact .call t name (.inl ⟨rfl, hidle⟩) (moves_finish .same rfl rfl)
  | advance t =>
    have hne : S.phase t ≠ .idle := by
      intro hi
      simp only [step, advance, hi] at hs
      cases hs
    obtain ⟨name, hn⟩ := exists_name hne
    exact .call t name (.inr ⟨by simp, hn⟩) (moves_advance hs)
  | fail t =>
    simp only [step] at hs
    split at hs
    · cases hs
    · rename_i hne
      cases hs
      obtain ⟨name, hn⟩ := exists_name hne
      exact .call t name (.inr ⟨by simp, hn⟩) (moves_abandon S t)
  | deadlock t =>
    simp only [step] at hs
    split at hs
    · rename_i name attempt hp
      cases hs
      exact .call t name (.inr ⟨by simp, by rw [hp]; rfl⟩) (moves_retry S t name attempt)
    · rename_i name attempt hp
      cases hs
      exact .call t name (.inr ⟨by simp, by rw [hp]; rfl⟩) (moves_retry S t name attempt)
    · rename_i name attempt hp
      cases hs
      exact .call t name (.inr ⟨by simp, by rw [hp]; rfl⟩) (moves_retry S t name attempt)
    · cases hs
  | victim t =>
    simp only [step] at hs
    split at hs
    · cases hs
      exact ends_victim S t
    · cases hs
      exact ends_victim S t
    · cases hs
  | query t =>
    simp only [step] at hs
    split at hs
    · cases hs
      exact .other (by simp) (.inl rfl) rfl rfl
    · cases hs
  | commit t =>
    simp only [step] at hs
    split at hs
    · rename_i hp
      cases hs
      exact ends_of_idle (.inl rfl) hp (.inl rfl)
    · cases hs
  | rollback t =>
    simp only [step] at hs
    split at hs
    · rename_i hp
      cases hs
      exact ends_of_idle (.inr (.inl rfl)) hp (.inr rfl)
    · cases hs
  | delete o name =>
    obtain ⟨rows, hr, rfl⟩ := Option.map_eq_some_iff.1 hs
    exact .other (by simp) (.inr ⟨o, .inr (.inr ⟨name, hr⟩)⟩) rfl rfl
  | outsideCommit o =>
    cases hs
    exact .other (by simp) (.inr ⟨o, .inl rfl⟩) rfl rfl
  | outsideRollback o =>
    cases hs
    exact .other (by simp) (.inr ⟨o, .inr (.inl rfl)⟩) rfl rfl

structure Inv (S : State) : Prop where
  exclusive : Exclusive S.rows
  acquired : ∀ x ∈ S.acquired, Holds S.rows (.session x.1) x.2
  answered : ∀ t name left, S.phase t = .answered name left true → Holds S.rows (.session t) name

/-- What the sessions hold, apart from `t`, is kept. -/
def Kept (rows rows' : KeyTable Owner String) (apart : ℕ → Prop) : Prop :=
  ∀ s, ¬ apart s → ∀ name, Holds rows (.session s) name → Holds rows' (.session s) name

theorem session_ne (h : s ≠ t) : Owner.session t ≠ .session s := fun he ↦ h (Owner.session.inj he).symm

theorem prepares_kept (h : Prepares t rows rows') (he : Exclusive rows) :
    Exclusive rows' ∧ Kept rows rows' fun _ ↦ False := by
  cases h with
  | same => exact ⟨he, fun _ _ _ hh ↦ hh⟩
  | short name hr => exact ⟨he.insertIgnore hr, fun _ _ _ hh ↦ hh.insertIgnore hr⟩
  | shortCommit => exact ⟨he.commit _, fun _ _ _ hh ↦ hh.commit he Owner.noConfusion⟩
  | shortRollback => exact ⟨he.rollback _, fun _ _ _ hh ↦ hh.rollback Owner.noConfusion⟩
  | current name hr => exact ⟨he.insertIgnore hr, fun _ _ _ hh ↦ hh.insertIgnore hr⟩

theorem Inv.moves (h : Inv S) (hm : Moves S S' t) : Inv S' := by
  cases hm with
  | moves next hr hp hanswer hacquired _ =>
    obtain ⟨he, hk⟩ := prepares_kept hr h.exclusive
    refine ⟨he, fun x hx ↦ hk _ id _ (h.acquired x (hacquired ▸ hx)), fun s name left ha ↦ ?_⟩
    rw [hp] at ha
    by_cases hst : s = t
    · rw [hst, Function.update_self] at ha
      exact absurd ha (hanswer name left)
    · rw [Function.update_of_ne hst] at ha
      exact hk s id name (h.answered s name left ha)
  | answers name left found hr hp hacquired =>
    refine ⟨h.exclusive.selectForUpdate hr,
      fun x hx ↦ (h.acquired x (hacquired ▸ hx)).selectForUpdate hr, fun s n l ha ↦ ?_⟩
    rw [hp] at ha
    by_cases hst : s = t
    · rw [hst, Function.update_self] at ha
      cases ha
      rw [hst]
      exact holds_selectForUpdate hr
    · rw [Function.update_of_ne hst] at ha
      exact (h.answered s n l ha).selectForUpdate hr
  | returns name left before hr hp hacquired _ =>
    refine ⟨hr ▸ h.exclusive, fun x hx ↦ ?_, fun s n l ha ↦ ?_⟩
    · rw [hacquired] at hx
      rw [hr]
      rcases List.mem_cons.1 hx with rfl | hx
      · exact h.answered t name left before
      · exact h.acquired x hx
    · rw [hp] at ha
      rw [hr]
      by_cases hst : s = t
      · rw [hst, Function.update_self] at ha
        cases ha
      · rw [Function.update_of_ne hst] at ha
        exact h.answered s n l ha

theorem Inv.step (h : Inv S) (hs : Steps S S' a) : Inv S' := by
  cases hs with
  | call t name _ hm => exact h.moves hm
  | ends t _ hr hp hacquired _ =>
    have hkept : Exclusive S'.rows ∧ Kept S.rows S'.rows fun s ↦ s = t := by
      rcases hr with hr | hr
      · rw [hr]
        exact ⟨h.exclusive.commit _, fun s hst _ hh ↦ hh.commit h.exclusive (session_ne hst)⟩
      · rw [hr]
        exact ⟨h.exclusive.rollback _, fun s hst _ hh ↦ hh.rollback (session_ne hst)⟩
    refine ⟨hkept.1, fun x hx ↦ ?_, fun s name left ha ↦ ?_⟩
    · rw [hacquired] at hx
      obtain ⟨hx, hne⟩ := List.mem_filter.1 hx
      exact hkept.2 _ (of_decide_eq_true hne) _ (h.acquired x hx)
    · rw [hp] at ha
      by_cases hst : s = t
      · rw [hst, Function.update_self] at ha
        cases ha
      · rw [Function.update_of_ne hst] at ha
        exact hkept.2 s hst name (h.answered s name left ha)
  | other _ hr hp hacquired =>
    have hkept : Exclusive S'.rows ∧ Kept S.rows S'.rows fun _ ↦ False := by
      rcases hr with hr | ⟨o, hr | hr | ⟨name, hr⟩⟩
      · rw [hr]
        exact ⟨h.exclusive, fun _ _ _ hh ↦ hh⟩
      · rw [hr]
        exact ⟨h.exclusive.commit _, fun _ _ _ hh ↦ hh.commit h.exclusive Owner.noConfusion⟩
      · rw [hr]
        exact ⟨h.exclusive.rollback _, fun _ _ _ hh ↦ hh.rollback Owner.noConfusion⟩
      · exact ⟨h.exclusive.delete hr, fun _ _ _ hh ↦ hh.delete Owner.noConfusion hr⟩
    exact ⟨hkept.1, fun x hx ↦ hkept.2 _ id _ (h.acquired x (hacquired ▸ hx)),
      fun s name left ha ↦ hkept.2 s id name (h.answered s name left (hp ▸ ha))⟩

theorem inv_of_reach (h : Reach process loop S) : Inv S := by
  induction h with
  | start hstart =>
    refine ⟨⟨fun x hx ↦ ?_, fun x hx ↦ ?_⟩, fun x hx ↦ ?_, fun t name left ha ↦ ?_⟩
    · rw [hstart.locks] at hx
      cases hx
    · rw [hstart.changes] at hx
      cases hx
    · rw [hstart.acquired] at hx
      cases hx
    · cases (hstart.phase t).symm.trans ha
  | step a _ hs ih => exact ih.step (steps hs)

def Calls (S : State) (a : Action) (t : ℕ) (name : String) : Prop :=
  a = .call t name ∨ (S.phase t).name = some name

theorem acquired_of_steps (hs : Steps S S' a) (h : (t, name) ∈ S.acquired) :
    (t, name) ∈ S'.acquired ∨ EndOf a t := by
  cases hs with
  | call s _ _ hm =>
    left
    cases hm with
    | moves _ _ _ _ hacquired _ => rwa [hacquired]
    | answers _ _ _ _ _ hacquired => rwa [hacquired]
    | returns _ _ _ _ _ hacquired _ =>
      rw [hacquired]
      exact List.mem_cons_of_mem _ h
  | ends s ha _ _ hacquired _ =>
    by_cases hst : t = s
    · rw [hst]
      exact .inr ha
    · rw [hacquired]
      exact .inl (List.mem_filter.2 ⟨h, decide_eq_true hst⟩)
  | other _ _ _ hacquired => exact .inl (hacquired ▸ h)

theorem Moves.phase_ne (h : Moves S S' s) (hst : t ≠ s) : S'.phase t = S.phase t := by
  cases h with
  | moves _ _ hp _ _ _ => rw [hp, Function.update_of_ne hst]
  | answers _ _ _ _ hp _ => rw [hp, Function.update_of_ne hst]
  | returns _ _ _ _ hp _ _ => rw [hp, Function.update_of_ne hst]

/-- A call that is made or runs ends by raising, or by returning with its name acquired. -/
theorem outcome_of_steps (hs : Steps S S' a) (hc : Calls S a t name) (hi : S'.phase t = .idle)
    (hcall : ∀ s n, a = .call s n → S.phase s = .idle) :
    S'.outcome t = some .raised ∨ S'.outcome t = some .returned ∧ (t, name) ∈ S'.acquired := by
  cases hs with
  | call s n ha hm =>
    have hst : t = s := by
      by_contra hne
      rw [hm.phase_ne hne] at hi
      rcases hc with hc | hc
      · rcases ha with ⟨ha, _⟩ | ⟨ha, _⟩
        · rw [hc] at ha
          cases ha
          exact hne rfl
        · exact ha t name hc
      · rw [hi] at hc
        cases hc
    subst hst
    cases hm with
    | moves next _ hp _ _ hends =>
      rw [hp, Function.update_self] at hi
      exact .inl (hends hi)
    | answers _ _ _ _ hp _ =>
      rw [hp, Function.update_self] at hi
      cases hi
    | returns n' left before _ _ hacquired houtcome =>
      refine .inr ⟨houtcome, ?_⟩
      rcases hc with hc | hc
      · rw [hcall t name hc] at before
        cases before
      · rw [before] at hc
        cases hc
        rw [hacquired]
        exact List.mem_cons_self
  | ends s ha _ hp _ houtcome =>
    have hname : (S.phase t).name = some name := by
      rcases hc with hc | hc
      · rw [hc] at ha
        rcases ha with ha | ha | ha <;> cases ha
      · exact hc
    have hne : S.phase t ≠ .idle := by
      intro h
      rw [h] at hname
      cases hname
    by_cases hst : t = s
    · subst hst
      exact .inl (houtcome hne)
    · rw [hp, Function.update_of_ne hst] at hi
      exact absurd hi hne
  | other ha _ hp _ =>
    rw [hp] at hi
    rcases hc with hc | hc
    · exact absurd hc (ha t name)
    · rw [hi] at hc
      cases hc

theorem idle_of_call (hs : step process loop S (.call t name) = some S') : S.phase t = .idle := by
  simp only [step] at hs
  split at hs
  · cases hs
  · rename_i hi
    exact not_not.1 hi

/-- Whoever has acquired a name holds its row, alone, until its transaction ends; and a call that
ends without the name raises. -/
theorem named_locks_exclude (h : Reach process loop S) :
    (∀ t name, (t, name) ∈ S.acquired → Holds S.rows (.session t) name) ∧
    (∀ t s name, (t, name) ∈ S.acquired → (s, name) ∈ S.acquired → s = t) ∧
    ∀ a S', step process loop S a = some S' →
      (∀ t name, Calls S a t name → S'.phase t = .idle →
        S'.outcome t = some .raised ∨ S'.outcome t = some .returned ∧ (t, name) ∈ S'.acquired) ∧
      ∀ t name, (t, name) ∈ S.acquired → (t, name) ∈ S'.acquired ∨ EndOf a t := by
  have hinv := inv_of_reach h
  refine ⟨fun t name ht ↦ hinv.acquired _ ht, fun t s name ht hs ↦ ?_, fun a S' hs ↦ ⟨?_, ?_⟩⟩
  · have ht' := hinv.acquired (t, name) ht
    have hs' := hinv.acquired (s, name) hs
    exact Owner.session.inj (ht'.unique hinv.exclusive hs')
  · intro t name hc hi
    refine outcome_of_steps (steps hs) hc hi fun s n ha ↦ ?_
    rw [ha] at hs
    exact idle_of_call hs
  · exact fun t name ht ↦ acquired_of_steps (steps hs) ht

def run (process loop : ℕ → ℕ) : List Action → State → Option State
  | [], S => some S
  | a :: actions, S => (step process loop S a).bind (run process loop actions)

theorem reach_run {actions : List Action} (h : Reach process loop S)
    (hr : run process loop actions S = some S') : Reach process loop S' := by
  induction actions generalizing S with
  | nil =>
    cases hr
    exact h
  | cons a actions ih =>
    obtain ⟨T, hs, hr⟩ := Option.bind_eq_some_iff.1 hr
    exact ih (.step a h hs) hr

def staleCache : State where
  rows := ⟨[], [], []⟩
  known := [(0, "tree")]
  guards := []
  connected _ := false
  phase _ := .idle
  outcome _ := none
  acquired := []

def secondRound : List Action :=
  [.call 7 "tree", .advance 7, .advance 7, .advance 7, .advance 7, .advance 7, .advance 7, .advance 7, .advance 7]

def afterSecondRound : State :=
  (run (fun _ ↦ 0) (fun _ ↦ 0) secondRound staleCache).get (by decide)

theorem named_locks_exclude_staleCache : Holds afterSecondRound.rows (.session 7) "tree" := by
  have hrun : run (fun _ ↦ 0) (fun _ ↦ 0) secondRound staleCache = some afterSecondRound :=
    (Option.some_get _).symm
  have hreach : Reach (fun _ ↦ 0) (fun _ ↦ 0) afterSecondRound :=
    reach_run (.start ⟨rfl, rfl, fun _ ↦ rfl, rfl⟩) hrun
  exact (named_locks_exclude hreach).1 7 "tree" (by decide)

end AdminPlatform.Locks.NamedLocks
