import AdminPlatform.Frontend.SingleFlight

namespace AdminPlatform.Frontend.LogoutWins

open ApiSession SingleFlight

/-- The session, the promises made before the last login or logout, and whether a logout has
completed and no login since. -/
structure Watched where
  session : Session
  earlier : ℕ := 0
  loggedOut : Bool := false

def Watched.step (w : Watched) (e : Event) : Watched where
  session := w.session.step e
  earlier := match e with
    | .login _ | .logout => w.session.flights.length
    | _ => w.earlier
  loggedOut := match e with
    | .login _ => false
    | .logout => true
    | _ => w.loggedOut

/-- The runs whose events all meet the condition `c`. -/
inductive Runs (c : Session → Event → Prop) : Watched → Prop
  | start (stored : Option String) : Runs c { session := { refreshToken := stored } }
  | step {w : Watched} (e : Event) : Runs c w → c w.session e → Runs c (w.step e)

structure SameTokens (s s' : Session) : Prop where
  access : s'.accessToken = s.accessToken
  refresh : s'.refreshToken = s.refreshToken

/-- After a logout there are no tokens, and the answer to a refresh of an earlier session changes
none. -/
structure Wins (w : Watched) : Prop where
  empty : w.loggedOut = true → w.session.accessToken = none ∧ w.session.refreshToken = none
  foreign : ∀ p response, p < w.earlier → SameTokens w.session (w.session.settle p response)

def Quiet (s : Session) : Event → Prop
  | .login _ | .logout => ∀ p, s.pending p = false
  | _ => True

/-- No request of an earlier session is out, and none at all after a logout. -/
structure Settled (w : Watched) : Prop where
  earlier : ∀ p, p < w.earlier → w.session.pending p = false
  empty : w.loggedOut = true → w.session.accessToken = none ∧ w.session.refreshToken = none
  none : w.loggedOut = true → ∀ p, w.session.pending p = false
  bound : w.earlier ≤ w.session.flights.length

variable {s : Session} {w : Watched} {p q : ℕ} {e : Event}

theorem settle_of_not_pending {response : Option Tokens} (h : s.pending p = false) :
    s.settle p response = s := by
  unfold Session.settle
  rw [h]
  rfl

/-- A new request goes out only with a refresh token. -/
theorem pending_refresh (h : s.refreshOnce.1.pending q = true) :
    s.pending q = true ∨ q = s.flights.length ∧ truthy s.refreshToken = true := by
  cases hi : s.inflight with
  | some p =>
    have hr : s.refreshOnce.1 = s := by
      unfold Session.refreshOnce
      rw [hi]
    rw [hr] at h
    exact .inl h
  | none =>
    cases ht : truthy s.refreshToken with
    | true =>
      rw [refreshOnce_of_truthy hi ht] at h
      rcases (pending_append (s := s) (f := ⟨s.refreshToken, none⟩) rfl).1 h with h | h
      · exact .inl h
      · exact .inr ⟨h.1, rfl⟩
    | false =>
      have hf : s.refreshOnce.1.flights = s.flights ++ [⟨none, some .rejected⟩] := by
        unfold Session.refreshOnce Session.startFlight
        rw [hi]
        dsimp only
        rw [ht]
        rfl
      rcases (pending_append hf).1 h with h | h
      · exact .inl h
      · cases h.2

theorem pending_settle {response : Option Tokens} (h : (s.settle p response).pending q = true) :
    s.pending q = true := by
  cases hp : s.pending p with
  | false =>
    rw [settle_of_not_pending hp] at h
    exact h
  | true => exact ((pending_modify (flights_settle hp)).1 h).1

theorem length_refresh : s.flights.length ≤ s.refreshOnce.1.flights.length := by
  unfold Session.refreshOnce Session.startFlight
  split
  · exact Nat.le_refl _
  · dsimp only
    split
    · rw [List.length_append]
      exact Nat.le_add_right _ _
    · rw [List.length_append]
      exact Nat.le_add_right _ _

theorem tokens_refresh (ha : s.accessToken = none) (hr : s.refreshToken = none) :
    s.refreshOnce.1.accessToken = none ∧ s.refreshOnce.1.refreshToken = none := by
  unfold Session.refreshOnce Session.startFlight
  split
  · exact ⟨ha, hr⟩
  · dsimp only
    split
    · exact ⟨ha, hr⟩
    · exact ⟨rfl, rfl⟩

theorem settled_refresh (h : Settled w) : Settled (w.step .refresh) where
  earlier p hp := by
    cases hq : (w.step .refresh).session.pending p with
    | false => rfl
    | true =>
      have hlt : p < w.earlier := hp
      rcases pending_refresh hq with hold | ⟨rfl, -⟩
      · rw [h.earlier p hlt] at hold
        cases hold
      · exact absurd h.bound (Nat.not_le.2 hlt)
  empty hout := tokens_refresh (h.empty hout).1 (h.empty hout).2
  none hout p := by
    cases hq : (w.step .refresh).session.pending p with
    | false => rfl
    | true =>
      rcases pending_refresh hq with hold | ⟨-, ht⟩
      · rw [h.none hout p] at hold
        cases hold
      · rw [(h.empty hout).2] at ht
        cases ht
  bound := Nat.le_trans h.bound length_refresh

theorem settled_answer {response : Option Tokens} (h : Settled w) : Settled (w.step (.answer p response)) where
  earlier q hq := by
    cases hs : (w.step (.answer p response)).session.pending q with
    | false => rfl
    | true =>
      have hold := pending_settle hs
      rw [h.earlier q hq] at hold
      cases hold
  empty hout := by
    show (w.session.settle p response).accessToken = none ∧ (w.session.settle p response).refreshToken = none
    rw [settle_of_not_pending (h.none hout p)]
    exact h.empty hout
  none hout q := by
    show (w.session.settle p response).pending q = false
    rw [settle_of_not_pending (h.none hout p)]
    exact h.none hout q
  bound := by
    have hlen : (w.session.settle p response).flights.length = w.session.flights.length := by
      cases hp : w.session.pending p with
      | false => rw [settle_of_not_pending hp]
      | true => rw [flights_settle hp, List.length_modify]
    show w.earlier ≤ (w.session.settle p response).flights.length
    rw [hlen]
    exact h.bound

theorem settled_step (h : Settled w) (hc : Quiet w.session e) : Settled (w.step e) := by
  cases e with
  | refresh => exact settled_refresh h
  | answer p response => exact settled_answer h
  | login tokens =>
    refine ⟨fun p _ ↦ hc p, fun hout ↦ ?_, fun hout ↦ ?_, Nat.le_refl _⟩
    · cases hout
    · cases hout
  | logout => exact ⟨fun p _ ↦ hc p, fun _ ↦ ⟨rfl, rfl⟩, fun _ p ↦ hc p, Nat.le_refl _⟩
  | expire => exact ⟨h.earlier, fun _ ↦ ⟨rfl, rfl⟩, h.none, h.bound⟩

theorem settled_of_runs (h : Runs Quiet w) : Settled w := by
  induction h with
  | start stored =>
    refine ⟨fun p hp ↦ absurd hp (Nat.not_lt_zero p), fun hout ↦ ?_, fun hout ↦ ?_, Nat.le_refl _⟩
    · cases hout
    · cases hout
  | step e _ hc ih => exact settled_step ih hc

/-- As long as no refresh is on its way when a login or a logout completes, the logout wins. -/
theorem wins_of_runs (w : Watched) (h : Runs Quiet w) : Wins w where
  empty := (settled_of_runs h).empty
  foreign p response hp := by
    rw [settle_of_not_pending ((settled_of_runs h).earlier p hp)]
    exact ⟨rfl, rfl⟩

/-- A refresh, then a logout and another login. -/
theorem wins_of_runs_nextUser : ∃ w, Runs Quiet w ∧ w.earlier = 1 ∧
    w.session.refreshToken = some "bob" ∧ Wins w := by
  have h : Runs Quiet { session := { refreshToken := some "alice" } } := .start (some "alice")
  have h₁ := h.step .refresh trivial
  have h₂ := h₁.step (.answer 0 (some ⟨"a", "alice'"⟩)) trivial
  have hq : ∀ p, (Session.mk (some "a") (some "alice'") none
      [⟨some "alice", some (.resolved "a")⟩] 0).pending p = false := fun p ↦ by
    cases p with
    | zero => rfl
    | succ p => rfl
  have h₃ := h₂.step .logout hq
  have h₄ := h₃.step (.login ⟨"b", "bob"⟩) (fun p ↦ hq p)
  exact ⟨_, h₄, rfl, rfl, wins_of_runs _ h₄⟩

/-- The refresh that was on its way is answered after the logout: the session is back. -/
theorem not_wins_lateAnswer : ∃ w, Runs (fun _ _ ↦ True) w ∧ w.loggedOut = true ∧
    w.session.accessToken = some "a" ∧ w.session.refreshToken = some "alice'" ∧ ¬ Wins w := by
  have h : Runs (fun _ _ ↦ True) { session := { refreshToken := some "alice" } } := .start (some "alice")
  have h₁ := h.step .refresh trivial
  have h₂ := h₁.step .logout trivial
  have h₃ := h₂.step (.answer 0 (some ⟨"a", "alice'"⟩)) trivial
  refine ⟨_, h₃, rfl, rfl, rfl, fun hw ↦ ?_⟩
  have he := (hw.empty rfl).1
  cases he

end AdminPlatform.Frontend.LogoutWins
