import AdminPlatform.Frontend.ApiSession

namespace AdminPlatform.Frontend.SingleFlight

open ApiSession

variable {s s' : Session} {p q : ℕ} {e : Event}

/-- What the callers of `refreshOnce` are told when the request is answered. -/
def outcome : Option Tokens → Settlement
  | some tokens => .resolved tokens.accessToken
  | none => .rejected

/-- One refresh at a time, whose callers all get its result, and a handle that is cleared once it
has settled, so that the next call sends the refresh token that is then stored. -/
structure Recovers (s : Session) : Prop where
  one : ∀ p q, s.pending p = true → s.pending q = true → p = q
  joined : ∀ p, s.pending p = true → s.refreshOnce = (s, p)
  result : ∀ p response, s.pending p = true → ∃ request,
    (s.settle p response).flights[p]? = some ⟨request, some (outcome response)⟩
  lasts : ∀ (e : Event) (p : ℕ) (f : Flight), s.flights[p]? = some f → f.settlement.isSome = true →
    (s.step e).flights[p]? = some f
  cleared : ∀ p, s.inflight = some p → s.pending p = true
  fresh : (∀ p, s.pending p = false) → truthy s.refreshToken = true →
    s.refreshOnce.1.flights[s.refreshOnce.2]? = some ⟨s.refreshToken, none⟩

def Stored (s : Session) : Event → Prop
  | .refresh => s.inflight = none → truthy s.refreshToken = true
  | _ => True

def Held (s : Session) : Prop := ∀ p, s.pending p = true ↔ s.inflight = some p

theorem pending_congr (h : s'.flights = s.flights) : s'.pending p = s.pending p := by
  unfold Session.pending
  rw [h]

theorem Held.congr (h : Held s) (hf : s'.flights = s.flights) (hi : s'.inflight = s.inflight) : Held s' := by
  intro p
  rw [pending_congr hf, hi]
  exact h p

theorem pending_append {f : Flight} (hs : s'.flights = s.flights ++ [f]) :
    s'.pending q = true ↔ s.pending q = true ∨ q = s.flights.length ∧ f.settlement = none := by
  rw [pending_iff, pending_iff, hs]
  rcases Nat.lt_trichotomy q s.flights.length with hq | rfl | hq
  · rw [List.getElem?_append_left hq]
    refine ⟨.inl, fun h ↦ h.resolve_right fun hq' ↦ ?_⟩
    omega
  · rw [List.getElem?_concat_length]
    constructor
    · rintro ⟨g, hg, hn⟩
      cases hg
      exact .inr ⟨rfl, hn⟩
    · rintro (⟨g, hg, -⟩ | ⟨-, hn⟩)
      · rw [List.getElem?_eq_none (Nat.le_refl _)] at hg
        cases hg
      · exact ⟨f, rfl, hn⟩
  · have hlen : s.flights.length < q := hq
    rw [List.getElem?_eq_none (by rw [List.length_append, List.length_singleton]; omega)]
    constructor
    · rintro ⟨g, hg, -⟩
      cases hg
    · rintro (⟨g, hg, -⟩ | ⟨rfl, -⟩)
      · rw [List.getElem?_eq_none (by omega)] at hg
        cases hg
      · omega

theorem pending_modify {x : Settlement}
    (hs : s'.flights = s.flights.modify p fun f ↦ { f with settlement := some x }) :
    s'.pending q = true ↔ s.pending q = true ∧ q ≠ p := by
  rw [pending_iff, pending_iff, hs]
  by_cases hq : p = q
  · subst hq
    rw [List.getElem?_modify_eq]
    constructor
    · rintro ⟨g, hg, hn⟩
      obtain ⟨f, -, rfl⟩ := Option.map_eq_some_iff.1 hg
      cases hn
    · rintro ⟨-, hne⟩
      exact absurd rfl hne
  · rw [List.getElem?_modify_ne _ _ hq]
    exact ⟨fun h ↦ ⟨h, fun h' ↦ hq h'.symm⟩, fun h ↦ h.1⟩

theorem flights_settle {response : Option Tokens} (h : s.pending p = true) :
    (s.settle p response).flights =
      s.flights.modify p fun f ↦ { f with settlement := some (outcome response) } := by
  unfold Session.settle
  rw [if_pos h]
  cases response with
  | none => rfl
  | some tokens => rfl

theorem inflight_settle {response : Option Tokens} (h : s.pending p = true) :
    (s.settle p response).inflight = none := by
  unfold Session.settle
  rw [if_pos h]
  cases response with
  | none => rfl
  | some tokens => rfl

theorem refreshOnce_of_truthy (hi : s.inflight = none) (ht : truthy s.refreshToken = true) :
    s.refreshOnce = ({ s with
      inflight := some s.flights.length
      flights := s.flights ++ [⟨s.refreshToken, none⟩] }, s.flights.length) := by
  unfold Session.refreshOnce Session.startFlight
  rw [hi]
  dsimp only
  rw [if_pos ht]

theorem held_refresh (h : Held s) (hc : Stored s .refresh) : Held s.refreshOnce.1 := by
  cases hi : s.inflight with
  | some p =>
    have hr : s.refreshOnce.1 = s := by
      unfold Session.refreshOnce
      rw [hi]
    rw [hr]
    exact h
  | none =>
    have hnone : ∀ q, s.pending q ≠ true := fun q hq ↦ by
      have hq' := (h q).1 hq
      rw [hi] at hq'
      cases hq'
    rw [refreshOnce_of_truthy hi (hc hi)]
    intro q
    rw [pending_append (s := s) (f := ⟨s.refreshToken, none⟩) rfl, Option.some.injEq]
    constructor
    · rintro (hq | ⟨rfl, -⟩)
      · exact absurd hq (hnone q)
      · rfl
    · rintro rfl
      exact .inr ⟨rfl, rfl⟩

theorem held_answer {response : Option Tokens} (h : Held s) : Held (s.settle p response) := by
  cases hp : s.pending p with
  | false =>
    have hs : s.settle p response = s := by
      unfold Session.settle
      rw [hp]
      rfl
    rw [hs]
    exact h
  | true =>
    intro q
    rw [pending_modify (flights_settle hp), inflight_settle hp]
    constructor
    · rintro ⟨hq, hne⟩
      have hi := (h q).1 hq
      rw [(h p).1 hp, Option.some.injEq] at hi
      exact absurd hi.symm hne
    · intro hq
      cases hq

theorem held_step (h : Held s) (hc : Stored s e) : Held (s.step e) := by
  cases e with
  | refresh => exact held_refresh h hc
  | answer p response => exact held_answer h
  | login tokens => exact h.congr rfl rfl
  | logout => exact h.congr rfl rfl
  | expire => exact h.congr rfl rfl

theorem held_of_reached (h : Reached Stored s) : Held s := by
  induction h with
  | start stored =>
    intro p
    refine ⟨fun hp ↦ ?_, fun hp ↦ ?_⟩
    · cases hp
    · cases hp
  | step e _ hc ih => exact held_step ih hc

theorem lasts {f : Flight} (hf : s.flights[p]? = some f) (hs : f.settlement.isSome = true) :
    (s.step e).flights[p]? = some f := by
  have hlt : p < s.flights.length := (List.getElem?_eq_some_iff.1 hf).1
  cases e with
  | refresh =>
    show s.refreshOnce.1.flights[p]? = some f
    unfold Session.refreshOnce Session.startFlight
    split
    · exact hf
    · split
      · rw [← hf]
        exact List.getElem?_append_left hlt
      · rw [← hf]
        exact List.getElem?_append_left hlt
  | answer q response =>
    show (s.settle q response).flights[p]? = some f
    cases hq : s.pending q with
    | false =>
      unfold Session.settle
      rw [hq]
      exact hf
    | true =>
      have hne : q ≠ p := by
        rintro rfl
        obtain ⟨g, hg, hn⟩ := pending_iff.1 hq
        rw [hf, Option.some.injEq] at hg
        rw [hg, hn] at hs
        cases hs
      rw [flights_settle hq, List.getElem?_modify_ne _ _ hne, hf]
  | login tokens => exact hf
  | logout => exact hf
  | expire => exact hf

theorem Held.singleFlight (h : Held s) : Recovers s where
  one p q hp hq := by
    have hi := (h q).1 hq
    rw [(h p).1 hp, Option.some.injEq] at hi
    exact hi
  joined p hp := by
    unfold Session.refreshOnce
    rw [(h p).1 hp]
  result p response hp := by
    obtain ⟨f, hf, -⟩ := pending_iff.1 hp
    refine ⟨f.request, ?_⟩
    rw [flights_settle hp, List.getElem?_modify_eq, hf]
    rfl
  lasts e p f hf hs := lasts hf hs
  cleared p hp := (h p).2 hp
  fresh hnone ht := by
    have hi : s.inflight = none := by
      cases hi : s.inflight with
      | none => rfl
      | some p =>
        have hp := (h p).2 hi
        rw [hnone p] at hp
        cases hp
    rw [refreshOnce_of_truthy hi ht]
    exact List.getElem?_concat_length

/-- As long as nobody asks for a refresh without a refresh token, the client refreshes one at a
time and recovers. -/
theorem singleFlight_of_reached (s : Session) (h : Reached Stored s) : Recovers s :=
  (held_of_reached h).singleFlight

/-- A session is restored, and the second refresh sends the token of the first. -/
theorem singleFlight_of_reached_restored : ∃ s, Reached Stored s ∧
    s.flights = [⟨some "r", some (.resolved "a'")⟩, ⟨some "r'", none⟩] ∧ Recovers s := by
  have h : Reached Stored { refreshToken := some "r" } := .start (some "r")
  have h₁ := h.step .refresh (fun _ ↦ by decide)
  have h₂ := h₁.step (.answer 0 (some ⟨"a'", "r'"⟩)) trivial
  have h₃ := h₂.step .refresh (fun _ ↦ by decide)
  exact ⟨_, h₃, rfl, singleFlight_of_reached _ h₃⟩

/-- A refresh without a token leaves a rejected promise behind, which answers the next caller after
a login. -/
theorem not_singleFlight_loggedOut : ∃ s, Reached (fun _ _ ↦ True) s ∧
    (∀ p, s.pending p = false) ∧ s.refreshToken = some "r" ∧ s.refreshOnce = (s, 0) ∧
    s.flights = [⟨none, some .rejected⟩] ∧ ¬ Recovers s := by
  have h : Reached (fun _ _ ↦ True) {} := .start none
  have h₁ := h.step .refresh trivial
  have h₂ := h₁.step (.login ⟨"a", "r"⟩) trivial
  refine ⟨_, h₂, fun p ↦ ?_, rfl, rfl, rfl, fun hs ↦ ?_⟩
  · cases p with
    | zero => rfl
    | succ p => rfl
  · have hp := hs.cleared 0 rfl
    cases hp

end AdminPlatform.Frontend.SingleFlight
