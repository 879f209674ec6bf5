import Mathlib.Data.List.Infix
import AdminPlatform.Frontend.LogoutWins

namespace AdminPlatform.Frontend.Channels

open ApiSession SingleFlight LogoutWins

def AUTH_PATHS : List String :=
  ["/api/v1/auth/login", "/api/v1/auth/refresh", "/api/v1/auth/logout", "/api/v1/auth/captcha"]

/-- `url.includes(part)`. -/
def includes (url part : String) : Bool := decide (part.toList <:+: url.toList)

def isAuthPath (url : String) : Bool := AUTH_PATHS.any fun p ↦ includes url p

/-- What comes back from the request, from its refresh, and from the replayed request. A `fetch`
that throws has no status. -/
structure Responses where
  status : Option ℕ
  refresh : Option Tokens
  replay : Option ℕ
  deriving DecidableEq, Repr

/-- `await refreshOnce()`, with the answer to the request of the promise if it is still out. -/
def awaitRefresh (s : Session) (response : Option Tokens) : Session × Option Settlement :=
  let (s, p) := s.refreshOnce
  let s := s.settle p response
  (s, s.flights[p]?.bind Flight.settlement)

def clientRequest (s : Session) (url : String) (r : Responses) : Session :=
  if r.status = some 401 ∧ isAuthPath url = false then
    match awaitRefresh s r.refresh with
    | (s, some (.resolved _)) => if r.replay = some 401 then s.clearTokens.emitSessionExpired else s
    | (s, _) => s
  else s

def transportRequest (s : Session) (r : Responses) : Session :=
  if r.status = some 401 then (awaitRefresh s r.refresh).1 else s

def downloadBlob (s : Session) (r : Responses) : Session := transportRequest s r

def uploadMultipart (s : Session) (r : Responses) : Session := transportRequest s r

/-- The same tokens are stored, and the end of the session was signalled as often. -/
structure Agree (s s' : Session) : Prop where
  tokens : SameTokens s s'
  expired : s'.expired = s.expired

def renews (s : Session) (response : Option Tokens) : Bool :=
  match s.inflight with
  | some p => match s.flights[p]? with
    | some ⟨_, some (.resolved _)⟩ => true
    | some ⟨_, none⟩ => response.isSome
    | _ => false
  | none => truthy s.refreshToken && response.isSome

/-- The refresh changes nothing: its promise has settled before, or it grants the tokens that
are stored. -/
def idle (s : Session) (response : Option Tokens) : Bool :=
  match s.inflight with
  | some p => s.pending p == false || grants response
  | none => truthy s.refreshToken && grants response
where
  grants (response : Option Tokens) : Bool := response.any fun tokens ↦
    decide (s.accessToken = some tokens.accessToken ∧ s.refreshToken = some tokens.refreshToken)

/-- The response is not 401; or the refresh is not fulfilled or its replay not refused; or the
path is one that the client leaves alone and the refresh changes nothing. -/
def Consistent (s : Session) (url : String) (r : Responses) : Prop :=
  r.status ≠ some 401 ∨
    isAuthPath url = false ∧ (renews s r.refresh = false ∨ r.replay ≠ some 401) ∨
    isAuthPath url = true ∧ idle s r.refresh = true

variable {s s' : Session} {p : ℕ} {response : Option Tokens} {r : Responses} {url : String}

theorem Agree.refl (s : Session) : Agree s s := ⟨⟨rfl, rfl⟩, rfl⟩

theorem not_agree_emit : ¬ Agree s.clearTokens.emitSessionExpired s := by
  intro h
  have he := h.expired
  simp only [Session.emitSessionExpired, Session.clearTokens] at he
  omega

theorem settlement_settle (h : s.pending p = true) :
    (s.settle p response).flights[p]?.bind Flight.settlement = some (outcome response) := by
  obtain ⟨f, hf, -⟩ := pending_iff.1 h
  rw [flights_settle h, List.getElem?_modify_eq, hf]
  rfl

/-- The handle of the session that `refreshOnce` returns, when its request is out. -/
structure Out (s s' : Session) (p : ℕ) : Prop where
  returned : s.refreshOnce = (s', p)
  agree : Agree s s'
  pending : s'.pending p = true

theorem out_of_inflight (hi : s.inflight = some p) (hp : s.pending p = true) : Out s s p where
  returned := by
    unfold Session.refreshOnce
    rw [hi]
  agree := Agree.refl s
  pending := hp

theorem out_of_truthy (hi : s.inflight = none) (ht : truthy s.refreshToken = true) :
    Out s s.refreshOnce.1 s.flights.length := by
  have hr := refreshOnce_of_truthy hi ht
  refine ⟨?_, ?_, ?_⟩
  · rw [hr]
  · rw [hr]
    exact ⟨⟨rfl, rfl⟩, rfl⟩
  · rw [hr]
    exact (pending_append rfl).2 (.inr ⟨rfl, rfl⟩)

theorem Out.awaitRefresh (h : Out s s' p) :
    awaitRefresh s response = (s'.settle p response, some (outcome response)) := by
  unfold Channels.awaitRefresh
  rw [h.returned]
  dsimp only
  rw [settlement_settle h.pending]

theorem awaitRefresh_of_settled (hi : s.inflight = some p) (hp : s.pending p = false) :
    awaitRefresh s response = (s, s.flights[p]?.bind Flight.settlement) := by
  unfold awaitRefresh Session.refreshOnce
  rw [hi]
  dsimp only
  rw [settle_of_not_pending hp]

theorem awaitRefresh_of_empty (hi : s.inflight = none) (ht : truthy s.refreshToken = false) :
    (awaitRefresh s response).2 = some .rejected ∧
      (awaitRefresh s response).1.expired = s.expired + 1 := by
  have hf : s.refreshOnce.1.flights[s.flights.length]? = some ⟨none, some .rejected⟩ := by
    unfold Session.refreshOnce Session.startFlight
    rw [hi]
    dsimp only
    rw [ht]
    exact List.getElem?_concat_length
  have hp : s.refreshOnce.2 = s.flights.length := by
    unfold Session.refreshOnce
    rw [hi]
  have hn : s.refreshOnce.1.pending s.flights.length = false := by
    unfold Session.pending
    rw [hf]
    rfl
  unfold awaitRefresh
  dsimp only
  rw [hp, settle_of_not_pending hn, hf]
  refine ⟨rfl, ?_⟩
  unfold Session.refreshOnce Session.startFlight
  rw [hi]
  dsimp only
  rw [ht]
  rfl

/-- A refresh goes over a promise that has settled, over a request, or over no token. -/
theorem refresh_cases (s : Session) :
    (∃ p, s.inflight = some p ∧ s.pending p = false) ∨
      ((∃ s' p, Out s s' p) ∧ ∀ response, renews s response = response.isSome ∧
        idle s response = idle.grants s response) ∨
      s.inflight = none ∧ truthy s.refreshToken = false := by
  cases hi : s.inflight with
  | some p =>
    cases hp : s.pending p with
    | false => exact .inl ⟨p, rfl, hp⟩
    | true =>
      refine .inr (.inl ⟨⟨s, p, out_of_inflight hi hp⟩, fun response ↦ ⟨?_, ?_⟩⟩)
      · obtain ⟨⟨request, settlement⟩, hf, hs⟩ := pending_iff.1 hp
        dsimp only at hs
        unfold renews
        rw [hi]
        dsimp only
        rw [hf, hs]
      · simp only [idle, hi, hp]
        rfl
  | none =>
    cases ht : truthy s.refreshToken with
    | false => exact .inr (.inr ⟨rfl, rfl⟩)
    | true =>
      refine .inr (.inl ⟨⟨_, _, out_of_truthy hi ht⟩, fun response ↦ ⟨?_, ?_⟩⟩)
      · simp only [renews, hi, ht, Bool.true_and]
      · simp only [idle, hi, ht, Bool.true_and]

theorem fulfilled_iff (s : Session) (response : Option Tokens) :
    (∃ a, (awaitRefresh s response).2 = some (.resolved a)) ↔ renews s response = true := by
  rcases refresh_cases s with ⟨p, hi, hp⟩ | ⟨⟨s', p, h⟩, hr⟩ | ⟨hi, ht⟩
  · rw [awaitRefresh_of_settled hi hp]
    unfold renews
    rw [hi]
    dsimp only
    cases hf : s.flights[p]? with
    | none => simp
    | some f =>
      obtain ⟨request, settlement⟩ := f
      rcases settlement with _ | _ | _
      · have h := pending_iff.2 ⟨_, hf, rfl⟩
        rw [hp] at h
        cases h
      · simp
      · simp
  · rw [h.awaitRefresh, (hr response).1]
    cases response with
    | none => simp [outcome]
    | some tokens => simp [outcome]
  · rw [(awaitRefresh_of_empty hi ht).1]
    unfold renews
    rw [hi]
    dsimp only
    rw [ht]
    simp

theorem Out.agree_iff (h : Out s s' p) :
    Agree s (s'.settle p response) ↔ idle.grants s response = true := by
  unfold Session.settle
  rw [if_pos h.pending]
  cases response with
  | none =>
    refine ⟨fun ha ↦ ?_, fun hg ↦ nomatch hg⟩
    have he := ha.expired
    have he' := h.agree.expired
    simp only [Session.emitSessionExpired, Session.clearTokens] at he
    omega
  | some tokens =>
    unfold idle.grants
    rw [Option.any_some, decide_eq_true_iff]
    refine ⟨fun ha ↦ ⟨ha.tokens.access.symm, ha.tokens.refresh.symm⟩, fun hg ↦ ?_⟩
    exact ⟨⟨hg.1.symm, hg.2.symm⟩, h.agree.expired⟩

theorem agree_awaitRefresh (s : Session) (response : Option Tokens) :
    Agree s (awaitRefresh s response).1 ↔ idle s response = true := by
  rcases refresh_cases s with ⟨p, hi, hp⟩ | ⟨⟨s', p, h⟩, hr⟩ | ⟨hi, ht⟩
  · rw [awaitRefresh_of_settled hi hp]
    refine ⟨fun _ ↦ ?_, fun _ ↦ Agree.refl s⟩
    simp [idle, hi, hp]
  · rw [h.awaitRefresh, (hr response).2]
    exact h.agree_iff
  · refine ⟨fun ha ↦ ?_, fun hd ↦ ?_⟩
    · have he := ha.expired
      rw [(awaitRefresh_of_empty hi ht).2] at he
      omega
    · simp [idle, hi, ht] at hd

theorem clientRequest_of_auth (hu : isAuthPath url = true) : clientRequest s url r = s := by
  unfold clientRequest
  rw [hu]
  exact if_neg fun h ↦ nomatch h.2

theorem clientRequest_of_renewed (hr : r.status = some 401) (hu : isAuthPath url = false)
    (hn : renews s r.refresh = true) :
    clientRequest s url r = if r.replay = some 401
      then (awaitRefresh s r.refresh).1.clearTokens.emitSessionExpired
      else (awaitRefresh s r.refresh).1 := by
  obtain ⟨a, ha⟩ := (fulfilled_iff s r.refresh).2 hn
  unfold clientRequest
  rw [if_pos ⟨hr, hu⟩]
  split
  · rename_i hw
    rw [hw]
  · rename_i hx hw
    rw [hw] at ha
    exact absurd ha (hx a)

theorem clientRequest_of_failed (hr : r.status = some 401) (hu : isAuthPath url = false)
    (hn : renews s r.refresh = false) : clientRequest s url r = (awaitRefresh s r.refresh).1 := by
  have hx : ∀ a, (awaitRefresh s r.refresh).2 ≠ some (.resolved a) := by
    intro a ha
    have h := (fulfilled_iff s r.refresh).1 ⟨a, ha⟩
    rw [hn] at h
    cases h
  unfold clientRequest
  rw [if_pos ⟨hr, hu⟩]
  split
  · rename_i hw
    rw [hw] at hx
    exact absurd rfl (hx _)
  · rename_i hw
    rw [hw]

theorem agree_iff (s : Session) (url : String) (r : Responses) :
    Agree (clientRequest s url r) (transportRequest s r) ↔ Consistent s url r := by
  by_cases hr : r.status = some 401
  · have ht : transportRequest s r = (awaitRefresh s r.refresh).1 := if_pos hr
    rw [ht]
    cases hu : isAuthPath url with
    | true =>
      rw [clientRequest_of_auth hu, agree_awaitRefresh]
      simp [Consistent, hr, hu]
    | false =>
      cases hn : renews s r.refresh with
      | false =>
        rw [clientRequest_of_failed hr hu hn]
        simp [Consistent, hr, hu, hn, Agree.refl]
      | true =>
        rw [clientRequest_of_renewed hr hu hn]
        by_cases hp : r.replay = some 401
        · rw [if_pos hp]
          simp [Consistent, hr, hu, hn, hp, not_agree_emit]
        · rw [if_neg hp]
          simp [Consistent, hr, hu, hn, hp, Agree.refl]
  · have ht : transportRequest s r = s := if_neg hr
    have hc : clientRequest s url r = s := if_neg fun h ↦ hr h.1
    rw [ht, hc]
    exact ⟨fun _ ↦ .inl hr, fun _ ↦ Agree.refl s⟩

theorem channels_agree_iff (s : Session) (url : String) (r : Responses) :
    Agree (clientRequest s url r) (downloadBlob s r) ∧
        Agree (clientRequest s url r) (uploadMultipart s r) ↔ Consistent s url r := by
  rw [← agree_iff]
  exact and_self_iff

/-- The replayed request is refused. -/
theorem not_channels_agree_replay :
    let s : Session := { accessToken := some "a", refreshToken := some "r" }
    let r : Responses := ⟨some 401, some ⟨"a'", "r'"⟩, some 401⟩
    let url := "/api/v1/files/1/download"
    (clientRequest s url r).accessToken = none ∧ (clientRequest s url r).expired = 1 ∧
      (downloadBlob s r).accessToken = some "a'" ∧ (downloadBlob s r).expired = 0 ∧
      ¬ (Agree (clientRequest s url r) (downloadBlob s r) ∧
        Agree (clientRequest s url r) (uploadMultipart s r)) := by
  refine ⟨by decide +kernel, by decide +kernel, by decide +kernel, by decide +kernel, fun h ↦ ?_⟩
  exact absurd h.1.expired (by decide +kernel)

end AdminPlatform.Frontend.Channels
