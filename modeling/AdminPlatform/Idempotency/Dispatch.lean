import AdminPlatform.Auth.LoginGuard
import AdminPlatform.Idempotency.Middleware

namespace AdminPlatform.Idempotency.Dispatch

open Model.Service Middleware Function
open Auth.LoginGuard (Entry Reply live)

/-- The middleware's settings in seconds with their bounds, and the hash of a body. -/
structure Config where
  ttl : ℕ
  lockTtl : ℕ
  sha256 : Bytes → String
  le_ttl : 60 ≤ ttl
  le_lockTtl : 5 ≤ lockTtl
  lockTtl_le : lockTtl ≤ 3600

/-- The next thing a request does. A handler runs with the lock, or without. -/
inductive Stage
  | setNx
  | get
  | handler (locked : Bool)
  | setex (response : Response)
  | ended (answer : Answer)
  deriving DecidableEq

/-- What a handler does. A body may be no text of the encoding that `json.loads` takes it for. -/
inductive Handled
  | raised
  | undecodable
  | answered (response : Response)
  deriving DecidableEq

/-- A request that passed the gate. What follows its stage is kept for the record: when its
handler was entered and returned a 2xx, until when its last write to the store lasts, and whose
response it was served. -/
structure Call where
  request : Request
  clientKey : String
  stage : Stage := .setNx
  startedAt : Option ℕ := none
  succeededAt : Option ℕ := none
  coveredUntil : Option ℕ := none
  servedFrom : Option ℕ := none

def Call.cacheKey (c : Call) : String :=
  _buildCacheKey c.request.subject.text c.request.path.text c.clientKey

structure Stored where
  payload : Payload
  writer : ℕ
  deriving DecidableEq

abbrev Store := String → Option (Entry Stored)

structure State where
  now : ℕ
  store : Store
  calls : List Call

variable (cfg : Config)

def Call.bodyHash (c : Call) : String := cfg.sha256 c.request.body

def State.found (S : State) (key : String) : Option Stored := live S.now (S.store key)

def State.write (S : State) (key : String) (ttl : ℕ) (payload : Payload) (writer : ℕ) : Store :=
  update S.store key (some ⟨⟨payload, writer⟩, some (S.now + ttl)⟩)

/-- The next step of the call `i`: what it leaves in the store, and where it stands then. A call of
the store that raises answers as if nothing was there; `result` is what the handler does. -/
def Call.next (S : State) (i : ℕ) (c : Call) (reply : Reply) (result : Handled) : Store × Call :=
  match c.stage with
  | .setNx =>
    if (S.found c.cacheKey).isSome then (S.store, { c with stage := .get })
    else
      let store := if reply.applied then
        S.write c.cacheKey cfg.lockTtl (.inProgress (c.bodyHash cfg)) i else S.store
      match reply with
      | .answered => (store, { c with
          stage := .handler true
          startedAt := some S.now
          coveredUntil := some (S.now + cfg.lockTtl) })
      | .raised _ => (store, { c with stage := .get })
  | .get =>
    let existing := match reply with
      | .answered => S.found c.cacheKey
      | .raised _ => none
    match _resolveConflict (existing.map Stored.payload) (c.bodyHash cfg) with
    | some (.replayed response) => (S.store, { c with
        stage := .ended (.replayed response)
        servedFrom := existing.map Stored.writer })
    | some answer => (S.store, { c with stage := .ended answer })
    | none => (S.store, { c with stage := .handler false, startedAt := some S.now })
  | .handler _ =>
    match result with
    | .raised => (S.store, { c with stage := .ended .raised })
    -- `_cache_and_return` raises before `setex`
    | .undecodable => (S.store, { c with stage := .ended .raised, succeededAt := some S.now })
    | .answered response =>
      if isSuccess response.statusCode then
        (S.store, { c with stage := .setex response, succeededAt := some S.now })
      else (S.store, { c with stage := .ended (.handled response) })
  | .setex response =>
    let store := if reply.applied then
      S.write c.cacheKey cfg.ttl (.completed (c.bodyHash cfg) response) i else S.store
    (store, { c with
      stage := .ended (.handled response)
      coveredUntil := some (S.now + cfg.ttl) })
  | .ended _ => (S.store, c)

/-- A request arrives, a call takes its next step, the store loses a key or is written to by
somebody else, time passes. -/
inductive Label
  | arrive (request : Request)
  | step (i : ℕ) (reply : Reply) (result : Handled)
  | lose (key : String)
  | intrude (key : String) (ttl : ℕ)
  | tick (d : ℕ)

/-- Requests that do not pass the gate leave the store alone. -/
def State.next (S : State) : Label → Option State
  | .arrive request =>
    match _gate request with
    | .key clientKey => some { S with calls := S.calls ++ [{ request := request, clientKey := clientKey }] }
    | _ => some S
  | .step i reply result =>
    (S.calls[i]?).map fun c ↦ { S with
      store := (c.next cfg S i reply result).1
      calls := S.calls.set i (c.next cfg S i reply result).2 }
  | .lose key => some { S with store := update S.store key none }
  | .intrude key ttl => some { S with
      store := update S.store key (some ⟨⟨.foreign, S.calls.length⟩, some (S.now + ttl)⟩) }
  | .tick d => some { S with now := S.now + d }

def State.init (now : ℕ) : State := ⟨now, fun _ ↦ none, []⟩

/-- The states of the runs whose steps have the property `P`. -/
inductive Reach (P : State → Label → Prop) (now : ℕ) : State → Prop
  | init : Reach P now (.init now)
  | step {S S' : State} (label : Label) : Reach P now S → S.next cfg label = some S' → P S label →
      Reach P now S'

def State.follow (check : State → Label → Bool) (S : State) : List Label → Option State
  | [] => some S
  | a :: as => if check S a then (S.next cfg a).bind fun S' ↦ S'.follow check as else none

variable {cfg} {P : State → Label → Prop} {S S' : State} {now : ℕ}

theorem reach_follow {check : State → Label → Bool} {as : List Label}
    (hP : ∀ S a, check S a = true → P S a) (h : Reach cfg P now S) (hf : S.follow cfg check as = some S') :
    Reach cfg P now S' := by
  induction as generalizing S with
  | nil =>
    cases hf
    exact h
  | cons a as ih =>
    simp only [State.follow] at hf
    split at hf
    · next hc =>
      obtain ⟨S₁, h₁, h₂⟩ := Option.bind_eq_some_iff.1 hf
      exact ih (.step a h h₁ (hP S a hc)) h₂
    · cases hf

/-- A schedule that ends in a state with property `p` is a run to such a state. -/
theorem exists_reach_of_follow {p : State → Bool} (check : State → Label → Bool) (as : List Label)
    (hP : ∀ S a, check S a = true → P S a) (h : ((State.init now).follow cfg check as).any p = true) :
    ∃ S, Reach cfg P now S ∧ p S = true := by
  obtain ⟨S, hS, hp⟩ := (Option.any_eq_true _ _).1 h
  exact ⟨S, reach_follow hP .init hS, hp⟩

theorem getElem?_set {cs : List Call} {i j : ℕ} {c c' d : Call} (hc : cs[i]? = some c)
    (h : (cs.set i c')[j]? = some d) : (j = i ∧ d = c') ∨ (j ≠ i ∧ cs[j]? = some d) := by
  rw [List.getElem?_set] at h
  have hi : i < cs.length := (List.getElem?_eq_some_iff.1 hc).1
  by_cases hj : i = j
  · rw [if_pos hj, if_pos (hj ▸ hi)] at h
    exact .inl ⟨hj.symm, (Option.some.inj h).symm⟩
  · rw [if_neg hj] at h
    exact .inr ⟨fun he ↦ hj he.symm, h⟩

theorem getElem?_append_one {cs : List Call} {c d : Call} {j : ℕ} (h : (cs ++ [c])[j]? = some d) :
    cs[j]? = some d ∨ (j = cs.length ∧ d = c) := by
  rw [List.getElem?_append] at h
  split at h
  · exact .inl h
  · rw [List.getElem?_singleton] at h
    split at h
    · exact .inr ⟨by omega, (Option.some.inj h).symm⟩
    · cases h

/-- What a call is about does not change. -/
theorem next_request (cfg : Config) (S : State) (i : ℕ) (c : Call) (reply : Reply) (result : Handled) :
    (c.next cfg S i reply result).2.request = c.request ∧
      (c.next cfg S i reply result).2.clientKey = c.clientKey := by
  unfold Call.next
  split
  · split
    · exact ⟨rfl, rfl⟩
    · cases reply <;> exact ⟨rfl, rfl⟩
  · dsimp only
    split <;> exact ⟨rfl, rfl⟩
  · split
    · exact ⟨rfl, rfl⟩
    · exact ⟨rfl, rfl⟩
    · split <;> exact ⟨rfl, rfl⟩
  · exact ⟨rfl, rfl⟩
  · exact ⟨rfl, rfl⟩

theorem next_cacheKey (cfg : Config) (S : State) (i : ℕ) (c : Call) (reply : Reply) (result : Handled) :
    (c.next cfg S i reply result).2.cacheKey = c.cacheKey := by
  obtain ⟨hr, hk⟩ := next_request cfg S i c reply result
  rw [Call.cacheKey, Call.cacheKey, hr, hk]

end AdminPlatform.Idempotency.Dispatch
