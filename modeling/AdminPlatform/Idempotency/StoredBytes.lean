import AdminPlatform.Idempotency.ReplayFidelity
import AdminPlatform.Idempotency.SingleExecution

namespace AdminPlatform.Idempotency.StoredBytes

open Foundation.CodePoints Foundation.Json Responses StoredPayload ReplayFidelity Dispatch
open Middleware (Request Payload Answer Response inFlight keyReused isSuccess)
open Auth.LoginGuard (Entry Reply live)
open Function

inductive Outcome
  | conflict (c : Conflict)
  | handled (response : Sent)
  | raised

inductive ByteStage
  | setNx
  | get
  | handler (locked : Bool)
  | setex (payload : Bytes) (delivered : Option Sent)
  | ended (outcome : Outcome)

structure ByteCall where
  request : Request
  clientKey : String
  stage : ByteStage := .setNx

def ByteCall.cacheKey (c : ByteCall) : String :=
  Middleware._buildCacheKey c.request.subject.text c.request.path.text c.clientKey

structure ByteState where
  now : ℕ
  store : String → Option (Entry Bytes)
  calls : List ByteCall

variable (rt : Runtime) (cfg : Config)

def ByteCall.bodyHash (c : ByteCall) : String := cfg.sha256 c.request.body

def ByteState.found (S : ByteState) (key : String) : Option Bytes := live S.now (S.store key)

def ByteState.write (S : ByteState) (key : String) (ttl : ℕ) (payload : Bytes) : String → Option (Entry Bytes) :=
  update S.store key (some ⟨payload, some (S.now + ttl)⟩)

/-- The next step of a call, as `Call.next` has it, with what the store really holds. -/
def ByteCall.next (S : ByteState) (c : ByteCall) (reply : Reply) (result : Option Sent) :
    (String → Option (Entry Bytes)) × ByteCall :=
  match c.stage with
  | .setNx =>
    match dumps rt (lockPayload rt (c.bodyHash cfg)) with
    | none => (S.store, { c with stage := .ended .raised })
    | some lock =>
      if (S.found c.cacheKey).isSome then (S.store, { c with stage := .get })
      else
        let store := if reply.applied then S.write c.cacheKey cfg.lockTtl lock else S.store
        match reply with
        | .answered => (store, { c with stage := .handler true })
        | .raised _ => (store, { c with stage := .get })
  | .get =>
    let existing := match reply with
      | .answered => S.found c.cacheKey
      | .raised _ => none
    match existing with
    | some payload => (S.store, { c with
        stage := .ended (.conflict (_resolveConflict rt payload (c.bodyHash cfg))) })
    | none => (S.store, { c with stage := .handler false })
  | .handler _ =>
    match result with
    | none => (S.store, { c with stage := .ended .raised })
    | some response =>
      if isSuccess response.statusCode then
        match _cacheAndReturn rt response (c.bodyHash cfg) with
        | none => (S.store, { c with stage := .ended .raised })
        | some (payload, delivered) => (S.store, { c with stage := .setex payload delivered })
      else (S.store, { c with stage := .ended (.handled response) })
  | .setex payload delivered =>
    let store := if reply.applied then S.write c.cacheKey cfg.ttl payload else S.store
    match delivered with
    | some response => (store, { c with stage := .ended (.handled response) })
    | none => (store, { c with stage := .ended .raised })
  | .ended _ => (S.store, c)

inductive ByteLabel
  | arrive (request : Request)
  | step (i : ℕ) (reply : Reply) (result : Option Sent)
  | lose (key : String)
  | intrude (key : String) (ttl : ℕ) (value : Bytes)
  | tick (d : ℕ)

def ByteState.next (S : ByteState) : ByteLabel → Option ByteState
  | .arrive request =>
    match Middleware._gate request with
    | .key clientKey => some { S with calls := S.calls ++ [{ request := request, clientKey := clientKey }] }
    | _ => some S
  | .step i reply result =>
    (S.calls[i]?).map fun c ↦ { S with
      store := (c.next rt cfg S reply result).1
      calls := S.calls.set i (c.next rt cfg S reply result).2 }
  | .lose key => some { S with store := update S.store key none }
  | .intrude key ttl value => some { S with store := update S.store key (some ⟨value, some (S.now + ttl)⟩) }
  | .tick d => some { S with now := S.now + d }

def ByteState.init (now : ℕ) : ByteState := ⟨now, fun _ ↦ none, []⟩

/-- The states of the runs whose steps have the property `P`. -/
inductive ByteReach (P : ByteState → ByteLabel → Prop) (now : ℕ) : ByteState → Prop
  | init : ByteReach P now (.init now)
  | step {S S' : ByteState} (label : ByteLabel) : ByteReach P now S → S.next rt cfg label = some S' →
      P S label → ByteReach P now S'

def ofLatin1 (bs : Bytes) : String := String.ofList (bs.map fun b ↦ Char.ofNat b.toNat)

def ofSent (r : Sent) : Response :=
  ⟨r.statusCode, r.headers.map fun m ↦ (ofLatin1 m.1, ofLatin1 m.2), r.body⟩

inductive Represents : Bytes → Payload → Prop
  | lock {bs : Bytes} {hash : String} : dumps rt (lockPayload rt hash) = some bs →
      Represents bs (.inProgress hash)
  | completed {bs : Bytes} {hash : String} {r : Sent} : isSuccess r.statusCode = true → LowerCase r.headers →
      _cacheAndReturn rt r hash = some (bs, some r) → Represents bs (.completed hash (ofSent r))
  | foreign {bs : Bytes} : loadsBytes rt bs = .error .decodeError → Represents bs .foreign

/-- What a client is told, up to the marker of a replay. -/
inductive SameOutcome : Outcome → Answer → Prop
  | problem (e : Model.Service.AppError) : SameOutcome (.conflict (.problem e)) (.problem e)
  | replayed {s r : Sent} : ReplayOf s r → SameOutcome (.conflict (.replayed r)) (.replayed (ofSent s))
  | handled (r : Sent) : SameOutcome (.handled r) (.handled (ofSent r))
  | raised : SameOutcome .raised .raised

inductive SameStage (hash : String) : ByteStage → Stage → Prop
  | setNx : SameStage hash .setNx .setNx
  | get : SameStage hash .get .get
  | handler (locked : Bool) : SameStage hash (.handler locked) (.handler locked)
  | setex {bs : Bytes} {r : Sent} : isSuccess r.statusCode = true → LowerCase r.headers →
      _cacheAndReturn rt r hash = some (bs, some r) → SameStage hash (.setex bs (some r)) (.setex (ofSent r))
  | ended {o : Outcome} {a : Answer} : SameOutcome o a → SameStage hash (.ended o) (.ended a)

structure SameCall (c : ByteCall) (d : Call) : Prop where
  request : d.request = c.request
  clientKey : d.clientKey = c.clientKey
  stage : SameStage rt (c.bodyHash cfg) c.stage d.stage

/-- The entries of a key: both or none, for as long as each other. -/
inductive SameEntry : Option (Entry Bytes) → Option (Entry Stored) → Prop
  | none : SameEntry none none
  | some {bs : Bytes} {x : Stored} (t : Option ℕ) : Represents rt bs x.payload →
      SameEntry (some ⟨bs, t⟩) (some ⟨x, t⟩)

structure Simulates (B : ByteState) (S : State) : Prop where
  now : S.now = B.now
  store : ∀ key, SameEntry rt (B.store key) (S.store key)
  calls : List.Forall₂ (SameCall rt cfg) B.calls S.calls

/-- The handlers answer with plain responses or with bodies that are no text, and what others write is no
JSON. -/
def Tame : ByteLabel → Prop
  | .step _ _ result => ∀ r ∈ result, isSuccess r.statusCode = true →
      bodyObj rt r.body = none ∨ LowerCase r.headers ∧ Plain rt r
  | .intrude _ _ value => loadsBytes rt value = .error .decodeError
  | _ => True

def handledOf : Option Sent → Handled
  | none => .raised
  | some r => if isSuccess r.statusCode && (bodyObj rt r.body).isNone then .undecodable else .answered (ofSent r)

def ByteLabel.spec : ByteLabel → Label
  | .arrive request => .arrive request
  | .step i reply result => .step i reply (handledOf rt result)
  | .lose key => .lose key
  | .intrude key ttl _ => .intrude key ttl
  | .tick d => .tick d

variable {rt : Runtime} {cfg : Config} {B B' : ByteState} {S : State} {c : ByteCall} {d : Call} {bs : Bytes}
  {p : Payload} {hash : String} {now i : ℕ}

theorem resolveConflict_same (h : Represents rt bs p) (hash : String) :
    ∃ a, Middleware._resolveConflict (some p) hash = some a ∧
      SameOutcome (.conflict (_resolveConflict rt bs hash)) a := by
  cases h with
  | @lock stored hd =>
    by_cases he : stored = hash
    · subst he
      rw [resolveConflict_lock hd]
      exact ⟨_, if_neg (not_not.2 rfl), .problem _⟩
    · rw [resolveConflict_other (loadsBytes_encode (readable_lockPayload stored) hd).2 rfl he]
      exact ⟨_, if_pos he, .problem _⟩
  | @completed stored r hs hl hc =>
    by_cases he : stored = hash
    · subst he
      obtain ⟨r', hr, hreplay, -⟩ := (delivery hs hl hc).replay
      rw [hr]
      exact ⟨_, if_neg (not_not.2 rfl), .replayed hreplay⟩
    · obtain ⟨ms, hms, hhash⟩ := loads_payload hs hc
      rw [resolveConflict_other hms hhash he]
      exact ⟨_, if_pos he, .problem _⟩
  | foreign hf =>
    refine ⟨.problem inFlight, rfl, ?_⟩
    rw [_resolveConflict, hf]
    exact .problem _

theorem found_same {e : Option (Entry Bytes)} {x : Option (Entry Stored)} (h : SameEntry rt e x) (now : ℕ) :
    (live now e = none ∧ live now x = none) ∨
      ∃ bs y, live now e = some bs ∧ live now x = some y ∧ Represents rt bs y.payload := by
  cases h with
  | none => exact .inl ⟨rfl, rfl⟩
  | some t hp =>
    unfold live
    rw [Option.bind_some, Option.bind_some]
    dsimp only
    split
    · exact .inr ⟨_, _, rfl, rfl, hp⟩
    · exact .inl ⟨rfl, rfl⟩

theorem store_update {store : String → Option (Entry Bytes)} {spec : Store} {e : Option (Entry Bytes)}
    {x : Option (Entry Stored)} (h : ∀ key, SameEntry rt (store key) (spec key)) (hx : SameEntry rt e x)
    (key : String) : ∀ k, SameEntry rt (update store key e k) (update spec key x k) := by
  intro k
  by_cases hk : k = key
  · subst hk
    rwa [update_self, update_self]
  · rw [update_of_ne hk, update_of_ne hk]
    exact h k

theorem sameCall_cacheKey (h : SameCall rt cfg c d) : d.cacheKey = c.cacheKey := by
  rw [Call.cacheKey, ByteCall.cacheKey, h.request, h.clientKey]

theorem sameCall_bodyHash (h : SameCall rt cfg c d) : d.bodyHash cfg = c.bodyHash cfg := by
  rw [Call.bodyHash, ByteCall.bodyHash, h.request]

theorem dumps_lock (rt : Runtime) (hash : String) : ∃ lock, dumps rt (lockPayload rt hash) = some lock :=
  ⟨_, encode_print (readable_lockPayload hash).scalar _⟩

theorem found_call (h : Simulates rt cfg B S) (hc : SameCall rt cfg c d) :
    (B.found c.cacheKey = none ∧ S.found d.cacheKey = none) ∨
      ∃ bs y, B.found c.cacheKey = some bs ∧ S.found d.cacheKey = some y ∧ Represents rt bs y.payload := by
  unfold ByteState.found State.found
  rw [sameCall_cacheKey hc, h.now]
  exact found_same (h.store c.cacheKey) B.now

theorem write_same (h : Simulates rt cfg B S) (hc : SameCall rt cfg c d) (hp : Represents rt bs p) (ttl : ℕ)
    (reply : Reply) : ∀ key, SameEntry rt ((if reply.applied then B.write c.cacheKey ttl bs else B.store) key)
      ((if reply.applied then S.write d.cacheKey ttl p i else S.store) key) := by
  split
  · rw [sameCall_cacheKey hc, State.write, h.now]
    exact store_update h.store (.some (some (B.now + ttl)) hp) c.cacheKey
  · exact h.store

theorem cacheAndReturn_undecodable {r : Sent} (h : bodyObj rt r.body = none) :
    _cacheAndReturn rt r hash = none := by
  rw [_cacheAndReturn, h]
  rfl

/-- One step of a call, over the bytes and over what they stand for. -/
theorem next_same (h : Simulates rt cfg B S) (hc : SameCall rt cfg c d) (reply : Reply) {result : Option Sent}
    (hr : ∀ r ∈ result, isSuccess r.statusCode = true →
      bodyObj rt r.body = none ∨ LowerCase r.headers ∧ Plain rt r) :
    (∀ key, SameEntry rt ((c.next rt cfg B reply result).1 key)
      ((d.next cfg S i reply (handledOf rt result)).1 key)) ∧
    SameCall rt cfg (c.next rt cfg B reply result).2 (d.next cfg S i reply (handledOf rt result)).2 := by
  have hfound := found_call h hc
  have hhash := sameCall_bodyHash hc
  have hstage := hc.stage
  generalize hcs : c.stage = cs at hstage
  generalize hds : d.stage = ds at hstage
  cases hstage with
  | setNx =>
    obtain ⟨lock, hlock⟩ := dumps_lock rt (c.bodyHash cfg)
    simp only [ByteCall.next, hcs, Call.next, hds, hlock, hhash]
    rcases hfound with ⟨hb, hs⟩ | ⟨bs, y, hb, hs, -⟩
    · rw [hb, hs]
      have hstore := write_same (i := i) h hc (.lock hlock) cfg.lockTtl reply
      cases reply with
      | answered => exact ⟨hstore, hc.request, hc.clientKey, .handler true⟩
      | raised applied => exact ⟨hstore, hc.request, hc.clientKey, .get⟩
    · rw [hb, hs]
      exact ⟨h.store, hc.request, hc.clientKey, .get⟩
  | get =>
    simp only [ByteCall.next, hcs, Call.next, hds, hhash]
    cases reply with
    | raised applied => exact ⟨h.store, hc.request, hc.clientKey, .handler false⟩
    | answered =>
      rcases hfound with ⟨hb, hs⟩ | ⟨bs, y, hb, hs, hp⟩
      · simp only [hb, hs, Option.map_none]
        exact ⟨h.store, hc.request, hc.clientKey, .handler false⟩
      · obtain ⟨a, ha, hsame⟩ := resolveConflict_same hp (c.bodyHash cfg)
        simp only [hb, hs, Option.map_some, ha]
        cases a <;> exact ⟨h.store, hc.request, hc.clientKey, .ended hsame⟩
  | handler locked =>
    simp only [ByteCall.next, hcs, Call.next, hds]
    cases result with
    | none => exact ⟨h.store, hc.request, hc.clientKey, .ended .raised⟩
    | some r =>
      have hspec : isSuccess (ofSent r).statusCode = isSuccess r.statusCode := rfl
      by_cases hs : isSuccess r.statusCode = true
      · rcases hr r rfl hs with hbody | ⟨hl, hplain⟩
        · simp only [handledOf, hs, hbody, cacheAndReturn_undecodable hbody, Option.isNone_none,
            Bool.and_self, if_true]
          exact ⟨h.store, hc.request, hc.clientKey, .ended .raised⟩
        · obtain ⟨payload, -, hcache, -⟩ := hplain.faithful hs hl (c.bodyHash cfg)
          have hbody : (bodyObj rt r.body).isNone = false := by
            rw [Option.isNone_eq_false_iff, Option.isSome_iff_ne_none]
            intro hnone
            cases (cacheAndReturn_undecodable hnone).symm.trans hcache
          simp only [handledOf, hs, hspec, hbody, Bool.and_false, Bool.false_eq_true, if_true, if_false, hcache]
          exact ⟨h.store, hc.request, hc.clientKey, .setex hs hl hcache⟩
      · simp only [handledOf, hspec, Bool.not_eq_true _ ▸ hs, Bool.false_and, Bool.false_eq_true, if_false]
        exact ⟨h.store, hc.request, hc.clientKey, .ended (.handled r)⟩
  | setex hs hl hcache =>
    simp only [ByteCall.next, hcs, Call.next, hds, hhash]
    exact ⟨write_same h hc (.completed hs hl hcache) cfg.ttl reply, hc.request, hc.clientKey, .ended (.handled _)⟩
  | ended ho =>
    simp only [ByteCall.next, hcs, Call.next, hds]
    exact ⟨h.store, hc⟩

section

variable {α β : Type} {R : α → β → Prop} {xs : List α} {ys : List β} {x : α} {y : β}

theorem forall₂_set (h : List.Forall₂ R xs ys) (hr : R x y) (i : ℕ) :
    List.Forall₂ R (xs.set i x) (ys.set i y) := by
  induction h generalizing i with
  | nil => exact .nil
  | cons ha h ih =>
    cases i with
    | zero => exact .cons hr h
    | succ i => exact .cons ha (ih i)

theorem forall₂_getElem? (h : List.Forall₂ R xs ys) {i : ℕ} (hx : xs[i]? = some x) :
    ∃ y, ys[i]? = some y ∧ R x y := by
  induction h generalizing i with
  | nil => cases hx
  | cons ha h ih =>
    cases i with
    | zero =>
      obtain rfl := Option.some.inj hx
      exact ⟨_, rfl, ha⟩
    | succ i => exact ih hx

end

theorem simulates_init (now : ℕ) : Simulates rt cfg (.init now) (.init now) := ⟨rfl, fun _ ↦ .none, .nil⟩

section

variable {request : Request} {key : String}

theorem next_passed (h : Middleware._gate request = .key key) : B.next rt cfg (.arrive request) =
    some { B with calls := B.calls ++ [{ request := request, clientKey := key }] } := by
  rw [ByteState.next, h]

theorem spec_passed (h : Middleware._gate request = .key key) : S.next cfg (.arrive request) =
    some { S with calls := S.calls ++ [{ request := request, clientKey := key }] } := by
  rw [State.next, h]

theorem next_refused (h : ∀ key, Middleware._gate request ≠ .key key) :
    B.next rt cfg (.arrive request) = some B := by
  cases hgate : Middleware._gate request with
  | key key => exact absurd hgate (h key)
  | _ => rw [ByteState.next, hgate]

theorem spec_refused (h : ∀ key, Middleware._gate request ≠ .key key) :
    S.next cfg (.arrive request) = some S := by
  cases hgate : Middleware._gate request with
  | key key => exact absurd hgate (h key)
  | _ => rw [State.next, hgate]

end

/-- A step over the bytes is a step over what they stand for. -/
theorem simulates_next (h : Simulates rt cfg B S) {label : ByteLabel} (hl : Tame rt label)
    (hB : B.next rt cfg label = some B') :
    ∃ S', S.next cfg (label.spec rt) = some S' ∧ Simulates rt cfg B' S' := by
  cases label with
  | arrive request =>
    by_cases hgate : ∃ key, Middleware._gate request = .key key
    · obtain ⟨key, hkey⟩ := hgate
      obtain rfl := Option.some.inj ((next_passed hkey).symm.trans hB)
      exact ⟨_, spec_passed hkey, h.now, h.store, List.rel_append h.calls (.cons ⟨rfl, rfl, .setNx⟩ .nil)⟩
    · have hnone := not_exists.1 hgate
      obtain rfl := Option.some.inj ((next_refused hnone).symm.trans hB)
      exact ⟨S, spec_refused hnone, h⟩
  | step i reply result =>
    obtain ⟨c, hc, rfl⟩ := Option.map_eq_some_iff.1 hB
    obtain ⟨d, hd, hcd⟩ := forall₂_getElem? h.calls hc
    obtain ⟨hstore, hcall⟩ := next_same (i := i) h hcd reply hl
    exact ⟨_, Option.map_eq_some_iff.2 ⟨d, hd, rfl⟩, h.now, hstore, forall₂_set h.calls hcall i⟩
  | lose key =>
    obtain rfl := Option.some.inj hB
    exact ⟨_, rfl, h.now, store_update h.store .none key, h.calls⟩
  | intrude key ttl value =>
    obtain rfl := Option.some.inj hB
    refine ⟨_, rfl, h.now, ?_, h.calls⟩
    rw [h.now]
    exact store_update h.store (.some (some (B.now + ttl)) (.foreign hl)) key
  | tick d =>
    obtain rfl := Option.some.inj hB
    exact ⟨_, rfl, congrArg (· + d) h.now, h.store, h.calls⟩

/-- Every run over the bytes is a run over the payloads they stand for: the same requests are told
the same, up to the marker of a replay. -/
theorem bytes_refine_payloads (rt : Runtime) (cfg : Config) (now : ℕ) (P : State → Label → Prop)
    (Q : ByteState → ByteLabel → Prop) (hQ : ∀ B label, Q B label → Tame rt label)
    (hP : ∀ B S label, Simulates rt cfg B S → Q B label → P S (label.spec rt)) (B : ByteState)
    (h : ByteReach rt cfg Q now B) : ∃ S, Reach cfg P now S ∧ Simulates rt cfg B S := by
  induction h with
  | init => exact ⟨_, .init, simulates_init now⟩
  | step label _ hB hlabel ih =>
    obtain ⟨S, hS, hsim⟩ := ih
    obtain ⟨S', hS', hsim'⟩ := simulates_next hsim (hQ _ _ hlabel) hB
    exact ⟨S', .step (label.spec rt) hS hS' (hP _ _ _ hsim hlabel), hsim'⟩

/-- A request that has taken its lock. -/
theorem bytes_refine_payloads_locked : ∃ B S, B.calls.map ByteCall.stage = [.handler true] ∧
    Reach SingleExecution.sampleConfig (fun _ _ ↦ True) 0 S ∧
    Simulates utf8Runtime SingleExecution.sampleConfig B S := by
  have harrived : ByteReach utf8Runtime SingleExecution.sampleConfig (fun _ ↦ Tame utf8Runtime) 0
      ⟨0, fun _ ↦ none, [⟨SingleExecution.sampleRequest, "k", .setNx⟩]⟩ :=
    .step (.arrive SingleExecution.sampleRequest) .init rfl trivial
  obtain ⟨lock, hlock⟩ := dumps_lock utf8Runtime ""
  have hstep : (ByteState.next utf8Runtime SingleExecution.sampleConfig
      ⟨0, fun _ ↦ none, [⟨SingleExecution.sampleRequest, "k", .setNx⟩]⟩ (.step 0 .answered none)) =
      some ⟨0, update (fun _ ↦ none) "idem:anon:/orders:k" (some ⟨lock, some 30⟩),
        [⟨SingleExecution.sampleRequest, "k", .handler true⟩]⟩ := by
    have hhash : ByteCall.bodyHash SingleExecution.sampleConfig
        ⟨SingleExecution.sampleRequest, "k", .setNx⟩ = "" := rfl
    simp only [ByteState.next, List.getElem?_cons_zero, Option.map_some, ByteCall.next, hhash, hlock]
    rfl
  obtain ⟨S, hS, hsim⟩ := bytes_refine_payloads utf8Runtime SingleExecution.sampleConfig 0 (fun _ _ ↦ True)
    (fun _ ↦ Tame utf8Runtime) (fun _ _ h ↦ h) (fun _ _ _ _ _ ↦ trivial) _
    (.step (.step 0 .answered none) harrived hstep fun r hr ↦ by cases hr)
  exact ⟨_, S, rfl, hS, hsim⟩

end AdminPlatform.Idempotency.StoredBytes
