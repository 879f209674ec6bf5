import AdminPlatform.Idempotency.StoredPayload

namespace AdminPlatform.Idempotency.ReplayFidelity

open Foundation.CodePoints Foundation.Dicts Foundation.Json Foundation.JsonRoundTrip Foundation.JsonLoads
open Responses StoredPayload
open Middleware (isSuccess)

variable {rt : Runtime} {fl : Floats} {hash : String} {response delivered r : Sent} {payload bs : Bytes}

structure ReplayOf (delivered r : Sent) : Prop where
  statusCode : r.statusCode = delivered.statusCode
  body : r.body = delivered.body
  headers : r.headers.Perm (marker :: delivered.headers)

/-- A `Content-Length` is the length of the body. -/
def Measured (headers : List (Bytes × Bytes)) (body : Bytes) : Prop :=
  ∀ m ∈ headers, m.1 = contentLength → m.2 = decimal body.length

instance (headers : List (Bytes × Bytes)) (body : Bytes) : Decidable (Measured headers body) :=
  inferInstanceAs (Decidable (∀ m ∈ headers, m.1 = contentLength → m.2 = decimal body.length))

def Faithful (rt : Runtime) (hash : String) (response : Sent) : Prop :=
  ∃ payload r, _cacheAndReturn rt response hash = some (payload, some response) ∧
    _resolveConflict rt payload hash = .replayed r ∧ ReplayOf response r ∧ Measured response.headers response.body

/-- What the first caller gets of a response, and what every later one gets. -/
structure Delivery (rt : Runtime) (hash : String) (response delivered : Sent) (payload : Bytes) : Prop where
  statusCode : delivered.statusCode = response.statusCode
  headers : delivered.headers = ofPairs response.headers ++
    defaults response.statusCode delivered.body (ofPairs response.headers)
  replay : ∃ r, _resolveConflict rt payload hash = .replayed r ∧ ReplayOf delivered r ∧
    (Measured response.headers delivered.body →
      Measured delivered.headers delivered.body ∧ Measured r.headers r.body)

/-- The bytes `JSONResponse` sends of a JSON value. -/
def Rendered (rt : Runtime) (body : Bytes) : Prop :=
  ∃ v, Everywhere LoadedNode v ∧ render rt.floats v = some body

theorem defaults_marked (statusCode : ℕ) (body : Bytes) (raw : List (Bytes × Bytes)) :
    defaults statusCode body (raw ++ [marker]) = defaults statusCode body raw := by
  have hmem : ∀ k : Bytes, k ≠ marker.1 → (k ∈ (raw ++ [marker]).map Prod.fst ↔ k ∈ raw.map Prod.fst) := by
    intro k hk
    rw [List.map_append, List.mem_append, List.map_singleton, List.mem_singleton, or_iff_left hk]
  unfold defaults
  simp only [hmem contentLength (by decide), hmem contentType (by decide)]

theorem measured_defaults (statusCode : ℕ) (body : Bytes) (raw : List (Bytes × Bytes)) :
    Measured (defaults statusCode body raw) body := by
  intro m hm hk
  rw [defaults, List.mem_append] at hm
  rcases hm with hm | hm
  · split at hm
    · cases hm
    · rw [List.mem_singleton.1 hm]
  · split at hm
    · cases hm
    · rw [List.mem_singleton.1 hm] at hk
      exact absurd hk (by decide)

theorem Measured.replay (h : Measured delivered.headers delivered.body) (hr : ReplayOf delivered r) :
    Measured r.headers r.body := by
  intro m hm hk
  rw [hr.body]
  rcases List.mem_cons.1 (hr.headers.mem_iff.1 hm) with rfl | hm
  · exact absurd hk (by decide)
  · exact h m hm hk

theorem loads_payload (hs : isSuccess response.statusCode = true)
    (h : _cacheAndReturn rt response hash = some (payload, some delivered)) :
    ∃ stored, loadsBytes rt payload = .ok (.obj stored) ∧ get "body_hash" stored = some (.str (codes hash)) := by
  obtain ⟨v, hv, h⟩ := Option.bind_eq_some_iff.1 h
  obtain ⟨stored, hstored, h⟩ := Option.bind_eq_some_iff.1 h
  obtain ⟨rfl, hsent⟩ := Prod.mk.inj (Option.some.inj h)
  have hreadable := readable_completedPayload hs (readable_of_render (loaded_bodyObj hv) (rt.body_eq hsent))
    (storable_serialisable response.headers) hash
  exact ⟨_, (loadsBytes_encode hreadable hstored).2, rfl⟩

theorem delivery (hs : isSuccess response.statusCode = true) (hl : LowerCase response.headers)
    (h : _cacheAndReturn rt response hash = some (payload, some delivered)) :
    Delivery rt hash response delivered payload := by
  obtain ⟨v, hv, h⟩ := Option.bind_eq_some_iff.1 h
  obtain ⟨stored, hstored, h⟩ := Option.bind_eq_some_iff.1 h
  obtain ⟨rfl, hsent⟩ := Prod.mk.inj (Option.some.inj h)
  have hstatus := rt.statusCode_eq hsent
  have hbody := rt.body_eq hsent
  obtain ⟨raw, hraw, hheaders⟩ := rt.headers_eq hsent
  obtain rfl := Option.some.inj (hraw.symm.trans (rawHeaders_serialisable hl))
  -- The replay renders the value that is read again, with the same headers and the marker.
  have hresponds : (rt.jsonResponse response.statusCode v
      (set REPLAY_HEADER (codes "true") (_serialisableHeaders response.headers))).isSome :=
    rt.responds hbody (rawHeaders_marked hl)
  obtain ⟨r, hr⟩ := Option.isSome_iff_exists.1 hresponds
  have hreadable := readable_completedPayload hs (readable_of_render (loaded_bodyObj hv) hbody)
    (storable_serialisable response.headers) hash
  have hloads := (loadsBytes_encode hreadable hstored).2
  have hresolved := (resolveConflict_same hloads rfl rfl).2 r rfl (replay_completed hr rfl)
  obtain ⟨raw, hraw', hheaders'⟩ := rt.headers_eq hr
  obtain rfl := Option.some.inj (hraw'.symm.trans (rawHeaders_marked hl))
  have hsame : r.body = delivered.body := Option.some.inj ((rt.body_eq hr).symm.trans hbody)
  have hreplay : ReplayOf delivered r := by
    refine ⟨(rt.statusCode_eq hr).trans hstatus.symm, hsame, ?_⟩
    rw [hheaders', hheaders, defaults_marked, hsame, List.append_assoc]
    exact List.perm_middle
  refine ⟨hstatus, hheaders, r, hresolved, hreplay, fun hmeasured ↦ ?_⟩
  have hdelivered : Measured delivered.headers delivered.body := by
    intro m hm hk
    rw [hheaders, List.mem_append] at hm
    rcases hm with hm | hm
    · exact hmeasured m (mem_of_mem_ofPairs hm) hk
    · exact measured_defaults _ _ _ m hm hk
  exact ⟨hdelivered, hdelivered.replay hreplay⟩

theorem delivers_rendered (hs : isSuccess response.statusCode = true) (hl : LowerCase response.headers)
    (h : Rendered rt response.body) : ∃ payload delivered,
      _cacheAndReturn rt response hash = some (payload, some delivered) ∧ delivered.body = response.body := by
  obtain ⟨v, hv, hrender⟩ := h
  have hbody := bodyObj_of_render hv hrender
  have hreadable := readable_completedPayload hs (readable_of_render hv hrender)
    (storable_serialisable response.headers) hash
  have hresponds : (rt.jsonResponse response.statusCode v (_serialisableHeaders response.headers)).isSome :=
    rt.responds hrender (rawHeaders_serialisable hl)
  obtain ⟨delivered, hsent⟩ := Option.isSome_iff_exists.1 hresponds
  have hsame : delivered.body = response.body := Option.some.inj ((rt.body_eq hsent).symm.trans hrender)
  obtain ⟨payload, hstored⟩ : ∃ payload, dumps rt (completedPayload rt hash response.statusCode v
      (_serialisableHeaders response.headers)) = some payload := ⟨_, encode_print hreadable.scalar ⟨true, true⟩⟩
  refine ⟨payload, delivered, ?_, hsame⟩
  unfold _cacheAndReturn
  rw [hbody, Option.bind_eq_bind, Option.bind_some, hstored, Option.bind_eq_bind, Option.bind_some, hsent]
  rfl

def noFloats : Floats where
  F := Empty
  repr x := x.elim
  ofText _ := .nan
  repr_literal x := x.elim
  ofText_repr x := x.elim

def jsonResponse (fl : Floats) (statusCode : ℕ) (content : Value fl.F) (headers : List (Text × Text)) :
    Option Sent := do
  let body ← render fl content
  let raw ← headers.mapM rawHeader
  pure ⟨statusCode, raw ++ defaults statusCode body raw, body⟩

theorem jsonResponse_spec {statusCode : ℕ} {content : Value fl.F} {headers : List (Text × Text)}
    (h : jsonResponse fl statusCode content headers = some r) : r.statusCode = statusCode ∧
      render fl content = some r.body ∧
      ∃ raw, headers.mapM rawHeader = some raw ∧ r.headers = raw ++ defaults statusCode r.body raw := by
  obtain ⟨body, hbody, h⟩ := Option.bind_eq_some_iff.1 h
  obtain ⟨raw, hraw, h⟩ := Option.bind_eq_some_iff.1 h
  obtain rfl := Option.some.inj h
  exact ⟨rfl, hbody, raw, hraw, rfl⟩

/-- Nothing is read in another encoding than UTF-8. -/
def utf8Runtime : Runtime where
  floats := noFloats
  decodeAs _ _ := none
  decodeReplace _ := []
  jsonResponse := jsonResponse noFloats
  statusCode_eq h := (jsonResponse_spec h).1
  body_eq h := (jsonResponse_spec h).2.1
  headers_eq h := (jsonResponse_spec h).2.2
  responds hbody hraw := by
    rw [jsonResponse, hbody, Option.bind_eq_bind, Option.bind_some, hraw]
    rfl

/-- `{"a":1}` with its length and its type. -/
def created : Sent :=
  ⟨201, [(contentLength, decimal 7), (contentType, latin1 "application/json")], latin1 "\x7b\"a\":1\x7d"⟩

theorem rendered_created : Rendered utf8Runtime created.body := by
  refine ⟨.obj [(codes "a", .int 1)], ?_, by decide⟩
  refine everywhere_obj (List.nodup_singleton _) fun m hm ↦ ?_
  rw [List.mem_singleton.1 hm]
  exact everywhere_leaf trivial (show (digits 1).length ≤ maxDigits by decide)

/-- What the middleware hands on is the handler's response with each header once and `JSONResponse`'s
own headers where there are none; later callers get the same with the marker. A body as `JSONResponse`
writes it is handed on byte for byte. -/
theorem replay_fidelity (rt : Runtime) (hash : String) (response : Sent)
    (hs : isSuccess response.statusCode = true) (hl : LowerCase response.headers) :
    (∀ payload delivered, _cacheAndReturn rt response hash = some (payload, some delivered) →
      Delivery rt hash response delivered payload) ∧
    (Rendered rt response.body → ∃ payload delivered,
      _cacheAndReturn rt response hash = some (payload, some delivered) ∧ delivered.body = response.body) :=
  ⟨fun _ _ h ↦ delivery hs hl h, delivers_rendered hs hl⟩

theorem replay_fidelity_created :
    (∀ payload delivered, _cacheAndReturn utf8Runtime created "hash" = some (payload, some delivered) →
      Delivery utf8Runtime "hash" created delivered payload) ∧
    ∃ payload delivered, _cacheAndReturn utf8Runtime created "hash" = some (payload, some delivered) ∧
      delivered.body = created.body :=
  ⟨(replay_fidelity utf8Runtime "hash" created (by decide) (by decide)).1,
    (replay_fidelity utf8Runtime "hash" created (by decide) (by decide)).2 rendered_created⟩

/-- No header twice, none missing that `JSONResponse` adds, and a body as it writes it. -/
structure Plain (rt : Runtime) (response : Sent) : Prop where
  rendered : Rendered rt response.body
  nodup : (response.headers.map Prod.fst).Nodup
  typed : contentType ∈ response.headers.map Prod.fst
  sized : contentLength ∈ response.headers.map Prod.fst ∨ response.statusCode = 204
  measured : Measured response.headers response.body

theorem defaults_eq_nil {raw : List (Bytes × Bytes)} {statusCode : ℕ} (hs : isSuccess statusCode = true) :
    defaults statusCode bs raw = [] ↔ contentType ∈ raw.map Prod.fst ∧
      (contentLength ∈ raw.map Prod.fst ∨ statusCode = 204) := by
  have hrange := of_decide_eq_true hs
  unfold defaults
  rw [List.append_eq_nil_iff, and_comm]
  refine and_congr ?_ ?_
  · split
    · next h => exact iff_of_true rfl h
    · next h => exact iff_of_false (List.cons_ne_nil _ _) h
  · split
    · next h => exact iff_of_true rfl (h.imp_right (by omega))
    · next h => exact iff_of_false (List.cons_ne_nil _ _) fun hor ↦ h (hor.imp_right (by omega))

theorem not_mem_of_mem_defaults {raw : List (Bytes × Bytes)} {statusCode : ℕ} {m : Bytes × Bytes}
    (h : m ∈ defaults statusCode bs raw) : m.1 ∉ raw.map Prod.fst := by
  rw [defaults, List.mem_append] at h
  rcases h with h | h
  · split at h
    · cases h
    · next hnone =>
      rw [List.mem_singleton.1 h]
      exact fun hk ↦ hnone (.inl hk)
  · split at h
    · cases h
    · next hnone =>
      rw [List.mem_singleton.1 h]
      exact hnone

theorem Plain.faithful (hp : Plain rt response) (hs : isSuccess response.statusCode = true)
    (hl : LowerCase response.headers) (hash : String) : Faithful rt hash response := by
  obtain ⟨payload, delivered, h, hbody⟩ : ∃ payload delivered,
      _cacheAndReturn rt response hash = some (payload, some delivered) ∧ delivered.body = response.body :=
    delivers_rendered hs hl hp.rendered
  obtain ⟨hstatus, hheaders, r, hr, hreplay, -⟩ := delivery hs hl h
  rw [ofPairs_eq_self hp.nodup, (defaults_eq_nil hs).2 ⟨hp.typed, hp.sized⟩, List.append_nil] at hheaders
  have hsame : delivered = response := by
    cases delivered
    cases response
    obtain rfl : _ = _ := hstatus
    obtain rfl : _ = _ := hheaders
    obtain rfl : _ = _ := hbody
    rfl
  subst hsame
  exact ⟨payload, r, h, hr, hreplay, hp.measured⟩

/-- The handler's response is what everybody gets if it is a plain one, and only then. -/
theorem faithful_iff_plain (hs : isSuccess response.statusCode = true) (hl : LowerCase response.headers) :
    Faithful rt hash response ↔ Plain rt response := by
  constructor
  · rintro ⟨payload, r, h, -, -, hmeasured⟩
    have hheaders := (delivery hs hl h).headers
    have hnone : defaults response.statusCode response.body (ofPairs response.headers) = [] := by
      rw [List.eq_nil_iff_forall_not_mem]
      intro m hm
      have hk : m.1 ∈ response.headers.map Prod.fst := by
        rw [hheaders]
        exact List.mem_map_of_mem (List.mem_append_right _ hm)
      exact not_mem_of_mem_defaults hm (mem_keys_ofPairs hk)
    rw [hnone, List.append_nil] at hheaders
    obtain ⟨htyped, hsized⟩ := (defaults_eq_nil hs).1 hnone
    obtain ⟨v, hv, h⟩ := Option.bind_eq_some_iff.1 h
    obtain ⟨stored, -, h⟩ := Option.bind_eq_some_iff.1 h
    obtain ⟨-, hsent⟩ := Prod.mk.inj (Option.some.inj h)
    refine ⟨⟨v, loaded_bodyObj hv, rt.body_eq hsent⟩, ?_, ?_, ?_, hmeasured⟩
    · rw [hheaders]
      exact nodup_ofPairs _
    · rwa [hheaders]
    · rwa [hheaders]
  · exact fun hp ↦ hp.faithful hs hl hash

theorem faithful_created : Faithful utf8Runtime "hash" created :=
  (faithful_iff_plain (by decide) (by decide)).2 ⟨rendered_created, by decide, by decide, by decide, by decide⟩

end AdminPlatform.Idempotency.ReplayFidelity
