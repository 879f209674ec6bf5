import AdminPlatform.Core.IntegrityErrors
import AdminPlatform.Foundation.Crontab
import AdminPlatform.Idempotency.ReplayFidelity

namespace AdminPlatform.Core.ProblemDetails

open Foundation Foundation.CodePoints Foundation.Json Foundation.JsonNumbers Foundation.JsonRoundTrip
open Foundation.JsonLoads Foundation.JsonText Idempotency.Responses Idempotency.StoredPayload
open Idempotency.ReplayFidelity (noFloats utf8Runtime)
open IntegrityErrors (Arg Codes DriverError _dbapiErrorCode)
open Model.Service (AppError)

/-- `request.state` -/
structure RequestState where
  requestId : Option Text
  traceId : Option Text

structure Server where
  debug : Bool
  codes : Codes
  printable : Char → Bool

/-- What a handler answers. The errors are `none` where they hold something that `json` cannot write. -/
structure Problem (F : Type) where
  code : Text
  title : Text
  statusCode : ℕ
  detail : Option Text := none
  errors : Option (Value F) := some .null
  headers : List (Text × Text) := []

/-- The class of an exception, and its arguments as texts. -/
structure Fault where
  name : Text
  args : List Text

inductive Raised (F : Type)
  | appError (code title : Text) (detail : Option Text) (statusCode : ℕ) (errors : Value F)
      (headers : List (Text × Text))
  | httpException (statusCode : ℕ) (detail : Text) (headers : List (Text × Text))
  | validation (errors : List (List (Text × Option (Value F))))
  | integrity (orig : Option DriverError)
  | data (orig : Option DriverError)
  | operational (orig : Option DriverError) (fault : Fault)
  | other (fault : Fault)

inductive AuthCode
  | tokenInvalid
  | tokenExpired
  deriving DecidableEq, Repr

/-- An error of a handler, or an answer of a middleware. -/
inductive Refusal (F : Type)
  | raised (exc : Raised F)
  | auth (code : AuthCode) (detail : Option Text)
  | idempotency (e : AppError)

section

variable {F : Type}

def optional : Option Text → Value F
  | none => .null
  | some s => .str s

def payloadMembers (req : RequestState) (p : Problem F) (errors : Value F) : List (Text × Value F) :=
  [(codes "type", .str p.code), (codes "title", .str p.title), (codes "status", .int p.statusCode),
    (codes "detail", optional p.detail), (codes "instance", .null), (codes "request_id", optional req.requestId),
    (codes "trace_id", optional req.traceId), (codes "errors", errors)]

def _payload (req : RequestState) (p : Problem F) (errors : Value F) : Value F :=
  .obj (payloadMembers req p errors)

def _HTTP_STATUS_CODES : List (ℕ × String) :=
  [(400, "framework.BAD_REQUEST"), (401, "framework.UNAUTHORIZED"), (403, "framework.FORBIDDEN"),
    (404, "framework.NOT_FOUND"), (405, "framework.METHOD_NOT_ALLOWED"), (406, "framework.NOT_ACCEPTABLE"),
    (409, "framework.CONFLICT"), (410, "framework.GONE"), (413, "framework.PAYLOAD_TOO_LARGE"),
    (415, "framework.UNSUPPORTED_MEDIA_TYPE"), (422, "framework.UNPROCESSABLE_CONTENT"),
    (429, "framework.TOO_MANY_REQUESTS"), (500, "framework.INTERNAL_ERROR"), (502, "framework.BAD_GATEWAY"),
    (503, "framework.SERVICE_UNAVAILABLE"), (504, "framework.GATEWAY_TIMEOUT")]

def _httpCode (statusCode : ℕ) : Text :=
  match _HTTP_STATUS_CODES.lookup statusCode with
  | some code => codes code
  | none => codes "framework.HTTP_" ++ digits statusCode

def sanitised (err : List (Text × Option (Value F))) : Option (List (Text × Value F)) :=
  (err.filter fun m ↦ m.1 ≠ codes "input").mapM fun m ↦ m.2.map (m.1, ·)

def sanitisedErrors (errors : List (List (Text × Option (Value F)))) : Option (Value F) :=
  (errors.mapM sanitised).map fun errs ↦ .arr (errs.map .obj)

def _appError (code title : Text) (detail : Option Text) (statusCode : ℕ) (errors : Value F)
    (headers : List (Text × Text)) : Problem F :=
  ⟨code, title, statusCode, detail, some errors, headers⟩

def _httpError (statusCode : ℕ) (detail : Text) (headers : List (Text × Text)) : Problem F where
  code := _httpCode statusCode
  title := detail
  statusCode
  headers

def _validationError (errors : List (List (Text × Option (Value F)))) : Problem F where
  code := codes "framework.VALIDATION_FAILED"
  title := codes "Request validation failed"
  statusCode := 422
  errors := sanitisedErrors errors

def _integrityError (server : Server) (orig : Option DriverError) : Problem F :=
  let p := IntegrityErrors._integrityError server.printable server.codes orig
  { code := codes p.type, title := codes p.title, statusCode := p.status, detail := p.detail.map codes }

def debugErrors (fault : Fault) : Value F :=
  .obj [(codes "type", .str fault.name), (codes "args", .arr (fault.args.map .str))]

def _internalErrorResponse (server : Server) (fault : Fault) : Problem F where
  code := codes "framework.INTERNAL_ERROR"
  title := codes "Internal server error"
  statusCode := 500
  errors := some (if server.debug then debugErrors fault else .null)

def _constraintViolationResponse : Problem F where
  code := codes "framework.CONSTRAINT_VIOLATION"
  title := codes "Data constraint violation"
  statusCode := 422

def _MYSQL_CHECK_VIOLATION : ℕ := 3819

def _MYSQL_SIGNAL_EXCEPTION : ℕ := 1644

def _MYSQL_SELF_PARENT_SIGNALS : List IntegrityErrors.Text :=
  ["ck_depts_not_self_parent".toList, "ck_menus_not_self_parent".toList]

def asText : Arg → Option IntegrityErrors.Text
  | .int _ => none
  | .str s => some s

def _dbapiSignalMessage (orig : DriverError) : Option IntegrityErrors.Text := orig.args.tail.findSome? asText

def isViolation (orig : DriverError) : Bool :=
  decide (_dbapiErrorCode orig = some _MYSQL_CHECK_VIOLATION) ||
    decide (_dbapiErrorCode orig = some _MYSQL_SIGNAL_EXCEPTION) &&
      (_dbapiSignalMessage orig).any fun m ↦ _MYSQL_SELF_PARENT_SIGNALS.contains m

def _operationalError (server : Server) (orig : Option DriverError) (fault : Fault) : Problem F :=
  if orig.any isViolation then _constraintViolationResponse else _internalErrorResponse server fault

def handled (server : Server) : Raised F → Problem F
  | .appError code title detail statusCode errors headers => _appError code title detail statusCode errors headers
  | .httpException statusCode detail headers => _httpError statusCode detail headers
  | .validation errors => _validationError errors
  | .integrity orig => _integrityError server orig
  | .data _ => _constraintViolationResponse
  | .operational orig fault => _operationalError server orig fault
  | .other fault => _internalErrorResponse server fault

def AuthCode.type : AuthCode → String
  | .tokenInvalid => "auth.TOKEN_INVALID"
  | .tokenExpired => "auth.TOKEN_EXPIRED"

def _AUTH_PROBLEM_TITLES : AuthCode → String
  | .tokenInvalid => "Token is invalid or malformed"
  | .tokenExpired => "Token has expired"

def _problemAuth (code : AuthCode) (detail : Option Text) : Problem F where
  code := codes code.type
  title := codes (_AUTH_PROBLEM_TITLES code)
  statusCode := 401
  detail
  headers := [(codes "WWW-Authenticate", codes "Bearer")]

def _problemResponse (e : AppError) : Problem F where
  code := codes e.code
  title := codes e.title
  statusCode := e.statusCode
  detail := e.detail.map codes

def problem (server : Server) : Refusal F → Problem F
  | .raised exc => handled server exc
  | .auth code detail => _problemAuth code detail
  | .idempotency e => _problemResponse e

end

section

variable (rt : Runtime)

def send (req : RequestState) (p : Problem rt.floats.F) : Option Sent :=
  p.errors.bind fun errors ↦ rt.jsonResponse p.statusCode (_payload req p errors) p.headers

/-- The answer. What `JSONResponse` raises in a handler or in a middleware, the outermost handler answers. -/
def answer (server : Server) (req : RequestState) (failed : Fault) : Refusal rt.floats.F → Option Sent
  | .raised (.other fault) => send rt req (_internalErrorResponse server fault)
  | refusal => (send rt req (problem server refusal)).or (send rt req (_internalErrorResponse server failed))

end

structure Response where
  status : ℕ
  statusText : Text
  body : Bytes

structure ApiError (F : Type) where
  code : Text
  status : Value F
  message : Text
  detail : Option Text

/-- `await res.json()`, which knows neither `NaN` nor `Infinity` -/
def Response.json (fl : Floats) (res : Response) : Option (Value fl.F) :=
  (decode res.body).bind fun s ↦ (loads fl s).toOption.filter allFinite

section

variable {F : Type}

def asString : Option (Value F) → Option Text
  | some (.str s) => some s
  | _ => none

def asNumber : Option (Value F) → Option (Value F)
  | some (.int n) => some (.int n)
  | some (.float x) => some (.float x)
  | _ => none

def httpFallback (status : ℕ) : Text := codes "HTTP_" ++ digits status

def normalizeProblemBody (body : Option (Value F)) (fallbackStatus : ℕ) (fallbackMessage : Text) : ApiError F :=
  match body with
  | some (.obj pd) =>
    { code := (asString (get "type" pd)).getD (httpFallback fallbackStatus)
      status := (asNumber (get "status" pd)).getD (.int fallbackStatus)
      message := (asString (get "title" pd)).getD fallbackMessage
      detail := asString (get "detail" pd) }
  | _ => ⟨httpFallback fallbackStatus, .int fallbackStatus, fallbackMessage, none⟩

def Response.message (res : Response) : Text := if res.statusText = [] then codes "请求失败" else res.statusText

def normalizeResponseError (fl : Floats) (res : Response) : ApiError fl.F :=
  normalizeProblemBody (res.json fl) res.status res.message

/-- `error` is the body as `openapi-fetch` parses it. -/
def unwrap {α : Type} (data : α) (error : Option (Value F)) (res : Response) : Except (ApiError F) α :=
  match error with
  | some e => .error (normalizeProblemBody (some e) res.status res.message)
  | none => .ok data

end

variable {F : Type} {rt : Runtime} {fl : Floats} {server : Server} {req : RequestState} {e : Value F}

def Scalar (s : Text) : Prop := ∀ c ∈ s, isScalar c = true

def RequestState.ids (req : RequestState) : List Text := req.requestId.toList ++ req.traceId.toList

def Problem.texts (req : RequestState) (p : Problem F) : List Text :=
  p.code :: p.title :: (p.detail.toList ++ req.ids)

/-- `JSONResponse` can be built of it. -/
structure Writable (req : RequestState) (p : Problem F) : Prop where
  errors : ∃ e, p.errors = some e ∧ allFinite e = true ∧ Everywhere ScalarNode e
  texts : ∀ s ∈ p.texts req, Scalar s
  headers : (p.headers.mapM rawHeader).isSome

/-- Its errors are a value of Python: no key twice, and integers that can be written. -/
structure Problem.Loaded (p : Problem F) : Prop where
  statusCode : p.statusCode < 1000
  errors : ∀ e, p.errors = some e → Everywhere LoadedNode e

def Refusal.Loaded : Refusal F → Prop
  | .raised (.appError _ _ _ statusCode errors _) => statusCode < 1000 ∧ Everywhere LoadedNode errors
  | .raised (.httpException statusCode _ _) => statusCode < 1000
  | .raised (.validation errors) => ∀ err ∈ errors, (err.map Prod.fst).Nodup ∧
      ∀ m ∈ err, ∀ v, m.2 = some v → Everywhere LoadedNode v
  | .idempotency e => e.statusCode < 1000
  | _ => True

def keys : List Text :=
  ["type", "title", "status", "detail", "instance", "request_id", "trace_id", "errors"].map codes

theorem everywhere_optional {P : Value F → Prop} {o : Option Text} (hnull : P .null)
    (hstr : ∀ s ∈ o.toList, P (.str s)) : Everywhere P (optional o) := by
  cases o with
  | none => exact everywhere_leaf trivial hnull
  | some s => exact everywhere_leaf trivial (hstr s List.mem_cons_self)

theorem everywhere_payload {P : Value F → Prop} {p : Problem F} (hobj : P (_payload req p e)) (hnull : P .null)
    (hint : P (.int p.statusCode)) (hstr : ∀ s ∈ p.texts req, P (.str s)) (he : Everywhere P e) :
    Everywhere P (_payload req p e) := by
  have htexts : ∀ s ∈ p.detail.toList ++ req.ids, P (.str s) :=
    fun s hs ↦ hstr s (List.mem_cons_of_mem _ (List.mem_cons_of_mem _ hs))
  refine everywhere_obj hobj fun m hm ↦ ?_
  simp only [payloadMembers, List.mem_cons, List.not_mem_nil, or_false] at hm
  rcases hm with rfl | rfl | rfl | rfl | rfl | rfl | rfl | rfl
  · exact everywhere_leaf trivial (hstr _ List.mem_cons_self)
  · exact everywhere_leaf trivial (hstr _ (List.mem_cons_of_mem _ List.mem_cons_self))
  · exact everywhere_leaf trivial hint
  · exact everywhere_optional hnull fun s hs ↦ htexts s (List.mem_append_left _ hs)
  · exact everywhere_leaf trivial hnull
  · exact everywhere_optional hnull fun s hs ↦
      htexts s (List.mem_append_right _ (List.mem_append_left _ hs))
  · exact everywhere_optional hnull fun s hs ↦
      htexts s (List.mem_append_right _ (List.mem_append_right _ hs))
  · exact he

/-- A text of the payload stands in it. -/
theorem inside_payload {p : Problem F} {s : Text} (h : s ∈ p.texts req) : Inside (.str s) (_payload req p e) := by
  have hinside : ∀ {k : Text} {v : Value F}, (k, v) ∈ payloadMembers req p e → v = .str s →
      Inside (.str s) (_payload req p e) := by
    rintro k v hm rfl
    exact .member hm .self
  have hoptional : ∀ {o : Option Text}, s ∈ o.toList → (optional o : Value F) = .str s := by
    intro o ho
    rw [Option.mem_toList.1 ho]
    rfl
  rcases List.mem_cons.1 h with rfl | h
  · exact hinside (k := codes "type") (by simp [payloadMembers]) rfl
  rcases List.mem_cons.1 h with rfl | h
  · exact hinside (k := codes "title") (by simp [payloadMembers]) rfl
  rcases List.mem_append.1 h with h | h
  · exact hinside (k := codes "detail") (by simp [payloadMembers]) (hoptional h)
  rcases List.mem_append.1 h with h | h
  · exact hinside (k := codes "request_id") (by simp [payloadMembers]) (hoptional h)
  · exact hinside (k := codes "trace_id") (by simp [payloadMembers]) (hoptional h)

theorem allFinite_optional (o : Option Text) : allFinite (optional o : Value F) = true := by
  cases o <;> rfl

theorem allFinite_payload (p : Problem F) : allFinite (_payload req p e) = allFinite e := by
  simp only [_payload, payloadMembers, allFinite, membersFinite, allFinite_optional, Bool.true_and, Bool.and_true]

theorem scalar_payload {p : Problem F} (h : ∀ s ∈ p.texts req, Scalar s) (he : Everywhere ScalarNode e) :
    Everywhere ScalarNode (_payload req p e) := by
  refine everywhere_payload ?_ trivial trivial h he
  have hkeys : ∀ k ∈ keys, ∀ c ∈ k, isScalar c = true := by decide
  exact fun m hm ↦ hkeys m.1 (List.mem_map_of_mem (f := Prod.fst) hm)

theorem send_isSome_iff {p : Problem rt.floats.F} : (send rt req p).isSome ↔ Writable req p := by
  constructor
  · intro h
    obtain ⟨r, hr⟩ := Option.isSome_iff_exists.1 h
    obtain ⟨e, he, hr⟩ := Option.bind_eq_some_iff.1 hr
    obtain ⟨hfinite, hencode⟩ := encode_of_render (rt.body_eq hr)
    have hscalar := scalar_of_encode rfl hencode
    obtain ⟨raw, hraw, -⟩ := rt.headers_eq hr
    refine ⟨⟨e, he, (allFinite_payload p).symm.trans hfinite, ?_⟩, ?_, ?_⟩
    · exact hscalar.member (m := (codes "errors", e)) (by simp [payloadMembers])
    · exact fun s hs ↦ hscalar _ (inside_payload hs)
    · rw [hraw]
      rfl
  · rintro ⟨⟨e, he, hfinite, hscalar⟩, htexts, hheaders⟩
    obtain ⟨raw, hraw⟩ := Option.isSome_iff_exists.1 hheaders
    have hpayload := encode_print (scalar_payload htexts hscalar) ⟨false, false⟩
    have hrender : render rt.floats (_payload req p e) = some _ :=
      (if_pos ((allFinite_payload p).trans hfinite)).trans hpayload
    rw [send, he]
    exact rt.responds hrender hraw

def received (r : Sent) (statusText : Text) : Response := ⟨r.statusCode, statusText, r.body⟩

def told (p : Problem F) : ApiError F := ⟨p.code, .int p.statusCode, p.title, p.detail⟩

theorem loaded_status {n : ℕ} (h : n < 1000) : LoadedNode (.int n : Value F) := by
  have hlt : n < 10 ^ (2 + 1) := by omega
  have hlen := length_digits hlt
  rw [LoadedNode, Int.natAbs_natCast, maxDigits]
  omega

theorem loaded_payload {p : Problem F} (h : p.Loaded) (he : p.errors = some e) :
    Everywhere LoadedNode (_payload req p e) := by
  refine everywhere_payload ?_ trivial (loaded_status h.statusCode) (fun _ _ ↦ trivial) (h.errors e he)
  show keys.Nodup
  decide

theorem json_of_render {v : Value fl.F} {res : Response} (hv : Everywhere LoadedNode v)
    (h : render fl v = some res.body) : res.json fl = some v := by
  obtain ⟨hfinite, hencode⟩ := encode_of_render h
  rw [Response.json, decode_of_encode hencode, Option.bind_some, loads_print (readable_of_render hv h)]
  exact if_pos hfinite

theorem normalize_payload (p : Problem F) (fallbackStatus : ℕ) (fallbackMessage : Text) :
    normalizeProblemBody (some (_payload req p e)) fallbackStatus fallbackMessage = told p := by
  have hdetail : asString (some (optional p.detail : Value F)) = p.detail := by
    cases p.detail <;> rfl
  exact congrArg (ApiError.mk p.code (.int p.statusCode) p.title) hdetail

theorem loaded_sanitised {err : List (Text × Option (Value F))} {ms : List (Text × Value F)}
    (hkeys : (err.map Prod.fst).Nodup) (herr : ∀ m ∈ err, ∀ v, m.2 = some v → Everywhere LoadedNode v)
    (h : sanitised err = some ms) : Everywhere LoadedNode (.obj ms) := by
  have hmap := Crontab.mapM_eq_some.1 h
  have hmember : ∀ {n : Text × Option (Value F)} {m : Text × Value F}, n.2.map (n.1, ·) = some m →
      n.1 = m.1 ∧ n.2 = some m.2 := by
    intro n m hn
    obtain ⟨v, hv, rfl⟩ := Option.map_eq_some_iff.1 hn
    exact ⟨rfl, hv⟩
  have hfst : (err.filter fun m ↦ m.1 ≠ codes "input").map Prod.fst = ms.map Prod.fst := by
    have hread := congrArg (List.map fun o : Option (Text × Value F) ↦ o.elim [] Prod.fst) hmap
    rw [List.map_map, List.map_map] at hread
    refine Eq.trans (List.map_congr_left fun n hn ↦ ?_) hread
    obtain ⟨m, -, hm⟩ := List.mem_map.1 (hmap ▸ List.mem_map_of_mem hn)
    rw [Function.comp_apply, ← hm]
    exact (hmember hm.symm).1
  refine everywhere_obj ?_ fun m hm ↦ ?_
  · show (ms.map Prod.fst).Nodup
    rw [← hfst]
    exact hkeys.sublist (List.filter_sublist.map Prod.fst)
  · obtain ⟨n, hn, hnm⟩ := List.mem_map.1 (hmap ▸ List.mem_map_of_mem (f := some) hm)
    exact herr n (List.mem_of_mem_filter hn) m.2 (hmember hnm).2

theorem loaded_sanitisedErrors {errors : List (List (Text × Option (Value F)))}
    (h : (Refusal.raised (.validation errors)).Loaded) (he : sanitisedErrors errors = some e) :
    Everywhere LoadedNode e := by
  obtain ⟨errs, herrs, rfl⟩ := Option.map_eq_some_iff.1 he
  have hmap := Crontab.mapM_eq_some.1 herrs
  refine everywhere_arr trivial fun v hv ↦ ?_
  obtain ⟨ms, hms, rfl⟩ := List.mem_map.1 hv
  obtain ⟨err, herr, hsome⟩ := List.mem_map.1 (hmap ▸ List.mem_map_of_mem (f := some) hms)
  exact loaded_sanitised (h err herr).1 (h err herr).2 hsome

theorem loaded_null {p : Problem F} (hstatus : p.statusCode < 1000) (h : p.errors = some .null) : p.Loaded :=
  ⟨hstatus, fun _ he ↦ Option.some.inj (h.symm.trans he) ▸ everywhere_leaf trivial trivial⟩

theorem loaded_internal (fault : Fault) : (_internalErrorResponse server fault : Problem F).Loaded := by
  refine ⟨show 500 < 1000 by omega, fun e he ↦ ?_⟩
  obtain rfl := Option.some.inj he
  split
  · refine everywhere_obj (show ([codes "type", codes "args"] : List Text).Nodup by decide)
      (List.forall_mem_cons.2 ⟨everywhere_leaf trivial trivial, List.forall_mem_singleton.2 ?_⟩)
    refine everywhere_arr trivial fun v hv ↦ ?_
    obtain ⟨s, -, rfl⟩ := List.mem_map.1 hv
    exact everywhere_leaf trivial trivial
  · exact everywhere_leaf trivial trivial

theorem status_integrity (orig : Option DriverError) :
    (_integrityError server orig : Problem F).statusCode = 409 := by
  unfold _integrityError IntegrityErrors._integrityError
  split <;> rfl

theorem Refusal.Loaded.problem {refusal : Refusal F} (h : refusal.Loaded) : (problem server refusal).Loaded := by
  cases refusal with
  | raised exc =>
    cases exc with
    | appError code title detail statusCode errors headers =>
      exact ⟨h.1, fun e he ↦ Option.some.inj he ▸ h.2⟩
    | httpException statusCode detail headers => exact loaded_null h rfl
    | validation errors => exact ⟨show 422 < 1000 by omega, fun e he ↦ loaded_sanitisedErrors h he⟩
    | integrity orig => exact loaded_null ((status_integrity orig).trans_lt (by omega)) rfl
    | data orig => exact loaded_null (show 422 < 1000 by omega) rfl
    | operational orig fault =>
      show (_operationalError server orig fault).Loaded
      unfold _operationalError
      split
      · exact loaded_null (show 422 < 1000 by omega) rfl
      · exact loaded_internal fault
    | other fault => exact loaded_internal fault
  | auth code detail => exact loaded_null (show 401 < 1000 by omega) rfl
  | idempotency e => exact loaded_null h rfl

/-- What the client reads of a response. -/
structure Reads (rt : Runtime) (r : Sent) (p : Problem rt.floats.F) : Prop where
  statusCode : r.statusCode = p.statusCode
  binary : ∀ statusText, normalizeResponseError rt.floats (received r statusText) = told p
  typed : ∀ {α : Type} (data : α) statusText,
    unwrap data ((received r statusText).json rt.floats) (received r statusText) = .error (told p)

theorem reads_of_send {p : Problem rt.floats.F} {r : Sent} (hp : p.Loaded) (h : send rt req p = some r) :
    Reads rt r p := by
  obtain ⟨e, he, hr⟩ := Option.bind_eq_some_iff.1 h
  have hjson : ∀ statusText, (received r statusText).json rt.floats = some (_payload req p e) :=
    fun _ ↦ json_of_render (loaded_payload hp he) (rt.body_eq hr)
  refine ⟨rt.statusCode_eq hr, fun statusText ↦ ?_, fun data statusText ↦ ?_⟩
  · rw [normalizeResponseError, hjson]
    exact normalize_payload p _ _
  · rw [hjson]
    exact congrArg Except.error (normalize_payload p _ _)

theorem scalar_codes {w : String} (h : (codes w).all isScalar = true) : Scalar (codes w) := List.all_eq_true.1 h

theorem writable_internal (hdebug : server.debug = false) (hids : ∀ s ∈ req.ids, Scalar s) (fault : Fault) :
    Writable req (_internalErrorResponse server fault : Problem F) := by
  refine ⟨⟨.null, ?_, rfl, everywhere_leaf trivial trivial⟩, ?_, rfl⟩
  · show some (if server.debug then debugErrors fault else .null) = some .null
    rw [hdebug]
    rfl
  · have hcode : Scalar (codes "framework.INTERNAL_ERROR") := scalar_codes (by decide)
    have htitle : Scalar (codes "Internal server error") := scalar_codes (by decide)
    exact List.forall_mem_cons.2 ⟨hcode, List.forall_mem_cons.2 ⟨htitle, hids⟩⟩

section

variable {failed : Fault} {refusal : Refusal rt.floats.F}

/-- An exception that no other handler takes goes to the outermost one, which is not asked twice. -/
theorem answer_eq : answer rt server req failed refusal = send rt req (problem server refusal) ∨
    answer rt server req failed refusal =
      (send rt req (problem server refusal)).or (send rt req (_internalErrorResponse server failed)) := by
  unfold answer
  split
  · exact .inl rfl
  · exact .inr rfl

theorem of_answer {r : Sent} (h : answer rt server req failed refusal = some r) :
    send rt req (problem server refusal) = some r ∨
      ¬Writable req (problem server refusal) ∧ send rt req (_internalErrorResponse server failed) = some r := by
  have heq : answer rt server req failed refusal = _ ∨ answer rt server req failed refusal = _ := answer_eq
  rcases heq with he | he
  · exact .inl (he.symm.trans h)
  · rcases Option.or_eq_some_iff.1 (he.symm.trans h) with hown | ⟨hnone, hinternal⟩
    · exact .inl hown
    · refine .inr ⟨fun hwritable ↦ ?_, hinternal⟩
      have hsome := send_isSome_iff.2 hwritable
      rw [hnone] at hsome
      cases hsome

theorem answer_isSome (hdebug : server.debug = false) (hids : ∀ s ∈ req.ids, Scalar s) :
    (answer rt server req failed refusal).isSome := by
  have hinternal : ∀ fault, (send rt req (_internalErrorResponse server fault)).isSome :=
    fun fault ↦ send_isSome_iff.2 (writable_internal hdebug hids fault)
  unfold answer
  split
  · exact hinternal _
  · rw [Option.isSome_or, hinternal, Bool.or_true]

end

/-- Whatever is raised or refused, the client reads its code, status, title and detail where they can be
written, and those of an internal error where not. With debugging off there is always an answer. -/
theorem client_reads_problem (rt : Runtime) (server : Server) (req : RequestState) (failed : Fault)
    (refusal : Refusal rt.floats.F) (h : refusal.Loaded) :
    (∀ r, answer rt server req failed refusal = some r →
      (Writable req (problem server refusal) → Reads rt r (problem server refusal)) ∧
      (¬Writable req (problem server refusal) → Reads rt r (_internalErrorResponse server failed))) ∧
    (server.debug = false → (∀ s ∈ req.ids, Scalar s) → (answer rt server req failed refusal).isSome) := by
  refine ⟨fun r hr ↦ ?_, answer_isSome⟩
  rcases of_answer hr with hown | ⟨hwritable, hinternal⟩
  · have hwritable : Writable req (problem server refusal) := send_isSome_iff.1 (by rw [hown]; rfl)
    exact ⟨fun _ ↦ reads_of_send h.problem hown, fun hnot ↦ absurd hwritable hnot⟩
  · exact ⟨fun h ↦ absurd h hwritable, fun _ ↦ reads_of_send (loaded_internal failed) hinternal⟩

def production : Server := ⟨false, fun _ ↦ none, fun _ ↦ false⟩

def missing : Fault := ⟨codes "TypeError", [codes "Object of type ValueError is not JSON serializable"]⟩

def blankAtEnd : Refusal noFloats.F :=
  .raised (.validation [[(codes "type", some (.str (codes "value_error"))),
    (codes "input", some (.str (codes "correct horse "))), (codes "ctx", none)]])

def tooShort : Refusal noFloats.F :=
  .raised (.validation [[(codes "type", some (.str (codes "string_too_short"))),
    (codes "input", some (.str (codes "horse")))]])

theorem loaded_strings {err : List (Text × Option (Value F))} (hkeys : (err.map Prod.fst).Nodup)
    (h : ∀ m ∈ err, ∀ v, m.2 = some v → ∃ s, v = .str s) : (Refusal.raised (.validation [err])).Loaded := by
  refine List.forall_mem_singleton.2 ⟨hkeys, fun m hm v hv ↦ ?_⟩
  obtain ⟨s, rfl⟩ := h m hm v hv
  exact everywhere_leaf trivial trivial

theorem client_reads_problem_passwords :
    (∃ r, answer utf8Runtime production ⟨none, none⟩ missing blankAtEnd = some r ∧
      Reads utf8Runtime r (_internalErrorResponse production missing)) ∧
    ∃ r, answer utf8Runtime production ⟨none, none⟩ missing tooShort = some r ∧
      Reads utf8Runtime r (problem production tooShort) := by
  have hblank : blankAtEnd.Loaded := by
    refine loaded_strings (by decide) ?_
    simp
  have hshort : tooShort.Loaded := by
    refine loaded_strings (by decide) ?_
    simp
  refine ⟨?_, ?_⟩
  · obtain ⟨hreads, hsome⟩ :=
      client_reads_problem utf8Runtime production ⟨none, none⟩ missing blankAtEnd hblank
    obtain ⟨r, hr⟩ := Option.isSome_iff_exists.1 (hsome rfl fun _ hs ↦ absurd hs List.not_mem_nil)
    refine ⟨r, hr, (hreads r hr).2 ?_⟩
    rintro ⟨⟨e, he, -⟩, -, -⟩
    cases he
  · obtain ⟨hreads, hsome⟩ :=
      client_reads_problem utf8Runtime production ⟨none, none⟩ missing tooShort hshort
    obtain ⟨r, hr⟩ := Option.isSome_iff_exists.1 (hsome rfl fun _ hs ↦ absurd hs List.not_mem_nil)
    refine ⟨r, hr, (hreads r hr).1 ⟨⟨_, rfl, rfl, ?_⟩, ?_, rfl⟩⟩
    · refine everywhere_arr trivial (List.forall_mem_singleton.2 ?_)
      refine everywhere_obj (List.forall_mem_singleton.2 ?_) (List.forall_mem_singleton.2 ?_)
      · exact scalar_codes (by decide)
      · exact everywhere_leaf trivial (scalar_codes (by decide))
    · have hcode : Scalar (codes "framework.VALIDATION_FAILED") := scalar_codes (by decide)
      have htitle : Scalar (codes "Request validation failed") := scalar_codes (by decide)
      exact List.forall_mem_cons.2 ⟨hcode, List.forall_mem_singleton.2 htitle⟩

end AdminPlatform.Core.ProblemDetails
