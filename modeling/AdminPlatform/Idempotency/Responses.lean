import AdminPlatform.Foundation.Json
import AdminPlatform.Idempotency.Middleware

namespace AdminPlatform.Idempotency.Responses

open Foundation.CodePoints Foundation.Dicts Foundation.Json
open Model.Service (AppError)
open Middleware (inFlight keyReused)

/-- A response on the wire. -/
structure Sent where
  statusCode : ℕ
  headers : List (Bytes × Bytes)
  body : Bytes
  deriving DecidableEq

def decodeLatin1 (bs : Bytes) : Text := bs.map UInt8.toNat

def encodeLatin1 (s : Text) : Option Bytes :=
  if s.all fun c ↦ decide (c < 0x100) then some (s.map UInt8.ofNat) else none

/-- `str.lower` of a Latin-1 character -/
def lowerCode (c : ℕ) : ℕ := if 65 ≤ c ∧ c ≤ 90 ∨ 192 ≤ c ∧ c ≤ 222 ∧ c ≠ 215 then c + 32 else c

def lower (s : Text) : Text := s.map lowerCode

def latin1 (s : String) : Bytes := (codes s).map UInt8.ofNat

def contentLength : Bytes := latin1 "content-length"

def contentType : Bytes := latin1 "content-type"

def decimal (n : ℕ) : Bytes := (digits n).map UInt8.ofNat

def rawHeader (m : Text × Text) : Option (Bytes × Bytes) := do
  let k ← encodeLatin1 (lower m.1)
  let v ← encodeLatin1 m.2
  pure (k, v)

def defaults (statusCode : ℕ) (body : Bytes) (raw : List (Bytes × Bytes)) : List (Bytes × Bytes) :=
  (if contentLength ∈ raw.map Prod.fst ∨ statusCode < 200 ∨ statusCode = 204 ∨ statusCode = 304 then []
    else [(contentLength, decimal body.length)]) ++
  (if contentType ∈ raw.map Prod.fst then [] else [(contentType, latin1 "application/json")])

def isFinite : {F : Type} → Number F → Bool
  | _, .finite _ => true
  | _, _ => false

section

variable {F : Type}

mutual

/-- `allow_nan=False` passes. -/
def allFinite : Value F → Bool
  | .float x => isFinite x
  | .arr xs => itemsFinite xs
  | .obj ms => membersFinite ms
  | _ => true

def itemsFinite : List (Value F) → Bool
  | [] => true
  | x :: xs => allFinite x && itemsFinite xs

def membersFinite : List (Text × Value F) → Bool
  | [] => true
  | (_, x) :: ms => allFinite x && membersFinite ms

end

end

/-- `json.dumps(content, ensure_ascii=False, allow_nan=False, separators=(",", ":")).encode("utf-8")` -/
def render (fl : Floats) (content : Value fl.F) : Option Bytes :=
  if allFinite content then encode (print fl ⟨false, false⟩ content) else none

inductive Encoding
  | utf8
  | utf8sig
  | utf16
  | utf16be
  | utf16le
  | utf32
  | utf32be
  | utf32le
  deriving DecidableEq

/-- Python and the web framework: floats, the other encodings, `errors="replace"`, and `JSONResponse`,
which raises where its content or its headers cannot be written. -/
structure Runtime where
  floats : Floats
  decodeAs : Encoding → Bytes → Option Text
  decodeReplace : Bytes → Text
  jsonResponse : ℕ → Value floats.F → List (Text × Text) → Option Sent
  statusCode_eq : ∀ {statusCode content headers r}, jsonResponse statusCode content headers = some r →
    r.statusCode = statusCode
  body_eq : ∀ {statusCode content headers r}, jsonResponse statusCode content headers = some r →
    render floats content = some r.body
  headers_eq : ∀ {statusCode content headers r}, jsonResponse statusCode content headers = some r →
    ∃ raw, headers.mapM rawHeader = some raw ∧ r.headers = raw ++ defaults statusCode r.body raw
  responds : ∀ {statusCode content headers body raw}, render floats content = some body →
    headers.mapM rawHeader = some raw → (jsonResponse statusCode content headers).isSome

variable (rt : Runtime)

/-- `detect_encoding` -/
def detectEncoding (bs : Bytes) : Encoding :=
  if [0, 0, 0xfe, 0xff].isPrefixOf bs || [0xff, 0xfe, 0, 0].isPrefixOf bs then .utf32
  else if [0xfe, 0xff].isPrefixOf bs || [0xff, 0xfe].isPrefixOf bs then .utf16
  else if [0xef, 0xbb, 0xbf].isPrefixOf bs then .utf8sig
  else match bs with
    | a :: b :: c :: d :: _ =>
      if a = 0 then (if b = 0 then .utf32be else .utf16be)
      else if b = 0 then (if c = 0 ∧ d = 0 then .utf32le else .utf16le)
      else .utf8
    | [a, b] => if a = 0 then .utf16be else if b = 0 then .utf16le else .utf8
    | _ => .utf8

def decodeBytes (bs : Bytes) : Option Text :=
  match detectEncoding bs with
  | .utf8 => decode bs
  | e => rt.decodeAs e bs

def loadsBytes (bs : Bytes) : Except Failure (Value rt.floats.F) :=
  match decodeBytes rt bs with
  | none => .error .valueError
  | some s => loads rt.floats s

def REPLAY_HEADER : Text := codes "Idempotent-Replayed"

def _serialisableHeaders (headers : List (Bytes × Bytes)) : List (Text × Text) :=
  ofPairs (headers.map fun m ↦ (decodeLatin1 m.1, decodeLatin1 m.2))

/-- `body_obj`. Only a `JSONDecodeError` is caught. -/
def bodyObj (body : Bytes) : Option (Value rt.floats.F) :=
  if body = [] then some .null
  else match loadsBytes rt body with
    | .ok v => some v
    | .error .decodeError => some (.str (rt.decodeReplace body))
    | .error .valueError => none

/-- `json.dumps(value).encode("utf-8")` -/
def dumps (v : Value rt.floats.F) : Option Bytes := encode (print rt.floats ⟨true, true⟩ v)

def lockPayload (bodyHash : String) : Value rt.floats.F :=
  .obj [(codes "state", .str (codes "in_progress")), (codes "body_hash", .str (codes bodyHash))]

def headersValue (headers : List (Text × Text)) : Value rt.floats.F := .obj (headers.map fun m ↦ (m.1, .str m.2))

def completedPayload (bodyHash : String) (statusCode : ℕ) (body : Value rt.floats.F)
    (headers : List (Text × Text)) : Value rt.floats.F :=
  .obj [(codes "state", .str (codes "completed")), (codes "body_hash", .str (codes bodyHash)),
    (codes "status_code", .int statusCode), (codes "body", body), (codes "headers", headersValue rt headers)]

/-- What is stored, and what the first caller gets: the payload stands before the response is built,
which may raise. -/
def _cacheAndReturn (response : Sent) (bodyHash : String) : Option (Bytes × Option Sent) := do
  let body ← bodyObj rt response.body
  let payload ← dumps rt (completedPayload rt bodyHash response.statusCode body
    (_serialisableHeaders response.headers))
  pure (payload, rt.jsonResponse response.statusCode body (_serialisableHeaders response.headers))

section

variable {F : Type}

def get (k : String) (stored : List (Text × Value F)) : Option (Value F) :=
  (stored.find? fun m ↦ m.1 = codes k).map Prod.snd

def isText (s : String) : Option (Value F) → Bool
  | some (.str t) => decide (t = codes s)
  | _ => false

def toText : Text × Value F → Option (Text × Text)
  | (k, .str t) => some (k, t)
  | _ => none

/-- `dict(stored.get("headers", {}))` -/
def storedHeaders (stored : List (Text × Value F)) : Option (List (Text × Text)) :=
  match get "headers" stored with
  | none => some []
  | some (.obj ms) => ms.mapM toText
  | some _ => none

def storedStatus (stored : List (Text × Value F)) : Option ℕ :=
  match get "status_code" stored with
  | some (.int n) => if 0 ≤ n then some n.toNat else none
  | _ => none

end

def _replay (stored : List (Text × Value rt.floats.F)) : Option Sent := do
  let headers ← storedHeaders stored
  let statusCode ← storedStatus stored
  let body ← get "body" stored
  rt.jsonResponse statusCode body (set REPLAY_HEADER (codes "true") headers)

inductive Conflict
  | problem (e : AppError)
  | replayed (response : Sent)
  | raised

/-- The answer to a request that finds a payload. -/
def _resolveConflict (existing : Bytes) (bodyHash : String) : Conflict :=
  match loadsBytes rt existing with
  | .error .decodeError => .problem inFlight
  | .error .valueError => .raised
  | .ok (.obj stored) =>
    if !isText bodyHash (get "body_hash" stored) then .problem keyReused
    else if isText "completed" (get "state" stored) then
      match _replay rt stored with
      | some response => .replayed response
      | none => .raised
    else .problem inFlight
  | .ok _ => .raised

end AdminPlatform.Idempotency.Responses
