import AdminPlatform.Model.Service

namespace AdminPlatform.Idempotency.Middleware

open Model.Service

abbrev Bytes := List UInt8

/-- A response as it is sent: the headers with their lower-case names, in order. -/
structure Response where
  statusCode : ℕ
  headers : List (String × String)
  body : Bytes
  deriving DecidableEq

/-- The subject of the token, or the marker of anonymous requests. -/
inductive Subject
  | user (id : ℕ)
  | anon
  deriving DecidableEq

def Subject.text : Subject → String
  | .user id => toString id
  | .anon => "anon"

structure Path where
  text : String
  noColon : ':' ∉ text.toList

structure Request where
  method : String
  idempotentRoute : Bool
  idempotencyKey : Option String
  subject : Subject
  path : Path
  body : Bytes

def MAX_IDEMPOTENCY_KEY_LENGTH : ℕ := 255

def inFlight : AppError where
  code := "framework.IDEMPOTENT_RETRY_IN_FLIGHT"
  title := "Idempotent request still in flight"
  statusCode := 409

def keyReused : AppError where
  code := "framework.IDEMPOTENCY_KEY_REUSED"
  title := "Idempotency-Key reused with a different body"
  detail := some "Idempotency-Key already used with a different request body"
  statusCode := 422

def keyInvalid (length : ℕ) : AppError where
  code := "framework.IDEMPOTENCY_KEY_INVALID"
  title := "Idempotency-Key is malformed"
  detail := some s!"Idempotency-Key length {length} exceeds 255 character limit"
  statusCode := 400

inductive Gate
  | passThrough
  | rejected (e : AppError)
  | key (clientKey : String)

def _gate (request : Request) : Gate :=
  if request.method ≠ "POST" then .passThrough
  else if !request.idempotentRoute then .passThrough
  else
    match request.idempotencyKey with
    | none => .passThrough
    | some clientKey =>
      if clientKey = "" then .passThrough
      else if MAX_IDEMPOTENCY_KEY_LENGTH < clientKey.length then .rejected (keyInvalid clientKey.length)
      else .key clientKey

def _buildCacheKey (subject path clientKey : String) : String :=
  "idem:" ++ subject ++ ":" ++ path ++ ":" ++ clientKey

/-- What the store holds under a key. Only the middleware writes the keys it uses, so that a value
which is no JSON object of its own comes from elsewhere. -/
inductive Payload
  | inProgress (bodyHash : String)
  | completed (bodyHash : String) (response : Response)
  | foreign
  deriving DecidableEq

/-- How a request ends: the handler's response is handed on, or its exception. -/
inductive Answer
  | forwarded
  | problem (e : AppError)
  | replayed (response : Response)
  | handled (response : Response)
  | raised
  deriving DecidableEq

def _resolveConflict (existing : Option Payload) (bodyHash : String) : Option Answer :=
  match existing with
  | none => none
  | some .foreign => some (.problem inFlight)
  | some (.inProgress hash) =>
    if hash ≠ bodyHash then some (.problem keyReused) else some (.problem inFlight)
  | some (.completed hash response) =>
    if hash ≠ bodyHash then some (.problem keyReused) else some (.replayed response)

def isSuccess (statusCode : ℕ) : Bool := decide (200 ≤ statusCode ∧ statusCode < 300)

theorem split_unique {a a' b b' : List Char} {c : Char} (h : c ∉ a) (h' : c ∉ a')
    (he : a ++ c :: b = a' ++ c :: b') : a = a' ∧ b = b' := by
  induction a generalizing a' with
  | nil =>
    cases a' with
    | nil => exact ⟨rfl, (List.cons.inj he).2⟩
    | cons d a' =>
      obtain ⟨hd, -⟩ := List.cons.inj he
      exact absurd (hd ▸ List.mem_cons_self) h'
  | cons d a ih =>
    cases a' with
    | nil =>
      obtain ⟨hd, -⟩ := List.cons.inj he
      exact absurd (hd ▸ List.mem_cons_self) h
    | cons d' a' =>
      obtain ⟨rfl, ht⟩ := List.cons.inj he
      obtain ⟨rfl, rfl⟩ := ih (fun hm ↦ h (List.mem_cons_of_mem _ hm))
        (fun hm ↦ h' (List.mem_cons_of_mem _ hm)) ht
      exact ⟨rfl, rfl⟩

theorem toList_user (id : ℕ) : (Subject.user id).text.toList = Nat.toDigits 10 id := Nat.toList_repr

theorem isDigit_of_mem_user {id : ℕ} {c : Char} (h : c ∈ (Subject.user id).text.toList) :
    c.isDigit = true := by
  rw [toList_user] at h
  exact Nat.isDigit_of_mem_toDigits (by decide) (by decide) h

theorem colon_not_mem_subject (s : Subject) : ':' ∉ s.text.toList := by
  intro h
  cases s with
  | user id =>
    have hd := isDigit_of_mem_user h
    revert hd
    decide
  | anon =>
    revert h
    decide

theorem subject_text_inj {s s' : Subject} (h : s.text = s'.text) : s = s' := by
  have hanon : ∀ id : ℕ, (Subject.user id).text ≠ Subject.anon.text := by
    intro id he
    have hm : 'a' ∈ (Subject.user id).text.toList := by
      rw [he]
      decide
    have hd := isDigit_of_mem_user hm
    revert hd
    decide
  cases s with
  | user id =>
    cases s' with
    | user id' =>
      have hl := congrArg String.toList h
      rw [toList_user, toList_user] at hl
      have hn := congrArg (fun ds ↦ Nat.ofDigitChars 10 ds 0) hl
      simp only [Nat.ofDigitChars_ten_toDigits] at hn
      rw [hn]
    | anon => exact absurd h (hanon id)
  | anon =>
    cases s' with
    | user id => exact absurd h.symm (hanon id)
    | anon => rfl

/-- The store key tells subject, path and client key apart. -/
theorem buildCacheKey_inj {s s' : Subject} {p p' : Path} {k k' : String}
    (h : _buildCacheKey s.text p.text k = _buildCacheKey s'.text p'.text k') :
    s = s' ∧ p.text = p'.text ∧ k = k' := by
  have hl := congrArg String.toList h
  simp only [_buildCacheKey, String.toList_append, List.append_assoc] at hl
  have hl' := List.append_cancel_left hl
  have hc : (":" : String).toList = [':'] := rfl
  rw [hc, List.singleton_append, List.singleton_append, List.singleton_append, List.singleton_append] at hl'
  obtain ⟨hs, ht⟩ := split_unique (colon_not_mem_subject s) (colon_not_mem_subject s') hl'
  obtain ⟨hp, hk⟩ := split_unique p.noColon p'.noColon ht
  exact ⟨subject_text_inj (String.toList_injective hs), String.toList_injective hp,
    String.toList_injective hk⟩

end AdminPlatform.Idempotency.Middleware
