import AdminPlatform.Foundation.CodePoints
import AdminPlatform.Foundation.Dicts
import Mathlib.Data.Int.Notation

namespace AdminPlatform.Foundation.Json

open CodePoints Dicts

def isDigit (c : ℕ) : Bool := decide (48 ≤ c ∧ c ≤ 57)

def digits (n : ℕ) : Text := (Nat.toDigits 10 n).map code

def valueOf (ds : Text) : ℕ := ds.foldl (fun n c ↦ 10 * n + (c - 48)) 0

/-- How many digits `int` reads and writes. -/
def maxDigits : ℕ := 4300

def minus (s : Text) : Text × Text :=
  match s with
  | c :: t => if c = code '-' then ([c], t) else ([], s)
  | [] => ([], [])

def integerPart (s : Text) : Text × Text :=
  match s with
  | c :: t =>
    if c = code '0' then ([c], t)
    else if isDigit c then (c :: t.takeWhile isDigit, t.dropWhile isDigit)
    else ([], s)
  | [] => ([], [])

def fraction (s : Text) : Text × Text :=
  match s with
  | c :: t =>
    if c = code '.' ∧ t.takeWhile isDigit ≠ [] then (c :: t.takeWhile isDigit, t.dropWhile isDigit) else ([], s)
  | [] => ([], [])

def exponentSign (s : Text) : Text × Text :=
  match s with
  | c :: t => if c = code '+' ∨ c = code '-' then ([c], t) else ([], s)
  | [] => ([], [])

def exponent (s : Text) : Text × Text :=
  match s with
  | c :: t =>
    if (c = code 'e' ∨ c = code 'E') ∧ (exponentSign t).2.takeWhile isDigit ≠ [] then
      (c :: ((exponentSign t).1 ++ (exponentSign t).2.takeWhile isDigit), (exponentSign t).2.dropWhile isDigit)
    else ([], s)
  | [] => ([], [])

/-- A number at the front of a text. -/
structure Literal where
  sign : Text
  integer : Text
  fraction : Text
  exponent : Text
  deriving DecidableEq

namespace Literal

def text (l : Literal) : Text := l.sign ++ (l.integer ++ (l.fraction ++ l.exponent))

def isInteger (l : Literal) : Bool := l.fraction.isEmpty && l.exponent.isEmpty

def value (l : Literal) : ℤ := if l.sign = [] then valueOf l.integer else -valueOf l.integer

end Literal

/-- `NUMBER_RE` -/
def matchNumber (s : Text) : Option (Literal × Text) :=
  let i := integerPart (minus s).2
  let e := exponent (fraction i.2).2
  if i.1 = [] then none else some (⟨(minus s).1, i.1, (fraction i.2).1, e.1⟩, e.2)

inductive Number (F : Type)
  | finite (x : F)
  | nan
  | infinity (negative : Bool)

/-- The finite floats as they are written and read: the shortest literal of a float reads as it. -/
structure Floats where
  F : Type
  repr : F → Text
  ofText : Text → Number F
  repr_literal : ∀ x, ∃ l, matchNumber (repr x) = some (l, []) ∧ l.isInteger = false
  ofText_repr : ∀ x, ofText (repr x) = .finite x

/-- A value of the `json` module. An object holds each of its keys once, in the order of insertion. -/
inductive Value (F : Type)
  | null
  | bool (b : Bool)
  | int (n : ℤ)
  | float (x : Number F)
  | str (s : Text)
  | arr (items : List (Value F))
  | obj (members : List (Text × Value F))

variable (fl : Floats)

/-- `ensure_ascii`, and whether the separators end in a space. -/
structure Style where
  ascii : Bool
  spaced : Bool

def Style.gap (st : Style) : Text := if st.spaced then [code ' '] else []

def hexDigit (n : ℕ) : ℕ := if n < 10 then 48 + n else 87 + n

def escapeUnit (n : ℕ) : Text :=
  [code '\\', code 'u', hexDigit (n / 0x1000), hexDigit (n / 0x100 % 0x10), hexDigit (n / 0x10 % 0x10),
    hexDigit (n % 0x10)]

def shortEscape (c : ℕ) : Option ℕ :=
  if c = code '"' ∨ c = code '\\' then some c
  else if c = 8 then some (code 'b')
  else if c = 12 then some (code 'f')
  else if c = 10 then some (code 'n')
  else if c = 13 then some (code 'r')
  else if c = 9 then some (code 't')
  else none

def escape (st : Style) (c : ℕ) : Text :=
  match shortEscape c with
  | some e => [code '\\', e]
  | none =>
    if c < 0x20 ∨ st.ascii = true ∧ 0x7e < c then
      if c < 0x10000 then escapeUnit c
      else escapeUnit (0xd800 + (c - 0x10000) / 0x400) ++ escapeUnit (0xdc00 + (c - 0x10000) % 0x400)
    else [c]

def quoted (st : Style) (s : Text) : Text := code '"' :: (s.flatMap (escape st) ++ [code '"'])

def intText (n : ℤ) : Text := (if n < 0 then [code '-'] else []) ++ digits n.natAbs

def floatText : Number fl.F → Text
  | .finite x => fl.repr x
  | .nan => codes "NaN"
  | .infinity false => codes "Infinity"
  | .infinity true => codes "-Infinity"

section

variable (st : Style)

mutual

def print : Value fl.F → Text
  | .null => codes "null"
  | .bool true => codes "true"
  | .bool false => codes "false"
  | .int n => intText n
  | .float x => floatText fl x
  | .str s => quoted st s
  | .arr [] => codes "[]"
  | .arr (x :: xs) => code '[' :: (print x ++ printItems xs)
  | .obj [] => codes "\x7b\x7d"
  | .obj ((k, x) :: ms) => code '\x7b' :: (quoted st k ++ (code ':' :: st.gap ++ (print x ++ printMembers ms)))

def printItems : List (Value fl.F) → Text
  | [] => codes "]"
  | x :: xs => code ',' :: st.gap ++ (print x ++ printItems xs)

def printMembers : List (Text × Value fl.F) → Text
  | [] => codes "\x7d"
  | (k, x) :: ms =>
    code ',' :: st.gap ++ (quoted st k ++ (code ':' :: st.gap ++ (print x ++ printMembers ms)))

end

end

/-- `JSONDecodeError`, or the `ValueError` of a number or an encoding. -/
inductive Failure
  | decodeError
  | valueError
  deriving DecidableEq

def isSpace (c : ℕ) : Bool := [32, 9, 10, 13].contains c

def skipSpace (s : Text) : Text := s.dropWhile isSpace

def hexValue (c : ℕ) : Option ℕ :=
  if isDigit c then some (c - 48)
  else if 65 ≤ c ∧ c ≤ 70 then some (c - 55)
  else if 97 ≤ c ∧ c ≤ 102 then some (c - 87)
  else none

/-- A character of a string, or a `\u` escape. -/
inductive Piece
  | plain (c : ℕ)
  | escaped (n : ℕ)

def backslash (e : ℕ) : Option ℕ :=
  if e = code '"' ∨ e = code '\\' ∨ e = code '/' then some e
  else if e = code 'b' then some 8
  else if e = code 'f' then some 12
  else if e = code 'n' then some 10
  else if e = code 'r' then some 13
  else if e = code 't' then some 9
  else none

def hex4 (a b c d : ℕ) : Option ℕ := do
  let a ← hexValue a
  let b ← hexValue b
  let c ← hexValue c
  let d ← hexValue d
  pure (0x1000 * a + 0x100 * b + 0x10 * c + d)

/-- The pieces of a string behind its first quote, and what follows it. -/
def pieces : Text → Except Failure (List Piece × Text)
  | [] => .error .decodeError
  | c :: t =>
    if c = code '"' then .ok ([], t)
    else if c = code '\\' then
      match t with
      | [] => .error .decodeError
      | e :: u =>
        if e = code 'u' then
          match u with
          | h₁ :: h₂ :: h₃ :: h₄ :: w =>
            match hex4 h₁ h₂ h₃ h₄ with
            | some n => (pieces w).map fun r ↦ (.escaped n :: r.1, r.2)
            | none => .error .decodeError
          | _ => .error .decodeError
        else match backslash e with
          | some d => (pieces u).map fun r ↦ (.plain d :: r.1, r.2)
          | none => .error .decodeError
    else if c < 0x20 then .error .decodeError
    else (pieces t).map fun r ↦ (.plain c :: r.1, r.2)

def isHigh (n : ℕ) : Bool := decide (0xd800 ≤ n ∧ n ≤ 0xdbff)

def isLow (n : ℕ) : Bool := decide (0xdc00 ≤ n ∧ n ≤ 0xdfff)

def joinPieces : List Piece → Text
  | .escaped n :: .escaped m :: ps =>
    if isHigh n && isLow m then (0x10000 + (0x400 * (n - 0xd800) + (m - 0xdc00))) :: joinPieces ps
    else n :: joinPieces (.escaped m :: ps)
  | .escaped n :: ps => n :: joinPieces ps
  | .plain c :: ps => c :: joinPieces ps
  | [] => []

/-- `scanstring` -/
def scanString (s : Text) : Except Failure (Text × Text) := (pieces s).map fun r ↦ (joinPieces r.1, r.2)

def scanNumber (s : Text) : Except Failure (Value fl.F × Text) :=
  match matchNumber s with
  | none => .error .decodeError
  | some (l, t) =>
    if l.isInteger then
      if maxDigits < l.integer.length then .error .valueError else .ok (.int l.value, t)
    else .ok (.float (fl.ofText l.text), t)

def constants : List (Text × Value fl.F) :=
  [(codes "null", .null), (codes "true", .bool true), (codes "false", .bool false),
    (codes "NaN", .float .nan), (codes "Infinity", .float (.infinity false)),
    (codes "-Infinity", .float (.infinity true))]

def constant (s : Text) : Option (Value fl.F × Text) :=
  (constants fl).findSome? fun w ↦ if w.1.isPrefixOf s then some (w.2, s.drop w.1.length) else none

def expect (c : ℕ) (s : Text) : Except Failure Text :=
  match skipSpace s with
  | d :: t => if d = c then .ok t else .error .decodeError
  | [] => .error .decodeError

mutual

/-- `scan_once`: the value at the front of a text, and what follows it. -/
def scanOnce : ℕ → Text → Except Failure (Value fl.F × Text)
  | 0, _ => .error .decodeError
  | n + 1, s =>
    match s with
    | [] => .error .decodeError
    | c :: t =>
      if c = code '"' then (scanString t).map fun r ↦ (.str r.1, r.2)
      else if c = code '[' then
        match expect (code ']') t with
        | .ok u => .ok (.arr [], u)
        | .error _ => (scanItems n (skipSpace t)).map fun r ↦ (.arr r.1, r.2)
      else if c = code '\x7b' then
        match expect (code '\x7d') t with
        | .ok u => .ok (.obj [], u)
        | .error _ => (scanMembers n (skipSpace t)).map fun r ↦ (.obj (ofPairs r.1), r.2)
      else match constant fl s with
        | some r => .ok r
        | none => scanNumber fl s

/-- The items of a list, up to its end. -/
def scanItems : ℕ → Text → Except Failure (List (Value fl.F) × Text)
  | 0, _ => .error .decodeError
  | n + 1, s => do
    let (x, t) ← scanOnce n s
    match expect (code ']') t with
    | .ok u => .ok ([x], u)
    | .error _ => do
      let (xs, u) ← scanItems n (skipSpace (← expect (code ',') t))
      .ok (x :: xs, u)

def scanMembers : ℕ → Text → Except Failure (List (Text × Value fl.F) × Text)
  | 0, _ => .error .decodeError
  | n + 1, s =>
    match s with
    | [] => .error .decodeError
    | c :: t =>
      if c = code '"' then do
        let (k, u) ← scanString t
        let (x, w) ← scanOnce n (skipSpace (← expect (code ':') u))
        match expect (code '\x7d') w with
        | .ok r => .ok ([(k, x)], r)
        | .error _ => do
          let (ms, r) ← scanMembers n (skipSpace (← expect (code ',') w))
          .ok ((k, x) :: ms, r)
      else .error .decodeError

end

/-- `json.loads` of a `str` -/
def loads (s : Text) : Except Failure (Value fl.F) :=
  match scanOnce fl (2 * s.length + 1) (skipSpace s) with
  | .error e => .error e
  | .ok (x, t) => if skipSpace t = [] then .ok x else .error .decodeError

end AdminPlatform.Foundation.Json
