import AdminPlatform.Foundation.Phrases
import Mathlib.Logic.Function.Basic
import Mathlib.Data.Bool.AllAny

namespace AdminPlatform.Core.IntegrityErrors

open Foundation.Patterns Foundation.Phrases

abbrev Text := List Char

/-- The last `width` hexadecimal digits of a number. -/
def hexDigits : ℕ → ℕ → Text
  | 0, _ => []
  | width + 1, n => hexDigits width (n / 16) ++ [Nat.digitChar (n % 16)]

section Repr

-- `str.isprintable`, asked of characters outside ASCII only.
variable (printable : Char → Bool)

def reprChar (quote c : Char) : Text :=
  if c = quote ∨ c = '\\' then ['\\', c]
  else if c = '\t' then ['\\', 't']
  else if c = '\n' then ['\\', 'n']
  else if c = '\r' then ['\\', 'r']
  else if c.toNat < 0x20 ∨ c.toNat = 0x7f then '\\' :: 'x' :: hexDigits 2 c.toNat
  else if c.toNat < 0x7f then [c]
  else if printable c then [c]
  else if c.toNat ≤ 0xff then '\\' :: 'x' :: hexDigits 2 c.toNat
  else if c.toNat ≤ 0xffff then '\\' :: 'u' :: hexDigits 4 c.toNat
  else '\\' :: 'U' :: hexDigits 8 c.toNat

def reprQuote (s : Text) : Char := if '\'' ∈ s ∧ '"' ∉ s then '"' else '\''

def reprText (s : Text) : Text :=
  reprQuote s :: (s.flatMap (reprChar printable (reprQuote s)) ++ [reprQuote s])

inductive Arg
  | int (n : ℕ)
  | str (s : Text)
  deriving DecidableEq, Repr

def Arg.text : Arg → Text
  | .int n => (toString n).toList
  | .str s => s

def Arg.repr : Arg → Text
  | .int n => (toString n).toList
  | .str s => reprText printable s

/-- What a driver raises, with the name of the constraint where it has that attribute. -/
structure DriverError where
  args : List Arg
  constraintName : Option Text
  deriving DecidableEq, Repr

def DriverError.text (e : DriverError) : Text :=
  match e.args with
  | [] => []
  | [a] => a.text
  | as => '(' :: ((as.map (Arg.repr printable)).intersperse ", ".toList).flatten ++ [')']

end Repr

abbrev Codes := Text → Option (String × String)

def reprPair (printable : Char → Bool) (pair : String × String) : Text :=
  '(' :: (reprText printable pair.1.toList ++ ", ".toList ++ reprText printable pair.2.toList ++ [')'])

def conflictText (printable : Char → Bool) (constraintName : Text) (existing new : String × String) : Text :=
  "约束名 ".toList ++ reprText printable constraintName ++ " 已注册为 ".toList ++ reprPair printable existing ++
    "，拒绝用 ".toList ++ reprPair printable new ++
    " 覆盖——同名不同码会让 IntegrityError→409 业务码随 import 顺序漂移；检查是否拷贝建模块时漏改约束名。".toList

/-- `_UNIQUE_CONSTRAINT_CODES` after one registration, or the text of the `RuntimeError`. -/
def registerUniqueConstraint (printable : Char → Bool) (codes : Codes) (constraintName : Text)
    (code title : String) : Except Text Codes :=
  match codes constraintName with
  | some existing =>
    if existing ≠ (code, title) then
      .error (conflictText printable constraintName existing (code, title))
    else .ok (Function.update codes constraintName (some (code, title)))
  | none => .ok (Function.update codes constraintName (some (code, title)))

structure Registration where
  constraintName : Text
  code : String
  title : String
  deriving DecidableEq, Repr

def registerAll (printable : Char → Bool) (codes : Codes) : List Registration → Except Text Codes
  | [] => .ok codes
  | r :: rs => do
    let codes' ← registerUniqueConstraint printable codes r.constraintName r.code r.title
    registerAll printable codes' rs

variable {printable : Char → Bool} {codes codes' : Codes} {name : Text} {code title : String}

/-- A registration that succeeds holds, and takes nothing back. -/
theorem of_register (h : registerUniqueConstraint printable codes name code title = .ok codes') :
    codes' name = some (code, title) ∧ ∀ other pair, codes other = some pair → codes' other = some pair := by
  have of_update : (∀ existing, codes name = some existing → existing = (code, title)) →
      codes' = Function.update codes name (some (code, title)) →
      codes' name = some (code, title) ∧
        ∀ other pair, codes other = some pair → codes' other = some pair := by
    rintro hexisting rfl
    refine ⟨by simp, fun other pair hpair ↦ ?_⟩
    by_cases hother : other = name
    · subst hother
      simp [hexisting pair hpair]
    · simp [hother, hpair]
  rw [registerUniqueConstraint] at h
  cases hname : codes name with
  | none =>
    rw [hname] at h
    exact of_update (by simp [hname]) (Except.ok.inj h).symm
  | some existing =>
    rw [hname] at h
    by_cases hsame : existing = (code, title)
    · simp only [hsame, ne_eq, not_true, if_false, Except.ok.injEq] at h
      exact of_update (by simp [hname, hsame]) h.symm
    · simp [hsame] at h

theorem of_registerAll {rs : List Registration} (h : registerAll printable codes rs = .ok codes') :
    (∀ r ∈ rs, codes' r.constraintName = some (r.code, r.title)) ∧
      ∀ other pair, codes other = some pair → codes' other = some pair := by
  induction rs generalizing codes with
  | nil =>
    obtain rfl := Except.ok.inj h
    exact ⟨by simp, fun _ _ h ↦ h⟩
  | cons r rs ih =>
    cases hr : registerUniqueConstraint printable codes r.constraintName r.code r.title with
    | error e => simp [registerAll, hr, bind, Except.bind] at h
    | ok codes₁ =>
      have hrest : registerAll printable codes₁ rs = .ok codes' := by
        simpa [registerAll, hr, bind, Except.bind] using h
      obtain ⟨hhere, hkeep⟩ := of_register hr
      obtain ⟨hall, hkeep'⟩ := ih hrest
      refine ⟨fun r' hr' ↦ ?_, fun other pair hpair ↦ hkeep' _ _ (hkeep _ _ hpair)⟩
      rcases List.mem_cons.1 hr' with rfl | hr'
      · exact hkeep' _ _ hhere
      · exact hall r' hr'

/-- Registrations under different names all succeed. -/
theorem registerAll_ok (printable : Char → Bool) {rs : List Registration}
    (hnodup : (rs.map Registration.constraintName).Nodup) (hfree : ∀ r ∈ rs, codes r.constraintName = none) :
    ∃ codes', registerAll printable codes rs = .ok codes' := by
  induction rs generalizing codes with
  | nil => exact ⟨codes, rfl⟩
  | cons r rs ih =>
    obtain ⟨hr, hnodup⟩ := List.nodup_cons.1 hnodup
    have hnone := hfree r (by simp)
    have hfree' : ∀ r' ∈ rs,
        Function.update codes r.constraintName (some (r.code, r.title)) r'.constraintName = none := by
      intro r' hr'
      have hne : r'.constraintName ≠ r.constraintName := fun h ↦ hr (h ▸ List.mem_map_of_mem hr')
      simpa [hne] using hfree r' (by simp [hr'])
    obtain ⟨codes', hcodes'⟩ := ih hnodup hfree'
    exact ⟨codes', by simpa [registerAll, registerUniqueConstraint, hnone, bind, Except.bind] using hcodes'⟩

def _MYSQL_DUPLICATE_ENTRY : ℕ := 1062

def isQuote (c : Char) : Bool := c == '\'' || c == '`' || c == '"'

def isDoubleQuote (c : Char) : Bool := c == '"'

def _MYSQL_KEY_RE : Text → Option Text := search (quoted caseless "for key ".toList isQuote)

def _MYSQL_CONSTRAINT_RE : Text → Option Text := search (quoted id "CONSTRAINT ".toList isQuote)

def _CONSTRAINT_RE : Text → Option Text := search (quoted id "constraint ".toList isDoubleQuote)

/-- `name.rsplit(".", 1)[-1]`. -/
def lastPart (name : Text) : Text := (name.reverse.takeWhile (· ≠ '.')).reverse

def _dbapiErrorCode (orig : DriverError) : Option ℕ :=
  match orig.args with
  | .int n :: _ => some n
  | _ => none

def _extractConstraintName (printable : Char → Bool) (orig : Option DriverError) : Option Text :=
  match orig with
  | none => none
  | some orig =>
    match orig.constraintName.filter (· ≠ []) with
    | some name => some name
    | none =>
      let text := orig.text printable
      let key :=
        if _dbapiErrorCode orig = some _MYSQL_DUPLICATE_ENTRY then (_MYSQL_KEY_RE text).map lastPart else none
      (key.or (_MYSQL_CONSTRAINT_RE text)).or (_CONSTRAINT_RE text)

structure Problem where
  type : String
  title : String
  status : ℕ
  detail : Option String := none
  deriving DecidableEq, Repr

def _integrityError (printable : Char → Bool) (codes : Codes) (orig : Option DriverError) : Problem :=
  match (_extractConstraintName printable orig).bind codes with
  | some (code, title) => ⟨code, title, 409, none⟩
  | none => ⟨"framework.CONFLICT", "Resource constraint violation", 409, none⟩

end AdminPlatform.Core.IntegrityErrors
