import AdminPlatform.Foundation.PercentEncoding
import Mathlib.Data.List.DropRight
import Mathlib.Data.List.TakeWhile

namespace AdminPlatform.Foundation.HeaderParams

open PercentEncoding

def tokenMarks : List Char := "!#$%&'*+-.^_`|~".toList

/-- `tchar` -/
def isTokenChar (c : Char) : Bool := c.isAlphanum || tokenMarks.contains c

def attrMarks : List Char := "!#$&+-.^_`|~".toList

/-- `attr-char` -/
def isAttrChar (c : Char) : Bool := c.isAlphanum || attrMarks.contains c

def charsetMarks : List Char := "!#$%&+-^_`\x7b\x7d~".toList

/-- `mime-charsetc` -/
def isCharsetChar (c : Char) : Bool := c.isAlphanum || charsetMarks.contains c

def isLanguageChar (c : Char) : Bool := c.isAlphanum || c == '-'

/-- What may stand behind the backslash of a `quoted-pair`. -/
def isQuotable (c : Char) : Bool := c == '\t' || decide (0x20 ≤ c.toNat ∧ c.toNat ≠ 0x7f ∧ c.toNat ≤ 0xff)

/-- `qdtext` -/
def isQuotedText (c : Char) : Bool := isQuotable c && c != '"' && c != '\\'

def skipSpace (s : List Char) : List Char := s.dropWhile fun c ↦ c == ' ' || c == '\t'

/-- A `quoted-string` behind its first quote, and what follows it. -/
def quotedBody : List Char → Option (List Char × List Char)
  | [] => none
  | '"' :: s => some ([], s)
  | ['\\'] => none
  | '\\' :: c :: s => if isQuotable c then (quotedBody s).map fun r ↦ (c :: r.1, r.2) else none
  | c :: s => if isQuotedText c then (quotedBody s).map fun r ↦ (c :: r.1, r.2) else none

inductive Value
  | plain (text : List Char)
  | ext (charset language : List Char) (bytes : List UInt8)
  deriving DecidableEq

/-- `ext-value` -/
def extValue (s : List Char) : Option (Value × List Char) :=
  match s.dropWhile isCharsetChar with
  | '\'' :: t => match t.dropWhile isLanguageChar with
    | '\'' :: v => some (.ext (s.takeWhile isCharsetChar) (t.takeWhile isLanguageChar)
        (decode isAttrChar v).1, (decode isAttrChar v).2)
    | _ => none
  | _ => none

def plainValue (s : List Char) : Option (Value × List Char) :=
  match s with
  | '"' :: t => (quotedBody t).map fun r ↦ (.plain r.1, r.2)
  | _ => if (s.takeWhile isTokenChar).isEmpty then none
    else some (.plain (s.takeWhile isTokenChar), s.dropWhile isTokenChar)

/-- A parameter; a name that ends in a star has an `ext-value`. -/
def param (s : List Char) : Option ((List Char × Value) × List Char) :=
  let name := s.takeWhile isTokenChar
  if name.isEmpty then none
  else match skipSpace (s.dropWhile isTokenChar) with
    | '=' :: t => (if name.getLast? = some '*' then extValue (skipSpace t) else plainValue (skipSpace t)).map
        fun r ↦ ((name, r.1), r.2)
    | _ => none

def params : ℕ → List Char → Option (List (List Char × Value))
  | 0, _ => none
  | n + 1, s => match skipSpace s with
    | [] => some []
    | ';' :: t => match param (skipSpace t) with
      | some (p, u) => (params n u).map (p :: ·)
      | none => none
    | _ => none

structure Header where
  kind : List Char
  params : List (List Char × Value)
  deriving DecidableEq

def parse (s : List Char) : Option Header :=
  if (s.takeWhile isTokenChar).isEmpty then none
  else (params (s.length + 1) (s.dropWhile isTokenChar)).map (⟨s.takeWhile isTokenChar, ·⟩)

variable {s t u : List Char} {c d : Char} {p : Char → Bool}

def closes : List Char → Bool
  | [] => true
  | ['\\'] => false
  | '\\' :: _ :: s => closes s
  | _ :: s => closes s

theorem quotedBody_cons (hquote : c ≠ '"') (hback : c ≠ '\\') (s : List Char) : quotedBody (c :: s) =
    if isQuotedText c then (quotedBody s).map fun r ↦ (c :: r.1, r.2) else none := by
  rw [quotedBody]
  · exact hquote
  · rintro rfl
    exact fun _ ↦ hback rfl
  · rintro c' s' rfl
    exact absurd rfl hback

theorem quotedBody_pair (c : Char) (s : List Char) : quotedBody ('\\' :: c :: s) =
    if isQuotable c then (quotedBody s).map fun r ↦ (c :: r.1, r.2) else none := by
  rw [quotedBody]

theorem closes_cons (h : c ≠ '\\') (s : List Char) : closes (c :: s) = closes s := by
  rw [closes]
  · rintro rfl
    exact fun _ ↦ h rfl
  · rintro c' s' rfl
    exact absurd rfl h

theorem closes_pair (c : Char) (s : List Char) : closes ('\\' :: c :: s) = closes s := by
  rw [closes]

/-- Two letters at a time behind a backslash, else one. -/
theorem pair_induction {P : List Char → Prop} (nil : P []) (back : P ['\\'])
    (pair : ∀ c s, P s → P ('\\' :: c :: s)) (cons : ∀ c s, c ≠ '\\' → P s → P (c :: s)) (s : List Char) :
    P s := by
  induction s using closes.induct with
  | case1 => exact nil
  | case2 => exact back
  | case3 c s ih => exact pair c s ih
  | case4 c s hback hpair ih =>
    refine cons c s ?_ ih
    rintro rfl
    cases s with
    | nil => exact hback rfl rfl
    | cons d s => exact hpair d s rfl rfl

theorem quotedBody_eq_none (h : '"' ∉ s) : quotedBody s = none := by
  induction s using pair_induction with
  | nil => rfl
  | back => rfl
  | pair c s ih =>
    rw [quotedBody_pair, ih fun hs ↦ h (by simp [hs])]
    split <;> rfl
  | cons c s hback ih =>
    have hquote : c ≠ '"' := fun hc ↦ h (by simp [hc])
    rw [quotedBody_cons hquote hback, ih fun hs ↦ h (by simp [hs])]
    split <;> rfl

theorem quotedBody_of_closes (ht : ∀ c ∈ t, isQuotable c = true ∧ c ≠ '"') (h : closes t = true)
    (s : List Char) : ∃ v, quotedBody (t ++ '"' :: s) = some (v, s) := by
  induction t using pair_induction with
  | nil => exact ⟨[], rfl⟩
  | back => cases h
  | pair c t ih =>
    obtain ⟨v, hv⟩ := ih (fun d hd ↦ ht d (by simp [hd])) (closes_pair c t ▸ h)
    have hc : isQuotable c = true := (ht c (by simp)).1
    refine ⟨c :: v, ?_⟩
    rw [List.cons_append, List.cons_append, quotedBody_pair, if_pos hc, hv]
    rfl
  | cons c t hback ih =>
    obtain ⟨v, hv⟩ := ih (fun d hd ↦ ht d (by simp [hd])) (closes_cons hback t ▸ h)
    obtain ⟨hc, hquote⟩ := ht c (by simp)
    refine ⟨c :: v, ?_⟩
    rw [List.cons_append, quotedBody_cons hquote hback, if_pos (by simp [isQuotedText, hc, hquote, hback]), hv]
    rfl

/-- A string whose quote is escaped ends at a later one only. -/
theorem quotedBody_of_not_closes (ht : '"' ∉ t) (h : closes t = false) (hs : '"' ∉ s) :
    quotedBody (t ++ '"' :: s) = none := by
  induction t using pair_induction with
  | nil => cases h
  | back =>
    rw [List.singleton_append, quotedBody_pair, quotedBody_eq_none hs]
    split <;> rfl
  | pair c t ih =>
    rw [List.cons_append, List.cons_append, quotedBody_pair,
      ih (fun hd ↦ ht (by simp [hd])) (closes_pair c t ▸ h)]
    split <;> rfl
  | cons c t hback ih =>
    have hquote : c ≠ '"' := fun hc ↦ ht (by simp [hc])
    rw [List.cons_append, quotedBody_cons hquote hback,
      ih (fun hd ↦ ht (by simp [hd])) (closes_cons hback t ▸ h)]
    split <;> rfl

theorem closes_append (h : t.getLast? ≠ some '\\') (s : List Char) : closes (t ++ s) = closes s := by
  induction t using pair_induction with
  | nil => rfl
  | back => exact absurd rfl h
  | pair c t ih =>
    rw [List.cons_append, List.cons_append, closes_pair]
    refine ih fun hl ↦ h ?_
    simp [List.getLast?_cons, hl]
  | cons c t hback ih =>
    rw [List.cons_append, closes_cons hback]
    refine ih fun hl ↦ h ?_
    simp [List.getLast?_cons, hl]

theorem closes_replicate (n : ℕ) : closes (List.replicate n '\\') = true ↔ n % 2 = 0 := by
  induction n using Nat.twoStepInduction with
  | zero => simp [closes]
  | one => simp [closes]
  | more n ih _ =>
    rw [List.replicate_succ, List.replicate_succ, closes_pair, ih]
    omega

/-- A text ends in the middle of a pair if an odd number of backslashes stands at its end. -/
theorem closes_iff (t : List Char) :
    closes t = true ↔ (t.rtakeWhile fun c ↦ decide (c = '\\')).length % 2 = 0 := by
  have hback : ∀ c ∈ t.rtakeWhile fun c ↦ decide (c = '\\'), c = '\\' := by
    intro c hc
    simpa using List.mem_rtakeWhile_imp hc
  have hlast : (t.rdropWhile fun c ↦ decide (c = '\\')).getLast? ≠ some '\\' := by
    intro hl
    have hne : (t.rdropWhile fun c ↦ decide (c = '\\')) ≠ [] := by
      intro hnil
      rw [hnil] at hl
      cases hl
    rw [List.getLast?_eq_some_getLast hne, Option.some.injEq] at hl
    exact List.rdropWhile_last_not _ _ hne (decide_eq_true hl)
  have happ := closes_append hlast (t.rtakeWhile fun c ↦ decide (c = '\\'))
  rw [List.rdropWhile_append_rtakeWhile] at happ
  rw [happ, ← closes_replicate, ← List.eq_replicate_of_mem hback]

theorem takeWhile_stop (hu : ∀ c ∈ u, p c = true) (hd : p d = false) (s : List Char) :
    (u ++ d :: s).takeWhile p = u := by
  rw [List.takeWhile_append_of_pos hu, List.takeWhile_cons_of_neg (by simp [hd]), List.append_nil]

theorem dropWhile_stop (hu : ∀ c ∈ u, p c = true) (hd : p d = false) (s : List Char) :
    (u ++ d :: s).dropWhile p = d :: s := by
  rw [List.dropWhile_append_of_pos hu, List.dropWhile_cons_of_neg (by simp [hd])]

theorem skipSpace_cons (h : (c == ' ' || c == '\t') = false) (s : List Char) : skipSpace (c :: s) = c :: s := by
  rw [skipSpace, List.dropWhile_cons_of_neg (by simp [h])]

theorem skipSpace_eq (h : ∀ c ∈ s.head?, (c == ' ' || c == '\t') = false) : skipSpace s = s := by
  cases s with
  | nil => rfl
  | cons c s => exact skipSpace_cons (h c rfl) s

/-- A parameter with a quoted value. -/
theorem param_quoted {name : List Char} (hname : ∀ c ∈ name, isTokenChar c = true) (hne : name ≠ [])
    (hstar : name.getLast? ≠ some '*') (s : List Char) : param (name ++ '=' :: '"' :: s) =
      (quotedBody s).map fun r ↦ ((name, .plain r.1), r.2) := by
  have hstop : isTokenChar '=' = false := by decide
  unfold param
  rw [takeWhile_stop hname hstop, dropWhile_stop hname hstop, skipSpace_cons (by decide)]
  simp only [List.isEmpty_iff, if_neg hne, if_neg hstar]
  rw [skipSpace_cons (by decide), plainValue, Option.map_map]
  rfl

/-- A parameter with a value in a charset; it ends where the decoding does. -/
theorem param_ext {name charset language : List Char} (hname : ∀ c ∈ name, isTokenChar c = true)
    (hstar : name.getLast? = some '*') (hcharset : ∀ c ∈ charset, isCharsetChar c = true)
    (hfront : ∀ c ∈ charset.head?, (c == ' ' || c == '\t') = false)
    (hlanguage : ∀ c ∈ language, isLanguageChar c = true)
    (s : List Char) : param (name ++ '=' :: (charset ++ '\'' :: (language ++ '\'' :: s))) =
      some ((name, .ext charset language (decode isAttrChar s).1), (decode isAttrChar s).2) := by
  have hstop : isTokenChar '=' = false := by decide
  have hne : name ≠ [] := by
    rintro rfl
    cases hstar
  have hspace : skipSpace (charset ++ '\'' :: (language ++ '\'' :: s)) =
      charset ++ '\'' :: (language ++ '\'' :: s) := by
    cases charset with
    | nil => exact skipSpace_cons (by decide) _
    | cons c charset => exact skipSpace_cons (hfront c rfl) _
  unfold param
  rw [takeWhile_stop hname hstop, dropWhile_stop hname hstop, skipSpace_cons (by decide)]
  simp only [List.isEmpty_iff, if_neg hne, if_pos hstar]
  rw [hspace, extValue, dropWhile_stop hcharset (by decide), takeWhile_stop hcharset (by decide)]
  simp only [dropWhile_stop hlanguage (show isLanguageChar '\'' = false by decide),
    takeWhile_stop hlanguage (show isLanguageChar '\'' = false by decide)]
  rfl

theorem params_nil (n : ℕ) : params (n + 1) [] = some [] := rfl

theorem params_semicolon (hs : ∀ c ∈ s.head?, (c == ' ' || c == '\t') = false) (n : ℕ) :
    params (n + 1) (';' :: ' ' :: s) = match param s with
      | some (p, u) => (params n u).map (p :: ·)
      | none => none := by
  have hspace : skipSpace (' ' :: s) = s := by
    rw [skipSpace, List.dropWhile_cons_of_pos (by decide)]
    exact skipSpace_eq hs
  rw [params, skipSpace_cons (by decide)]
  simp only [hspace]

/-- A parameter is followed by another one or by nothing. -/
theorem params_stop (hc : (c == ' ' || c == '\t') = false) (hne : c ≠ ';') (n : ℕ) (s : List Char) :
    params n (c :: s) = none := by
  cases n with
  | zero => rfl
  | succ n =>
    rw [params, skipSpace_cons hc]
    split
    · next h => cases h
    · next h => exact absurd (List.cons.inj h).1 hne
    · rfl

theorem parse_eq {kind : List Char} (hkind : ∀ c ∈ kind, isTokenChar c = true) (hne : kind ≠ [])
    (s : List Char) : parse (kind ++ ';' :: s) =
      (params ((kind ++ ';' :: s).length + 1) (';' :: s)).map (⟨kind, ·⟩) := by
  have hempty : ¬ kind.isEmpty = true := fun h ↦ hne (List.isEmpty_iff.1 h)
  rw [parse, takeWhile_stop hkind (by decide), dropWhile_stop hkind (by decide), if_neg hempty]

end AdminPlatform.Foundation.HeaderParams
