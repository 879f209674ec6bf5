import AdminPlatform.Foundation.Patterns
import AdminPlatform.ScheduledTask.Executor
import Mathlib.Data.List.TakeWhile
import Mathlib.Data.Bool.AllAny

namespace AdminPlatform.ScheduledTask.Redaction

open Foundation.Patterns Model.Schema Cron Executor

def keyword (s : String) : Regex Char := .word caseless s.toList

def literal (s : String) : Regex Char := .word id s.toList

def isSeparator (c : Char) : Bool := c == '=' || c == ':'

def isLetter (c : Char) : Bool := decide ('a' ≤ caseless c ∧ caseless c ≤ 'z')

def isSchemeChar (c : Char) : Bool := isLetter c || c.isDigit || c == '+' || c == '.' || c == '-'

def isUserChar (c : Char) : Bool := !(c == ':' || c == '/' || isSpace c)

def isPasswordChar (c : Char) : Bool := !(c == '@' || isSpace c)

def secretKey : Regex Char :=
  .anyOf [keyword "password", keyword "passwd", keyword "pwd", keyword "token", keyword "secret",
    .seq (keyword "api") (.seq (.opt (.one fun c ↦ caseless c == '_' || caseless c == '-')) (keyword "key")),
    keyword "authorization"]

def keyValue : Regex Char :=
  .seq secretKey (.seq (.many isSpace) (.seq (.one isSeparator) (.seq (.many isSpace)
    (.some fun c ↦ !isSpace c))))

def connection : Regex Char :=
  .seq (.one isLetter) (.seq (.many isSchemeChar) (.seq (literal "://") (.seq (.some isUserChar)
    (.seq (literal ":") (.seq (.some isPasswordChar) (literal "@"))))))

def _SECRET_PATTERN : Regex Char := .alt keyValue connection

def replacement : List Char := "***REDACTED***".toList

def _redact (text : String) : String := String.ofList (_SECRET_PATTERN.sub replacement text.toList)

def sensitiveKeys : List (List Char) :=
  ["password".toList, "passwd".toList, "pwd".toList, "token".toList, "secret".toList, "api_key".toList,
    "api-key".toList, "apikey".toList, "authorization".toList]

def SensitiveKey (key : List Char) : Prop := key.map caseless ∈ sensitiveKeys

instance (key : List Char) : Decidable (SensitiveKey key) := inferInstanceAs (Decidable (_ ∈ _))

variable {c : Char} {key w x y s t : List Char}

theorem matches_secretKey : secretKey.Matches w ↔ SensitiveKey w := by
  have hapi : (Regex.seq (keyword "api") (.seq (.opt (.one fun c ↦ caseless c == '_' || caseless c == '-'))
      (keyword "key"))).Matches w ↔
        w.map caseless ∈ ["api_key".toList, "api-key".toList, "apikey".toList] := by
    simp only [Regex.Matches, keyword, Regex.matches_word, Regex.opt]
    constructor
    · rintro ⟨a, _, ha, ⟨m, k, hm, hk, rfl⟩, rfl⟩
      rcases hm with ⟨c, hc, rfl⟩ | rfl
      · simp only [Bool.or_eq_true, beq_iff_eq] at hc
        rcases hc with hc | hc <;> simp [ha, hk, hc]
      · simp [ha, hk]
    · intro hw
      have hsplit : ∀ m : List Char, w.map caseless = "api".toList ++ (m ++ "key".toList) →
          ∃ a mid k, a.map caseless = "api".toList ∧ mid.map caseless = m ∧ k.map caseless = "key".toList ∧
            w = a ++ (mid ++ k) := by
        intro m hm
        obtain ⟨a, rest, rfl, ha, hrest⟩ := List.map_eq_append_iff.1 hm
        obtain ⟨mid, k, rfl, hmid, hk⟩ := List.map_eq_append_iff.1 hrest
        exact ⟨a, mid, k, ha, hmid, hk, rfl⟩
      simp only [List.mem_cons, List.not_mem_nil, or_false] at hw
      rcases hw with hw | hw | hw
      · obtain ⟨a, mid, k, ha, hmid, hk, rfl⟩ := hsplit ['_'] hw
        obtain ⟨c, rfl, hc⟩ := List.map_eq_singleton_iff.1 hmid
        exact ⟨a, _, ha, ⟨[c], k, .inl ⟨c, by simp [hc], rfl⟩, hk, rfl⟩, rfl⟩
      · obtain ⟨a, mid, k, ha, hmid, hk, rfl⟩ := hsplit ['-'] hw
        obtain ⟨c, rfl, hc⟩ := List.map_eq_singleton_iff.1 hmid
        exact ⟨a, _, ha, ⟨[c], k, .inl ⟨c, by simp [hc], rfl⟩, hk, rfl⟩, rfl⟩
      · obtain ⟨a, mid, k, ha, hmid, hk, rfl⟩ := hsplit [] hw
        exact ⟨a, _, ha, ⟨mid, k, .inr (List.map_eq_nil_iff.1 hmid), hk, rfl⟩, rfl⟩
  simp only [secretKey, Regex.matches_anyOf, List.exists_mem_cons_iff, hapi, SensitiveKey, sensitiveKeys]
  simp [keyword, Regex.matches_word]
  tauto

theorem key_unique {key' : List Char} (h : SensitiveKey key) (h' : SensitiveKey key')
    (heq : key ++ x = key' ++ y) : key = key' ∧ x = y := by
  have hfree : ∀ a ∈ sensitiveKeys, ∀ b ∈ sensitiveKeys, a <+: b → a = b := by decide
  have hlen : key.length = key'.length := by
    rcases List.append_eq_append_iff.1 heq with ⟨a, rfl, -⟩ | ⟨a, rfl, -⟩
    · simpa using congrArg List.length (hfree _ h _ h' ⟨a.map caseless, by simp⟩)
    · simpa using congrArg List.length (hfree _ h' _ h ⟨a.map caseless, by simp⟩).symm
  exact List.append_inj heq hlen

theorem caseless_space (h : isSpace c = true) : caseless c = c := by
  simp only [isSpace, Bool.or_eq_true, decide_eq_true_eq, beq_iff_eq] at h
  exact caseless_eq_self (by omega) (by omega)

theorem key_solid (h : SensitiveKey key) (hc : c ∈ key) : isSpace c = false ∧ c ≠ '@' := by
  have hall : ∀ k ∈ sensitiveKeys, k.all (fun d ↦ isSpace d = false ∧ d ≠ '@') := by decide
  have hd := List.all_iff_forall_prop.1 (hall _ h) _ (List.mem_map_of_mem hc)
  constructor
  · cases hs : isSpace c with
    | false => rfl
    | true =>
      rw [caseless_space hs] at hd
      exact hs ▸ hd.1
  · rintro rfl
    exact hd.2 (by decide)

theorem schemeChar_solid (h : isSchemeChar c = true) : isSpace c = false ∧ c ≠ '@' ∧ c ≠ ':' := by
  refine ⟨?_, ?_, ?_⟩
  · by_contra hspace
    have hs : isSpace c = true := by simpa using hspace
    have hval : c.val.toNat = c.toNat := rfl
    simp only [isSchemeChar, isLetter, caseless_space hs, Bool.or_eq_true, decide_eq_true_eq, beq_iff_eq,
      Char.isDigit, Bool.and_eq_true, Char.le_def, UInt32.le_iff_toNat_le, hval, ge_iff_le,
      show 'a'.val.toNat = 97 from rfl, show 'z'.val.toNat = 122 from rfl,
      show '0'.val.toNat = 48 from rfl, show '9'.val.toNat = 57 from rfl] at h
    have hcodes := hs
    simp only [isSpace, Bool.or_eq_true, decide_eq_true_eq, beq_iff_eq] at hcodes
    rcases h with (((h | h) | rfl) | rfl) | rfl
    · omega
    · omega
    · exact absurd hs (by decide)
    · exact absurd hs (by decide)
    · exact absurd hs (by decide)
  · rintro rfl
    exact absurd h (by decide)
  · rintro rfl
    exact absurd h (by decide)

theorem letter_schemeChar (h : isLetter c = true) : isSchemeChar c = true := by simp [isSchemeChar, h]

/-- What begins with a space, or is empty, begins behind a part without spaces. -/
theorem length_le_of_stop (hspace : ∀ c ∈ x, isSpace c = false) (h : x ++ y = w ++ t)
    (ht : t = [] ∨ ∃ c z, t = c :: z ∧ isSpace c = true) : t.length ≤ y.length := by
  rcases List.append_eq_append_iff.1 h with ⟨z, -, rfl⟩ | ⟨z, rfl, rfl⟩
  · simp
  · cases z with
    | nil => simp
    | cons d z =>
      rcases ht with ht | ⟨c, x', ht, hc⟩
      · simp at ht
      · obtain rfl := (List.cons.inj ht).1
        exact absurd (hspace d (by simp)) (by simp [hc])

/-- `key = value` or `key: value`. -/
structure Assignment where
  key : List Char
  gap : List Char
  separator : Char
  gap' : List Char
  value : List Char
  key_sensitive : SensitiveKey key
  gap_space : ∀ c ∈ gap, isSpace c = true
  isSeparator_separator : isSeparator separator = true
  gap'_space : ∀ c ∈ gap', isSpace c = true
  value_ne : value ≠ []
  value_solid : ∀ c ∈ value, isSpace c = false

/-- `scheme://user:password@`. -/
structure UserInfo where
  initial : Char
  scheme : List Char
  user : List Char
  password : List Char
  isLetter_initial : isLetter initial = true
  scheme_chars : ∀ c ∈ scheme, isSchemeChar c = true
  user_ne : user ≠ []
  user_chars : ∀ c ∈ user, isUserChar c = true
  password_ne : password ≠ []
  password_chars : ∀ c ∈ password, isPasswordChar c = true

namespace Assignment

def lead (a : Assignment) : List Char := a.key ++ (a.gap ++ a.separator :: a.gap')

def text (a : Assignment) : List Char := a.lead ++ a.value

def Attached (a : Assignment) : Prop := a.gap = [] ∧ a.gap' = []

theorem separator_solid (h : isSeparator c = true) : isSpace c = false ∧ c ≠ '@' := by
  simp only [isSeparator, Bool.or_eq_true, beq_iff_eq] at h
  rcases h with rfl | rfl <;> decide

theorem matches_text (a : Assignment) : keyValue.Matches a.text := by
  refine ⟨a.key, _, matches_secretKey.2 a.key_sensitive, ⟨a.gap, _, a.gap_space,
    ⟨[a.separator], _, ⟨_, a.isSeparator_separator, rfl⟩, ⟨a.gap', a.value, a.gap'_space,
      Regex.matches_some.2 ⟨a.value_ne, fun c hc ↦ by simp [a.value_solid c hc]⟩, rfl⟩, rfl⟩, rfl⟩, ?_⟩
  simp [text, lead]

theorem length_le {a a' : Assignment} (h : a.text ++ y = a'.text ++ t)
    (ht : t = [] ∨ ∃ c x, t = c :: x ∧ isSpace c = true) : t.length ≤ y.length := by
  simp only [text, lead, List.append_assoc, List.cons_append] at h
  obtain ⟨-, h⟩ := key_unique a.key_sensitive a'.key_sensitive h
  obtain ⟨-, -, h⟩ := run_unique a.gap_space a'.gap_space (separator_solid a.isSeparator_separator).1
    (separator_solid a'.isSeparator_separator).1 h
  obtain ⟨d, v, hv⟩ := List.exists_cons_of_ne_nil a.value_ne
  obtain ⟨d', v', hv'⟩ := List.exists_cons_of_ne_nil a'.value_ne
  rw [hv, hv'] at h
  obtain ⟨-, -, h⟩ := run_unique a.gap'_space a'.gap'_space (a.value_solid d (by simp [hv]))
    (a'.value_solid d' (by simp [hv'])) h
  exact length_le_of_stop (fun c hc ↦ a.value_solid c (by simp [hv, hc])) h ht

theorem attached_solid (a : Assignment) (h : a.Attached) (hat : '@' ∉ a.value) :
    ∀ c ∈ a.text, isSpace c = false ∧ c ≠ '@' := by
  obtain ⟨hgap, hgap'⟩ := h
  intro c hc
  simp only [text, lead, hgap, hgap', List.nil_append, List.mem_append, List.mem_cons, List.not_mem_nil,
    or_false] at hc
  rcases hc with (hc | rfl) | hc
  · exact key_solid a.key_sensitive hc
  · exact separator_solid a.isSeparator_separator
  · exact ⟨a.value_solid c hc, fun h ↦ hat (h ▸ hc)⟩

end Assignment

namespace UserInfo

def lead (u : UserInfo) : List Char := u.initial :: u.scheme ++ "://".toList

def credential (u : UserInfo) : List Char := u.user ++ ':' :: u.password

def text (u : UserInfo) : List Char := u.lead ++ (u.credential ++ ['@'])

theorem matches_text (u : UserInfo) : connection.Matches u.text := by
  refine ⟨[u.initial], _, ⟨_, u.isLetter_initial, rfl⟩, ⟨u.scheme, _, u.scheme_chars,
    ⟨"://".toList, _, Regex.matches_word.2 (by simp), ⟨u.user, _,
      Regex.matches_some.2 ⟨u.user_ne, u.user_chars⟩, ⟨[':'], _, Regex.matches_word.2 (by simp),
        ⟨u.password, ['@'], Regex.matches_some.2 ⟨u.password_ne, u.password_chars⟩,
          Regex.matches_word.2 (by simp), rfl⟩, rfl⟩, rfl⟩, rfl⟩, rfl⟩, ?_⟩
  simp [text, lead, credential]

theorem rest_unique {u u' : UserInfo} (h : u.text ++ y = u'.text ++ t) : y = t := by
  have hcolon : isSchemeChar ':' = false := by decide
  have huser : isUserChar ':' = false := by decide
  have hat : isPasswordChar '@' = false := by decide
  simp only [text, lead, credential, List.append_assoc, List.cons_append] at h
  obtain ⟨-, -, h⟩ := run_unique u.scheme_chars u'.scheme_chars hcolon hcolon (List.cons.inj h).2
  obtain ⟨-, -, h⟩ := run_unique u.user_chars u'.user_chars huser huser
    (List.cons.inj (List.cons.inj h).2).2
  exact (run_unique u.password_chars u'.password_chars hat hat h).2.2

theorem solid (u : UserInfo) (hc : c ∈ u.lead ++ u.credential) :
    isSpace c = false ∧ (c = '@' → c ∈ u.user) := by
  have hscheme : ∀ d, isSchemeChar d = true → isSpace d = false ∧ (d = '@' → d ∈ u.user) :=
    fun d hd ↦ ⟨(schemeChar_solid hd).1, fun h ↦ absurd h (schemeChar_solid hd).2.1⟩
  have huser : isUserChar c = true → isSpace c = false := by simp [isUserChar]
  have hpassword : isPasswordChar c = true → isSpace c = false ∧ c ≠ '@' := by simp +contextual [isPasswordChar]
  simp only [lead, credential, List.mem_append, List.mem_cons] at hc
  rcases hc with ((rfl | hc) | hc) | (hc | rfl | hc)
  · exact hscheme _ (letter_schemeChar u.isLetter_initial)
  · exact hscheme c (u.scheme_chars c hc)
  · have hslash : ∀ d ∈ "://".toList, isSpace d = false ∧ d ≠ '@' := List.all_iff_forall_prop.1 (by decide)
    have hslash := hslash c hc
    exact ⟨hslash.1, fun h ↦ absurd h hslash.2⟩
  · exact ⟨huser (u.user_chars c hc), fun _ ↦ hc⟩
  · exact ⟨by decide, fun h ↦ absurd h (by decide)⟩
  · have hchar := hpassword (u.password_chars c hc)
    exact ⟨hchar.1, fun h ↦ absurd h hchar.2⟩

theorem text_solid (u : UserInfo) : ∀ c ∈ u.text, isSpace c = false := by
  intro c hc
  rw [text, ← List.append_assoc, List.mem_append, List.mem_singleton] at hc
  rcases hc with hc | rfl
  · exact (u.solid hc).1
  · decide

theorem at_last (u : UserInfo) (hat : '@' ∉ u.user) (h : u.text = x ++ '@' :: y) : y = [] := by
  have hnot : '@' ∉ u.lead ++ u.credential := fun h ↦ hat ((u.solid h).2 rfl)
  rw [text, ← List.append_assoc] at h
  rcases List.append_eq_append_iff.1 h with ⟨z, -, hz⟩ | ⟨z, hz, hy⟩
  · have hlen := congrArg List.length hz
    simp only [List.length_append, List.length_cons, List.length_nil] at hlen
    exact List.eq_nil_of_length_eq_zero (by omega)
  · cases z with
    | nil => simpa using hy
    | cons d z =>
      obtain rfl := (List.cons.inj hy).1
      exact absurd (by simp [hz]) hnot

end UserInfo

end AdminPlatform.ScheduledTask.Redaction
