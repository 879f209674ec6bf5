import AdminPlatform.Core.IntegrityErrors

namespace AdminPlatform.Core.DuplicateText

open Foundation.Patterns Foundation.Phrases Foundation.AsciiChars IntegrityErrors

def isPlain (c : Char) : Bool := c.isLower || c.isDigit || c == '_'

/-- A unique constraint of a table and its registration. -/
structure UniqueConstraint where
  table : Text
  name : Text
  code : String
  title : String
  table_plain : ∀ c ∈ table, isPlain c = true
  name_plain : ∀ c ∈ name, isPlain c = true

def UniqueConstraint.key (k : UniqueConstraint) : Text := k.table ++ '.' :: k.name

def entry : Text := "Duplicate entry ".toList

def forKey : Text := " for key ".toList

def duplicateText (k : UniqueConstraint) (value : Text) : Text :=
  entry ++ '\'' :: (value ++ '\'' :: (forKey ++ '\'' :: (k.key ++ ['\''])))

def duplicateError (k : UniqueConstraint) (value : Text) : DriverError where
  args := [.int 1062, .str (duplicateText k value)]
  constraintName := none

variable (printable : Char → Bool)

def written (value : Text) : Text :=
  value.flatMap (reprChar printable (if '"' ∈ value then '\'' else '"'))

variable {printable} {k : UniqueConstraint} {value s : Text} {c q : Char}

def Ordinary (q c : Char) : Prop := 0x20 ≤ c.toNat ∧ c.toNat < 0x7f ∧ c ≠ q ∧ c ≠ '\\'

instance (q c : Char) : Decidable (Ordinary q c) := inferInstanceAs (Decidable (_ ∧ _))

theorem reprChar_ordinary (h : Ordinary q c) : reprChar printable q c = [c] := by
  obtain ⟨hlow, hhigh, hq, hb⟩ := h
  have htab : c ≠ '\t' := fun h ↦ by simp [h] at hlow
  have hnewline : c ≠ '\n' := fun h ↦ by simp [h] at hlow
  have hreturn : c ≠ '\r' := fun h ↦ by simp [h] at hlow
  rw [reprChar, if_neg (by simp [hq, hb]), if_neg htab, if_neg hnewline, if_neg hreturn, if_neg (by omega),
    if_pos hhigh]

theorem flatMap_ordinary (h : ∀ c ∈ s, Ordinary q c) : s.flatMap (reprChar printable q) = s := by
  induction s with
  | nil => rfl
  | cons c s ih =>
    rw [List.flatMap_cons, reprChar_ordinary (h c (by simp)), ih fun d hd ↦ h d (by simp [hd])]
    rfl

theorem toNat_of_isPlain (h : isPlain c = true) :
    97 ≤ c.toNat ∧ c.toNat ≤ 122 ∨ 48 ≤ c.toNat ∧ c.toNat ≤ 57 ∨ c.toNat = 95 := by
  simp only [isPlain, Bool.or_eq_true, beq_iff_eq, isLower_iff, isDigit_iff] at h
  rcases h with (h | h) | rfl
  · exact .inl h
  · exact .inr (.inl h)
  · exact .inr (.inr rfl)

theorem ordinary_of_isPlain (hq : q = '"' ∨ q = '\'') (h : isPlain c = true) : Ordinary q c := by
  have hcode := toNat_of_isPlain h
  have hne : ∀ d : Char, d.toNat < 48 ∨ d.toNat = 92 → c ≠ d := by
    rintro d hd rfl
    omega
  refine ⟨by omega, by omega, hne q ?_, hne _ (by decide)⟩
  rcases hq with rfl | rfl <;> decide

theorem not_isQuote_of_isPlain (h : isPlain c = true) : isQuote c = false := by
  have hcode := toNat_of_isPlain h
  by_contra hquote
  simp only [isQuote, Bool.not_eq_false, Bool.or_eq_true, beq_iff_eq] at hquote
  rcases hquote with (rfl | rfl) | rfl <;> simp at hcode

theorem UniqueConstraint.mem_key (hc : c ∈ k.key) : isPlain c = true ∨ c = '.' := by
  rw [key, List.mem_append, List.mem_cons] at hc
  rcases hc with hc | hc | hc
  · exact .inl (k.table_plain c hc)
  · exact .inr hc
  · exact .inl (k.name_plain c hc)

theorem UniqueConstraint.key_ordinary (hq : q = '"' ∨ q = '\'') : ∀ c ∈ k.key, Ordinary q c := by
  intro c hc
  rcases mem_key hc with hc | rfl
  · exact ordinary_of_isPlain hq hc
  · rcases hq with rfl | rfl <;> decide

theorem UniqueConstraint.key_unquoted : ∀ c ∈ k.key, isQuote c = false := by
  intro c hc
  rcases mem_key hc with hc | rfl
  · exact not_isQuote_of_isPlain hc
  · decide

theorem doubleQuote_mem : '"' ∈ duplicateText k value ↔ '"' ∈ value := by
  have hkey : '"' ∉ k.key := fun h ↦ absurd (k.key_unquoted _ h) (by decide)
  have hentry : '"' ∉ entry := by decide
  have hforKey : '"' ∉ forKey := by decide
  simp [duplicateText, hkey, hentry, hforKey]

def opening : Text := "(1062, ".toList

theorem text_duplicateError : (duplicateError k value).text printable =
    opening ++ (reprText printable (duplicateText k value) ++ [')']) := by
  have hcode : (toString 1062).toList ++ [',', ' '] = "1062, ".toList := by decide
  have hopening : opening = '(' :: "1062, ".toList := by decide
  simp [DriverError.text, duplicateError, Arg.repr, hopening, ← hcode]

/-- Without a double quote the value stands between the single quotes of the message. -/
theorem text_of_unquoted (hv : '"' ∉ value) : (duplicateError k value).text printable =
    opening ++ '"' :: (entry ++ '\'' :: (written printable value ++
      '\'' :: (forKey ++ '\'' :: (k.key ++ ['\'', '"', ')'])))) := by
  have hquote : reprQuote (duplicateText k value) = '"' := by
    rw [reprQuote, if_pos ⟨by simp [duplicateText], fun h ↦ hv (doubleQuote_mem.1 h)⟩]
  have hentry : ∀ c ∈ entry, Ordinary '"' c := List.all_iff_forall_prop.1 (by decide)
  have hforKey : ∀ c ∈ forKey, Ordinary '"' c := List.all_iff_forall_prop.1 (by decide)
  have hsingle : reprChar printable '"' '\'' = ['\''] := reprChar_ordinary (by decide)
  rw [text_duplicateError, reprText, hquote, duplicateText]
  simp only [List.flatMap_append, List.flatMap_cons, flatMap_ordinary hentry, flatMap_ordinary hforKey, hsingle,
    flatMap_ordinary (k.key_ordinary (.inl rfl)), List.flatMap_nil, written, if_neg hv]
  simp

/-- With one, every single quote of the message is escaped. -/
theorem text_of_quoted (hv : '"' ∈ value) : (duplicateError k value).text printable =
    opening ++ '\'' :: (entry ++ '\\' :: '\'' :: (written printable value ++
      '\\' :: '\'' :: (forKey ++ '\\' :: '\'' :: (k.key ++ ['\\', '\'', '\'', ')'])))) := by
  have hquote : reprQuote (duplicateText k value) = '\'' := by
    rw [reprQuote, if_neg fun h ↦ h.2 (doubleQuote_mem.2 hv)]
  have hentry : ∀ c ∈ entry, Ordinary '\'' c := List.all_iff_forall_prop.1 (by decide)
  have hforKey : ∀ c ∈ forKey, Ordinary '\'' c := List.all_iff_forall_prop.1 (by decide)
  have hsingle : reprChar printable '\'' '\'' = ['\\', '\''] := rfl
  rw [text_duplicateError, reprText, hquote, duplicateText]
  simp only [List.flatMap_append, List.flatMap_cons, flatMap_ordinary hentry, flatMap_ordinary hforKey, hsingle,
    flatMap_ordinary (k.key_ordinary (.inr rfl)), List.flatMap_nil, written, if_pos hv]
  simp

end AdminPlatform.Core.DuplicateText
