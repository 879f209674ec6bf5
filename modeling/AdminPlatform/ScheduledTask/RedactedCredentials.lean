import AdminPlatform.ScheduledTask.Redaction

namespace AdminPlatform.ScheduledTask.RedactedCredentials

open Foundation.Patterns Cron Executor Redaction

variable {x y s t w : List Char}

theorem dropWhile_solid (h : t = w.dropWhile fun c ↦ !isSpace c) :
    t = [] ∨ ∃ c x, t = c :: x ∧ isSpace c = true := by
  cases t with
  | nil => exact .inl rfl
  | cons c x =>
    have hhead := List.head?_dropWhile_not (fun c ↦ !isSpace c) w
    rw [← h] at hhead
    exact .inr ⟨c, x, rfl, by simpa using hhead⟩

theorem keyValue_first (h : keyValue.first s = some t) :
    ∃ a : Assignment, s = a.text ++ t ∧ (t = [] ∨ ∃ c x, t = c :: x ∧ isSpace c = true) := by
  obtain ⟨x₁, ⟨key, hkey, rfl⟩, h₁⟩ := Regex.first_seq h
  obtain ⟨x₂, ⟨gap, hgap, rfl⟩, h₂⟩ := Regex.first_seq h₁
  obtain ⟨x₃, ⟨_, ⟨separator, hsep, rfl⟩, rfl⟩, h₃⟩ := Regex.first_seq h₂
  obtain ⟨x₄, ⟨gap', hgap', rfl⟩, h₄⟩ := Regex.first_seq h₃
  obtain ⟨d, w, rfl, hd, ht⟩ := Regex.first_some h₄
  have hw : ∀ c ∈ w.takeWhile fun c ↦ !isSpace c, isSpace c = false :=
    fun c hc ↦ by simpa using List.mem_takeWhile_imp hc
  refine ⟨⟨key, gap, separator, gap', d :: w.takeWhile fun c ↦ !isSpace c, matches_secretKey.1 hkey, hgap,
    hsep, hgap', by simp, ?_⟩, ?_, dropWhile_solid ht⟩
  · intro c hc
    rcases List.mem_cons.1 hc with rfl | hc
    · simpa using hd
    · exact hw c hc
  · simp [Assignment.text, Assignment.lead, ht, List.takeWhile_append_dropWhile]

theorem connection_first (h : connection.first s = some t) : ∃ u : UserInfo, s = u.text ++ t := by
  obtain ⟨w, ⟨_, _, ⟨initial, hinitial, rfl⟩, ⟨scheme, _, hscheme, ⟨colon, _, hcolon, ⟨user, _, huser,
    ⟨mid, _, hmid, ⟨password, last, hpassword, hlast, rfl⟩, rfl⟩, rfl⟩, rfl⟩, rfl⟩, rfl⟩, rfl⟩ :=
    Regex.first_matches h
  have huser := Regex.matches_some.1 huser
  have hpassword := Regex.matches_some.1 hpassword
  refine ⟨⟨initial, scheme, user, password, hinitial, hscheme, huser.1, huser.2, hpassword.1,
    hpassword.2⟩, ?_⟩
  have hcolon : colon = "://".toList := by simpa using Regex.matches_word.1 hcolon
  have hmid : mid = ":".toList := by simpa using Regex.matches_word.1 hmid
  have hlast : last = "@".toList := by simpa using Regex.matches_word.1 hlast
  simp [UserInfo.text, UserInfo.lead, UserInfo.credential, hcolon, hmid, hlast]

/-- A match ends at a space, at the end of the text or behind an `@`. -/
theorem match_end (h : _SECRET_PATTERN.first s = some t) :
    ∃ w, w ≠ [] ∧ s = w ++ t ∧ (t = [] ∨ (∃ c x, t = c :: x ∧ isSpace c = true) ∨ ∃ v, w = v ++ ['@']) := by
  rcases Regex.first_alt h with h | h
  · obtain ⟨a, rfl, hend⟩ := keyValue_first h
    refine ⟨a.text, ?_, rfl, hend.imp_right .inl⟩
    simp [Assignment.text, Assignment.lead]
  · obtain ⟨u, rfl⟩ := connection_first h
    refine ⟨u.text, ?_, rfl, .inr (.inr ⟨u.lead ++ u.credential, by simp [UserInfo.text]⟩)⟩
    simp [UserInfo.text, UserInfo.lead]

/-- No match that reaches into a part without spaces, whose `@` can only stand last, ends inside. -/
theorem closed_of_solid (hspace : ∀ c ∈ x, isSpace c = false) (hat : ∀ u v, x = u ++ '@' :: v → v = [])
    (b : List Char) (h : _SECRET_PATTERN.first (b ++ (x ++ y)) = some t)
    (hlen : t.length < (x ++ y).length) : t.length ≤ y.length := by
  by_contra hlt
  obtain ⟨w, -, hw, hend⟩ := match_end h
  have hbw : b.length < w.length := by
    have := congrArg List.length hw
    simp only [List.length_append] at this hlen
    omega
  obtain ⟨x₁, rfl, hx⟩ : ∃ x₁, w = b ++ x₁ ∧ x ++ y = x₁ ++ t := by
    rcases List.append_eq_append_iff.1 hw with ⟨x₁, rfl, hx⟩ | ⟨x₁, rfl, -⟩
    · exact ⟨x₁, rfl, hx⟩
    · simp only [List.length_append] at hbw
      omega
  rcases or_assoc.2 hend with hend | ⟨v, hv⟩
  · exact hlt (length_le_of_stop hspace hx hend)
  · obtain ⟨x₀, e, rfl⟩ : ∃ x₀ e, x₁ = x₀ ++ [e] := by
      have hx₁ : x₁ ≠ [] := by
        rintro rfl
        simp at hbw
      exact ⟨_, _, (List.dropLast_append_getLast hx₁).symm⟩
    obtain rfl : e = '@' := by
      rw [← List.append_assoc] at hv
      exact List.singleton_inj.1 (List.append_inj_right' hv rfl)
    rcases List.append_eq_append_iff.1 hx with ⟨z, -, rfl⟩ | ⟨z, rfl, rfl⟩
    · exact hlt (by simp)
    · obtain rfl := hat x₀ z (by simp)
      exact hlt (by simp)

/-- A value is replaced, if its key does not begin inside an earlier match, or if the value without an
`@` follows its key directly. -/
theorem value_replaced (a : Assignment) (before after : List Char)
    (h : ¬ _SECRET_PATTERN.Covered (before ++ (a.text ++ after)) before.length ∨
      (a.Attached ∧ '@' ∉ a.value)) {i : ℕ} (hi : i < a.value.length) :
    ¬ _SECRET_PATTERN.Copied (before ++ (a.text ++ after)) (before.length + (a.lead.length + i)) := by
  have hlen : a.text.length = a.lead.length + a.value.length := List.length_append
  obtain ⟨t, hkey⟩ := Regex.first_of_matches (v := after) a.matches_text
  have hfirst : _SECRET_PATTERN.first (a.text ++ after) = some t := Regex.first_alt_left hkey
  obtain ⟨a', htext, hend⟩ := keyValue_first hkey
  have hle := Assignment.length_le htext hend
  rcases h with h | ⟨hattached, hat⟩
  · refine Regex.not_copied_of_first h hfirst ?_
    simp only [List.length_append] at hlen ⊢
    omega
  · have hsolid := a.attached_solid hattached hat
    refine Regex.not_copied_of_closed hfirst ?_
      (fun b t ↦ closed_of_solid (fun c hc ↦ (hsolid c hc).1) ?_ b) (by omega) before
    · simp only [List.length_append] at hlen ⊢
      omega
    · intro u v huv
      exact absurd rfl (hsolid '@' (by simp [huv])).2

/-- The user and the password are replaced, if the scheme does not begin inside an earlier match, or if
the user holds no `@`. -/
theorem connection_replaced (u : UserInfo) (before after : List Char)
    (h : ¬ _SECRET_PATTERN.Covered (before ++ (u.text ++ after)) before.length ∨ '@' ∉ u.user)
    {i : ℕ} (hi : i < u.credential.length) :
    ¬ _SECRET_PATTERN.Copied (before ++ (u.text ++ after)) (before.length + (u.lead.length + i)) := by
  have hlen : u.text.length = u.lead.length + (u.credential.length + 1) := by
    simp [UserInfo.text]
  have hmatch : _SECRET_PATTERN.Matches u.text := .inr u.matches_text
  obtain ⟨t, hfirst⟩ := Regex.first_of_matches (v := after) hmatch
  have hle : t.length ≤ after.length := by
    rcases Regex.first_alt hfirst with hkey | hurl
    · obtain ⟨a, htext, hend⟩ := keyValue_first hkey
      exact length_le_of_stop u.text_solid htext hend
    · obtain ⟨u', htext⟩ := connection_first hurl
      exact (UserInfo.rest_unique htext).symm ▸ le_rfl
  rcases h with h | hat
  · refine Regex.not_copied_of_first h hfirst ?_
    simp only [List.length_append] at hlen ⊢
    omega
  · refine Regex.not_copied_of_closed hfirst ?_
      (fun b t ↦ closed_of_solid u.text_solid ?_ b) (by omega) before
    · simp only [List.length_append] at hlen ⊢
      omega
    · exact fun v w ↦ u.at_last hat

def redacting (env : Environment) : Environment := { env with redact := _redact }

/-- Where a text holds a credential: what stands before it, the credential, what stands behind it. -/
inductive Credential : List Char → List Char → List Char → Prop
  | assignment (before after : List Char) (a : Assignment) : Credential (before ++ a.lead) a.value after
  | header (before gap token after : List Char) (a : Assignment) :
    a.key.map caseless = "authorization".toList → a.separator = ':' →
    gap ≠ [] → (∀ c ∈ gap, isSpace c = true) → token ≠ [] → (∀ c ∈ token, isSpace c = false) →
    Credential (before ++ (a.text ++ gap)) token after
  | jsonMember (before key gap value after : List Char) : SensitiveKey key → (∀ c ∈ gap, isSpace c = true) →
    value ≠ [] → '"' ∉ value →
    Credential (before ++ '"' :: (key ++ '"' :: ':' :: (gap ++ ['"']))) value ('"' :: after)
  | userInfo (before after : List Char) (u : UserInfo) :
    Credential (before ++ u.lead) u.credential ('@' :: after)
  | noUser (before scheme password after : List Char) : scheme ≠ [] → (∀ c ∈ scheme, isSchemeChar c = true) →
    password ≠ [] → (∀ c ∈ password, isPasswordChar c = true) →
    Credential (before ++ (scheme ++ "://:".toList)) password ('@' :: after)

section Example

def minuteEnv : Environment where
  cron := everyMinuteLibrary
  registry _ := some ⟨none, true⟩
  keys := "['noop']"
  redact := id

def bearer : Assignment where
  key := "Authorization".toList
  gap := []
  separator := ':'
  gap' := [' ']
  value := "Bearer".toList
  key_sensitive := by decide
  gap_space := List.all_iff_forall_prop.1 (by decide)
  isSeparator_separator := by decide
  gap'_space := List.all_iff_forall_prop.1 (by decide)
  value_ne := by decide
  value_solid := List.all_iff_forall_prop.1 (by decide)

def spacedPassword : Assignment where
  key := "password".toList
  gap := []
  separator := ':'
  gap' := [' ']
  value := "abc".toList
  key_sensitive := by decide
  gap_space := List.all_iff_forall_prop.1 (by decide)
  isSeparator_separator := by decide
  gap'_space := List.all_iff_forall_prop.1 (by decide)
  value_ne := by decide
  value_solid := List.all_iff_forall_prop.1 (by decide)

def attachedPassword : Assignment where
  key := "password".toList
  gap := []
  separator := '='
  gap' := []
  value := "ab@cd".toList
  key_sensitive := by decide
  gap_space := List.all_iff_forall_prop.1 (by decide)
  isSeparator_separator := by decide
  gap'_space := List.all_iff_forall_prop.1 (by decide)
  value_ne := by decide
  value_solid := List.all_iff_forall_prop.1 (by decide)

def nestedUser : UserInfo where
  initial := 'x'
  scheme := []
  user := "u@v".toList
  password := "p".toList
  isLetter_initial := by decide
  scheme_chars := List.all_iff_forall_prop.1 (by decide)
  user_ne := by decide
  user_chars := List.all_iff_forall_prop.1 (by decide)
  password_ne := by decide
  password_chars := List.all_iff_forall_prop.1 (by decide)

def dsn : UserInfo where
  initial := 'm'
  scheme := "ysql".toList
  user := "app".toList
  password := "p4ss".toList
  isLetter_initial := by decide
  scheme_chars := List.all_iff_forall_prop.1 (by decide)
  user_ne := by decide
  user_chars := List.all_iff_forall_prop.1 (by decide)
  password_ne := by decide
  password_chars := List.all_iff_forall_prop.1 (by decide)

end Example

end AdminPlatform.ScheduledTask.RedactedCredentials
