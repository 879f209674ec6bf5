import AdminPlatform.Core.DuplicateText

namespace AdminPlatform.Core.DuplicateKeys

open Foundation.Patterns Foundation.Phrases IntegrityErrors DuplicateText

variable {printable : Char → Bool} {k : UniqueConstraint} {value s : Text} {c : Char}

def keyWord : Text := "for key ".toList

def close : Text := '\'' :: (forKey ++ ['\''])

theorem isQuote_keyWord (h : isQuote c = true) : caseless c ∉ keyWord := by
  simp only [isQuote, Bool.or_eq_true, beq_iff_eq] at h
  rcases h with (rfl | rfl) | rfl <;> decide

theorem key_skip {u x : Text} (hu : ∀ c ∈ u, caseless c ≠ 'f') :
    _MYSQL_KEY_RE (u ++ x) = _MYSQL_KEY_RE x := by
  have hword : "for key ".toList = 'f' :: "or key ".toList := by decide
  rw [_MYSQL_KEY_RE, hword]
  exact search_skip fun c hc s ↦ quoted_cons_of_ne (hu c hc) s

/-- The key of the message is found behind what the value spells. -/
theorem key_of_unquoted (u value z : Text) (hu : ∀ c ∈ u, caseless c ≠ 'f') :
    _MYSQL_KEY_RE (u ++ (value ++ (close ++ (k.key ++ '\'' :: z)))) =
      (_MYSQL_KEY_RE (value ++ close)).or (some k.key) := by
  have hclose : _MYSQL_KEY_RE close = none := by decide
  have hfind : _MYSQL_KEY_RE (close ++ (k.key ++ '\'' :: z)) = some k.key := by
    have hsplit : close ++ (k.key ++ '\'' :: z) =
        ['\'', ' '] ++ 'f' :: ("or key '".toList ++ (k.key ++ '\'' :: z)) := by
      have : close = ['\'', ' ', 'f'] ++ "or key '".toList := by decide
      simp only [this, List.cons_append, List.nil_append]
    rw [hsplit, key_skip (List.all_iff_forall_prop.1 (by decide)), _MYSQL_KEY_RE, search]
    have hfirst : quoted caseless "for key ".toList isQuote ('f' :: ("or key '".toList ++ (k.key ++ '\'' :: z))) =
        some k.key := by
      refine quoted_eq_some_iff.2 ⟨keyWord, '\'', '\'', z, by decide, by decide, by decide, ?_, k.key_unquoted, ?_⟩
      · simp [UniqueConstraint.key]
      · have : 'f' :: "or key '".toList = keyWord ++ ['\''] := by decide
        rw [← List.cons_append, this]
        simp
    rw [hfirst, Option.some_or]
  rw [key_skip hu]
  have hsearch := search_append (f := quoted caseless "for key ".toList isQuote) (u := value)
    (x := close ++ (k.key ++ '\'' :: z)) (y := close) ?_ hclose
  · rw [_MYSQL_KEY_RE] at hfind ⊢
    rw [hsearch, hfind]
  · intro v hne hv
    refine quoted_congr fun name ↦ ⟨fun h ↦ ?_, fun h ↦ ?_⟩
    · rw [← List.append_assoc] at h
      refine h.of_countP (fun c hc ↦ isQuote_keyWord hc) ?_
      have hcount : close.countP isQuote = 2 := by decide
      rw [List.countP_append, hcount]
      omega
    · rw [← List.append_assoc]
      exact h.append _

def escape : Text := ['\\', '\'']

theorem search_of_escaped {fold : Char → Char} {bs z : Text} (value : Text)
    (hbs : ∀ c, isQuote c = true → fold c ∉ bs) (hlast : bs.getLast? ≠ some (fold '\\'))
    (hrest : search (quoted fold bs isQuote) (escape ++ z) = none) :
    search (quoted fold bs isQuote) (value ++ (escape ++ z)) =
      search (quoted fold bs isQuote) (value ++ escape) := by
  have hescape : search (quoted fold bs isQuote) escape = none := by
    refine search_eq_none fun v hv ↦ quoted_eq_none fun name h ↦ ?_
    have hlen := h.two_lt_length
    have hle := hv.length_le
    simp only [escape, List.length_cons, List.length_nil] at hle
    omega
  rw [search_append (y := escape) ?_ hescape, hrest, Option.or_none]
  intro v _ _
  refine quoted_congr fun name ↦ ⟨fun h ↦ h.of_escaped hbs hlast (by decide) (by decide), fun h ↦ ?_⟩
  rw [← List.append_assoc]
  exact h.append _

/-- The escaped key of the message is not found. -/
theorem key_of_quoted (u value z : Text) (hu : ∀ c ∈ u, caseless c ≠ 'f') (hz : ∀ c ∈ z, caseless c ≠ ' ') :
    _MYSQL_KEY_RE (u ++ (value ++ (escape ++ (forKey ++ (escape ++ z))))) =
      _MYSQL_KEY_RE (value ++ escape) := by
  have hsplit : escape ++ (forKey ++ (escape ++ z)) =
      ['\\', '\'', ' '] ++ 'f' :: ("or key \\'".toList ++ z) := by
    have : escape ++ (forKey ++ escape) = ['\\', '\'', ' ', 'f'] ++ "or key \\'".toList := by decide
    have := congrArg (· ++ z) this
    simpa only [List.append_assoc, List.cons_append, List.nil_append] using this
  have hz' : _MYSQL_KEY_RE z = none := by
    refine search_eq_none fun v hv ↦ quoted_eq_none fun name ↦ ?_
    rintro ⟨w, q, q', y, hw, -, -, -, -, rfl⟩
    have hspace : ' ' ∈ w.map caseless := by
      rw [hw]
      decide
    obtain ⟨c, hc, hcase⟩ := List.mem_map.1 hspace
    exact hz c (hv.subset (by simp [hc])) hcase
  have hrest : _MYSQL_KEY_RE (escape ++ (forKey ++ (escape ++ z))) = none := by
    have hf : quoted caseless "for key ".toList isQuote ('f' :: ("or key \\'".toList ++ z)) = none := by
      refine quoted_eq_none fun name ↦ ?_
      rintro ⟨w, q, q', y, hw, hq, -, -, -, hs⟩
      have hword : 'f' :: "or key \\'".toList = keyWord ++ escape := by decide
      rw [← List.cons_append, hword, List.append_assoc] at hs
      have hlen : keyWord.length = w.length := by
        have hmap : (w.map caseless).length = keyWord.length := congrArg List.length hw
        rw [← hmap, List.length_map]
      obtain rfl := (List.cons.inj (List.append_inj hs hlen).2).1
      exact absurd hq (by decide)
    rw [hsplit, key_skip (List.all_iff_forall_prop.1 (by decide)), _MYSQL_KEY_RE, search, hf, Option.none_or]
    exact (key_skip (x := z) (List.all_iff_forall_prop.1 (by decide))).trans hz'
  rw [key_skip hu]
  exact search_of_escaped value (fun c hc ↦ isQuote_keyWord hc) (by decide) hrest

theorem constraint_skip {u x : Text} (hu : ∀ c ∈ u, c ≠ 'C') :
    _MYSQL_CONSTRAINT_RE (u ++ x) = _MYSQL_CONSTRAINT_RE x := by
  have hword : "CONSTRAINT ".toList = 'C' :: "ONSTRAINT ".toList := by decide
  rw [_MYSQL_CONSTRAINT_RE, hword]
  exact search_skip fun c hc s ↦ quoted_cons_of_ne (hu c hc) s

theorem constraint_of_quoted (u value z : Text) (hu : ∀ c ∈ u, c ≠ 'C') (hz : ∀ c ∈ z, c ≠ 'C') :
    _MYSQL_CONSTRAINT_RE (u ++ (value ++ (escape ++ z))) = _MYSQL_CONSTRAINT_RE (value ++ escape) := by
  have hbs : ∀ c, isQuote c = true → id c ∉ "CONSTRAINT ".toList := by
    intro c h
    simp only [isQuote, Bool.or_eq_true, beq_iff_eq] at h
    rcases h with (rfl | rfl) | rfl <;> decide
  have hrest : _MYSQL_CONSTRAINT_RE (escape ++ z) = none := by
    rw [constraint_skip (List.all_iff_forall_prop.1 (by decide)), ← List.append_nil z, constraint_skip hz]
    decide
  rw [constraint_skip hu]
  exact search_of_escaped value hbs (by decide) hrest

theorem named_skip {u x : Text} (hu : ∀ c ∈ u, c ≠ 'c') : _CONSTRAINT_RE (u ++ x) = _CONSTRAINT_RE x := by
  have hword : "constraint ".toList = 'c' :: "onstraint ".toList := by decide
  rw [_CONSTRAINT_RE, hword]
  exact search_skip fun c hc s ↦ quoted_cons_of_ne (hu c hc) s

theorem named_front (x : Text) :
    _CONSTRAINT_RE (opening ++ '\'' :: (entry ++ (escape ++ x))) = _CONSTRAINT_RE x := by
  have hsplit : opening ++ '\'' :: (entry ++ (escape ++ x)) =
      "(1062, 'Dupli".toList ++ 'c' :: ("ate entry \\'".toList ++ x) := by
    have : opening ++ '\'' :: (entry ++ escape) = "(1062, 'Dupli".toList ++ 'c' :: "ate entry \\'".toList := by
      decide
    have := congrArg (· ++ x) this
    simpa only [List.append_assoc, List.cons_append] using this
  have hc : quoted id "constraint ".toList isDoubleQuote ('c' :: ("ate entry \\'".toList ++ x)) = none := by
    refine quoted_eq_none fun name h ↦ ?_
    have hate : 'c' :: ("ate entry \\'".toList ++ x) = ['c', 'a'] ++ ("te entry \\'".toList ++ x) := by
      have : 'c' :: "ate entry \\'".toList = ['c', 'a'] ++ "te entry \\'".toList := by decide
      rw [← List.cons_append, this, List.append_assoc]
    rw [hate] at h
    exact absurd (h.begins (by decide)) (by decide)
  rw [hsplit, named_skip (List.all_iff_forall_prop.1 (by decide)), _CONSTRAINT_RE, search, hc, Option.none_or]
  exact named_skip (List.all_iff_forall_prop.1 (by decide))

theorem named_of_quoted (value z : Text) (hz : ∀ c ∈ z, isDoubleQuote c = false) :
    _CONSTRAINT_RE (opening ++ '\'' :: (entry ++ (escape ++ (value ++ (escape ++ z))))) =
      _CONSTRAINT_RE (value ++ escape) := by
  have hnone : ∀ s : Text, (∀ c ∈ s, isDoubleQuote c = false) → _CONSTRAINT_RE s = none := by
    intro s hs
    refine search_eq_none fun v hv ↦ quoted_eq_none fun name h ↦ ?_
    have hnil : Phrase id "constraint ".toList isDoubleQuote [] name :=
      Phrase.of_unquoted (x := []) h fun c hc ↦ hs c (hv.subset hc)
    simpa using hnil.two_lt_length
  have hrest : ∀ c ∈ escape ++ z, isDoubleQuote c = false := by
    intro c hc
    have hescape : ∀ c ∈ escape, isDoubleQuote c = false := List.all_iff_forall_prop.1 (by decide)
    rcases List.mem_append.1 hc with hc | hc
    · exact hescape c hc
    · exact hz c hc
  rw [named_front]
  have hsearch := search_append (f := quoted id "constraint ".toList isDoubleQuote) (u := value)
    (x := escape ++ z) (y := escape) ?_ (hnone escape (List.all_iff_forall_prop.1 (by decide)))
  · rw [_CONSTRAINT_RE, hsearch]
    have := hnone _ hrest
    rw [_CONSTRAINT_RE] at this
    rw [this, Option.or_none]
  · intro v _ _
    refine quoted_congr fun name ↦ ⟨fun h ↦ ?_, fun h ↦ ?_⟩
    · rw [← List.append_assoc] at h
      exact h.of_unquoted hz
    · rw [← List.append_assoc]
      exact h.append _

/-- The first `for key` with a quoted name in a text. -/
def KeyPhrase : Text → Text → Prop := Leftmost (Phrase caseless "for key ".toList isQuote)

/-- The first `CONSTRAINT` with a quoted name. -/
def ConstraintPhrase : Text → Text → Prop := Leftmost (Phrase id "CONSTRAINT ".toList isQuote)

/-- The first `constraint` with a name in double quotes. -/
def NamedPhrase : Text → Text → Prop := Leftmost (Phrase id "constraint ".toList isDoubleQuote)

theorem key_eq_some {name : Text} : _MYSQL_KEY_RE s = some name ↔ KeyPhrase s name :=
  search_eq_some_iff fun _ _ ↦ quoted_eq_some_iff

theorem constraint_eq_some {name : Text} : _MYSQL_CONSTRAINT_RE s = some name ↔ ConstraintPhrase s name :=
  search_eq_some_iff fun _ _ ↦ quoted_eq_some_iff

theorem named_eq_some {name : Text} : _CONSTRAINT_RE s = some name ↔ NamedPhrase s name :=
  search_eq_some_iff fun _ _ ↦ quoted_eq_some_iff

/-- A text that names a constraint by itself: in its first `for key`, else in its first `CONSTRAINT`, else
in its first `constraint`. -/
def Names (s name : Text) : Prop :=
  (∃ n, KeyPhrase s n ∧ lastPart n = name) ∨
    (∀ n, ¬ KeyPhrase s n) ∧ (ConstraintPhrase s name ∨ (∀ n, ¬ ConstraintPhrase s n) ∧ NamedPhrase s name)

/-- A value from whose message the name of its constraint comes back: without a double quote, if it spells
no `for key` that names something else; with one, if it names the constraint itself. -/
def Recoverable (printable : Char → Bool) (value name : Text) : Prop :=
  ('"' ∉ value ∧ ∀ n, KeyPhrase (written printable value ++ close) n → lastPart n = name) ∨
    ('"' ∈ value ∧ Names (written printable value ++ escape) name)

theorem lastPart_key (k : UniqueConstraint) : lastPart k.key = k.name := by
  have hname : ∀ c ∈ k.name.reverse, decide (c ≠ '.') = true := by
    intro c hc
    have hplain := k.name_plain c (List.mem_reverse.1 hc)
    have hdot : c ≠ '.' := by
      rintro rfl
      exact absurd hplain (by decide)
    simpa using hdot
  simp only [lastPart, UniqueConstraint.key, List.reverse_append, List.reverse_cons, List.append_assoc]
  rw [List.takeWhile_append_of_pos hname]
  simp

theorem extract_eq : _extractConstraintName printable (some (duplicateError k value)) =
    (((_MYSQL_KEY_RE ((duplicateError k value).text printable)).map lastPart).or
      (_MYSQL_CONSTRAINT_RE ((duplicateError k value).text printable))).or
        (_CONSTRAINT_RE ((duplicateError k value).text printable)) := rfl

theorem extract_of_unquoted (hv : '"' ∉ value) :
    _extractConstraintName printable (some (duplicateError k value)) =
      some (((_MYSQL_KEY_RE (written printable value ++ close)).map lastPart).getD k.name) := by
  have hsplit : (duplicateError k value).text printable = (opening ++ '"' :: (entry ++ ['\''])) ++
      (written printable value ++ (close ++ (k.key ++ '\'' :: ['"', ')']))) := by
    rw [text_of_unquoted hv]
    simp [close]
  have hkey := key_of_unquoted (k := k) (opening ++ '"' :: (entry ++ ['\''])) (written printable value)
    ['"', ')'] (List.all_iff_forall_prop.1 (by decide))
  rw [extract_eq, hsplit, hkey]
  cases hfound : _MYSQL_KEY_RE (written printable value ++ close) with
  | none => simp [lastPart_key]
  | some n => simp

theorem extract_of_quoted (hv : '"' ∈ value) :
    _extractConstraintName printable (some (duplicateError k value)) =
      (((_MYSQL_KEY_RE (written printable value ++ escape)).map lastPart).or
        (_MYSQL_CONSTRAINT_RE (written printable value ++ escape))).or
          (_CONSTRAINT_RE (written printable value ++ escape)) := by
  have hkeys : ∀ c ∈ k.key, caseless c ≠ ' ' ∧ c ≠ 'C' ∧ isDoubleQuote c = false := by
    intro c hc
    rcases UniqueConstraint.mem_key hc with hc | rfl
    · have hcode := toNat_of_isPlain hc
      have hself : caseless c = c := caseless_eq_self (by omega) (by omega)
      rw [hself]
      refine ⟨?_, ?_, ?_⟩
      · rintro rfl
        exact absurd hc (by decide)
      · rintro rfl
        exact absurd hc (by decide)
      · by_contra hquote
        obtain rfl : c = '"' := by simpa [isDoubleQuote] using hquote
        exact absurd hc (by decide)
    · decide
  have hlast : ∀ c ∈ ['\\', '\'', '\'', ')'], caseless c ≠ ' ' ∧ c ≠ 'C' ∧ isDoubleQuote c = false :=
    List.all_iff_forall_prop.1 (by decide)
  have hforKey : ∀ c ∈ forKey ++ escape, c ≠ 'C' ∧ isDoubleQuote c = false :=
    List.all_iff_forall_prop.1 (by decide)
  have htail : ∀ c ∈ k.key ++ ['\\', '\'', '\'', ')'],
      caseless c ≠ ' ' ∧ c ≠ 'C' ∧ isDoubleQuote c = false := by
    intro c hc
    exact (List.mem_append.1 hc).elim (hkeys c) (hlast c)
  have hrest : ∀ c ∈ forKey ++ (escape ++ (k.key ++ ['\\', '\'', '\'', ')'])),
      c ≠ 'C' ∧ isDoubleQuote c = false := by
    intro c hc
    rw [← List.append_assoc] at hc
    exact (List.mem_append.1 hc).elim (hforKey c) fun h ↦ (htail c h).2
  have hsplit : (duplicateError k value).text printable = (opening ++ '\'' :: (entry ++ escape)) ++
      (written printable value ++ (escape ++ (forKey ++ (escape ++ (k.key ++ ['\\', '\'', '\'', ')']))))) := by
    rw [text_of_quoted hv]
    simp [escape]
  have hnamed : opening ++ '\'' :: (entry ++ (escape ++
      (written printable value ++ (escape ++ (forKey ++ (escape ++ (k.key ++ ['\\', '\'', '\'', ')']))))))) =
      (duplicateError k value).text printable := by
    rw [hsplit]
    simp
  rw [extract_eq, ← named_of_quoted (written printable value) _ fun c hc ↦ (hrest c hc).2, hnamed, hsplit,
    key_of_quoted _ _ _ (List.all_iff_forall_prop.1 (by decide)) fun c hc ↦ (htail c hc).1,
    constraint_of_quoted _ _ _ (List.all_iff_forall_prop.1 (by decide)) fun c hc ↦ (hrest c hc).1]

theorem extract_iff : _extractConstraintName printable (some (duplicateError k value)) = some k.name ↔
    Recoverable printable value k.name := by
  by_cases hv : '"' ∈ value
  · have hnone : ∀ {f : Text → Option Text} {P : Text → Text → Prop} {t : Text},
        (∀ n, f t = some n ↔ P t n) → (f t = none ↔ ∀ n, ¬ P t n) := by
      intro f P t hf
      simp [← hf, Option.eq_none_iff_forall_ne_some]
    rw [extract_of_quoted hv, Option.or_assoc, Option.or_eq_some_iff, Option.or_eq_some_iff,
      Option.map_eq_some_iff, Option.map_eq_none_iff, hnone fun _ ↦ key_eq_some,
      hnone fun _ ↦ constraint_eq_some, constraint_eq_some, named_eq_some]
    simp [Recoverable, Names, hv, key_eq_some]
  · have hrec : Recoverable printable value k.name ↔
        ∀ n, KeyPhrase (written printable value ++ close) n → lastPart n = k.name := by
      simp [Recoverable, hv]
    rw [extract_of_unquoted hv, hrec]
    simp only [← key_eq_some]
    cases _MYSQL_KEY_RE (written printable value ++ close) with
    | none => simp
    | some n => simp

/-- After any registrations a duplicate is answered with the code of its constraint exactly if the name
can be recovered from the message. -/
theorem duplicate_answered_iff {rs : List Registration} {codes : Codes}
    (hcodes : registerAll printable (fun _ ↦ none) rs = .ok codes)
    (hk : ⟨k.name, k.code, k.title⟩ ∈ rs) (value : Text) :
    (_extractConstraintName printable (some (duplicateError k value)) = some k.name ∧
      _integrityError printable codes (some (duplicateError k value)) = ⟨k.code, k.title, 409, none⟩) ↔
    Recoverable printable value k.name := by
  rw [extract_iff]
  refine ⟨And.left, fun h ↦ ⟨h, ?_⟩⟩
  have hfound := (of_registerAll hcodes).1 _ hk
  rw [_integrityError, extract_iff.2 h, Option.bind_some, hfound]

section Example

def registrations : List Registration :=
  [⟨"uq_posts_code".toList, "post.CODE_DUPLICATE", "Post code already exists"⟩,
   ⟨"uq_users_username".toList, "user.USERNAME_DUPLICATE", "Username already exists"⟩,
   ⟨"uq_scheduled_tasks_name".toList, "scheduled_task.NAME_DUPLICATE", "任务名称已存在"⟩,
   ⟨"uq_configs_key".toList, "config.KEY_DUPLICATE", "Config key already exists"⟩,
   ⟨"uq_depts_code".toList, "dept.CODE_DUPLICATE", "Dept code already exists"⟩,
   ⟨"uq_roles_code".toList, "role.CODE_DUPLICATE", "Role code already exists"⟩,
   ⟨"uq_dict_types_type".toList, "dict.TYPE_DUPLICATE", "Dict type already exists"⟩,
   ⟨"uq_dict_data_type_value".toList, "dict.DATA_DUPLICATE", "Dict data value already exists in this type"⟩,
   ⟨"uq_dict_data_one_default_per_type".toList, "dict.DEFAULT_DUPLICATE",
    "Dict type already has a default data item"⟩,
   ⟨"fk_dict_data_type_id".toList, "dict.TYPE_HAS_DATA", "Dict type still has data"⟩]

theorem registrations_ok (printable : Char → Bool) :
    ∃ codes, registerAll printable (fun _ ↦ none) registrations = .ok codes :=
  registerAll_ok printable (by decide) fun _ _ ↦ rfl

example : ∀ r ∈ registrations, r.constraintName.all isPlain := by decide

def dictValue : UniqueConstraint where
  table := "dict_data".toList
  name := "uq_dict_data_type_value".toList
  code := "dict.DATA_DUPLICATE"
  title := "Dict data value already exists in this type"
  table_plain := List.all_eq_true.1 (by decide)
  name_plain := List.all_eq_true.1 (by decide)

theorem duplicate_answered_apostrophe : ∃ codes,
    registerAll (fun _ ↦ true) (fun _ ↦ none) registrations = .ok codes ∧
      _integrityError (fun _ ↦ true) codes (some (duplicateError dictValue "3-it's for key".toList)) =
        ⟨"dict.DATA_DUPLICATE", "Dict data value already exists in this type", 409, none⟩ := by
  obtain ⟨codes, hcodes⟩ := registrations_ok fun _ ↦ true
  have hnone : _MYSQL_KEY_RE (written (fun _ ↦ true) "3-it's for key".toList ++ close) = none := by decide
  have hrec : Recoverable (fun _ ↦ true) "3-it's for key".toList dictValue.name :=
    .inl ⟨by decide, fun n hn ↦ nomatch hnone.symm.trans (key_eq_some.2 hn)⟩
  exact ⟨codes, hcodes, ((duplicate_answered_iff hcodes (by decide) _).2 hrec).2⟩

/-- A double quote in the value hides the key, and a value that ends in `for key ` takes its place. -/
theorem duplicate_not_answered : (∃ codes,
    registerAll (fun _ ↦ true) (fun _ ↦ none) registrations = .ok codes ∧
      _integrityError (fun _ ↦ true) codes (some (duplicateError dictValue "3-12\"".toList)) =
        ⟨"framework.CONFLICT", "Resource constraint violation", 409, none⟩) ∧
    _extractConstraintName (fun _ ↦ true) (some (duplicateError dictValue "3-12\"".toList)) = none ∧
    _extractConstraintName (fun _ ↦ true) (some (duplicateError dictValue "3-for key ".toList)) =
      some " for key ".toList := by
  have hnone : _extractConstraintName (fun _ ↦ true) (some (duplicateError dictValue "3-12\"".toList)) = none := by
    decide
  obtain ⟨codes, hcodes⟩ := registrations_ok fun _ ↦ true
  refine ⟨⟨codes, hcodes, ?_⟩, hnone, by decide⟩
  rw [_integrityError, hnone]
  rfl

end Example

end AdminPlatform.Core.DuplicateKeys
