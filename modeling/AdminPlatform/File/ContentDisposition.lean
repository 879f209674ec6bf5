import AdminPlatform.Excel.Reader
import AdminPlatform.Foundation.AsciiChars
import AdminPlatform.Foundation.HeaderParams
import Mathlib.Data.Bool.AllAny

namespace AdminPlatform.File.ContentDisposition

open Excel.Reader (isSpace stripChars)
open Foundation.PercentEncoding Foundation.HeaderParams Foundation.AsciiChars

abbrev Text := List Char

/-- The characters that `urllib.parse.quote` leaves as they are. -/
def isSafe (c : Char) : Bool := c.isAlphanum || ['_', '.', '-', '~', '/'].contains c

def utf8 (s : Text) : List UInt8 := s.flatMap String.utf8EncodeChar

def quote (s : Text) : Text := encode isSafe (utf8 s)

/-- `str.replace(c, "")` -/
def without (c : Char) (s : Text) : Text := s.filter fun d ↦ decide (d ≠ c)

/-- `s.encode("ascii", "ignore").decode()` -/
def asciiOnly (s : Text) : Text := s.filter fun c ↦ decide (c.toNat < 0x80)

def sanitized (filename : Text) : Text := without '\n' (without '\r' filename)

def asciiFallback (s : Text) : Text :=
  let kept := stripChars (without ';' (without '"' (asciiOnly s)))
  if kept.isEmpty then "download".toList else kept

def _contentDisposition (filename : Text) : Text :=
  "attachment; filename=\"".toList ++ (asciiFallback (sanitized filename) ++
    ("\"; filename*=UTF-8''".toList ++ quote (sanitized filename)))

def decodeUtf8 (bs : List UInt8) : Option Text := bs.toByteArray.utf8Decode?.map Array.toList

def IsControl (c : Char) : Prop := c.toNat < 0x20 ∨ 0x7f ≤ c.toNat ∧ c.toNat ≤ 0x9f

instance (c : Char) : Decidable (IsControl c) := inferInstanceAs (Decidable (_ ∨ _))

def kindText : Text := "attachment".toList

def filenameText : Text := "filename".toList

def extText : Text := "filename*".toList

def charsetText : Text := "UTF-8".toList

/-- The header reads as an attachment with one `filename` and one `filename*`, which gives the stored
name back, and has no control character. -/
def Delivers (filename : Text) : Prop :=
  (∃ v bytes, parse (_contentDisposition filename) = some ⟨kindText,
      [(filenameText, .plain v), (extText, .ext charsetText [] bytes)]⟩ ∧
    decodeUtf8 bytes = some filename) ∧ ∀ c ∈ _contentDisposition filename, ¬ IsControl c

variable {filename s t l : Text} {c : Char} {b : UInt8}

theorem decodeUtf8_utf8 (s : Text) : decodeUtf8 (utf8 s) = some s := by
  have h : (utf8 s).toByteArray.utf8Decode? = some s.toArray := List.utf8Decode?_utf8Encode
  rw [decodeUtf8, h]
  rfl

/-- A byte of a character beyond ASCII is none of ASCII. -/
theorem mem_utf8EncodeChar (h : b ∈ String.utf8EncodeChar c) : b.toNat = c.toNat ∨ 0x80 ≤ b.toNat := by
  have hval : c.val.toNat = c.toNat := rfl
  unfold String.utf8EncodeChar at h
  simp only [hval] at h
  split at h
  · next hle =>
    obtain rfl := List.mem_singleton.1 h
    left
    rw [UInt8.toNat_ofNat']
    omega
  · right
    split at h
    · simp only [List.mem_cons, List.not_mem_nil, or_false] at h
      rcases h with rfl | rfl <;> rw [UInt8.toNat_ofNat'] <;> omega
    · split at h
      · simp only [List.mem_cons, List.not_mem_nil, or_false] at h
        rcases h with rfl | rfl | rfl <;> rw [UInt8.toNat_ofNat'] <;> omega
      · simp only [List.mem_cons, List.not_mem_nil, or_false] at h
        rcases h with rfl | rfl | rfl | rfl <;> rw [UInt8.toNat_ofNat'] <;> omega

theorem slash_of_utf8 (hb : b ∈ utf8 s) (h : charOf b = '/') : '/' ∈ s := by
  obtain ⟨c, hc, hbc⟩ := List.mem_flatMap.1 hb
  have hcode : b.toNat = 0x2f := by
    rw [← toNat_charOf, h]
    rfl
  rcases mem_utf8EncodeChar hbc with hbyte | hhigh
  · have hslash : c = '/' := Char.toNat_inj.1 (hbyte.symm.trans hcode)
    exact hslash ▸ hc
  · omega

theorem toNat_of_isSafe (h : isSafe c = true) : 0x2d ≤ c.toNat ∧ c.toNat ≤ 0x7e := by
  simp only [isSafe, Bool.or_eq_true, isAlphanum_iff, List.contains_iff_mem, List.mem_cons,
    List.not_mem_nil, or_false] at h
  rcases h with h | rfl | rfl | rfl | rfl | rfl
  · omega
  all_goals decide

theorem isAttrChar_of_isSafe (h : isSafe c = true) (hc : c ≠ '/') : isAttrChar c = true := by
  have hmarks : ∀ d ∈ ['_', '.', '-', '~'], attrMarks.contains d = true :=
    List.all_iff_forall_prop.1 (by decide)
  simp only [isSafe, Bool.or_eq_true, List.contains_iff_mem, List.mem_cons, List.not_mem_nil, or_false, hc] at h
  rw [isAttrChar, Bool.or_eq_true]
  exact h.imp id fun h ↦ hmarks c (by simpa using h)

theorem toNat_hexDigit {n : ℕ} (h : n < 16) : 0x30 ≤ (hexDigit n).toNat ∧ (hexDigit n).toNat ≤ 0x46 := by
  have hall : ∀ n < 16, 0x30 ≤ (hexDigit n).toNat ∧ (hexDigit n).toNat ≤ 0x46 := by decide
  exact hall n h

theorem toNat_of_mem_quote (h : c ∈ quote s) : 0x25 ≤ c.toNat ∧ c.toNat ≤ 0x7e := by
  rcases mem_encode h with ⟨b, -, -, hsafe⟩ | rfl | ⟨n, hn, rfl⟩
  · have := toNat_of_isSafe hsafe
    omega
  · decide
  · have := toNat_hexDigit hn
    omega

theorem decode_quote (h : '/' ∉ s) : decode isAttrChar (quote s) = (utf8 s, []) := by
  have hplain : ∀ b ∈ utf8 s, isSafe (charOf b) = true → isAttrChar (charOf b) = true :=
    fun b hb hk ↦ isAttrChar_of_isSafe hk fun hc ↦ h (slash_of_utf8 hb hc)
  have hdecode := decode_encode (by decide) hplain []
  rw [List.append_nil] at hdecode
  exact hdecode.trans (by simp [decode])

/-- A slash is left as it is, and ends the value. -/
theorem decode_quote_slash (h : '/' ∈ s) : ∃ u, (decode isAttrChar (quote s)).2 = '/' :: u := by
  obtain ⟨front, back, rfl, hfront⟩ := List.eq_append_cons_of_mem h
  have hsplit : quote (front ++ '/' :: back) = quote front ++ '/' :: quote back := by
    have hslash : encode isSafe (String.utf8EncodeChar '/') = ['/'] := by decide
    simp only [quote, utf8, encode, List.flatMap_append, List.flatMap_cons] at hslash ⊢
    rw [hslash]
    rfl
  refine ⟨quote back, ?_⟩
  rw [hsplit, quote, decode_encode (by decide)
    (fun b hb hk ↦ isAttrChar_of_isSafe hk fun hc ↦ hfront (slash_of_utf8 hb hc)),
    decode_stop (by decide) (by decide)]

/-- `t` is what stands in `l` between the white space at its two ends. -/
structure Between (l t : Text) : Prop where
  split : ∃ front back, l = front ++ (t ++ back) ∧ (∀ c ∈ front, isSpace c = true) ∧
    ∀ c ∈ back, isSpace c = true
  head : ∀ c ∈ t.head?, isSpace c = false
  last : ∀ c ∈ t.getLast?, isSpace c = false

theorem stripChars_eq (l : Text) : stripChars l = (l.dropWhile isSpace).rdropWhile isSpace := rfl

theorem between_stripChars (l : Text) : Between l (stripChars l) where
  split := by
    refine ⟨l.takeWhile isSpace, (l.dropWhile isSpace).rtakeWhile isSpace, ?_,
      fun c hc ↦ List.mem_takeWhile_imp hc, fun c hc ↦ List.mem_rtakeWhile_imp hc⟩
    rw [stripChars_eq, List.rdropWhile_append_rtakeWhile, List.takeWhile_append_dropWhile]
  head := by
    intro c hc
    obtain ⟨rest, hrest⟩ := List.rdropWhile_prefix isSpace (l.dropWhile isSpace)
    have hhead : (l.dropWhile isSpace).head? = some c := by
      rw [← hrest, List.head?_append, ← stripChars_eq, Option.mem_def.1 hc, Option.some_or]
    have hnot := List.head?_dropWhile_not isSpace l
    rw [hhead] at hnot
    exact hnot
  last := by
    intro c hc
    obtain ⟨hne, rfl⟩ := List.mem_getLast?_eq_getLast hc
    exact Bool.eq_false_iff.2 (List.rdropWhile_last_not _ _ hne)

theorem Between.stripChars_eq (h : Between l t) : stripChars l = t := by
  obtain ⟨front, back, rfl, hfront, hback⟩ := h.split
  have hdrop : (t ++ back).dropWhile isSpace = t ++ back ∨ t = [] := by
    cases t with
    | nil => exact .inr rfl
    | cons c t =>
      rw [List.cons_append, List.dropWhile_cons_of_neg (by simp [h.head c rfl])]
      exact .inl rfl
  rw [stripChars, List.dropWhile_append_of_pos hfront]
  rcases hdrop with hdrop | rfl
  · have hlast : t.reverse.dropWhile isSpace = t.reverse := by
      cases hr : t.reverse with
      | nil => rfl
      | cons c r =>
        have hc : t.getLast? = some c := by
          rw [← List.head?_reverse, hr]
          rfl
        rw [List.dropWhile_cons_of_neg (by simp [h.last c hc])]
    rw [hdrop, List.reverse_append,
      List.dropWhile_append_of_pos fun c hc ↦ hback c (List.mem_reverse.1 hc), hlast, List.reverse_reverse]
  · rw [List.nil_append, List.dropWhile_eq_nil_iff.2 hback]
    rfl

def visible (filename : Text) : Text :=
  filename.filter fun c ↦ decide (c.toNat < 0x80) && (decide (c ≠ '"') && decide (c ≠ ';'))

def downloadText : Text := "download".toList

theorem asciiFallback_eq (h : Between (visible s) t) :
    asciiFallback s = if t.isEmpty then downloadText else t := by
  have hkept : without ';' (without '"' (asciiOnly s)) = visible s := by
    simp only [without, asciiOnly, visible, List.filter_filter]
    refine List.filter_congr fun c _ ↦ ?_
    ac_rfl
  rw [asciiFallback, hkept, h.stripChars_eq]
  rfl

theorem visible_of_mem (h : Between (visible s) t) (hc : c ∈ t) : c.toNat < 0x80 ∧ c ≠ '"' := by
  obtain ⟨front, back, hsplit, -, -⟩ := h.split
  have hmem : c ∈ visible s := by
    rw [hsplit]
    exact List.mem_append_right _ (List.mem_append_left _ hc)
  obtain ⟨-, hkept⟩ := List.mem_filter.1 hmem
  simp only [Bool.and_eq_true, decide_eq_true_eq] at hkept
  exact ⟨hkept.1, hkept.2.1⟩

theorem mem_asciiFallback (hc : c ∈ asciiFallback s) : c.toNat < 0x80 ∧ c ≠ '"' := by
  have hdownload : ∀ c ∈ downloadText, c.toNat < 0x80 ∧ c ≠ '"' := List.all_iff_forall_prop.1 (by decide)
  rw [asciiFallback_eq (between_stripChars _)] at hc
  split at hc
  · exact hdownload c hc
  · exact visible_of_mem (between_stripChars _) hc

theorem closes_asciiFallback (h : Between (visible s) t) : closes (asciiFallback s) = closes t := by
  rw [asciiFallback_eq h]
  split
  · next hempty =>
    rw [List.isEmpty_iff.1 hempty]
    decide
  · rfl

theorem controls_asciiFallback (h : Between (visible s) t) :
    (∀ c ∈ asciiFallback s, ¬ IsControl c) ↔ ∀ c ∈ t, ¬ IsControl c := by
  have hdownload : ∀ c ∈ downloadText, ¬ IsControl c := List.all_iff_forall_prop.1 (by decide)
  rw [asciiFallback_eq h]
  split
  · next hempty =>
    rw [List.isEmpty_iff.1 hempty]
    exact ⟨fun _ c hc ↦ absurd hc List.not_mem_nil, fun _ ↦ hdownload⟩
  · rfl

def extPart (s : Text) : Text :=
  ';' :: ' ' :: (extText ++ '=' :: (charsetText ++ '\'' :: ([] ++ '\'' :: quote s)))

theorem header_front :
    "attachment; filename=\"".toList = kindText ++ ';' :: ' ' :: (filenameText ++ ['=', '"']) := by
  have happ : "attachment; filename=\"" = "attachment" ++ ("; " ++ ("filename" ++ "=\"")) := by decide
  rw [happ, String.toList_append, String.toList_append, String.toList_append]
  rfl

theorem header_back : "\"; filename*=UTF-8''".toList =
    '"' :: ';' :: ' ' :: (extText ++ '=' :: (charsetText ++ ['\'', '\''])) := by
  have happ : "\"; filename*=UTF-8''" = "\"; " ++ ("filename*" ++ ("=" ++ ("UTF-8" ++ "''"))) := by decide
  rw [happ, String.toList_append, String.toList_append, String.toList_append, String.toList_append]
  rfl

theorem contentDisposition_eq (filename : Text) : _contentDisposition filename =
    kindText ++ ';' :: ' ' :: (filenameText ++ '=' :: '"' ::
      (asciiFallback (sanitized filename) ++ '"' :: extPart (sanitized filename))) := by
  have hvalue : _contentDisposition filename = "attachment; filename=\"".toList ++
      (asciiFallback (sanitized filename) ++
        ("\"; filename*=UTF-8''".toList ++ quote (sanitized filename))) := rfl
  rw [header_front, header_back] at hvalue
  rw [hvalue]
  simp only [extPart, List.append_assoc, List.cons_append, List.nil_append]

theorem param_extPart (s : Text) :
    param (extText ++ '=' :: (charsetText ++ '\'' :: ([] ++ '\'' :: quote s))) =
      some ((extText, .ext charsetText [] (decode isAttrChar (quote s)).1),
        (decode isAttrChar (quote s)).2) := by
  have hname : ∀ c ∈ extText, isTokenChar c = true := List.all_iff_forall_prop.1 (by decide)
  have hcharset : ∀ c ∈ charsetText, isCharsetChar c = true := List.all_iff_forall_prop.1 (by decide)
  have hfront : ∀ c ∈ charsetText.head?, (c == ' ' || c == '\t') = false := by
    intro c hc
    have hhead : charsetText.head? = some 'U' := by decide
    rw [hhead] at hc
    obtain rfl := Option.mem_some_iff.1 hc
    decide
  exact param_ext hname (by decide) hcharset hfront (fun c hc ↦ absurd hc List.not_mem_nil) _

theorem head?_extText (s : Text) : ∀ c ∈ (extText ++ s).head?, (c == ' ' || c == '\t') = false := by
  intro c hc
  have hhead : (extText ++ s).head? = some 'f' := rfl
  rw [hhead] at hc
  obtain rfl := Option.mem_some_iff.1 hc
  decide

theorem head?_filenameText (s : Text) : ∀ c ∈ (filenameText ++ s).head?, (c == ' ' || c == '\t') = false := by
  intro c hc
  have hhead : (filenameText ++ s).head? = some 'f' := rfl
  rw [hhead] at hc
  obtain rfl := Option.mem_some_iff.1 hc
  decide

theorem param_filename (s : Text) : param (filenameText ++ '=' :: '"' :: s) =
    (quotedBody s).map fun r ↦ ((filenameText, .plain r.1), r.2) := by
  have hname : ∀ c ∈ filenameText, isTokenChar c = true := List.all_iff_forall_prop.1 (by decide)
  exact param_quoted hname (by decide) (by decide) s

theorem params_extPart (n : ℕ) (s : Text) : params (n + 1) (extPart s) =
    (params n (decode isAttrChar (quote s)).2).map
      ((extText, .ext charsetText [] (decode isAttrChar (quote s)).1) :: ·) := by
  rw [extPart, params_semicolon (head?_extText _), param_extPart]

/-- The header is read as far as its quoted name. -/
theorem parse_contentDisposition (filename : Text) : ∃ n, parse (_contentDisposition filename) =
    match quotedBody (asciiFallback (sanitized filename) ++ '"' :: extPart (sanitized filename)) with
    | some (v, u) => (params (n + 2) u).map fun ps ↦ ⟨kindText, (filenameText, .plain v) :: ps⟩
    | none => none := by
  have hkind : ∀ c ∈ kindText, isTokenChar c = true := List.all_iff_forall_prop.1 (by decide)
  obtain ⟨n, hn⟩ : ∃ n, (_contentDisposition filename).length = n + 2 := by
    refine ⟨(_contentDisposition filename).length - 2, ?_⟩
    have hlength : kindText.length = 10 := by decide
    have hle : kindText.length ≤ (_contentDisposition filename).length := by
      rw [contentDisposition_eq, List.length_append]
      omega
    omega
  refine ⟨n, ?_⟩
  rw [contentDisposition_eq] at hn ⊢
  rw [parse_eq hkind (by decide), hn, params_semicolon (head?_filenameText _), param_filename]
  cases quotedBody (asciiFallback (sanitized filename) ++ '"' :: extPart (sanitized filename)) with
  | none => rfl
  | some r => exact Option.map_map ..

theorem parse_eq_none
    (h : quotedBody (asciiFallback (sanitized filename) ++ '"' :: extPart (sanitized filename)) = none) :
    parse (_contentDisposition filename) = none := by
  obtain ⟨n, hparse⟩ := parse_contentDisposition filename
  rw [hparse, h]

/-- What follows the encoded name must be nothing. -/
theorem parse_eq_some {v : Text} (h : quotedBody (asciiFallback (sanitized filename) ++
    '"' :: extPart (sanitized filename)) = some (v, extPart (sanitized filename))) :
    ∃ n, parse (_contentDisposition filename) =
      (params (n + 1) (decode isAttrChar (quote (sanitized filename))).2).map fun ps ↦
        ⟨kindText, (filenameText, .plain v) ::
          (extText, .ext charsetText [] (decode isAttrChar (quote (sanitized filename))).1) :: ps⟩ := by
  obtain ⟨n, hparse⟩ := parse_contentDisposition filename
  refine ⟨n, ?_⟩
  rw [hparse, h]
  simp only [params_extPart, Option.map_map]
  rfl

theorem mem_extPart (h : c ∈ extPart s) : (0x20 ≤ c.toNat ∧ c.toNat ≤ 0x7e) ∧ c ≠ '"' := by
  have hfixed : ∀ c ∈ ';' :: ' ' :: (extText ++ '=' :: (charsetText ++ ['\'', '\''])),
      (0x20 ≤ c.toNat ∧ c.toNat ≤ 0x7e) ∧ c ≠ '"' := List.all_iff_forall_prop.1 (by decide)
  have hsplit : extPart s = ';' :: ' ' :: (extText ++ '=' :: (charsetText ++ ['\'', '\''])) ++ quote s := by
    simp only [extPart, List.append_assoc, List.cons_append, List.nil_append]
  rw [hsplit] at h
  rcases List.mem_append.1 h with h | h
  · exact hfixed c h
  · have hrange := toNat_of_mem_quote h
    refine ⟨by omega, ?_⟩
    rintro rfl
    exact absurd hrange (by decide)

/-- No line end and no slash stands in the name, and its visible part, without the white space at its two
ends, has no control character and ends in an even number of backslashes. -/
structure Deliverable (filename : Text) : Prop where
  lines : '\r' ∉ filename ∧ '\n' ∉ filename
  slash : '/' ∉ filename
  fallback : ∃ t, Between (visible filename) t ∧ (∀ c ∈ t, ¬ IsControl c) ∧
    (t.rtakeWhile fun c ↦ decide (c = '\\')).length % 2 = 0

theorem mem_without {d : Char} : c ∈ without d s ↔ c ∈ s ∧ c ≠ d := by
  rw [without, List.mem_filter, decide_eq_true_iff]

theorem sanitized_eq_iff : sanitized filename = filename ↔ '\r' ∉ filename ∧ '\n' ∉ filename := by
  constructor
  · intro h
    refine ⟨fun hr ↦ ?_, fun hn ↦ ?_⟩
    · rw [← h, sanitized, mem_without, mem_without] at hr
      exact hr.1.2 rfl
    · rw [← h, sanitized, mem_without] at hn
      exact hn.2 rfl
  · rintro ⟨hr, hn⟩
    have hfirst : without '\r' filename = filename :=
      List.filter_eq_self.2 fun c hc ↦ decide_eq_true fun h ↦ hr (h ▸ hc)
    rw [sanitized, hfirst]
    exact List.filter_eq_self.2 fun c hc ↦ decide_eq_true fun h ↦ hn (h ▸ hc)

theorem isQuotable_of_not_isControl (hc : c.toNat < 0x80) (h : ¬ IsControl c) : isQuotable c = true := by
  have hrange : 0x20 ≤ c.toNat ∧ c.toNat ≠ 0x7f ∧ c.toNat ≤ 0xff := by
    simp only [IsControl] at h
    omega
  rw [isQuotable, decide_eq_true hrange, Bool.or_true]

theorem controls_contentDisposition : (∀ c ∈ _contentDisposition filename, ¬ IsControl c) ↔
    ∀ c ∈ asciiFallback (sanitized filename), ¬ IsControl c := by
  have hfixed : ∀ c ∈ kindText ++ ';' :: ' ' :: (filenameText ++ ['=', '"']), ¬ IsControl c :=
    List.all_iff_forall_prop.1 (by decide)
  have hext : ∀ c ∈ '"' :: extPart (sanitized filename), ¬ IsControl c := by
    intro c hc
    rcases List.mem_cons.1 hc with rfl | hc
    · decide
    · have := (mem_extPart hc).1
      simp only [IsControl]
      omega
  have hsplit : _contentDisposition filename = (kindText ++ ';' :: ' ' :: (filenameText ++ ['=', '"'])) ++
      (asciiFallback (sanitized filename) ++ '"' :: extPart (sanitized filename)) := by
    rw [contentDisposition_eq]
    simp only [List.append_assoc, List.cons_append, List.nil_append]
  rw [hsplit]
  constructor
  · intro h c hc
    exact h c (List.mem_append_right _ (List.mem_append_left _ hc))
  · intro h c hc
    rcases List.mem_append.1 hc with hc | hc
    · exact hfixed c hc
    · exact (List.mem_append.1 hc).elim (h c) (hext c)

theorem quotedBody_fallback (hcontrols : ∀ c ∈ asciiFallback s, ¬ IsControl c)
    (hcloses : closes (asciiFallback s) = true) :
    ∃ v, quotedBody (asciiFallback s ++ '"' :: extPart s) = some (v, extPart s) := by
  refine quotedBody_of_closes (fun c hc ↦ ?_) hcloses _
  obtain ⟨hascii, hquote⟩ := mem_asciiFallback hc
  exact ⟨isQuotable_of_not_isControl hascii (hcontrols c hc), hquote⟩

theorem closes_of_parse {h : Header} (hparse : parse (_contentDisposition filename) = some h) :
    closes (asciiFallback (sanitized filename)) = true := by
  by_contra hopen
  have hbody : quotedBody (asciiFallback (sanitized filename) ++ '"' :: extPart (sanitized filename)) = none :=
    quotedBody_of_not_closes (fun hc ↦ (mem_asciiFallback hc).2 rfl) (Bool.eq_false_iff.2 hopen)
      fun hc ↦ (mem_extPart hc).2 rfl
  rw [parse_eq_none hbody] at hparse
  cases hparse

theorem slash_of_parse {h : Header} {v : Text} (hbody : quotedBody (asciiFallback (sanitized filename) ++
    '"' :: extPart (sanitized filename)) = some (v, extPart (sanitized filename)))
    (hparse : parse (_contentDisposition filename) = some h) : '/' ∉ sanitized filename := by
  intro hslash
  obtain ⟨u, hu⟩ := decode_quote_slash hslash
  obtain ⟨n, hsome⟩ := parse_eq_some hbody
  rw [hu, params_stop (by decide) (by decide), hparse] at hsome
  cases hsome

theorem parse_eq_of_slash {v : Text} (hbody : quotedBody (asciiFallback (sanitized filename) ++
    '"' :: extPart (sanitized filename)) = some (v, extPart (sanitized filename)))
    (hslash : '/' ∉ sanitized filename) : parse (_contentDisposition filename) = some ⟨kindText,
      [(filenameText, .plain v), (extText, .ext charsetText [] (utf8 (sanitized filename)))]⟩ := by
  obtain ⟨n, hsome⟩ := parse_eq_some hbody
  rw [hsome, decode_quote hslash, params_nil]
  rfl

/-- The header gives the stored name back exactly if that is deliverable. -/
theorem delivers_iff_deliverable (filename : Text) : Delivers filename ↔ Deliverable filename := by
  constructor
  · rintro ⟨⟨v, bytes, hparse, hname⟩, hcontrols⟩
    have hfallback := controls_contentDisposition.1 hcontrols
    have hcloses := closes_of_parse hparse
    obtain ⟨v', hbody⟩ := quotedBody_fallback hfallback hcloses
    have hslash := slash_of_parse hbody hparse
    have hsame := hparse.symm.trans (parse_eq_of_slash hbody hslash)
    simp only [Option.some.injEq, Header.mk.injEq, List.cons.injEq, Prod.mk.injEq, Value.ext.injEq, true_and,
      and_true] at hsame
    have hsanitized : sanitized filename = filename := by
      rw [hsame.2, decodeUtf8_utf8] at hname
      exact Option.some.inj hname
    rw [hsanitized] at hfallback hcloses hslash
    have hbetween := between_stripChars (visible filename)
    refine ⟨sanitized_eq_iff.1 hsanitized, hslash, _, hbetween,
      (controls_asciiFallback hbetween).1 hfallback, ?_⟩
    rw [← closes_iff, ← closes_asciiFallback hbetween, hcloses]
  · rintro ⟨hlines, hslash, t, hbetween, hcontrols, hpairs⟩
    have hsanitized := sanitized_eq_iff.2 hlines
    have hfallback : ∀ c ∈ asciiFallback (sanitized filename), ¬ IsControl c := by
      rw [hsanitized]
      exact (controls_asciiFallback hbetween).2 hcontrols
    have hcloses : closes (asciiFallback (sanitized filename)) = true := by
      rw [hsanitized, closes_asciiFallback hbetween]
      exact (closes_iff t).2 hpairs
    obtain ⟨v, hbody⟩ := quotedBody_fallback hfallback hcloses
    have hparse := parse_eq_of_slash hbody (hsanitized.symm ▸ hslash)
    rw [hsanitized] at hparse
    exact ⟨⟨v, _, hparse, decodeUtf8_utf8 filename⟩, controls_contentDisposition.2 hfallback⟩

/-- The slash ends the encoded name, and the tab stays in the quoted one. -/
theorem not_delivers_dirReport : ¬ Delivers "dir/report.pdf".toList ∧ ¬ Delivers "q1\tq2.pdf".toList := by
  constructor
  · rintro ⟨⟨v, bytes, hparse, -⟩, -⟩
    have hnone : parse (_contentDisposition "dir/report.pdf".toList) = none := by decide
    rw [hnone] at hparse
    cases hparse
  · rintro ⟨-, hcontrols⟩
    have htab : '\t' ∈ _contentDisposition "q1\tq2.pdf".toList := by decide
    exact hcontrols '\t' htab (.inl (by decide))

end AdminPlatform.File.ContentDisposition
