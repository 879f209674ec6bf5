import AdminPlatform.Foundation.Json
import Mathlib.Algebra.GroupWithZero.Nat
import Mathlib.Data.List.TakeWhile

namespace AdminPlatform.Foundation.JsonNumbers

open CodePoints Json

variable {s t r : Text} {c n : ℕ} {l : Literal}

theorem valueOf_map_code (cs : List Char) : valueOf (cs.map code) = Nat.ofDigitChars 10 cs 0 := by
  rw [valueOf, List.foldl_map, Nat.ofDigitChars_eq_foldl]
  rfl

theorem valueOf_digits (n : ℕ) : valueOf (digits n) = n := by
  rw [digits, valueOf_map_code, Nat.ofDigitChars_ten_toDigits]

theorem digits_of_lt (h : n < 10) : digits n = [48 + n] := by
  have hall : ∀ n < 10, (Nat.toDigits 10 n).map code = [48 + n] := by decide
  exact hall n h

theorem digits_of_le (h : 10 ≤ n) : digits n = digits (n / 10) ++ [48 + n % 10] := by
  rw [digits, Nat.toDigits_of_base_le (by omega) h, List.map_append, ← digits,
    ← digits_of_lt (Nat.mod_lt n (by omega)),
    digits, digits, Nat.toDigits_of_lt_base (Nat.mod_lt n (by omega))]

theorem isDigit_of_mem_digits (h : c ∈ digits n) : isDigit c = true := by
  induction n using Nat.strongRecOn with
  | ind n ih =>
    rcases Nat.lt_or_ge n 10 with hn | hn
    · rw [digits_of_lt hn, List.mem_singleton] at h
      rw [isDigit, decide_eq_true_eq]
      omega
    · rw [digits_of_le hn, List.mem_append, List.mem_singleton] at h
      rcases h with h | h
      · exact ih (n / 10) (by omega) h
      · rw [isDigit, decide_eq_true_eq]
        omega

theorem length_digits (h : n < 10 ^ (c + 1)) : (digits n).length ≤ c + 1 := by
  induction c generalizing n with
  | zero => rw [digits_of_lt (by omega), List.length_singleton]
  | succ c ih =>
    rcases Nat.lt_or_ge n 10 with hn | hn
    · rw [digits_of_lt hn, List.length_singleton]
      omega
    · have hdiv : n / 10 < 10 ^ (c + 1) := by
        rw [Nat.pow_succ] at h
        omega
      have hlen := ih hdiv
      rw [digits_of_le hn, List.length_append, List.length_singleton]
      omega

theorem valueOf_lt (h : ∀ d ∈ s, isDigit d = true) : valueOf s < 10 ^ s.length := by
  have hstep : ∀ n k, n < 10 ^ k → s.foldl (fun n c ↦ 10 * n + (c - 48)) n < 10 ^ (k + s.length) := by
    induction s with
    | nil => exact fun n k hn ↦ hn
    | cons d s ih =>
      intro n k hn
      have hd := of_decide_eq_true (h d List.mem_cons_self)
      have hnext : 10 * n + (d - 48) < 10 ^ (k + 1) := by
        rw [Nat.pow_succ]
        omega
      have hs := ih (fun e he ↦ h e (List.mem_cons_of_mem d he)) _ _ hnext
      rwa [List.foldl_cons, List.length_cons, Nat.add_comm s.length, ← Nat.add_assoc]
  have hall := hstep 0 0 Nat.one_pos
  rwa [Nat.zero_add] at hall

/-- A number starts with a zero only if it is zero. -/
theorem digits_cons (n : ℕ) : ∃ c t, digits n = c :: t ∧ isDigit c = true ∧ (∀ d ∈ t, isDigit d = true) ∧
    (c = code '0' → t = []) := by
  have hdigit : ∀ c ∈ digits n, isDigit c = true := fun c hc ↦ isDigit_of_mem_digits hc
  suffices h : ∃ c t, digits n = c :: t ∧ (c = code '0' → n = 0) by
    obtain ⟨c, t, ht, hzero⟩ := h
    rw [ht] at hdigit
    refine ⟨c, t, ht, hdigit c List.mem_cons_self, fun d hd ↦ hdigit d (List.mem_cons_of_mem c hd), fun hc ↦ ?_⟩
    have hn := hzero hc
    rw [hn] at ht
    exact (List.cons.inj ht).2.symm
  clear hdigit
  induction n using Nat.strongRecOn with
  | ind n ih =>
    rcases Nat.lt_or_ge n 10 with hn | hn
    · refine ⟨48 + n, [], digits_of_lt hn, fun hc ↦ ?_⟩
      have hc' : 48 + n = 48 := hc
      omega
    · obtain ⟨c, t, ht, hzero⟩ := ih (n / 10) (by omega)
      refine ⟨c, t ++ [48 + n % 10], ?_, fun hc ↦ ?_⟩
      · rw [digits_of_le hn, ht]
        rfl
      · have := hzero hc
        omega

def isNumberCode (c : ℕ) : Bool := isDigit c || [43, 45, 46, 69, 101].contains c

def Delimited (r : Text) : Prop := ∀ c ∈ r.head?, isNumberCode c = false

theorem Delimited.ne (h : Delimited (c :: r)) {d : ℕ} (hd : isNumberCode d = true) : c ≠ d := by
  rintro rfl
  rw [h c rfl] at hd
  cases hd

theorem Delimited.not_isDigit (h : Delimited r) : ∀ c ∈ r.head?, isDigit c = false := by
  intro c hc
  have hnot := h c hc
  rw [isNumberCode, Bool.or_eq_false_iff] at hnot
  exact hnot.1

theorem takeWhile_append_stop {p : ℕ → Bool} (h : ∀ c ∈ r.head?, p c = false) (s : Text) :
    (s ++ r).takeWhile p = s.takeWhile p := by
  induction s with
  | nil =>
    cases r with
    | nil => rfl
    | cons c r => rw [List.nil_append, List.takeWhile_cons_of_neg (by simp [h c rfl]), List.takeWhile_nil]
  | cons c s ih =>
    rw [List.cons_append, List.takeWhile_cons, List.takeWhile_cons, ih]

theorem dropWhile_append_stop {p : ℕ → Bool} (h : ∀ c ∈ r.head?, p c = false) (s : Text) :
    (s ++ r).dropWhile p = s.dropWhile p ++ r := by
  induction s with
  | nil =>
    cases r with
    | nil => rfl
    | cons c r => rw [List.nil_append, List.dropWhile_cons_of_neg (by simp [h c rfl])]; rfl
  | cons c s ih =>
    rw [List.cons_append, List.dropWhile_cons, List.dropWhile_cons, ih]
    split <;> rfl

theorem minus_append (h : Delimited r) (s : Text) : minus (s ++ r) = ((minus s).1, (minus s).2 ++ r) := by
  cases s with
  | nil =>
    cases r with
    | nil => rfl
    | cons c r => exact if_neg (h.ne (by decide))
  | cons c s =>
    simp only [minus, List.cons_append]
    split <;> rfl

theorem integerPart_append (h : Delimited r) (s : Text) :
    integerPart (s ++ r) = ((integerPart s).1, (integerPart s).2 ++ r) := by
  cases s with
  | nil =>
    cases r with
    | nil => rfl
    | cons c r =>
      simp only [integerPart, List.nil_append, if_neg (h.ne (d := code '0') (by decide)),
        h.not_isDigit c rfl, Bool.false_eq_true, if_false]
  | cons c s =>
    simp only [integerPart, List.cons_append, takeWhile_append_stop h.not_isDigit,
      dropWhile_append_stop h.not_isDigit]
    split
    · rfl
    · split <;> rfl

theorem fraction_append (h : Delimited r) (s : Text) :
    fraction (s ++ r) = ((fraction s).1, (fraction s).2 ++ r) := by
  cases s with
  | nil =>
    cases r with
    | nil => rfl
    | cons c r => exact if_neg fun hc ↦ h.ne (by decide) hc.1
  | cons c s =>
    simp only [fraction, List.cons_append, takeWhile_append_stop h.not_isDigit,
      dropWhile_append_stop h.not_isDigit]
    split <;> rfl

theorem exponentSign_append (h : Delimited r) (s : Text) :
    exponentSign (s ++ r) = ((exponentSign s).1, (exponentSign s).2 ++ r) := by
  cases s with
  | nil =>
    cases r with
    | nil => rfl
    | cons c r => exact if_neg fun hc ↦ hc.elim (h.ne (by decide)) (h.ne (by decide))
  | cons c s =>
    simp only [exponentSign, List.cons_append]
    split <;> rfl

theorem exponent_append (h : Delimited r) (s : Text) :
    exponent (s ++ r) = ((exponent s).1, (exponent s).2 ++ r) := by
  cases s with
  | nil =>
    cases r with
    | nil => rfl
    | cons c r => exact if_neg fun hc ↦ hc.1.elim (h.ne (by decide)) (h.ne (by decide))
  | cons c s =>
    simp only [exponent, List.cons_append, exponentSign_append h, takeWhile_append_stop h.not_isDigit,
      dropWhile_append_stop h.not_isDigit]
    split <;> rfl

theorem matchNumber_append (h : Delimited r) (hs : matchNumber s = some (l, t)) :
    matchNumber (s ++ r) = some (l, t ++ r) := by
  unfold matchNumber at hs ⊢
  simp only [minus_append h, integerPart_append h, fraction_append h, exponent_append h] at hs ⊢
  split at hs
  · cases hs
  · next hne =>
    obtain ⟨rfl, rfl⟩ := Prod.mk.inj (Option.some.inj hs)
    rw [if_neg hne]

theorem minus_eq (s : Text) : s = (minus s).1 ++ (minus s).2 := by
  cases s with
  | nil => rfl
  | cons c s =>
    simp only [minus]
    split <;> rfl

theorem integerPart_eq (s : Text) : s = (integerPart s).1 ++ (integerPart s).2 := by
  cases s with
  | nil => rfl
  | cons c s =>
    simp only [integerPart]
    split
    · rfl
    · split
      · rw [List.cons_append, List.takeWhile_append_dropWhile]
      · rfl

theorem fraction_eq (s : Text) : s = (fraction s).1 ++ (fraction s).2 := by
  cases s with
  | nil => rfl
  | cons c s =>
    simp only [fraction]
    split
    · rw [List.cons_append, List.takeWhile_append_dropWhile]
    · rfl

theorem exponentSign_eq (s : Text) : s = (exponentSign s).1 ++ (exponentSign s).2 := by
  cases s with
  | nil => rfl
  | cons c s =>
    simp only [exponentSign]
    split <;> rfl

theorem exponent_eq (s : Text) : s = (exponent s).1 ++ (exponent s).2 := by
  cases s with
  | nil => rfl
  | cons c s =>
    simp only [exponent]
    split
    · rw [List.cons_append, List.append_assoc, List.takeWhile_append_dropWhile, ← exponentSign_eq]
    · rfl

theorem text_of_matchNumber (h : matchNumber s = some (l, t)) : s = l.text ++ t := by
  unfold matchNumber at h
  dsimp only at h
  split at h
  · cases h
  · obtain ⟨rfl, rfl⟩ := Prod.mk.inj (Option.some.inj h)
    simp only [Literal.text, List.append_assoc]
    rw [← exponent_eq, ← fraction_eq, ← integerPart_eq, ← minus_eq]

theorem integerPart_ne_nil (h : (integerPart s).1 ≠ []) : ∃ c u, isDigit c = true ∧ s = c :: u := by
  cases s with
  | nil => exact absurd rfl h
  | cons c u =>
    simp only [integerPart] at h
    split at h
    · next hc => exact ⟨c, u, hc ▸ (by decide), rfl⟩
    · split at h
      · next hc => exact ⟨c, u, hc, rfl⟩
      · exact absurd rfl h

/-- A number begins with a digit, behind its sign. -/
theorem front_of_matchNumber (h : matchNumber s = some (l, t)) : ∃ c u, isDigit c = true ∧
    (s = c :: u ∨ s = code '-' :: c :: u) := by
  unfold matchNumber at h
  dsimp only at h
  split at h
  · cases h
  · next hne =>
    obtain ⟨c, u, hc, hu⟩ := integerPart_ne_nil hne
    refine ⟨c, u, hc, ?_⟩
    cases s with
    | nil => cases hu
    | cons d s =>
      simp only [minus] at hu
      split at hu
      · next hd =>
        refine .inr ?_
        rw [hd, ← hu]
      · exact .inl hu

theorem isNumberCode_of_isDigit (h : isDigit c = true) : isNumberCode c = true := by
  rw [isNumberCode, h, Bool.true_or]

theorem mem_takeWhile (h : c ∈ s.takeWhile isDigit) : isNumberCode c = true :=
  isNumberCode_of_isDigit (List.mem_takeWhile_imp h)

theorem mem_minus (h : c ∈ (minus s).1) : isNumberCode c = true := by
  cases s with
  | nil => cases h
  | cons d s =>
    simp only [minus] at h
    split at h
    · next hd =>
      rw [List.mem_singleton.1 h, hd]
      decide
    · cases h

theorem isDigit_of_mem_integerPart (h : c ∈ (integerPart s).1) : isDigit c = true := by
  cases s with
  | nil => cases h
  | cons d s =>
    simp only [integerPart] at h
    split at h
    · next hd =>
      rw [List.mem_singleton.1 h, hd]
      decide
    · split at h
      · next hd =>
        rcases List.mem_cons.1 h with rfl | h
        · exact hd
        · exact List.mem_takeWhile_imp h
      · cases h

theorem mem_integerPart (h : c ∈ (integerPart s).1) : isNumberCode c = true :=
  isNumberCode_of_isDigit (isDigit_of_mem_integerPart h)

theorem mem_fraction (h : c ∈ (fraction s).1) : isNumberCode c = true := by
  cases s with
  | nil => cases h
  | cons d s =>
    simp only [fraction] at h
    split at h
    · next hd =>
      rcases List.mem_cons.1 h with rfl | h
      · rw [hd.1]
        decide
      · exact mem_takeWhile h
    · cases h

theorem mem_exponentSign (h : c ∈ (exponentSign s).1) : isNumberCode c = true := by
  cases s with
  | nil => cases h
  | cons d s =>
    simp only [exponentSign] at h
    split at h
    · next hd =>
      rw [List.mem_singleton.1 h]
      rcases hd with rfl | rfl <;> decide
    · cases h

theorem mem_exponent (h : c ∈ (exponent s).1) : isNumberCode c = true := by
  cases s with
  | nil => cases h
  | cons d s =>
    simp only [exponent] at h
    split at h
    · next hd =>
      rcases List.mem_cons.1 h with rfl | h
      · rcases hd.1 with rfl | rfl <;> decide
      · exact (List.mem_append.1 h).elim mem_exponentSign mem_takeWhile
    · cases h

theorem isNumberCode_of_matchNumber (h : matchNumber s = some (l, [])) (hc : c ∈ s) : isNumberCode c = true := by
  have htext := text_of_matchNumber h
  rw [List.append_nil] at htext
  rw [htext] at hc
  unfold matchNumber at h
  dsimp only at h
  split at h
  · cases h
  · obtain ⟨rfl, -⟩ := Prod.mk.inj (Option.some.inj h)
    simp only [Literal.text, List.mem_append] at hc
    rcases hc with hc | hc | hc | hc
    · exact mem_minus hc
    · exact mem_integerPart hc
    · exact mem_fraction hc
    · exact mem_exponent hc

theorem takeWhile_digits (h : ∀ d ∈ t, isDigit d = true) : t.takeWhile isDigit = t ∧ t.dropWhile isDigit = [] :=
  ⟨List.takeWhile_eq_self_iff.2 h, List.dropWhile_eq_nil_iff.2 h⟩

theorem integerPart_digits (n : ℕ) : integerPart (digits n) = (digits n, []) := by
  obtain ⟨c, t, ht, hc, hd, hzero⟩ := digits_cons n
  obtain ⟨htake, hdrop⟩ := takeWhile_digits hd
  rw [ht, integerPart]
  by_cases h0 : c = code '0'
  · rw [if_pos h0, hzero h0]
  · rw [if_neg h0, if_pos hc, htake, hdrop]

theorem minus_digits (n : ℕ) : minus (digits n) = ([], digits n) := by
  obtain ⟨c, t, ht, hc, -, -⟩ := digits_cons n
  rw [ht, minus, if_neg]
  rintro rfl
  exact absurd hc (by decide)

/-- An integer reads as itself. -/
theorem matchNumber_intText (n : ℤ) : ∃ l, matchNumber (intText n) = some (l, []) ∧ l.isInteger = true ∧
    l.value = n ∧ l.integer = digits n.natAbs := by
  have hne : digits n.natAbs ≠ [] := by
    obtain ⟨c, t, ht, -⟩ := digits_cons n.natAbs
    rw [ht]
    exact List.cons_ne_nil c t
  by_cases hn : n < 0
  · have hminus : minus (intText n) = ([code '-'], digits n.natAbs) := by
      rw [intText, if_pos hn]
      rfl
    refine ⟨⟨[code '-'], digits n.natAbs, [], []⟩, ?_, rfl, ?_, rfl⟩
    · unfold matchNumber
      simp only [hminus, integerPart_digits, if_neg hne]
      rfl
    · rw [Literal.value, if_neg (List.cons_ne_nil _ _), valueOf_digits]
      omega
  · have hminus : minus (intText n) = ([], digits n.natAbs) := by
      rw [intText, if_neg hn, List.nil_append, minus_digits]
    refine ⟨⟨[], digits n.natAbs, [], []⟩, ?_, rfl, ?_, rfl⟩
    · unfold matchNumber
      simp only [hminus, integerPart_digits, if_neg hne]
      rfl
    · rw [Literal.value, if_pos rfl, valueOf_digits]
      omega

end AdminPlatform.Foundation.JsonNumbers
