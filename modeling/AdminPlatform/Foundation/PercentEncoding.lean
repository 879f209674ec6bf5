import Mathlib.Data.List.Basic
import Mathlib.Data.Nat.Notation

namespace AdminPlatform.Foundation.PercentEncoding

def hexDigit (n : ℕ) : Char := if n < 10 then .ofNat (48 + n) else .ofNat (55 + n)

def hexValue (c : Char) : Option ℕ :=
  if c.isDigit then some (c.toNat - 48)
  else if 'A' ≤ c ∧ c ≤ 'F' then some (c.toNat - 55)
  else if 'a' ≤ c ∧ c ≤ 'f' then some (c.toNat - 87)
  else none

def charOf (b : UInt8) : Char := .ofNat b.toNat

def encodeByte (kept : Char → Bool) (b : UInt8) : List Char :=
  if kept (charOf b) then [charOf b] else ['%', hexDigit (b.toNat / 16), hexDigit (b.toNat % 16)]

def encode (kept : Char → Bool) (bs : List UInt8) : List Char := bs.flatMap (encodeByte kept)

/-- The bytes that the front of a text spells in escapes and plain characters, and what follows. -/
def decode (plain : Char → Bool) : List Char → List UInt8 × List Char
  | '%' :: h :: l :: s =>
    match hexValue h, hexValue l with
    | some a, some b => (.ofNat (16 * a + b) :: (decode plain s).1, (decode plain s).2)
    | _, _ => ([], '%' :: h :: l :: s)
  | c :: s =>
    if plain c then (.ofNat c.toNat :: (decode plain s).1, (decode plain s).2) else ([], c :: s)
  | [] => ([], [])

variable {kept plain : Char → Bool} {b : UInt8} {bs : List UInt8} {c : Char} {n : ℕ} {s : List Char}

theorem hexValue_hexDigit (h : n < 16) : hexValue (hexDigit n) = some n := by
  have hall : ∀ n < 16, hexValue (hexDigit n) = some n := by decide
  exact hall n h

theorem toNat_charOf (b : UInt8) : (charOf b).toNat = b.toNat := by
  have hlt := b.toNat_lt
  have hvalid : b.toNat.isValidChar := .inl (by omega)
  rw [charOf, Char.ofNat, dif_pos hvalid]
  rfl

theorem ofNat_charOf (b : UInt8) : UInt8.ofNat (charOf b).toNat = b := by
  rw [toNat_charOf, UInt8.ofNat_toNat]

theorem decode_plain (h : plain c = true) (hp : plain '%' = false) (s : List Char) :
    decode plain (c :: s) = (.ofNat c.toNat :: (decode plain s).1, (decode plain s).2) := by
  have hne : c ≠ '%' := by
    rintro rfl
    exact absurd h (by simp [hp])
  rw [decode, if_pos h]
  rintro h' l s' rfl
  exact absurd rfl hne

/-- Decoding ends at a character that is neither plain nor the sign of an escape. -/
theorem decode_stop (h : plain c = false) (hc : c ≠ '%') (s : List Char) :
    decode plain (c :: s) = ([], c :: s) := by
  rw [decode, if_neg (by simp [h])]
  rintro h' l s' rfl
  exact absurd rfl hc

theorem decode_escape (b : UInt8) (s : List Char) :
    decode plain ('%' :: hexDigit (b.toNat / 16) :: hexDigit (b.toNat % 16) :: s) =
      (b :: (decode plain s).1, (decode plain s).2) := by
  have hlt := b.toNat_lt
  have hcode : 16 * (b.toNat / 16) + b.toNat % 16 = b.toNat := by omega
  rw [decode, hexValue_hexDigit (by omega), hexValue_hexDigit (by omega)]
  simp only [hcode, UInt8.ofNat_toNat]

/-- What is encoded comes back, whatever follows it, if the characters that are kept are plain. -/
theorem decode_encode (hp : plain '%' = false) (h : ∀ b ∈ bs, kept (charOf b) = true → plain (charOf b) = true)
    (s : List Char) :
    decode plain (encode kept bs ++ s) = (bs ++ (decode plain s).1, (decode plain s).2) := by
  induction bs with
  | nil => rfl
  | cons b bs ih =>
    have hrest := ih fun d hd ↦ h d (List.mem_cons_of_mem b hd)
    have hsplit : encode kept (b :: bs) ++ s = encodeByte kept b ++ (encode kept bs ++ s) :=
      List.append_assoc ..
    rw [hsplit]
    unfold encodeByte
    split
    · next hk =>
      rw [List.singleton_append, decode_plain (h b List.mem_cons_self hk) hp, hrest, ofNat_charOf]
      rfl
    · rw [List.cons_append, List.cons_append, List.singleton_append, decode_escape, hrest]
      rfl

/-- The characters of an encoded text: those that are kept, the sign of an escape, and digits. -/
theorem mem_encode (h : c ∈ encode kept bs) :
    (∃ b ∈ bs, c = charOf b ∧ kept c = true) ∨ c = '%' ∨ ∃ n < 16, c = hexDigit n := by
  obtain ⟨b, hb, hc⟩ := List.mem_flatMap.1 h
  have hlt := b.toNat_lt
  unfold encodeByte at hc
  split at hc
  · next hk =>
    obtain rfl := List.mem_singleton.1 hc
    exact .inl ⟨b, hb, rfl, hk⟩
  · simp only [List.mem_cons, List.not_mem_nil, or_false] at hc
    rcases hc with hc | hc | hc
    · exact .inr (.inl hc)
    · exact .inr (.inr ⟨_, by omega, hc⟩)
    · exact .inr (.inr ⟨_, by omega, hc⟩)

end AdminPlatform.Foundation.PercentEncoding
