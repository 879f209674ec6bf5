import Mathlib.Data.List.Basic
import Mathlib.Data.Nat.Notation

namespace AdminPlatform.Foundation.CodePoints

/-- A `str`: its code points, lone surrogates among them. -/
abbrev Text := List ℕ

abbrev Bytes := List UInt8

def code (c : Char) : ℕ := c.toNat

def codes (s : String) : Text := s.toList.map code

def isScalar (c : ℕ) : Bool := decide (c < 0xd800 ∨ 0xdfff < c ∧ c < 0x110000)

def encodeCode (c : ℕ) : Bytes :=
  if c < 0x80 then [.ofNat c]
  else if c < 0x800 then [.ofNat (0xc0 + c / 0x40), .ofNat (0x80 + c % 0x40)]
  else if c < 0x10000 then
    [.ofNat (0xe0 + c / 0x1000), .ofNat (0x80 + c / 0x40 % 0x40), .ofNat (0x80 + c % 0x40)]
  else [.ofNat (0xf0 + c / 0x40000), .ofNat (0x80 + c / 0x1000 % 0x40), .ofNat (0x80 + c / 0x40 % 0x40),
    .ofNat (0x80 + c % 0x40)]

/-- `s.encode("utf-8")` -/
def encode (s : Text) : Option Bytes := if s.all isScalar then some (s.flatMap encodeCode) else none

def isTail (b : UInt8) : Bool := decide (0x80 ≤ b.toNat ∧ b.toNat < 0xc0)

def joined (first : ℕ) (tail : Bytes) : ℕ := tail.foldl (fun c b ↦ 0x40 * c + (b.toNat - 0x80)) first

/-- `bs.decode("utf-8", "surrogatepass")` -/
def decode : Bytes → Option Text
  | [] => some []
  | a :: s =>
    if a.toNat < 0x80 then (decode s).map (a.toNat :: ·)
    else if a.toNat < 0xc2 then none
    else match s with
      | [] => none
      | b :: s =>
        if !isTail b then none
        else if a.toNat < 0xe0 then (decode s).map (joined (a.toNat - 0xc0) [b] :: ·)
        else match s with
          | [] => none
          | c :: s =>
            if !isTail c then none
            else if a.toNat < 0xf0 then
              if joined (a.toNat - 0xe0) [b, c] < 0x800 then none
              else (decode s).map (joined (a.toNat - 0xe0) [b, c] :: ·)
            else match s with
              | [] => none
              | d :: s =>
                if !isTail d || decide (0xf5 ≤ a.toNat) then none
                else if joined (a.toNat - 0xf0) [b, c, d] < 0x10000 ∨ 0x110000 ≤ joined (a.toNat - 0xf0) [b, c, d]
                then none
                else (decode s).map (joined (a.toNat - 0xf0) [b, c, d] :: ·)

variable {c n : ℕ} {s : Text} {b : UInt8} {bs : Bytes}

theorem toNat_byte (h : n < 0x100) : (UInt8.ofNat n).toNat = n := by
  rw [UInt8.toNat_ofNat', Nat.mod_eq_of_lt h]

theorem isTail_byte (h : n < 0x40) : isTail (.ofNat (0x80 + n)) = true := by
  rw [isTail, toNat_byte (by omega), decide_eq_true_eq]
  omega

theorem joined_byte (h : n < 0x40) (first : ℕ) (tail : Bytes) :
    joined first (.ofNat (0x80 + n) :: tail) = joined (0x40 * first + n) tail := by
  rw [joined, List.foldl_cons, toNat_byte (by omega), Nat.add_sub_cancel_left]
  rfl

theorem decode_encodeCode (h : isScalar c = true) (s : Bytes) :
    decode (encodeCode c ++ s) = (decode s).map (c :: ·) := by
  have hc := of_decide_eq_true h
  unfold encodeCode
  split
  · next h₁ =>
    have hfirst := toNat_byte (n := c) (by omega)
    rw [List.singleton_append, decode.eq_def]
    dsimp only
    rw [hfirst, if_pos h₁]
  · split
    · next h₁ h₂ =>
      have hfirst := toNat_byte (n := 0xc0 + c / 0x40) (by omega)
      have htail := isTail_byte (n := c % 0x40) (by omega)
      rw [List.cons_append, List.cons_append, List.nil_append, decode.eq_def]
      dsimp only
      rw [hfirst, if_neg (by omega), if_neg (by omega)]
      rw [htail, if_neg (by decide), if_pos (by omega), joined_byte (by omega)]
      have hcode : 0x40 * (0xc0 + c / 0x40 - 0xc0) + c % 0x40 = c := by omega
      rw [hcode]
      rfl
    · split
      · next h₁ h₂ h₃ =>
        have hfirst := toNat_byte (n := 0xe0 + c / 0x1000) (by omega)
        have htail := isTail_byte (n := c / 0x40 % 0x40) (by omega)
        have htail' := isTail_byte (n := c % 0x40) (by omega)
        have hcode : joined (0xe0 + c / 0x1000 - 0xe0)
          [.ofNat (0x80 + c / 0x40 % 0x40), .ofNat (0x80 + c % 0x40)] =
            c := by
          rw [joined_byte (by omega), joined_byte (by omega)]
          show 0x40 * (0x40 * (0xe0 + c / 0x1000 - 0xe0) + c / 0x40 % 0x40) + c % 0x40 = c
          omega
        rw [List.cons_append, List.cons_append, List.cons_append, List.nil_append, decode.eq_def]
        dsimp only
        rw [hfirst, if_neg (by omega), if_neg (by omega), htail, if_neg (by decide), if_neg (by omega),
          htail', if_neg (by decide), if_pos (by omega), hcode, if_neg h₂]
      · next h₁ h₂ h₃ =>
        have hfirst := toNat_byte (n := 0xf0 + c / 0x40000) (by omega)
        have htail := isTail_byte (n := c / 0x1000 % 0x40) (by omega)
        have htail' := isTail_byte (n := c / 0x40 % 0x40) (by omega)
        have htail'' := isTail_byte (n := c % 0x40) (by omega)
        have hcode : joined (0xf0 + c / 0x40000 - 0xf0) [.ofNat (0x80 + c / 0x1000 % 0x40),
            .ofNat (0x80 + c / 0x40 % 0x40), .ofNat (0x80 + c % 0x40)] = c := by
          rw [joined_byte (by omega), joined_byte (by omega), joined_byte (by omega)]
          show 0x40 * (0x40 * (0x40 * (0xf0 + c / 0x40000 - 0xf0) + c / 0x1000 % 0x40) + c / 0x40 % 0x40) +
            c % 0x40 = c
          omega
        rw [List.cons_append, List.cons_append, List.cons_append, List.cons_append, List.nil_append, decode.eq_def]
        dsimp only
        rw [hfirst, if_neg (by omega), if_neg (by omega), htail, if_neg (by decide), if_neg (by omega),
          htail', if_neg (by decide), if_neg (by omega), htail'',
          hcode, if_neg (by simp; omega), if_neg (by omega)]

/-- What is encoded is decoded again. -/
theorem decode_of_encode (h : encode s = some bs) : decode bs = some s := by
  unfold encode at h
  split at h
  · next hs =>
    obtain rfl := Option.some.inj h
    rw [List.all_eq_true] at hs
    clear h
    induction s with
    | nil => rfl
    | cons c s ih =>
      rw [List.flatMap_cons, decode_encodeCode (hs c List.mem_cons_self),
        ih fun d hd ↦ hs d (List.mem_cons_of_mem c hd)]
      rfl
  · cases h

theorem isScalar_of_encode (h : encode s = some bs) (hc : c ∈ s) : isScalar c = true := by
  unfold encode at h
  split at h
  · next hs => exact List.all_eq_true.1 hs c hc
  · cases h

theorem encode_eq_some (h : ∀ c ∈ s, isScalar c = true) : encode s = some (s.flatMap encodeCode) :=
  if_pos (List.all_eq_true.2 h)

/-- Only the code point zero has a zero byte. -/
theorem toNat_of_mem_encodeCode (hb : b ∈ encodeCode c) (hc : c < 0x110000) (h : c ≠ 0) : b.toNat ≠ 0 := by
  unfold encodeCode at hb
  split at hb
  · obtain rfl := List.mem_singleton.1 hb
    rw [toNat_byte (by omega)]
    exact h
  · split at hb
    · simp only [List.mem_cons, List.not_mem_nil, or_false] at hb
      rcases hb with rfl | rfl <;> rw [toNat_byte (by omega)] <;> omega
    · split at hb
      · simp only [List.mem_cons, List.not_mem_nil, or_false] at hb
        rcases hb with rfl | rfl | rfl <;> rw [toNat_byte (by omega)] <;> omega
      · simp only [List.mem_cons, List.not_mem_nil, or_false] at hb
        rcases hb with rfl | rfl | rfl | rfl <;> rw [toNat_byte (by omega)] <;> omega

end AdminPlatform.Foundation.CodePoints
