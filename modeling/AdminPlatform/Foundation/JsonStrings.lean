import AdminPlatform.Foundation.Json
import Mathlib.Data.List.Basic

namespace AdminPlatform.Foundation.JsonStrings

open CodePoints Json

variable {st : Style} {s r : Text} {c n : ℕ}

def piecesOf (st : Style) (c : ℕ) : List Piece :=
  if (shortEscape c).isNone ∧ (c < 0x20 ∨ st.ascii = true ∧ 0x7e < c) then
    if c < 0x10000 then [.escaped c]
    else [.escaped (0xd800 + (c - 0x10000) / 0x400), .escaped (0xdc00 + (c - 0x10000) % 0x400)]
  else [.plain c]

theorem hexValue_hexDigit (h : n < 16) : hexValue (hexDigit n) = some n := by
  have hall : ∀ n < 16, hexValue (hexDigit n) = some n := by decide
  exact hall n h

theorem pieces_escapeUnit (h : n < 0x10000) (s : Text) :
    pieces (escapeUnit n ++ s) = (pieces s).map fun r ↦ (.escaped n :: r.1, r.2) := by
  have hhex : hex4 (hexDigit (n / 0x1000)) (hexDigit (n / 0x100 % 0x10)) (hexDigit (n / 0x10 % 0x10))
      (hexDigit (n % 0x10)) = some n := by
    have hsum : 0x1000 * (n / 0x1000) + 0x100 * (n / 0x100 % 0x10) + 0x10 * (n / 0x10 % 0x10) + n % 0x10 = n := by
      omega
    rw [hex4, hexValue_hexDigit (by omega), hexValue_hexDigit (by omega), hexValue_hexDigit (by omega),
      hexValue_hexDigit (by omega)]
    exact congrArg some hsum
  rw [escapeUnit, List.cons_append, List.cons_append, List.cons_append, List.cons_append, List.cons_append,
    List.cons_append, List.nil_append, pieces.eq_def]
  dsimp only
  rw [if_neg (by decide), if_pos rfl, if_pos rfl, hhex]

theorem mem_shortEscapes {e : ℕ} (h : shortEscape c = some e) :
    (c, e) ∈ [(34, 34), (92, 92), (8, 98), (12, 102), (10, 110), (13, 114), (9, 116)] := by
  unfold shortEscape at h
  split at h
  · next hc =>
    obtain rfl := Option.some.inj h
    rcases hc with rfl | rfl <;> decide
  · repeat' split at h
    all_goals first
      | next hc => obtain rfl := Option.some.inj h; subst hc; decide
      | cases h

theorem shortEscape_spec {e : ℕ} (h : shortEscape c = some e) :
    backslash e = some c ∧ e ≠ code 'u' ∧ (0x20 ≤ e ∧ e < 0x7f) ∧ c < 0x7f := by
  have hall : ∀ p ∈ [(34, 34), (92, 92), (8, 98), (12, 102), (10, 110), (13, 114), (9, 116)],
      backslash p.2 = some p.1 ∧ p.2 ≠ code 'u' ∧ (0x20 ≤ p.2 ∧ p.2 < 0x7f) ∧ p.1 < 0x7f := by decide
  exact hall (c, e) (mem_shortEscapes h)

theorem pieces_short {e : ℕ} (h : shortEscape c = some e) (s : Text) :
    pieces (code '\\' :: e :: s) = (pieces s).map fun r ↦ (.plain c :: r.1, r.2) := by
  obtain ⟨hback, hu, -, -⟩ := shortEscape_spec h
  rw [pieces.eq_def]
  dsimp only
  rw [if_neg (by decide), if_pos rfl, if_neg hu, hback]

theorem pieces_plain (h : shortEscape c = none) (hc : 0x20 ≤ c) (s : Text) :
    pieces (c :: s) = (pieces s).map fun r ↦ (.plain c :: r.1, r.2) := by
  have hquote : c ≠ code '"' := by
    rintro rfl
    exact absurd h (by decide)
  have hback : c ≠ code '\\' := by
    rintro rfl
    exact absurd h (by decide)
  rw [pieces.eq_def]
  dsimp only
  rw [if_neg hquote, if_neg hback, if_neg (by omega)]

theorem pieces_escape (h : c < 0x110000) (s : Text) :
    pieces (escape st c ++ s) = (pieces s).map fun r ↦ (piecesOf st c ++ r.1, r.2) := by
  unfold escape piecesOf
  cases hs : shortEscape c with
  | some e =>
    simp only [Option.isNone_some, Bool.false_eq_true, false_and, if_false]
    exact pieces_short hs s
  | none =>
    simp only [Option.isNone_none, true_and]
    split
    · split
      · next hlow => exact pieces_escapeUnit hlow s
      · rw [List.append_assoc, pieces_escapeUnit (by omega), pieces_escapeUnit (by omega)]
        cases pieces s <;> rfl
    · next hraw => exact pieces_plain hs (by omega) s

theorem joinPieces_escaped (h : isHigh n = false) (ps : List Piece) :
    joinPieces (.escaped n :: ps) = n :: joinPieces ps := by
  cases ps with
  | nil => rfl
  | cons p ps =>
    cases p with
    | plain c => rfl
    | escaped m =>
      rw [joinPieces, h]
      rfl

theorem joinPieces_piecesOf (h : isScalar c = true) (ps : List Piece) :
    joinPieces (piecesOf st c ++ ps) = c :: joinPieces ps := by
  have hc := of_decide_eq_true h
  unfold piecesOf
  split
  · split
    · have hhigh : isHigh c = false := decide_eq_false (by omega)
      exact joinPieces_escaped hhigh ps
    · have hhigh : isHigh (0xd800 + (c - 0x10000) / 0x400) = true := decide_eq_true (by omega)
      have hlow : isLow (0xdc00 + (c - 0x10000) % 0x400) = true := decide_eq_true (by omega)
      have hcode : 0x10000 + (0x400 * (0xd800 + (c - 0x10000) / 0x400 - 0xd800) +
          (0xdc00 + (c - 0x10000) % 0x400 - 0xdc00)) = c := by
        omega
      show joinPieces (.escaped _ :: .escaped _ :: ps) = _
      rw [joinPieces, hhigh, hlow, hcode]
      rfl
  · rfl

theorem pieces_flatMap (st : Style) (h : ∀ c ∈ s, isScalar c = true) (r : Text) :
    ∃ ps, pieces (s.flatMap (escape st) ++ code '"' :: r) = .ok (ps, r) ∧ joinPieces ps = s := by
  induction s with
  | nil =>
    refine ⟨[], ?_, rfl⟩
    rw [List.flatMap_nil, List.nil_append, pieces.eq_def]
    exact if_pos rfl
  | cons c s ih =>
    obtain ⟨ps, hps, hjoin⟩ := ih fun d hd ↦ h d (List.mem_cons_of_mem c hd)
    have hc := h c List.mem_cons_self
    have hrange : c < 0x110000 := by
      have := of_decide_eq_true hc
      omega
    refine ⟨piecesOf st c ++ ps, ?_, ?_⟩
    · rw [List.flatMap_cons, List.append_assoc, pieces_escape hrange, hps]
      rfl
    · rw [joinPieces_piecesOf hc, hjoin]

theorem scanString_quoted (st : Style) (h : ∀ c ∈ s, isScalar c = true) (r : Text) :
    ∃ t, quoted st s ++ r = code '"' :: t ∧ scanString t = .ok (s, r) := by
  obtain ⟨ps, hps, hjoin⟩ := pieces_flatMap st h r
  refine ⟨s.flatMap (escape st) ++ code '"' :: r, ?_, ?_⟩
  · rw [quoted, List.cons_append, List.append_assoc]
    rfl
  · rw [scanString, hps]
    exact congrArg (fun s ↦ Except.ok (s, r)) hjoin

theorem le_of_mem_escapeUnit (hc : c ∈ escapeUnit n) (h : n < 0x10000) : 0x20 ≤ c ∧ c < 0x7f := by
  have hdigit : ∀ k < 16, 0x20 ≤ hexDigit k ∧ hexDigit k < 0x7f := by decide
  simp only [escapeUnit, List.mem_cons, List.not_mem_nil, or_false] at hc
  rcases hc with rfl | rfl | rfl | rfl | rfl | rfl
  · decide
  · decide
  · exact hdigit _ (by omega)
  · exact hdigit _ (by omega)
  · exact hdigit _ (by omega)
  · exact hdigit _ (by omega)

theorem mem_escape {d : ℕ} (hd : d ∈ escape st c) (h : c < 0x110000) :
    0x20 ≤ d ∧ d < 0x7f ∨ d = c ∧ 0x20 ≤ c := by
  unfold escape at hd
  cases hs : shortEscape c with
  | some e =>
    rw [hs] at hd
    simp only [List.mem_cons, List.not_mem_nil, or_false] at hd
    rcases hd with rfl | rfl
    · exact .inl (by decide)
    · exact .inl (shortEscape_spec hs).2.2.1
  | none =>
    rw [hs] at hd
    dsimp only at hd
    split at hd
    · split at hd
      · next hlow => exact .inl (le_of_mem_escapeUnit hd hlow)
      · rcases List.mem_append.1 hd with hd | hd
        · exact .inl (le_of_mem_escapeUnit hd (by omega))
        · exact .inl (le_of_mem_escapeUnit hd (by omega))
    · next hraw => exact .inr ⟨List.mem_singleton.1 hd, by omega⟩

end AdminPlatform.Foundation.JsonStrings
