import Mathlib.Data.List.Infix

namespace AdminPlatform.Foundation.LikePatterns

/-- What a pattern of `LIKE` asks for at one place. -/
inductive Token
  | anyString
  | anyChar
  | char (c : Char)
  deriving DecidableEq

def Token.bare (c : Char) : Token := if c = '%' then .anyString else if c = '_' then .anyChar else .char c

def tokens (escape : Char) : List Char → Option (List Token)
  | [] => some []
  | [c] => if c = escape then none else some [.bare c]
  | c :: d :: p =>
      if c = escape then (tokens escape p).map (.char d :: ·)
      else (tokens escape (d :: p)).map (.bare c :: ·)

def matchesTokens : List Token → List Char → Bool
  | [], v => v.isEmpty
  | .anyString :: ts, v => v.tails.any (matchesTokens ts)
  | .anyChar :: _, [] => false
  | .anyChar :: ts, _ :: v => matchesTokens ts v
  | .char _ :: _, [] => false
  | .char c :: ts, d :: v => c == d && matchesTokens ts v

/-- `v LIKE pattern ESCAPE escape`. -/
def like (escape : Char) (pattern v : List Char) : Option Bool :=
  (tokens escape pattern).map (matchesTokens · v)

variable {escape : Char} {ts : List Token} {k p v : List Char}

theorem tokens_bare {c : Char} (h : c ≠ escape) (p : List Char) :
    tokens escape (c :: p) = (tokens escape p).map (.bare c :: ·) := by
  cases p with
  | nil => simp [tokens, h]
  | cons d p => rw [tokens, if_neg h]

theorem tokens_escaped (d : Char) (p : List Char) :
    tokens escape (escape :: d :: p) = (tokens escape p).map (.char d :: ·) := by
  rw [tokens, if_pos rfl]

theorem bare_of_ne {c : Char} (hs : c ≠ '%') (ho : c ≠ '_') : Token.bare c = .char c := by
  rw [Token.bare, if_neg hs, if_neg ho]

theorem matches_anyString :
    matchesTokens (.anyString :: ts) v = true ↔ ∃ w, w <:+ v ∧ matchesTokens ts w = true := by
  simp [matchesTokens]

/-- Characters that are asked for stand at the front. -/
theorem matches_chars : matchesTokens (k.map .char ++ ts) v = true ↔
    ∃ w, v = k ++ w ∧ matchesTokens ts w = true := by
  induction k generalizing v with
  | nil => simp
  | cons c k ih =>
    cases v with
    | nil => simp [matchesTokens]
    | cons d v =>
      simp only [List.map_cons, List.cons_append, matchesTokens, Bool.and_eq_true, beq_iff_eq,
        List.cons.injEq, ih]
      constructor
      · rintro ⟨rfl, w, rfl, hw⟩
        exact ⟨w, ⟨rfl, rfl⟩, hw⟩
      · rintro ⟨w, ⟨rfl, rfl⟩, hw⟩
        exact ⟨rfl, w, rfl, hw⟩

theorem matches_everything (v : List Char) : matchesTokens [.anyString] v = true :=
  matches_anyString.2 ⟨[], List.nil_suffix, rfl⟩

theorem matches_contains :
    matchesTokens (.anyString :: (k.map .char ++ [.anyString])) v = true ↔ k <:+: v := by
  rw [matches_anyString]
  constructor
  · rintro ⟨w, ⟨u, rfl⟩, hw⟩
    obtain ⟨z, rfl, -⟩ := matches_chars.1 hw
    exact ⟨u, z, List.append_assoc u k z⟩
  · rintro ⟨u, z, rfl⟩
    refine ⟨k ++ z, ⟨u, (List.append_assoc u k z).symm⟩, ?_⟩
    exact matches_chars.2 ⟨z, rfl, matches_everything z⟩

end AdminPlatform.Foundation.LikePatterns
