import AdminPlatform.Foundation.AsciiChars
import Mathlib.Data.List.Basic
import Mathlib.Tactic.ByContra

namespace AdminPlatform.Foundation.Patterns

variable {α β : Type*} [DecidableEq β]

/-- Regular expressions that repeat nothing but classes. -/
inductive Regex (α : Type*)
  | eps
  | one (p : α → Bool)
  | many (p : α → Bool)
  | seq (r q : Regex α)
  | alt (r q : Regex α)

def runs (p : α → Bool) : List α → List (List α)
  | [] => [[]]
  | c :: s => if p c then runs p s ++ [c :: s] else [c :: s]

theorem mem_runs {p : α → Bool} {s t : List α} :
    t ∈ runs p s ↔ ∃ w, (∀ c ∈ w, p c) ∧ s = w ++ t := by
  induction s with
  | nil =>
    constructor
    · intro h
      exact ⟨[], by simp, by simpa [runs, eq_comm] using h⟩
    · rintro ⟨w, -, h⟩
      obtain ⟨-, rfl⟩ := List.append_eq_nil_iff.1 h.symm
      simp [runs]
  | cons c s ih =>
    constructor
    · intro h
      by_cases hc : p c
      · rw [runs, if_pos hc, List.mem_append, List.mem_singleton] at h
        rcases h with h | rfl
        · obtain ⟨w, hw, rfl⟩ := ih.1 h
          exact ⟨c :: w, by simpa [hc] using hw, rfl⟩
        · exact ⟨[], by simp, rfl⟩
      · rw [runs, if_neg hc, List.mem_singleton] at h
        exact ⟨[], by simp, h ▸ rfl⟩
    · rintro ⟨w, hw, h⟩
      cases w with
      | nil =>
        obtain rfl : c :: s = t := h
        by_cases hc : p c <;> simp [runs, hc]
      | cons d w =>
        obtain ⟨rfl, hs⟩ := List.cons.inj h
        have hc : p c := hw c (by simp)
        have ht : t ∈ runs p s := ih.2 ⟨w, fun d hd ↦ hw d (by simp [hd]), hs⟩
        simp [runs, hc, ht]

theorem head?_runs (p : α → Bool) (s : List α) : (runs p s).head? = some (s.dropWhile p) := by
  induction s with
  | nil => rfl
  | cons c s ih =>
    by_cases hc : p c
    · simp [runs, hc, ih]
    · simp [runs, hc]

theorem run_unique {p : α → Bool} {w w' x x' : List α} {c c' : α} (hw : ∀ d ∈ w, p d) (hw' : ∀ d ∈ w', p d)
    (hc : p c = false) (hc' : p c' = false) (h : w ++ c :: x = w' ++ c' :: x') :
    w = w' ∧ c = c' ∧ x = x' := by
  have hdrop := congrArg (List.dropWhile p) h
  rw [List.dropWhile_append_of_pos hw, List.dropWhile_append_of_pos hw',
    List.dropWhile_cons_of_neg (by simp [hc]), List.dropWhile_cons_of_neg (by simp [hc'])] at hdrop
  obtain ⟨rfl, rfl⟩ := List.cons.inj hdrop
  exact ⟨List.append_cancel_right h, rfl, rfl⟩

namespace Regex

def some (p : α → Bool) : Regex α := seq (one p) (many p)

def opt (r : Regex α) : Regex α := alt r eps

/-- A word, with the letters that `fold` identifies taken for each other. -/
def word (fold : α → β) (bs : List β) : Regex α :=
  bs.foldr (fun b r ↦ seq (one fun c ↦ fold c == b) r) eps

def anyOf (rs : List (Regex α)) : Regex α := rs.foldr alt (one fun _ ↦ false)

def Matches : Regex α → List α → Prop
  | eps, w => w = []
  | one p, w => ∃ c, p c ∧ w = [c]
  | many p, w => ∀ c ∈ w, p c
  | seq r q, w => ∃ u v, Matches r u ∧ Matches q v ∧ w = u ++ v
  | alt r q, w => Matches r w ∨ Matches q w

/-- What is left after each match at the front of a text, in the order of a backtracking search. -/
def ends : Regex α → List α → List (List α)
  | eps, s => [s]
  | one _, [] => []
  | one p, c :: s => if p c then [s] else []
  | many p, s => runs p s
  | seq r q, s => (ends r s).flatMap (ends q)
  | alt r q, s => ends r s ++ ends q s

variable {r q : Regex α} {p : α → Bool} {s t u v : List α}

theorem mem_ends : t ∈ ends r s ↔ ∃ w, Matches r w ∧ s = w ++ t := by
  induction r generalizing s t with
  | eps => simp [ends, Matches, eq_comm]
  | one p =>
    cases s with
    | nil => simp [ends, Matches]
    | cons c s =>
      by_cases hc : p c
      · simp only [ends, hc, if_true, List.mem_singleton, Matches]
        constructor
        · rintro rfl
          exact ⟨[c], ⟨c, hc, rfl⟩, rfl⟩
        · rintro ⟨_, ⟨d, -, rfl⟩, h⟩
          exact (List.cons.inj h).2.symm
      · simp only [ends, hc, Bool.false_eq_true, if_false, List.not_mem_nil, Matches, false_iff]
        rintro ⟨_, ⟨d, hd, rfl⟩, h⟩
        exact hc ((List.cons.inj h).1 ▸ hd)
  | many p => exact mem_runs
  | seq r q ihr ihq =>
    simp only [ends, List.mem_flatMap, ihr, ihq, Matches]
    constructor
    · rintro ⟨x, ⟨w, hw, rfl⟩, w', hw', rfl⟩
      exact ⟨w ++ w', ⟨w, w', hw, hw', rfl⟩, by simp⟩
    · rintro ⟨_, ⟨w, w', hw, hw', rfl⟩, rfl⟩
      exact ⟨w' ++ t, ⟨w, hw, by simp⟩, w', hw', rfl⟩
  | alt r q ihr ihq => simp [ends, Matches, ihr, ihq, or_and_right, exists_or]

theorem matches_word {fold : α → β} {bs : List β} {w : List α} :
    Matches (word fold bs) w ↔ w.map fold = bs := by
  induction bs generalizing w with
  | nil => simp [word, Matches]
  | cons b bs ih =>
    have hword : word fold (b :: bs) = seq (one fun c ↦ fold c == b) (word fold bs) := rfl
    simp only [hword, Matches, ih, beq_iff_eq]
    constructor
    · rintro ⟨_, v, ⟨c, rfl, rfl⟩, hv, rfl⟩
      simp [hv]
    · intro h
      obtain ⟨c, v, rfl, hc, hv⟩ := List.map_eq_cons_iff.1 h
      exact ⟨[c], v, ⟨c, hc, rfl⟩, hv, rfl⟩

theorem matches_anyOf {rs : List (Regex α)} {w : List α} :
    Matches (anyOf rs) w ↔ ∃ r ∈ rs, Matches r w := by
  induction rs with
  | nil => simp [anyOf, Matches]
  | cons r rs ih =>
    have hany : anyOf (r :: rs) = alt r (anyOf rs) := rfl
    simp [hany, Matches, ih]

theorem matches_some {w : List α} : Matches (some p) w ↔ w ≠ [] ∧ ∀ c ∈ w, p c := by
  constructor
  · rintro ⟨_, v, ⟨c, hc, rfl⟩, hv, rfl⟩
    refine ⟨by simp, fun d hd ↦ ?_⟩
    rcases List.mem_cons.1 hd with rfl | hd
    · exact hc
    · exact hv d hd
  · rintro ⟨hne, hw⟩
    obtain ⟨c, v, rfl⟩ := List.exists_cons_of_ne_nil hne
    exact ⟨[c], v, ⟨c, hw c (by simp), rfl⟩, fun d hd ↦ hw d (by simp [hd]), rfl⟩

def first (r : Regex α) (s : List α) : Option (List α) := (ends r s).head?

theorem first_matches (h : first r s = .some t) : ∃ w, Matches r w ∧ s = w ++ t :=
  mem_ends.1 (List.mem_of_head? h)

theorem first_of_matches (h : Matches r u) : ∃ t, first r (u ++ v) = .some t := by
  have hmem : v ∈ ends r (u ++ v) := mem_ends.2 ⟨u, h, rfl⟩
  exact ⟨_, List.head?_eq_some_head (List.ne_nil_of_mem hmem)⟩

theorem first_seq (h : first (seq r q) s = .some t) :
    ∃ x, (∃ w, Matches r w ∧ s = w ++ x) ∧ first q x = .some t := by
  rw [first, ends, List.head?_flatMap] at h
  obtain ⟨x, hx, ht⟩ := List.exists_of_findSome?_eq_some h
  exact ⟨x, mem_ends.1 hx, ht⟩

theorem first_alt (h : first (alt r q) s = .some t) : first r s = .some t ∨ first q s = .some t := by
  rw [first, ends, List.head?_append, Option.or_eq_some_iff] at h
  exact h.imp_right And.right

theorem first_alt_left (h : first r s = .some t) : first (alt r q) s = .some t := by
  rw [first, ends, List.head?_append, ← first, h, Option.some_or]

theorem first_some (h : first (some p) s = .some t) :
    ∃ c w, s = c :: w ∧ p c ∧ t = w.dropWhile p := by
  obtain ⟨x, ⟨_, ⟨c, hc, rfl⟩, rfl⟩, ht⟩ := first_seq h
  refine ⟨c, x, rfl, hc, ?_⟩
  rw [first, ends, head?_runs] at ht
  exact (Option.some.inj ht).symm

/-- How a substitution treats a character: it is kept, or it is the first of a match, or a later one. -/
inductive Mark
  | kept
  | opened
  | covered
  deriving DecidableEq, Repr

/-- The leftmost matches of an expression that no empty text matches, in a text whose first `k`
characters belong to a match already. -/
def marks (r : Regex α) : ℕ → List α → List Mark
  | _, [] => []
  | k + 1, _ :: s => .covered :: marks r k s
  | 0, c :: s =>
    match first r (c :: s) with
    | none => .kept :: marks r 0 s
    | .some t => .opened :: marks r (s.length - t.length) s

def sub (r : Regex α) (new s : List α) : List α :=
  ((marks r 0 s).zip s).flatMap fun x ↦
    match x.1 with
    | .kept => [x.2]
    | .opened => new
    | .covered => []

def Copied (r : Regex α) (s : List α) (i : ℕ) : Prop := (marks r 0 s)[i]? = .some .kept

def Covered (r : Regex α) (s : List α) (i : ℕ) : Prop := (marks r 0 s)[i]? = .some .covered

instance (r : Regex α) (s : List α) (i : ℕ) : Decidable (Covered r s i) :=
  inferInstanceAs (Decidable (_ = _))

theorem marks_split (u v : List α) (k : ℕ) :
    ∃ k', (marks r k (u ++ v)).drop u.length = marks r k' v ∧
      (k' = 0 ∨ k = u.length + k' ∨
        ∃ b t, b ≠ [] ∧ first r (b ++ v) = .some t ∧ t.length + k' = v.length) := by
  induction u generalizing k with
  | nil => exact ⟨k, rfl, .inr (.inl (by simp))⟩
  | cons c u ih =>
    cases k with
    | succ k =>
      obtain ⟨k', hdrop, hk⟩ := ih k
      refine ⟨k', by simpa [marks] using hdrop, ?_⟩
      rcases hk with hk | hk | hk
      · exact .inl hk
      · exact .inr (.inl (by simp only [List.length_cons]; omega))
      · exact .inr (.inr hk)
    | zero =>
      cases hfirst : first r (c :: (u ++ v)) with
      | none =>
        obtain ⟨k', hdrop, hk⟩ := ih 0
        refine ⟨k', by simpa [marks, hfirst] using hdrop, ?_⟩
        rcases hk with hk | hk | hk
        · exact .inl hk
        · exact .inl (by omega)
        · exact .inr (.inr hk)
      | some t =>
        obtain ⟨k', hdrop, hk⟩ := ih ((u ++ v).length - t.length)
        refine ⟨k', by simpa [marks, hfirst] using hdrop, ?_⟩
        rcases hk with hk | hk | hk
        · exact .inl hk
        · by_cases hzero : k' = 0
          · exact .inl hzero
          · refine .inr (.inr ⟨c :: u, t, by simp, hfirst, ?_⟩)
            simp only [List.length_append] at hk
            omega
        · exact .inr (.inr hk)

theorem marks_of_lt {k i : ℕ} (h : i < k) : (marks r k s)[i]? ≠ .some .kept := by
  induction s generalizing k i with
  | nil => simp [marks]
  | cons c s ih =>
    obtain ⟨k, rfl⟩ := Nat.exists_eq_succ_of_ne_zero (Nat.ne_of_gt (Nat.zero_lt_of_lt h))
    cases i with
    | zero => simp [marks]
    | succ i => simpa [marks] using ih (Nat.lt_of_succ_lt_succ h)

theorem marks_of_first {i : ℕ} (h : first r s = .some t) (hi : i + t.length < s.length) :
    (marks r 0 s)[i]? ≠ .some .kept := by
  cases s with
  | nil => simp at hi
  | cons c s =>
    cases i with
    | zero => simp [marks, h]
    | succ i =>
      have hlt : i < s.length - t.length := by
        simp only [List.length_cons] at hi
        omega
      simpa [marks, h] using marks_of_lt hlt

theorem copied_append {i : ℕ} : Copied r (u ++ v) (u.length + i) ↔
    ((marks r 0 (u ++ v)).drop u.length)[i]? = .some .kept := by
  rw [List.getElem?_drop, Copied]

/-- Nothing of a match is copied, if no earlier match reaches to where it begins. -/
theorem not_copied_of_first {i : ℕ} (hstart : ¬ Covered r (u ++ v) u.length)
    (h : first r v = .some t) (hi : i + t.length < v.length) : ¬ Copied r (u ++ v) (u.length + i) := by
  obtain ⟨k, hdrop, -⟩ := marks_split (r := r) u v 0
  rw [copied_append, hdrop]
  have hzero : k = 0 := by
    by_contra hk
    obtain ⟨k, rfl⟩ := Nat.exists_eq_succ_of_ne_zero hk
    obtain ⟨c, v, rfl⟩ := List.exists_cons_of_length_pos (Nat.zero_lt_of_lt hi)
    have hget : ((marks r 0 (u ++ c :: v)).drop u.length)[0]? = .some .covered := by simp [hdrop, marks]
    exact hstart (by simpa [Covered, List.getElem?_drop] using hget)
  exact hzero ▸ marks_of_first h hi

/-- Nothing of a part of the text is copied, if a match begins there and no match that reaches into
the part ends inside. -/
theorem not_copied_of_closed {i : ℕ} (h : first r (u ++ v) = .some t)
    (ht : t.length < (u ++ v).length)
    (hall : ∀ b t, first r (b ++ (u ++ v)) = .some t → t.length < (u ++ v).length →
      t.length ≤ v.length)
    (hi : i < u.length) (before : List α) :
    ¬ Copied r (before ++ (u ++ v)) (before.length + i) := by
  have hlen : (u ++ v).length = u.length + v.length := List.length_append
  obtain ⟨k, hdrop, hk⟩ := marks_split (r := r) before (u ++ v) 0
  rw [copied_append, hdrop]
  have hzero : k = 0 → (marks r k (u ++ v))[i]? ≠ .some .kept := by
    rintro rfl
    have hle := hall [] t h ht
    exact marks_of_first h (by omega)
  rcases hk with hk | hk | ⟨b, t', -, hb, hk⟩
  · exact hzero hk
  · exact hzero (by omega)
  · by_cases hk0 : k = 0
    · exact hzero hk0
    · have hle := hall b t' hb (by omega)
      exact marks_of_lt (by omega)

end Regex

def caseless (c : Char) : Char :=
  if c.toNat = 0x130 ∨ c.toNat = 0x131 then 'i'
  else if c.toNat = 0x17f then 's'
  else if c.toNat = 0x212a then 'k'
  else c.toLower

theorem caseless_eq_self {c : Char} (hupper : ¬ (65 ≤ c.toNat ∧ c.toNat ≤ 90))
    (hother : c.toNat ≠ 0x130 ∧ c.toNat ≠ 0x131 ∧ c.toNat ≠ 0x17f ∧ c.toNat ≠ 0x212a) : caseless c = c := by
  rw [caseless, if_neg (by omega), if_neg (by omega), if_neg (by omega), AsciiChars.toLower_eq_self hupper]

end AdminPlatform.Foundation.Patterns
