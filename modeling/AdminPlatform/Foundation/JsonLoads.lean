import AdminPlatform.Foundation.JsonRoundTrip

namespace AdminPlatform.Foundation.JsonLoads

open CodePoints Dicts Json JsonNumbers JsonRoundTrip

variable {F : Type} {fl : Floats} {s t : Text} {c n : ℕ}

theorem length_skipSpace (s : Text) : (skipSpace s).length ≤ s.length := List.length_dropWhile_le isSpace s

theorem length_expect (h : expect c s = .ok t) : t.length < s.length := by
  have hs := length_skipSpace s
  unfold expect at h
  split at h
  · next d u he =>
    split at h
    · obtain rfl := Except.ok.inj h
      rw [he, List.length_cons] at hs
      omega
    · cases h
  · cases h

theorem ok_of_map {ε α β : Type} {x : Except ε α} {f : α → β} {b : β} (h : x.map f = .ok b) :
    ∃ a, x = .ok a ∧ f a = b := by
  cases x with
  | error e => cases h
  | ok a => exact ⟨a, rfl, Except.ok.inj h⟩

theorem ok_of_bind {ε α β : Type} {x : Except ε α} {f : α → Except ε β} {b : β} (h : x >>= f = .ok b) :
    ∃ a, x = .ok a ∧ f a = .ok b := by
  cases x with
  | error e => cases h
  | ok a => exact ⟨a, rfl, h⟩

theorem length_pieces {r : List Piece × Text} (h : pieces s = .ok r) : r.2.length < s.length := by
  have hnext : ∀ {u : Text} {p : Piece} {r : List Piece × Text},
      (∀ {q}, pieces u = .ok q → q.2.length < u.length) →
      (pieces u).map (fun q ↦ (p :: q.1, q.2)) = .ok r → r.2.length < u.length := by
    intro u p r ih h
    obtain ⟨q, hq, rfl⟩ := ok_of_map h
    have hlt : q.2.length < u.length := ih hq
    exact hlt
  induction s using pieces.induct generalizing r with
  | case1 => cases h
  | case2 t =>
    rw [pieces.eq_def] at h
    dsimp only at h
    rw [if_pos rfl] at h
    obtain rfl := Except.ok.inj h
    exact Nat.lt_succ_self _
  | case3 hne => cases h
  | case4 h₁ h₂ h₃ h₄ w e he hne ih =>
    rw [pieces.eq_def] at h
    dsimp only at h
    rw [if_neg hne, if_pos rfl, if_pos rfl, he] at h
    have hw := hnext ih h
    simp only [List.length_cons]
    omega
  | case5 h₁ h₂ h₃ h₄ w he hne =>
    rw [pieces.eq_def] at h
    dsimp only at h
    rw [if_neg hne, if_pos rfl, if_pos rfl, he] at h
    cases h
  | case6 u hu hne =>
    rw [pieces.eq_def] at h
    dsimp only at h
    rw [if_neg hne, if_pos rfl, if_pos rfl] at h
    split at h
    · exact absurd rfl (hu _ _ _ _ _)
    · cases h
  | case7 e u hu d hd hne ih =>
    rw [pieces.eq_def] at h
    dsimp only at h
    rw [if_neg hne, if_pos rfl, if_neg hu, hd] at h
    have hw := hnext ih h
    simp only [List.length_cons]
    omega
  | case8 e u hu hd hne =>
    rw [pieces.eq_def] at h
    dsimp only at h
    rw [if_neg hne, if_pos rfl, if_neg hu, hd] at h
    cases h
  | case9 c t hq hb hc =>
    rw [pieces.eq_def] at h
    dsimp only at h
    rw [if_neg hq, if_neg hb, if_pos hc] at h
    cases h
  | case10 c t hq hb hc ih =>
    rw [pieces.eq_def] at h
    dsimp only at h
    rw [if_neg hq, if_neg hb, if_neg hc] at h
    have hw := hnext ih h
    rw [List.length_cons]
    omega

theorem length_scanString {r : Text × Text} (h : scanString s = .ok r) : r.2.length < s.length := by
  obtain ⟨q, hq, rfl⟩ := ok_of_map h
  exact length_pieces hq

theorem length_matchNumber {l : Literal} (h : matchNumber s = some (l, t)) : t.length < s.length := by
  have hs := congrArg List.length (text_of_matchNumber h)
  have hinteger : 0 < l.integer.length := by
    unfold matchNumber at h
    dsimp only at h
    split at h
    · cases h
    · next hne =>
      obtain ⟨rfl, -⟩ := Prod.mk.inj (Option.some.inj h)
      exact List.length_pos_iff.2 hne
  simp only [Literal.text, List.length_append] at hs
  omega

theorem length_constant {r : Value fl.F × Text} (h : constant fl s = some r) : r.2.length < s.length := by
  obtain ⟨w, hw, hr⟩ := List.exists_of_findSome?_eq_some h
  split at hr
  · next hp =>
    obtain rfl := Option.some.inj hr
    have hpos : ∀ w ∈ constants fl, 0 < w.1.length := by
      intro w hw
      simp only [constants, List.mem_cons, List.not_mem_nil, or_false] at hw
      rcases hw with rfl | rfl | rfl | rfl | rfl | rfl <;> exact Nat.succ_pos _
    have hlen := (List.isPrefixOf_iff_prefix.1 hp).length_le
    have := hpos w hw
    rw [List.length_drop]
    omega
  · cases hr

theorem everywhere_arr {p : Value F → Prop} {xs : List (Value F)} (h : p (.arr xs))
    (hxs : ∀ x ∈ xs, Everywhere p x) : Everywhere p (.arr xs) := by
  intro w hw
  cases hw with
  | self => exact h
  | item hx hw => exact hxs _ hx w hw

theorem everywhere_obj {p : Value F → Prop} {ms : List (Text × Value F)} (h : p (.obj ms))
    (hms : ∀ m ∈ ms, Everywhere p m.2) : Everywhere p (.obj ms) := by
  intro w hw
  cases hw with
  | self => exact h
  | member hm hw => exact hms _ hm w hw

def IsLeaf : Value F → Prop
  | .arr _ => False
  | .obj _ => False
  | _ => True

theorem everywhere_leaf {p : Value F → Prop} {v : Value F} (hv : IsLeaf v) (h : p v) : Everywhere p v := by
  intro w hw
  cases hw with
  | self => exact h
  | item => exact hv.elim
  | member => exact hv.elim

theorem loaded_constant {r : Value fl.F × Text} (h : constant fl s = some r) : Everywhere LoadedNode r.1 := by
  obtain ⟨w, hw, hr⟩ := List.exists_of_findSome?_eq_some h
  split at hr
  · obtain rfl := Option.some.inj hr
    simp only [constants, List.mem_cons, List.not_mem_nil, or_false] at hw
    rcases hw with rfl | rfl | rfl | rfl | rfl | rfl <;> exact everywhere_leaf trivial trivial
  · cases hr

/-- An integer is written with no more digits than it was read from. -/
theorem loaded_int {l : Literal} (h : matchNumber s = some (l, t)) (hl : l.integer.length ≤ maxDigits) :
    (digits l.value.natAbs).length ≤ maxDigits := by
  unfold matchNumber at h
  dsimp only at h
  split at h
  · cases h
  · next hne =>
    obtain ⟨rfl, -⟩ := Prod.mk.inj (Option.some.inj h)
    have hpos := List.length_pos_iff.2 hne
    have hlt := valueOf_lt (s := (integerPart (minus s).2).1) fun d hd ↦ isDigit_of_mem_integerPart hd
    rw [show (integerPart (minus s).2).1.length = (integerPart (minus s).2).1.length - 1 + 1 by omega] at hlt
    have hdigits := length_digits hlt
    have hvalue : ∀ l : Literal, l.value.natAbs = valueOf l.integer := by
      intro l
      unfold Literal.value
      split
      · exact Int.natAbs_natCast _
      · rw [Int.natAbs_neg, Int.natAbs_natCast]
    rw [hvalue]
    dsimp only at hl ⊢
    omega

/-- The items of a list are read one by one. -/
theorem scanItems_ok {r : List (Value fl.F) × Text} (h : scanItems fl (n + 1) s = .ok r) :
    ∃ x, scanOnce fl n s = .ok x ∧ ((expect (code ']') x.2 = .ok r.2 ∧ r.1 = [x.1]) ∨
      ∃ t q, expect (code ',') x.2 = .ok t ∧ scanItems fl n (skipSpace t) = .ok q ∧ r = (x.1 :: q.1, q.2)) := by
  rw [scanItems] at h
  obtain ⟨x, hx, h⟩ := ok_of_bind h
  dsimp only at h
  refine ⟨x, hx, ?_⟩
  cases hend : expect (code ']') x.2 with
  | ok u =>
    rw [hend] at h
    obtain rfl := Except.ok.inj h
    exact .inl ⟨rfl, rfl⟩
  | error e =>
    rw [hend] at h
    obtain ⟨t, ht, h⟩ := ok_of_bind h
    obtain ⟨q, hq, h⟩ := ok_of_bind h
    exact .inr ⟨t, q, ht, hq, (Except.ok.inj h).symm⟩

theorem scanMembers_ok {r : List (Text × Value fl.F) × Text} (h : scanMembers fl (n + 1) s = .ok r) :
    ∃ k u x, s ≠ [] ∧ scanString s.tail = .ok k ∧ expect (code ':') k.2 = .ok u ∧
      scanOnce fl n (skipSpace u) = .ok x ∧ ((expect (code '\x7d') x.2 = .ok r.2 ∧ r.1 = [(k.1, x.1)]) ∨
        ∃ t q, expect (code ',') x.2 = .ok t ∧ scanMembers fl n (skipSpace t) = .ok q ∧
          r = ((k.1, x.1) :: q.1, q.2)) := by
  cases s with
  | nil => cases h
  | cons c s =>
    rw [scanMembers] at h
    split at h
    · obtain ⟨k, hk, h⟩ := ok_of_bind h
      obtain ⟨u, hu, h⟩ := ok_of_bind h
      obtain ⟨x, hx, h⟩ := ok_of_bind h
      dsimp only at h
      refine ⟨k, u, x, List.cons_ne_nil c s, hk, hu, hx, ?_⟩
      cases hend : expect (code '\x7d') x.2 with
      | ok u =>
        rw [hend] at h
        obtain rfl := Except.ok.inj h
        exact .inl ⟨rfl, rfl⟩
      | error e =>
        rw [hend] at h
        obtain ⟨t, ht, h⟩ := ok_of_bind h
        obtain ⟨q, hq, h⟩ := ok_of_bind h
        exact .inr ⟨t, q, ht, hq, (Except.ok.inj h).symm⟩
    · cases h

section

variable (fl : Floats) (n : ℕ)

def LoadsOnce : Prop := ∀ s r, scanOnce fl n s = .ok r → r.2.length < s.length ∧ Everywhere LoadedNode r.1

def LoadsItems : Prop :=
  ∀ s r, scanItems fl n s = .ok r → r.2.length < s.length ∧ ∀ x ∈ r.1, Everywhere LoadedNode x

def LoadsMembers : Prop :=
  ∀ s r, scanMembers fl n s = .ok r → r.2.length < s.length ∧ ∀ m ∈ r.1, Everywhere LoadedNode m.2

end

theorem scanNumber_loads {r : Value fl.F × Text} (h : scanNumber fl s = .ok r) :
    r.2.length < s.length ∧ Everywhere LoadedNode r.1 := by
  unfold scanNumber at h
  split at h
  · cases h
  · next l t hl =>
    split at h
    · split at h
      · cases h
      · next hdigits =>
        obtain rfl := Except.ok.inj h
        exact ⟨length_matchNumber hl, everywhere_leaf trivial (loaded_int hl (Nat.not_lt.1 hdigits))⟩
    · obtain rfl := Except.ok.inj h
      exact ⟨length_matchNumber hl, everywhere_leaf trivial trivial⟩

theorem loadsOnce_succ (hi : LoadsItems fl n) (hm : LoadsMembers fl n) : LoadsOnce fl (n + 1) := by
  intro s r h
  cases s with
  | nil => cases h
  | cons c s =>
    have hspace := length_skipSpace s
    rw [scanOnce] at h
    rw [List.length_cons]
    split at h
    · obtain ⟨q, hq, rfl⟩ := ok_of_map h
      have hlen := length_scanString hq
      exact ⟨by dsimp only; omega, everywhere_leaf trivial trivial⟩
    · split at h
      · split at h
        · next u hu =>
          obtain rfl := Except.ok.inj h
          have hlen := length_expect hu
          exact ⟨by dsimp only; omega, everywhere_arr trivial fun x hx ↦ absurd hx List.not_mem_nil⟩
        · obtain ⟨q, hq, rfl⟩ := ok_of_map h
          obtain ⟨hlen, hq⟩ := hi _ _ hq
          exact ⟨by dsimp only; omega, everywhere_arr trivial hq⟩
      · split at h
        · split at h
          · next u hu =>
            obtain rfl := Except.ok.inj h
            have hlen := length_expect hu
            exact ⟨by dsimp only; omega, everywhere_obj List.nodup_nil fun x hx ↦ absurd hx List.not_mem_nil⟩
          · obtain ⟨q, hq, rfl⟩ := ok_of_map h
            obtain ⟨hlen, hq⟩ := hm _ _ hq
            refine ⟨by dsimp only; omega, everywhere_obj (nodup_ofPairs q.1) fun m hmem ↦ ?_⟩
            exact hq m (mem_of_mem_ofPairs hmem)
        · split at h
          · next q hq =>
            obtain rfl := Except.ok.inj h
            exact ⟨length_constant hq, loaded_constant hq⟩
          · exact scanNumber_loads h

theorem loadsItems_succ (ho : LoadsOnce fl n) (hi : LoadsItems fl n) : LoadsItems fl (n + 1) := by
  intro s r h
  obtain ⟨x, hx, hr⟩ := scanItems_ok h
  obtain ⟨hlen, hx⟩ := ho s x hx
  rcases hr with ⟨hend, hr⟩ | ⟨t, q, ht, hq, rfl⟩
  · refine ⟨(length_expect hend).trans hlen, ?_⟩
    rw [hr]
    rintro y hy
    rw [List.mem_singleton.1 hy]
    exact hx
  · obtain ⟨hlen', hq⟩ := hi _ _ hq
    have hcomma := length_expect ht
    have hspace := length_skipSpace t
    refine ⟨by dsimp only; omega, ?_⟩
    rintro y hy
    rcases List.mem_cons.1 hy with rfl | hy
    · exact hx
    · exact hq y hy

theorem loadsMembers_succ (ho : LoadsOnce fl n) (hm : LoadsMembers fl n) : LoadsMembers fl (n + 1) := by
  intro s r h
  obtain ⟨k, u, x, hs, hk, hu, hx, hr⟩ := scanMembers_ok h
  obtain ⟨hlen, hx⟩ := ho _ x hx
  have hstring := length_scanString hk
  have hcolon := length_expect hu
  have hspace := length_skipSpace u
  rw [List.length_tail] at hstring
  rcases hr with ⟨hend, hr⟩ | ⟨t, q, ht, hq, rfl⟩
  · have hbrace := length_expect hend
    refine ⟨by omega, ?_⟩
    rw [hr]
    rintro m hmem
    rw [List.mem_singleton.1 hmem]
    exact hx
  · obtain ⟨hlen', hq⟩ := hm _ _ hq
    have hcomma := length_expect ht
    have hspace' := length_skipSpace t
    refine ⟨by dsimp only; omega, ?_⟩
    rintro m hmem
    rcases List.mem_cons.1 hmem with rfl | hmem
    · exact hx
    · exact hq m hmem

theorem loads_all (fl : Floats) (n : ℕ) : LoadsOnce fl n ∧ LoadsItems fl n ∧ LoadsMembers fl n := by
  induction n with
  | zero =>
    refine ⟨fun s r h ↦ ?_, fun s r h ↦ ?_, fun s r h ↦ ?_⟩
    all_goals cases h
  | succ n ih =>
    obtain ⟨ho, hi, hm⟩ := ih
    exact ⟨loadsOnce_succ hi hm, loadsItems_succ ho hi, loadsMembers_succ ho hm⟩

/-- What was read has short integers, and no key twice. -/
theorem loaded_of_loads {v : Value fl.F} (h : loads fl s = .ok v) : Everywhere LoadedNode v := by
  unfold loads at h
  split at h
  · cases h
  · next x t hx =>
    split at h
    · obtain rfl := Except.ok.inj h
      exact ((loads_all fl _).1 _ _ hx).2
    · cases h

end AdminPlatform.Foundation.JsonLoads
