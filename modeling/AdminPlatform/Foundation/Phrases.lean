import AdminPlatform.Foundation.Patterns

namespace AdminPlatform.Foundation.Phrases

open Patterns

variable {α β : Type*}

def search (f : List α → Option β) : List α → Option β
  | [] => f []
  | c :: s => (f (c :: s)).or (search f s)

/-- `b` belongs to the leftmost place of a text that has something to say. -/
def Leftmost (P : List α → β → Prop) (s : List α) (b : β) : Prop :=
  ∃ u v, s = u ++ v ∧ P v b ∧ ∀ u' v' b', s = u' ++ v' → P v' b' → u.length ≤ u'.length

variable {f : List α → Option β} {P : List α → β → Prop} {s t u v x y z : List α} {b : β}

theorem search_eq_some_iff (hf : ∀ s b, f s = some b ↔ P s b) : search f s = some b ↔ Leftmost P s b := by
  induction s with
  | nil =>
    constructor
    · intro h
      exact ⟨[], [], rfl, (hf _ _).1 h, fun _ _ _ _ _ ↦ Nat.zero_le _⟩
    · rintro ⟨u, v, hs, hv, -⟩
      obtain ⟨rfl, rfl⟩ := List.append_eq_nil_iff.1 hs.symm
      exact (hf _ _).2 hv
  | cons c s ih =>
    rw [search, Option.or_eq_some_iff, ih]
    constructor
    · rintro (h | ⟨h, u, v, rfl, hv, hleast⟩)
      · exact ⟨[], c :: s, rfl, (hf _ _).1 h, fun _ _ _ _ _ ↦ Nat.zero_le _⟩
      · refine ⟨c :: u, v, rfl, hv, fun u' v' b' hs hb' ↦ ?_⟩
        cases u' with
        | nil =>
          obtain rfl : c :: (u ++ v) = v' := hs
          exact absurd ((hf _ _).2 hb') (by simp [h])
        | cons d u' =>
          exact Nat.succ_le_succ (hleast u' v' b' (List.cons.inj hs).2 hb')
    · rintro ⟨u, v, hs, hv, hleast⟩
      cases u with
      | nil =>
        obtain rfl : c :: s = v := hs
        exact .inl ((hf _ _).2 hv)
      | cons d u =>
        refine .inr ⟨?_, u, v, (List.cons.inj hs).2, hv, fun u' v' b' hs' hb' ↦ ?_⟩
        · cases hnone : f (c :: s) with
          | none => rfl
          | some b' => exact absurd (hleast [] _ b' rfl ((hf _ _).1 hnone)) (by simp)
        · exact Nat.le_of_succ_le_succ (hleast (c :: u') v' b' (by simp [hs']) hb')

theorem search_eq_none (h : ∀ v, v <:+ s → f v = none) : search f s = none := by
  induction s with
  | nil => exact h [] List.suffix_rfl
  | cons c s ih =>
    rw [search, h _ List.suffix_rfl, Option.none_or]
    exact ih fun v hv ↦ h v (hv.trans (List.suffix_cons c s))

/-- What stands in front decides alone, where it says the same whatever follows. -/
theorem search_append (hu : ∀ v, v ≠ [] → v <:+ u → f (v ++ x) = f (v ++ y)) (hy : search f y = none) :
    search f (u ++ x) = (search f (u ++ y)).or (search f x) := by
  induction u with
  | nil => simp [hy]
  | cons c u ih =>
    have hrest := ih fun v hne hv ↦ hu v hne (hv.trans (List.suffix_cons c u))
    have hhead := hu (c :: u) (by simp) List.suffix_rfl
    simp only [List.cons_append] at hhead ⊢
    rw [search, search, hrest, hhead, Option.or_assoc]

theorem search_skip (hu : ∀ c ∈ u, ∀ s, f (c :: s) = none) : search f (u ++ x) = search f x := by
  induction u with
  | nil => rfl
  | cons c u ih =>
    rw [List.cons_append, search, hu c (by simp), Option.none_or]
    exact ih fun d hd ↦ hu d (by simp [hd])

/-- The text of the group in `lead(body)trail`, at the front of a text. -/
def group (lead body trail : Regex α) (s : List α) : Option (List α) :=
  ((lead.ends s).flatMap fun x ↦ (body.ends x).filterMap fun y ↦
    if (trail.ends y).isEmpty then none else some (x.take (x.length - y.length))).head?

variable {lead body trail : Regex α} {w name : List α}

theorem of_group (h : group lead body trail s = some name) :
    ∃ w y y', lead.Matches w ∧ body.Matches name ∧ trail.Matches y ∧ s = w ++ (name ++ (y ++ y')) := by
  have hmem := List.mem_of_head? h
  simp only [List.mem_flatMap, List.mem_filterMap, Option.ite_none_left_eq_some] at hmem
  obtain ⟨x, hx, y, hy, htrail, hname⟩ := hmem
  obtain ⟨w, hw, rfl⟩ := Regex.mem_ends.1 hx
  obtain ⟨n, hn, rfl⟩ := Regex.mem_ends.1 hy
  have hne : trail.ends y ≠ [] := by simpa using htrail
  obtain ⟨y', hy'⟩ := List.exists_mem_of_ne_nil _ hne
  obtain ⟨q, hq, rfl⟩ := Regex.mem_ends.1 hy'
  obtain rfl : n = name := by simpa using hname
  exact ⟨w, q, y', hw, hn, hq, rfl⟩

theorem group_of_matches (hw : lead.Matches w) (hname : body.Matches name) (hy : trail.Matches y) :
    ∃ n, group lead body trail (w ++ (name ++ (y ++ z))) = some n := by
  have hx : name ++ (y ++ z) ∈ lead.ends (w ++ (name ++ (y ++ z))) := Regex.mem_ends.2 ⟨w, hw, rfl⟩
  have hbody : y ++ z ∈ body.ends (name ++ (y ++ z)) := Regex.mem_ends.2 ⟨name, hname, rfl⟩
  have htrail : z ∈ trail.ends (y ++ z) := Regex.mem_ends.2 ⟨y, hy, rfl⟩
  have hmem : name ∈ (lead.ends (w ++ (name ++ (y ++ z)))).flatMap fun x ↦ (body.ends x).filterMap fun y ↦
      if (trail.ends y).isEmpty then none else some (x.take (x.length - y.length)) := by
    refine List.mem_flatMap.2 ⟨_, hx, List.mem_filterMap.2 ⟨_, hbody, ?_⟩⟩
    simp [List.ne_nil_of_mem htrail]
  exact ⟨_, List.head?_eq_some_head (List.ne_nil_of_mem hmem)⟩

variable {fold : α → β} {bs : List β} {quote : α → Bool}

def Phrase (fold : α → β) (bs : List β) (quote : α → Bool) (s name : List α) : Prop :=
  ∃ w q q' y, w.map fold = bs ∧ quote q = true ∧ quote q' = true ∧ name ≠ [] ∧
    (∀ c ∈ name, quote c = false) ∧ s = w ++ q :: (name ++ q' :: y)

theorem Phrase.append (h : Phrase fold bs quote s name) (z : List α) :
    Phrase fold bs quote (s ++ z) name := by
  obtain ⟨w, q, q', y, hw, hq, hq', hne, hname, rfl⟩ := h
  exact ⟨w, q, q', y ++ z, hw, hq, hq', hne, hname, by simp⟩

theorem Phrase.begins (h : Phrase fold bs quote (x ++ y) name) (hlen : x.length ≤ bs.length) :
    x.map fold = bs.take x.length := by
  obtain ⟨w, q, q', y', rfl, -, -, -, -, hs⟩ := h
  rw [List.length_map] at hlen
  have htake := congrArg (List.take x.length) hs
  rw [List.take_left, List.take_append_of_le_length hlen] at htake
  rw [htake, List.map_take, List.length_take, Nat.min_eq_left hlen]

/-- A phrase either ends in the first part of a text or closes its quotes in the second. -/
theorem Phrase.split (h : Phrase fold bs quote (x ++ z) name) : Phrase fold bs quote x name ∨
    ∃ w q m q' y, w.map fold = bs ∧ quote q = true ∧ quote q' = true ∧ (∀ c ∈ name, quote c = false) ∧
      w ++ q :: name = x ++ m ∧ z = m ++ q' :: y := by
  obtain ⟨w, q, q', y, hw, hq, hq', hne, hname, hs⟩ := h
  have hs : x ++ z = (w ++ q :: name ++ [q']) ++ y := by simpa using hs
  rcases List.append_eq_append_iff.1 hs with ⟨m, hm, rfl⟩ | ⟨m, rfl, -⟩
  · rcases List.eq_nil_or_concat m with rfl | ⟨m', l, rfl⟩
    · refine .inl ⟨w, q, q', [], hw, hq, hq', hne, hname, ?_⟩
      simpa using hm.symm
    · have hm : w ++ q :: name ++ [q'] = x ++ m' ++ [l] := by simpa using hm
      obtain ⟨hinit, hlast⟩ := List.append_inj' hm rfl
      obtain rfl := List.singleton_inj.1 hlast
      exact .inr ⟨w, q, m', q', y, hw, hq, hq', hname, hinit, by simp⟩
  · exact .inl ⟨w, q, q', m, hw, hq, hq', hne, hname, by simp⟩

theorem Phrase.two_lt_length (h : Phrase fold bs quote s name) : 2 < s.length := by
  obtain ⟨w, q, q', y, -, -, -, hne, -, rfl⟩ := h
  have hpos := List.length_pos_of_ne_nil hne
  simp only [List.length_append, List.length_cons]
  omega

theorem Phrase.of_unquoted (h : Phrase fold bs quote (x ++ z) name) (hz : ∀ c ∈ z, quote c = false) :
    Phrase fold bs quote x name := by
  rcases h.split with h | ⟨w, q, m, q', y, -, -, hq', -, -, rfl⟩
  · exact h
  · exact absurd (hz q' (by simp)) (by simp [hq'])

/-- Two quotes are all that a phrase uses. -/
theorem Phrase.of_countP (h : Phrase fold bs quote (x ++ z) name) (hbs : ∀ c, quote c = true → fold c ∉ bs)
    (hx : 2 ≤ x.countP quote) : Phrase fold bs quote x name := by
  rcases h.split with h | ⟨w, q, m, q', y, rfl, hq, -, hname, hwq, -⟩
  · exact h
  · have hw : w.countP quote = 0 := by
      refine List.countP_eq_zero.2 fun c hc hquote ↦ hbs c hquote (List.mem_map_of_mem hc)
    have hn : name.countP quote = 0 := List.countP_eq_zero.2 fun c hc ↦ by simp [hname c hc]
    have hcount := congrArg (List.countP quote) hwq
    simp only [List.countP_append, List.countP_cons, hw, hn, hq, if_true] at hcount
    omega

/-- A quote that follows a character with which the word does not end opens no name. -/
theorem Phrase.of_escaped {c q : α} (h : Phrase fold bs quote (x ++ c :: q :: z) name)
    (hbs : ∀ c, quote c = true → fold c ∉ bs) (hlast : bs.getLast? ≠ some (fold c))
    (hc : quote c = false) (hq : quote q = true) : Phrase fold bs quote (x ++ [c, q]) name := by
  have hsplit : x ++ c :: q :: z = (x ++ [c, q]) ++ z := by simp
  by_cases hx : x.countP quote = 0
  · exfalso
    obtain ⟨w, q₁, q', y, rfl, hq₁, -, -, -, hs⟩ := h
    have hw : ∀ d ∈ w, (!quote d) = true := by
      intro d hd
      have hnot : ¬ quote d = true := fun hquote ↦ hbs d hquote (List.mem_map_of_mem hd)
      simpa using hnot
    have hxc : ∀ d ∈ x ++ [c], (!quote d) = true := by
      intro d hd
      rcases List.mem_append.1 hd with hd | hd
      · simpa using List.countP_eq_zero.1 hx d hd
      · simp [List.mem_singleton.1 hd, hc]
    have hs : w ++ q₁ :: (name ++ q' :: y) = (x ++ [c]) ++ q :: z := by simpa using hs.symm
    obtain ⟨rfl, -, -⟩ := run_unique hw hxc (by simp [hq₁]) (by simp [hq]) hs
    simp at hlast
  · rw [hsplit] at h
    refine h.of_countP hbs ?_
    simp only [List.countP_append, List.countP_cons, hc, hq, List.countP_nil, if_true]
    omega

variable [DecidableEq β]

def quoted (fold : α → β) (bs : List β) (quote : α → Bool) : List α → Option (List α) :=
  group (.seq (.word fold bs) (.one quote)) (.some fun c ↦ !quote c) (.one quote)

theorem quoted_eq_some_iff : quoted fold bs quote s = some name ↔ Phrase fold bs quote s name := by
  have of_quoted : ∀ n, quoted fold bs quote s = some n → Phrase fold bs quote s n := by
    intro n h
    obtain ⟨_, _, y, ⟨w, _, hw, ⟨q, hq, rfl⟩, rfl⟩, hn, ⟨q', hq', rfl⟩, rfl⟩ := of_group h
    have hn := Regex.matches_some.1 hn
    exact ⟨w, q, q', y, Regex.matches_word.1 hw, hq, hq', hn.1, fun c hc ↦ by simpa using hn.2 c hc,
      by simp⟩
  refine ⟨of_quoted name, ?_⟩
  rintro ⟨w, q, q', y, hw, hq, hq', hne, hname, rfl⟩
  have hlead : (Regex.seq (.word fold bs) (.one quote)).Matches (w ++ [q]) :=
    ⟨w, [q], Regex.matches_word.2 hw, ⟨q, hq, rfl⟩, rfl⟩
  have hbody : (Regex.some fun c ↦ !quote c).Matches name :=
    Regex.matches_some.2 ⟨hne, fun c hc ↦ by simp [hname c hc]⟩
  have htrail : (Regex.one quote).Matches [q'] := ⟨q', hq', rfl⟩
  obtain ⟨n, hn⟩ := group_of_matches (z := y) hlead hbody htrail
  have hs : w ++ [q] ++ (name ++ ([q'] ++ y)) = w ++ q :: (name ++ q' :: y) := by simp
  rw [hs] at hn
  obtain ⟨w₂, q₂, q₂', y₂, hw₂, -, hq₂', -, hn₂, heq⟩ := of_quoted n hn
  have hlen : w.length = w₂.length := by
    have hmap := congrArg List.length (hw.trans hw₂.symm)
    simpa using hmap
  have hrest := (List.cons.inj (List.append_inj heq hlen).2).2
  obtain ⟨rfl, -, -⟩ := run_unique (p := fun c ↦ !quote c) (by simpa using hname) (by simpa using hn₂)
    (by simp [hq']) (by simp [hq₂']) hrest
  exact hn

theorem quoted_eq_none (h : ∀ name, ¬ Phrase fold bs quote s name) : quoted fold bs quote s = none := by
  cases hs : quoted fold bs quote s with
  | none => rfl
  | some name => exact absurd (quoted_eq_some_iff.1 hs) (h name)

theorem quoted_congr (h : ∀ name, Phrase fold bs quote s name ↔ Phrase fold bs quote t name) :
    quoted fold bs quote s = quoted fold bs quote t := by
  refine Option.ext fun name ↦ ?_
  rw [quoted_eq_some_iff, quoted_eq_some_iff, h]

theorem quoted_cons_of_ne {c : α} {b : β} (h : fold c ≠ b) (s : List α) :
    quoted fold (b :: bs) quote (c :: s) = none := by
  refine quoted_eq_none fun name hs ↦ ?_
  have hhead := Phrase.begins (x := [c]) (y := s) hs (by simp)
  exact h (by simpa using hhead)

end AdminPlatform.Foundation.Phrases
