import AdminPlatform.Foundation.JsonRoundTrip

namespace AdminPlatform.Foundation.JsonText

open CodePoints Json JsonNumbers JsonStrings JsonRoundTrip

variable {fl : Floats} {st : Style} {s : Text} {c d n : ℕ}

def Printed (s : Text) : Prop := ∀ c ∈ s, 0x20 ≤ c ∧ isScalar c = true

theorem Printed.append {t : Text} (hs : Printed s) (ht : Printed t) : Printed (s ++ t) := fun c hc ↦
  (List.mem_append.1 hc).elim (hs c) (ht c)

theorem Printed.cons (hc : 0x20 ≤ c ∧ isScalar c = true) (hs : Printed s) : Printed (c :: s) := fun _ hd ↦
  (List.mem_cons.1 hd).elim (fun he ↦ he ▸ hc) (hs _)

theorem isScalar_of_lt (h : c < 0xd800) : isScalar c = true := decide_eq_true (.inl h)

theorem printed_of_isNumberCode (h : ∀ c ∈ s, isNumberCode c = true) : Printed s := by
  intro c hc
  have hnumber := h c hc
  rw [isNumberCode, isDigit, Bool.or_eq_true, decide_eq_true_eq] at hnumber
  rcases hnumber with hdigit | hother
  · exact ⟨by omega, isScalar_of_lt (by omega)⟩
  · simp only [List.contains_iff_mem, List.mem_cons, List.not_mem_nil, or_false] at hother
    rcases hother with rfl | rfl | rfl | rfl | rfl <;> decide

theorem printed_number {l : Literal} (h : matchNumber s = some (l, [])) : Printed s :=
  printed_of_isNumberCode fun _ hc ↦ isNumberCode_of_matchNumber h hc

theorem printed_quoted (h : ∀ c ∈ s, isScalar c = true) : Printed (quoted st s) := by
  have hquote : 0x20 ≤ code '"' ∧ isScalar (code '"') = true := by decide
  refine .cons hquote (.append ?_ (.cons hquote fun _ hd ↦ absurd hd List.not_mem_nil))
  intro d hd
  obtain ⟨c, hc, hd⟩ := List.mem_flatMap.1 hd
  have hscalar := h c hc
  have hlt : c < 0x110000 := by
    have hrange := of_decide_eq_true hscalar
    omega
  rcases mem_escape hd hlt with hd | ⟨rfl, hd⟩
  · exact ⟨hd.1, isScalar_of_lt (by omega)⟩
  · exact ⟨hd, hscalar⟩

theorem printed_gap (st : Style) : Printed st.gap := by
  unfold Style.gap
  split
  · exact fun c hc ↦ List.mem_singleton.1 hc ▸ by decide
  · exact fun c hc ↦ absurd hc List.not_mem_nil

theorem Printed.codes {w : String} (h : (codes w).all (fun c ↦ decide (0x20 ≤ c) && isScalar c) = true) :
    Printed (codes w) := by
  intro c hc
  have hboth := Bool.and_eq_true_iff.1 (List.all_eq_true.1 h c hc)
  exact ⟨of_decide_eq_true hboth.1, hboth.2⟩

section

variable (fl : Floats) (st : Style)

def PrintsItems (xs : List (Value fl.F)) : Prop :=
  (∀ x ∈ xs, Everywhere ScalarNode x) → Printed (printItems fl st xs)

def PrintsMembers (ms : List (Text × Value fl.F)) : Prop :=
  (∀ m ∈ ms, ∀ c ∈ m.1, isScalar c = true) → (∀ m ∈ ms, Everywhere ScalarNode m.2) →
    Printed (printMembers fl st ms)

end

theorem printed_member {k : Text} {x : Value fl.F} {ms : List (Text × Value fl.F)}
    (hk : ∀ c ∈ k, isScalar c = true) (hx : Printed (print fl st x)) (hms : Printed (printMembers fl st ms)) :
    Printed (printMember fl st (k, x) ms) :=
  (printed_quoted hk).append (((printed_gap st).cons (by decide)).append (hx.append hms))

/-- What is written of scalar texts can be encoded, and has no control characters. -/
theorem printed_print (v : Value fl.F) : Everywhere ScalarNode v → Printed (print fl st v) := by
  refine print.induct fl (fun v ↦ Everywhere ScalarNode v → Printed (print fl st v)) (PrintsMembers fl st)
    (PrintsItems fl st) ?null ?yes ?no ?int ?float ?str ?noItems ?items ?noMembers ?members ?itemsEnd ?item
    ?membersEnd ?member v
  case null => exact fun _ ↦ .codes (by decide)
  case yes => exact fun _ ↦ .codes (by decide)
  case no => exact fun _ ↦ .codes (by decide)
  case int =>
    intro n _
    obtain ⟨l, hl, -⟩ := matchNumber_intText n
    exact printed_number hl
  case float =>
    intro x _
    cases x with
    | finite x =>
      obtain ⟨l, hl, -⟩ := fl.repr_literal x
      exact printed_number hl
    | nan => exact .codes (by decide)
    | infinity b =>
      cases b with
      | false => exact .codes (by decide)
      | true => exact .codes (by decide)
  case str => exact fun s h ↦ printed_quoted (h _ .self)
  case noItems => exact fun _ ↦ .codes (by decide)
  case items =>
    intro x xs hx hxs h
    have hrest := hxs fun y hy ↦ h.item (List.mem_cons_of_mem x hy)
    exact ((hx (h.item List.mem_cons_self)).append hrest).cons (by decide)
  case noMembers => exact fun _ ↦ .codes (by decide)
  case members =>
    intro k x ms hx hms h
    have hkeys := h _ .self
    have hrest := hms (fun m hm ↦ hkeys m (List.mem_cons_of_mem _ hm))
      fun m hm ↦ h.member (List.mem_cons_of_mem _ hm)
    exact (printed_member (hkeys _ List.mem_cons_self) (hx (h.member List.mem_cons_self)) hrest).cons (by decide)
  case itemsEnd => exact fun _ ↦ .codes (by decide)
  case item =>
    intro x xs hx hxs h
    have hrest := hxs fun y hy ↦ h y (List.mem_cons_of_mem x hy)
    exact ((printed_gap st).append ((hx (h x List.mem_cons_self)).append hrest)).cons (by decide)
  case membersEnd => exact fun _ _ ↦ .codes (by decide)
  case member =>
    intro k x ms hx hms hk h
    have hrest := hms (fun m hm ↦ hk m (List.mem_cons_of_mem _ hm)) fun m hm ↦ h m (List.mem_cons_of_mem _ hm)
    exact ((printed_gap st).append
      (printed_member (hk _ List.mem_cons_self) (hx (h _ List.mem_cons_self)) hrest)).cons (by decide)

theorem print_subset_items {x : Value fl.F} {xs : List (Value fl.F)} (h : x ∈ xs) :
    print fl st x ⊆ printItems fl st xs := by
  induction xs with
  | nil => cases h
  | cons y ys ih =>
    intro c hc
    rw [printItems, List.cons_append, List.mem_cons, List.mem_append, List.mem_append]
    rcases List.mem_cons.1 h with rfl | h
    · exact .inr (.inr (.inl hc))
    · exact .inr (.inr (.inr (ih h hc)))

theorem print_subset_members {m : Text × Value fl.F} {ms : List (Text × Value fl.F)} (h : m ∈ ms) :
    quoted st m.1 ⊆ printMembers fl st ms ∧ print fl st m.2 ⊆ printMembers fl st ms := by
  induction ms with
  | nil => cases h
  | cons p ps ih =>
    obtain ⟨k, x⟩ := p
    refine ⟨fun c hc ↦ ?_, fun c hc ↦ ?_⟩
    all_goals
      simp only [printMembers, List.cons_append, List.mem_cons, List.mem_append]
      rcases List.mem_cons.1 h with rfl | h
    · exact .inr (.inr (.inl hc))
    · exact .inr (.inr (.inr (.inr (.inr (.inr ((ih h).1 hc))))))
    · exact .inr (.inr (.inr (.inr (.inr (.inl hc)))))
    · exact .inr (.inr (.inr (.inr (.inr (.inr ((ih h).2 hc))))))

theorem print_subset_arr {x : Value fl.F} {xs : List (Value fl.F)} (h : x ∈ xs) :
    print fl st x ⊆ print fl st (.arr xs) := by
  cases xs with
  | nil => cases h
  | cons y ys =>
    intro c hc
    rw [print, List.mem_cons, List.mem_append]
    rcases List.mem_cons.1 h with rfl | h
    · exact .inr (.inl hc)
    · exact .inr (.inr (print_subset_items h hc))

theorem print_subset_obj {m : Text × Value fl.F} {ms : List (Text × Value fl.F)} (h : m ∈ ms) :
    quoted st m.1 ⊆ print fl st (.obj ms) ∧ print fl st m.2 ⊆ print fl st (.obj ms) := by
  cases ms with
  | nil => cases h
  | cons p ps =>
    obtain ⟨k, x⟩ := p
    refine ⟨fun c hc ↦ ?_, fun c hc ↦ ?_⟩
    all_goals
      simp only [print, List.cons_append, List.mem_cons, List.mem_append]
      rcases List.mem_cons.1 h with rfl | h
    · exact .inr (.inl hc)
    · exact .inr (.inr (.inr (.inr (.inr ((print_subset_members h).1 hc)))))
    · exact .inr (.inr (.inr (.inr (.inl hc))))
    · exact .inr (.inr (.inr (.inr (.inr ((print_subset_members h).2 hc)))))

theorem print_subset {v w : Value fl.F} (h : Inside w v) : print fl st w ⊆ print fl st v := by
  induction h with
  | self => exact List.Subset.refl _
  | item hx _ ih => exact List.Subset.trans ih (print_subset_arr hx)
  | member hm _ ih => exact List.Subset.trans ih (print_subset_obj hm).2

/-- A lone surrogate stands in the text as it is. -/
theorem isScalar_of_quoted (hst : st.ascii = false) (h : ∀ c ∈ quoted st s, isScalar c = true) (hc : c ∈ s) :
    isScalar c = true := by
  by_contra hlone
  have hrange : 0xd800 ≤ c := by
    by_contra hlt
    exact hlone (isScalar_of_lt (by omega))
  have hshort : shortEscape c = none := by
    cases he : shortEscape c with
    | none => rfl
    | some e =>
      have hlow := (shortEscape_spec he).2.2.2
      omega
  have hescape : escape st c = [c] := by
    rw [escape, hshort]
    dsimp only
    rw [if_neg]
    rintro (hlow | ⟨hascii, -⟩)
    · omega
    · rw [hst] at hascii
      cases hascii
  refine hlone (h c ?_)
  rw [quoted, List.mem_cons, List.mem_append, List.mem_flatMap]
  exact .inr (.inl ⟨c, hc, hescape ▸ List.mem_singleton_self c⟩)

/-- Only a value without lone surrogates can be sent. -/
theorem scalar_of_encode {v : Value fl.F} {bs : Bytes} (hst : st.ascii = false)
    (h : encode (print fl st v) = some bs) : Everywhere ScalarNode v := by
  intro w hw
  have hcodes : ∀ c ∈ print fl st w, isScalar c = true := fun c hc ↦ isScalar_of_encode h (print_subset hw hc)
  cases w with
  | str s => exact fun c hc ↦ isScalar_of_quoted hst hcodes hc
  | obj ms =>
    exact fun m hm c hc ↦ isScalar_of_quoted hst (fun d hd ↦ hcodes d ((print_subset_obj hm).1 hd)) hc
  | _ => exact trivial

end AdminPlatform.Foundation.JsonText
