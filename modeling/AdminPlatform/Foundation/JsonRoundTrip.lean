import AdminPlatform.Foundation.JsonNumbers
import AdminPlatform.Foundation.JsonStrings

namespace AdminPlatform.Foundation.JsonRoundTrip

open CodePoints Dicts Json JsonNumbers JsonStrings

variable {F : Type} {fl : Floats} {st : Style} {s r t : Text} {c d n : ℕ}

/-- `w` is a part of a value, or all of it. -/
inductive Inside (w : Value F) : Value F → Prop
  | self : Inside w w
  | item {x : Value F} {xs : List (Value F)} : x ∈ xs → Inside w x → Inside w (.arr xs)
  | member {m : Text × Value F} {ms : List (Text × Value F)} : m ∈ ms → Inside w m.2 → Inside w (.obj ms)

def LoadedNode : Value F → Prop
  | .int n => (digits n.natAbs).length ≤ maxDigits
  | .obj ms => (ms.map Prod.fst).Nodup
  | _ => True

def FiniteNode : Value F → Prop
  | .float (.finite _) => True
  | .float _ => False
  | _ => True

def ScalarNode : Value F → Prop
  | .str s => ∀ c ∈ s, isScalar c = true
  | .obj ms => ∀ m ∈ ms, ∀ c ∈ m.1, isScalar c = true
  | _ => True

def Everywhere (p : Value F → Prop) (v : Value F) : Prop := ∀ w, Inside w v → p w

structure Readable (v : Value F) : Prop where
  loaded : Everywhere LoadedNode v
  finite : Everywhere FiniteNode v
  scalar : Everywhere ScalarNode v

theorem Everywhere.item {p : Value F → Prop} {xs : List (Value F)} (h : Everywhere p (.arr xs)) {x : Value F}
    (hx : x ∈ xs) : Everywhere p x := fun w hw ↦ h w (.item hx hw)

theorem Everywhere.member {p : Value F → Prop} {ms : List (Text × Value F)} (h : Everywhere p (.obj ms))
    {m : Text × Value F} (hm : m ∈ ms) : Everywhere p m.2 := fun w hw ↦ h w (.member hm hw)

theorem Readable.item {xs : List (Value F)} (h : Readable (.arr xs)) {x : Value F} (hx : x ∈ xs) :
    Readable x := ⟨h.loaded.item hx, h.finite.item hx, h.scalar.item hx⟩

theorem Readable.member {ms : List (Text × Value F)} (h : Readable (.obj ms)) {m : Text × Value F} (hm : m ∈ ms) :
    Readable m.2 := ⟨h.loaded.member hm, h.finite.member hm, h.scalar.member hm⟩

theorem opens_of_isNumberCode (h : isNumberCode c = true) :
    c < 0x80 ∧ isSpace c = false ∧ c ≠ code ']' ∧ c ≠ code '\x7d' := by
  refine ⟨?_, ?_, ?_, ?_⟩
  · by_contra hge
    rw [isNumberCode, isDigit, Bool.or_eq_true, decide_eq_true_eq] at h
    simp only [List.contains_iff_mem, List.mem_cons, List.not_mem_nil, or_false] at h
    omega
  · cases hs : isSpace c with
    | false => rfl
    | true =>
      simp only [isSpace, List.contains_iff_mem, List.mem_cons, List.not_mem_nil, or_false] at hs
      rcases hs with rfl | rfl | rfl | rfl <;> exact absurd h (by decide)
  · rintro rfl
    exact absurd h (by decide)
  · rintro rfl
    exact absurd h (by decide)

def Opens (s : Text) : Prop :=
  ∃ c t, s = c :: t ∧ c < 0x80 ∧ isSpace c = false ∧ c ≠ code ']' ∧ c ≠ code '\x7d'

theorem Opens.append (h : Opens s) (r : Text) : Opens (s ++ r) := by
  obtain ⟨c, t, rfl, hc⟩ := h
  exact ⟨c, t ++ r, rfl, hc⟩

theorem Opens.length_pos (h : Opens s) : 0 < s.length := by
  obtain ⟨c, t, rfl, -⟩ := h
  exact Nat.succ_pos _

theorem opens_of_matchNumber {l : Literal} (h : matchNumber s = some (l, t)) : Opens s := by
  obtain ⟨c, u, hc, hs⟩ := front_of_matchNumber h
  rcases hs with rfl | rfl
  · exact ⟨c, u, rfl, opens_of_isNumberCode (isNumberCode_of_isDigit hc)⟩
  · exact ⟨code '-', c :: u, rfl, opens_of_isNumberCode (by decide)⟩

theorem opens_print (v : Value fl.F) : Opens (print fl st v) := by
  cases v with
  | null => exact ⟨code 'n', _, rfl, by decide⟩
  | bool b =>
    cases b with
    | false => exact ⟨code 'f', _, rfl, by decide⟩
    | true => exact ⟨code 't', _, rfl, by decide⟩
  | int n =>
    obtain ⟨l, hl, -⟩ := matchNumber_intText n
    exact opens_of_matchNumber hl
  | float x =>
    cases x with
    | finite x =>
      obtain ⟨l, hl, -⟩ := fl.repr_literal x
      exact opens_of_matchNumber hl
    | nan => exact ⟨code 'N', _, rfl, by decide⟩
    | infinity b =>
      cases b with
      | false => exact ⟨code 'I', _, rfl, by decide⟩
      | true => exact ⟨code '-', _, rfl, by decide⟩
  | str s => exact ⟨code '"', _, rfl, by decide⟩
  | arr xs =>
    cases xs with
    | nil => exact ⟨code '[', _, rfl, by decide⟩
    | cons x xs => exact ⟨code '[', _, rfl, by decide⟩
  | obj ms =>
    cases ms with
    | nil => exact ⟨code '\x7b', _, rfl, by decide⟩
    | cons m ms => exact ⟨code '\x7b', _, rfl, by decide⟩

theorem skipSpace_of_opens (h : Opens s) : skipSpace s = s := by
  obtain ⟨c, t, rfl, -, hc, -⟩ := h
  rw [skipSpace, List.dropWhile_cons_of_neg (by simp [hc])]

theorem expect_self (h : isSpace c = false) (s : Text) : expect c (c :: s) = .ok s := by
  rw [expect, skipSpace, List.dropWhile_cons_of_neg (by simp [h])]
  exact if_pos rfl

theorem expect_of_ne (h : isSpace d = false) (hne : d ≠ c) (s : Text) :
    expect c (d :: s) = .error .decodeError := by
  rw [expect, skipSpace, List.dropWhile_cons_of_neg (by simp [h])]
  exact if_neg hne

theorem expect_of_opens (h : Opens s) : expect (code ']') s = .error .decodeError ∧
    expect (code '\x7d') s = .error .decodeError := by
  obtain ⟨c, t, rfl, -, hc, hbracket, hbrace⟩ := h
  exact ⟨expect_of_ne hc hbracket t, expect_of_ne hc hbrace t⟩

theorem skipSpace_gap (h : Opens s) : skipSpace (st.gap ++ s) = s := by
  unfold Style.gap
  split
  · rw [List.singleton_append, skipSpace, List.dropWhile_cons_of_pos (by decide)]
    exact skipSpace_of_opens h
  · exact skipSpace_of_opens h

theorem constant_eq_none {l : Literal} (h : matchNumber s = some (l, t)) : constant fl s = none := by
  have hfront : ∀ w ∈ constants fl, w.1.isPrefixOf s = false := by
    obtain ⟨c, u, hc, hs⟩ := front_of_matchNumber h
    have hfirst : ∀ w ∈ constants fl, ∃ a b v, w.1 = a :: b :: v ∧
        (isDigit a = false ∧ isDigit b = false) := by
      intro w hw
      simp only [constants, List.mem_cons, List.not_mem_nil, or_false] at hw
      rcases hw with rfl | rfl | rfl | rfl | rfl | rfl <;> exact ⟨_, _, _, rfl, by decide, by decide⟩
    intro w hw
    obtain ⟨a, b, v, hword, ha, hb⟩ := hfirst w hw
    rw [hword]
    rcases hs with rfl | rfl
    · have hne : (a == c) = false := by
        rw [beq_eq_false_iff_ne]
        rintro rfl
        rw [ha] at hc
        cases hc
      rw [List.isPrefixOf, hne, Bool.false_and]
    · have hne : (b == c) = false := by
        rw [beq_eq_false_iff_ne]
        rintro rfl
        rw [hb] at hc
        cases hc
      rw [List.isPrefixOf, List.isPrefixOf, hne, Bool.false_and, Bool.and_false]
  rw [constant, List.findSome?_eq_none_iff]
  intro w hw
  rw [hfront w hw]
  rfl

theorem scanOnce_number {l : Literal} (h : matchNumber s = some (l, t)) (n : ℕ) :
    scanOnce fl (n + 1) s = scanNumber fl s := by
  have hconstant : constant fl s = none := constant_eq_none h
  have hplain : ∀ c, isDigit c = true ∨ c = code '-' →
      c ≠ code '"' ∧ c ≠ code '[' ∧ c ≠ code '\x7b' := by
    rintro c (hc | rfl)
    · refine ⟨?_, ?_, ?_⟩
      all_goals
        rintro rfl
        exact absurd hc (by decide)
    · decide
  obtain ⟨c, u, hc, hs⟩ := front_of_matchNumber h
  rcases hs with rfl | rfl
  · obtain ⟨hquote, hbracket, hbrace⟩ := hplain c (.inl hc)
    rw [scanOnce]
    simp only [if_neg hquote, if_neg hbracket, if_neg hbrace, hconstant]
  · obtain ⟨hquote, hbracket, hbrace⟩ := hplain (code '-') (.inr rfl)
    rw [scanOnce]
    simp only [if_neg hquote, if_neg hbracket, if_neg hbrace, hconstant]

theorem scanOnce_int {n : ℤ} (h : (digits n.natAbs).length ≤ maxDigits) (hr : Delimited r) (k : ℕ) :
    scanOnce fl (k + 1) (intText n ++ r) = .ok (.int n, r) := by
  obtain ⟨l, hl, hinteger, hvalue, hdigits⟩ := matchNumber_intText n
  have happ := matchNumber_append hr hl
  rw [scanOnce_number happ, scanNumber, happ]
  simp only [hinteger, if_true, hvalue, hdigits, if_neg (Nat.not_lt.2 h), List.nil_append]

theorem scanOnce_float (x : fl.F) (hr : Delimited r) (k : ℕ) :
    scanOnce fl (k + 1) (fl.repr x ++ r) = .ok (.float (.finite x), r) := by
  obtain ⟨l, hl, hinteger⟩ := fl.repr_literal x
  have happ := matchNumber_append hr hl
  have htext := text_of_matchNumber hl
  rw [List.append_nil] at htext
  rw [scanOnce_number happ, scanNumber, happ]
  simp only [hinteger, Bool.false_eq_true, if_false, ← htext, fl.ofText_repr, List.nil_append]

theorem delimited_cons (h : isNumberCode c = false) (s : Text) : Delimited (c :: s) := by
  intro d hd
  obtain rfl := Option.some.inj hd
  exact h

theorem delimited_nil : Delimited [] := by
  intro d hd
  cases hd

theorem delimited_items (xs : List (Value fl.F)) (r : Text) : Delimited (printItems fl st xs ++ r) := by
  cases xs with
  | nil => exact delimited_cons (by decide) _
  | cons x xs => exact delimited_cons (by decide) _

theorem delimited_members (ms : List (Text × Value fl.F)) (r : Text) : Delimited (printMembers fl st ms ++ r) := by
  cases ms with
  | nil => exact delimited_cons (by decide) _
  | cons m ms => exact delimited_cons (by decide) _

theorem length_items (xs : List (Value fl.F)) : 0 < (printItems fl st xs).length := by
  cases xs with
  | nil => exact Nat.succ_pos _
  | cons x xs => exact Nat.succ_pos _

theorem length_members (ms : List (Text × Value fl.F)) : 0 < (printMembers fl st ms).length := by
  cases ms with
  | nil => exact Nat.succ_pos _
  | cons m ms => exact Nat.succ_pos _

/-- `print` of a member, without what stands before it. -/
def printMember (fl : Floats) (st : Style) (m : Text × Value fl.F) (ms : List (Text × Value fl.F)) : Text :=
  quoted st m.1 ++ (code ':' :: st.gap ++ (print fl st m.2 ++ printMembers fl st ms))

theorem opens_member (m : Text × Value fl.F) (ms : List (Text × Value fl.F)) : Opens (printMember fl st m ms) :=
  ⟨code '"', _, rfl, by decide⟩

theorem scanOnce_quote (n : ℕ) (s : Text) :
    scanOnce fl (n + 1) (code '"' :: s) = (scanString s).map fun r ↦ (.str r.1, r.2) := by
  rw [scanOnce]
  exact if_pos rfl

theorem scanOnce_bracket (h : Opens s) (n : ℕ) :
    scanOnce fl (n + 1) (code '[' :: s) = (scanItems fl n s).map fun r ↦ (.arr r.1, r.2) := by
  rw [scanOnce]
  simp only [if_neg (show code '[' ≠ code '"' by decide), if_true, (expect_of_opens h).1, skipSpace_of_opens h]

theorem scanOnce_brace (h : Opens s) (n : ℕ) :
    scanOnce fl (n + 1) (code '\x7b' :: s) = (scanMembers fl n s).map fun r ↦ (.obj (ofPairs r.1), r.2) := by
  rw [scanOnce]
  simp only [if_neg (show code '\x7b' ≠ code '"' by decide),
    if_neg (show code '\x7b' ≠ code '[' by decide), if_true,
    (expect_of_opens h).2, skipSpace_of_opens h]

theorem ok_bind {ε α β : Type} (a : α) (f : α → Except ε β) : (Except.ok a >>= f) = f a := rfl

theorem scanItems_last {x : Value fl.F} (h : scanOnce fl n s = .ok (x, code ']' :: t)) :
    scanItems fl (n + 1) s = .ok ([x], t) := by
  have hend : expect (code ']') (code ']' :: t) = .ok t := expect_self (by decide) t
  rw [scanItems, h, ok_bind]
  simp only [hend]

theorem scanItems_comma {x : Value fl.F} {xs : List (Value fl.F)} (h : scanOnce fl n s = .ok (x, code ',' :: t))
    (hxs : scanItems fl n (skipSpace t) = .ok (xs, r)) : scanItems fl (n + 1) s = .ok (x :: xs, r) := by
  have hno : expect (code ']') (code ',' :: t) = .error .decodeError := expect_of_ne (by decide) (by decide) t
  have hcomma : expect (code ',') (code ',' :: t) = .ok t := expect_self (by decide) t
  rw [scanItems, h, ok_bind]
  simp only [hno, hcomma, ok_bind, hxs]

theorem scanMembers_last {k u : Text} {x : Value fl.F} (hk : scanString s = .ok (k, code ':' :: u))
    (h : scanOnce fl n (skipSpace u) = .ok (x, code '\x7d' :: t)) :
    scanMembers fl (n + 1) (code '"' :: s) = .ok ([(k, x)], t) := by
  have hcolon : expect (code ':') (code ':' :: u) = .ok u := expect_self (by decide) u
  have hend : expect (code '\x7d') (code '\x7d' :: t) = .ok t := expect_self (by decide) t
  rw [scanMembers, if_pos rfl, hk]
  simp only [ok_bind, hcolon, h, hend]

theorem scanMembers_comma {k u : Text} {x : Value fl.F} {ms : List (Text × Value fl.F)}
    (hk : scanString s = .ok (k, code ':' :: u)) (h : scanOnce fl n (skipSpace u) = .ok (x, code ',' :: t))
    (hms : scanMembers fl n (skipSpace t) = .ok (ms, r)) :
    scanMembers fl (n + 1) (code '"' :: s) = .ok ((k, x) :: ms, r) := by
  have hcolon : expect (code ':') (code ':' :: u) = .ok u := expect_self (by decide) u
  have hno : expect (code '\x7d') (code ',' :: t) = .error .decodeError := expect_of_ne (by decide) (by decide) t
  have hcomma : expect (code ',') (code ',' :: t) = .ok t := expect_self (by decide) t
  rw [scanMembers, if_pos rfl, hk]
  simp only [ok_bind, hcolon, h, hno, hcomma, hms]

section

variable (fl : Floats) (st : Style) (n : ℕ)

def ReadsOnce : Prop := ∀ v : Value fl.F, Readable v → (print fl st v).length ≤ n → ∀ r, Delimited r →
  scanOnce fl n (print fl st v ++ r) = .ok (v, r)

def ReadsItems : Prop := ∀ (x : Value fl.F) (xs : List (Value fl.F)), (∀ y ∈ x :: xs, Readable y) →
  (print fl st x ++ printItems fl st xs).length ≤ n → ∀ r,
  scanItems fl n (print fl st x ++ (printItems fl st xs ++ r)) = .ok (x :: xs, r)

def ReadsMembers : Prop := ∀ (m : Text × Value fl.F) (ms : List (Text × Value fl.F)),
  (∀ p ∈ m :: ms, Readable p.2) → (∀ p ∈ m :: ms, ∀ c ∈ p.1, isScalar c = true) →
  (printMember fl st m ms).length ≤ n → ∀ r,
  scanMembers fl n (printMember fl st m ms ++ r) = .ok (m :: ms, r)

end

theorem readsOnce_succ (hi : ReadsItems fl st n) (hm : ReadsMembers fl st n) : ReadsOnce fl st (n + 1) := by
  intro v hv hn r hr
  match v with
  | .null => rfl
  | .bool true => rfl
  | .bool false => rfl
  | .int i => exact scanOnce_int (hv.loaded _ .self) hr n
  | .float (.finite x) => exact scanOnce_float x hr n
  | .float .nan => exact absurd (hv.finite _ .self) id
  | .float (.infinity b) => exact absurd (hv.finite _ .self) id
  | .str s =>
    obtain ⟨t, ht, hscan⟩ := scanString_quoted st (hv.scalar _ .self) r
    show scanOnce fl (n + 1) (quoted st s ++ r) = _
    rw [ht, scanOnce_quote, hscan]
    rfl
  | .arr [] => rfl
  | .arr (x :: xs) =>
    have hlen : (print fl st x ++ printItems fl st xs).length ≤ n := Nat.le_of_succ_le_succ hn
    have hitems := hi x xs (fun y hy ↦ hv.item hy) hlen r
    have hprint : Opens (print fl st x) := opens_print x
    have hopens := hprint.append (printItems fl st xs ++ r)
    show scanOnce fl (n + 1) (code '[' :: ((print fl st x ++ printItems fl st xs) ++ r)) = _
    rw [List.append_assoc, scanOnce_bracket hopens, hitems]
    rfl
  | .obj [] => rfl
  | .obj (m :: ms) =>
    have hlen : (printMember fl st m ms).length ≤ n := Nat.le_of_succ_le_succ hn
    have hmembers := hm m ms (fun p hp ↦ hv.member hp) (hv.scalar _ .self) hlen r
    show scanOnce fl (n + 1) (code '\x7b' :: (printMember fl st m ms ++ r)) = _
    rw [scanOnce_brace ((opens_member m ms).append r), hmembers]
    show Except.ok (Value.obj (ofPairs (m :: ms)), r) = _
    rw [ofPairs_eq_self (hv.loaded _ .self)]

theorem readsItems_succ (ho : ReadsOnce fl st n) (hi : ReadsItems fl st n) : ReadsItems fl st (n + 1) := by
  intro x xs h hn r
  have hpos : 0 < (printItems fl st xs).length := length_items xs
  rw [List.length_append] at hn
  have hx := ho x (h x List.mem_cons_self) (by omega) (printItems fl st xs ++ r) (delimited_items xs r)
  cases xs with
  | nil => exact scanItems_last hx
  | cons y ys =>
    have hgap : ∀ s : Text, printItems fl st (y :: ys) ++ s =
        code ',' :: (st.gap ++ (print fl st y ++ (printItems fl st ys ++ s))) := by
      intro s
      simp only [printItems, List.cons_append, List.append_assoc]
    have hlen := congrArg List.length (hgap [])
    simp only [List.length_append, List.length_cons, List.append_nil] at hlen
    have hnext := hi y ys (fun z hz ↦ h z (List.mem_cons_of_mem x hz)) (by rw [List.length_append]; omega) r
    rw [hgap] at hx ⊢
    refine scanItems_comma hx ?_
    rw [skipSpace_gap ((opens_print y).append _), hnext]

theorem readsMembers_succ (ho : ReadsOnce fl st n) (hm : ReadsMembers fl st n) :
    ReadsMembers fl st (n + 1) := by
  rintro ⟨k, x⟩ ms h hk hn r
  have hpos : 0 < (printMembers fl st ms).length := length_members ms
  have hlen : (printMember fl st (k, x) ms).length = (quoted st k).length + (1 + (st.gap.length +
      ((print fl st x).length + (printMembers fl st ms).length))) := by
    simp only [printMember, List.length_append, List.length_cons]
    omega
  obtain ⟨t, ht, hscan⟩ := scanString_quoted st (hk (k, x) List.mem_cons_self)
    (code ':' :: (st.gap ++ (print fl st x ++ (printMembers fl st ms ++ r))))
  have hx : scanOnce fl n (skipSpace (st.gap ++ (print fl st x ++ (printMembers fl st ms ++ r)))) =
      .ok (x, printMembers fl st ms ++ r) := by
    rw [skipSpace_gap ((opens_print x).append _)]
    have hquoted : 0 < (quoted st k).length := Nat.succ_pos _
    exact ho x (h (k, x) List.mem_cons_self) (by omega) _ (delimited_members ms r)
  have hfront : printMember fl st (k, x) ms ++ r = code '"' :: t := by
    rw [← ht]
    simp only [printMember, List.append_assoc, List.cons_append]
  rw [hfront]
  cases ms with
  | nil => exact scanMembers_last hscan hx
  | cons p ps =>
    have hgap : ∀ s : Text, printMembers fl st (p :: ps) ++ s =
        code ',' :: (st.gap ++ (printMember fl st p ps ++ s)) := by
      intro s
      simp only [printMembers, printMember, List.cons_append, List.append_assoc]
    have hsum := congrArg List.length (hgap [])
    simp only [List.length_append, List.length_cons, List.append_nil] at hsum
    have hnext := hm p ps (fun q hq ↦ h q (List.mem_cons_of_mem _ hq))
      (fun q hq ↦ hk q (List.mem_cons_of_mem _ hq)) (by omega) r
    refine scanMembers_comma hscan (hx.trans (by rw [hgap])) ?_
    rw [skipSpace_gap ((opens_member p ps).append _), hnext]

/-- Fuel for every character is enough. -/
theorem reads (fl : Floats) (st : Style) (n : ℕ) :
    ReadsOnce fl st n ∧ ReadsItems fl st n ∧ ReadsMembers fl st n := by
  induction n with
  | zero =>
    refine ⟨fun v _ hn ↦ ?_, fun x xs _ hn ↦ ?_, fun m ms _ _ hn ↦ ?_⟩
    · exact absurd hn (Nat.not_le.2 (opens_print v).length_pos)
    · exact absurd hn (Nat.not_le.2 ((opens_print x).append _).length_pos)
    · exact absurd hn (Nat.not_le.2 (opens_member m ms).length_pos)
  | succ n ih =>
    obtain ⟨ho, hi, hm⟩ := ih
    exact ⟨readsOnce_succ hi hm, readsItems_succ ho hi, readsMembers_succ ho hm⟩

theorem loads_print {v : Value fl.F} (h : Readable v) : loads fl (print fl st v) = .ok v := by
  have hscan := (reads fl st (2 * (print fl st v).length + 1)).1 v h (by omega) [] delimited_nil
  rw [List.append_nil] at hscan
  rw [loads, skipSpace_of_opens (opens_print v), hscan]
  exact if_pos rfl

end AdminPlatform.Foundation.JsonRoundTrip
