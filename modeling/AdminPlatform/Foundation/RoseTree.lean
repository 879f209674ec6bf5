import AdminPlatform.Foundation.Forest

namespace AdminPlatform.Foundation.RoseTree

open Foundation.Forest

/-- A list of ordered trees: the root of the first, what hangs on it, and the other trees. -/
inductive Trees (α : Type)
  | nil
  | cons (value : α) (children rest : Trees α)
  deriving DecidableEq, Repr

variable {α β κ : Type}

namespace Trees

def values : Trees α → List α
  | nil => []
  | cons a children rest => a :: (children.values ++ rest.values)

def roots : Trees α → List α
  | nil => []
  | cons a _ rest => a :: rest.roots

def nodes : Trees α → List (α × Trees α)
  | nil => []
  | cons a children rest => (a, children) :: (children.nodes ++ rest.nodes)

def map (f : α → β) : Trees α → Trees β
  | nil => nil
  | cons a children rest => cons (f a) (children.map f) (rest.map f)

def keep (p : α → Bool) : Trees α → Trees α
  | nil => nil
  | cons a children rest => if p a then cons a (children.keep p) (rest.keep p) else rest.keep p

def ofList (value : α → β) (below : α → Trees β) : List α → Trees β
  | [] => nil
  | a :: as => cons (value a) (below a) (ofList value below as)

def grow (children : Option κ → List α) (key : α → κ) : ℕ → Option κ → Trees α
  | 0, _ => nil
  | depth + 1, k => ofList id (fun a ↦ grow children key depth (some (key a))) (children k)

variable {t : Trees α} {f : α → β} {p : α → Bool} {a b : α} {as : List α} {below : α → Trees α}

@[simp] theorem values_nil : (nil : Trees α).values = [] := rfl

@[simp] theorem values_cons {cs ts : Trees α} : (cons a cs ts).values = a :: (cs.values ++ ts.values) := rfl

@[simp] theorem roots_nil : (nil : Trees α).roots = [] := rfl

@[simp] theorem roots_cons {cs ts : Trees α} : (cons a cs ts).roots = a :: ts.roots := rfl

@[simp] theorem values_map : (t.map f).values = t.values.map f := by
  induction t with
  | nil => rfl
  | cons a cs ts ih ih' => simp [map, ih, ih']

@[simp] theorem roots_map : (t.map f).roots = t.roots.map f := by
  induction t with
  | nil => rfl
  | cons a cs ts _ ih => simp [map, ih]

theorem mem_values_of_mem_nodes {cs : Trees α} (h : (a, cs) ∈ t.nodes) : a ∈ t.values := by
  induction t with
  | nil => cases h
  | cons b us ts ih ih' =>
    rcases List.mem_cons.1 h with h | h
    · cases h
      exact List.mem_cons_self
    · exact List.mem_cons_of_mem _ (List.mem_append.2 ((List.mem_append.1 h).imp ih ih'))

theorem mem_nodes_map {b : β} {cs : Trees β} (h : (b, cs) ∈ (t.map f).nodes) :
    ∃ a us, (a, us) ∈ t.nodes ∧ b = f a ∧ cs = us.map f := by
  induction t with
  | nil => cases h
  | cons a us ts ih ih' =>
    rcases List.mem_cons.1 h with h | h
    · cases h
      exact ⟨a, us, List.mem_cons_self, rfl, rfl⟩
    · rcases List.mem_append.1 h with h | h
      · obtain ⟨c, vs, hc, hb⟩ := ih h
        exact ⟨c, vs, List.mem_cons_of_mem _ (List.mem_append_left _ hc), hb⟩
      · obtain ⟨c, vs, hc, hb⟩ := ih' h
        exact ⟨c, vs, List.mem_cons_of_mem _ (List.mem_append_right _ hc), hb⟩

theorem keep_map {q : β → Bool} : (t.map f).keep q = (t.keep fun a ↦ q (f a)).map f := by
  induction t with
  | nil => rfl
  | cons a cs ts ih ih' =>
    cases ha : q (f a) with
    | true => simp [map, keep, ha, ih, ih']
    | false => simp [map, keep, ha, ih']

theorem roots_ofList : (ofList id below as).roots = as := by
  induction as with
  | nil => rfl
  | cons a as ih => simp [ofList, ih]

theorem values_ofList : (ofList id below as).values = as.flatMap fun a ↦ a :: (below a).values := by
  induction as with
  | nil => rfl
  | cons a as ih => simp [ofList, ih]

theorem mem_nodes_ofList {cs : Trees α} (h : (a, cs) ∈ (ofList id below as).nodes) :
    (a ∈ as ∧ cs = below a) ∨ ∃ b ∈ as, (a, cs) ∈ (below b).nodes := by
  induction as with
  | nil => cases h
  | cons b as ih =>
    rcases List.mem_cons.1 h with h | h
    · cases h
      exact .inl ⟨List.mem_cons_self, rfl⟩
    · rcases List.mem_append.1 h with h | h
      · exact .inr ⟨b, List.mem_cons_self, h⟩
      · rcases ih h with ⟨ha, hcs⟩ | ⟨c, hc, h⟩
        · exact .inl ⟨List.mem_cons_of_mem _ ha, hcs⟩
        · exact .inr ⟨c, List.mem_cons_of_mem _ hc, h⟩

theorem map_ofList : (ofList id below as).map f = ofList f (fun a ↦ (below a).map f) as := by
  induction as with
  | nil => rfl
  | cons a as ih => simp [ofList, map, ih]

theorem keep_ofList : (ofList id below as).keep p = ofList id (fun a ↦ (below a).keep p) (as.filter p) := by
  induction as with
  | nil => rfl
  | cons a as ih =>
    cases ha : p a with
    | true => simp [ofList, keep, ha, ih]
    | false => simp [ofList, keep, ha, ih]

section Grow

variable {children : Option κ → List α} {key : α → κ} {parent : κ → Option κ} {items : List α}
  {k : Option κ} {n : ℕ}

/-- Keeping what passes a test leaves out, of every list of children, what does not. -/
theorem keep_grow : (grow children key n k).keep p = grow (fun k ↦ (children k).filter p) key n k := by
  induction n generalizing k with
  | zero => rfl
  | succ n ih =>
    rw [grow, keep_ofList, grow]
    simp only [ih]

theorem roots_grow (hn : 0 < n) : (grow children key n k).roots = children k := by
  cases n with
  | zero => cases hn
  | succ n => rw [grow, roots_ofList]

theorem mem_grow (hc : ∀ a k, a ∈ children k ↔ a ∈ items ∧ parent (key a) = k)
    (hp : ∀ i j, parent i = some j → ∃ a ∈ items, key a = j) :
    a ∈ (grow children key n k).values ↔
      a ∈ items ∧ ∃ m < n, ∃ i, climb parent m (key a) = some i ∧ parent i = k := by
  induction n generalizing k with
  | zero => simp [grow]
  | succ n ih =>
    rw [grow, values_ofList, List.mem_flatMap]
    constructor
    · intro ⟨b, hb, ha⟩
      rcases List.mem_cons.1 ha with rfl | ha
      · obtain ⟨hitem, hk⟩ := (hc _ _).1 hb
        exact ⟨hitem, 0, Nat.succ_pos n, key _, rfl, hk⟩
      · obtain ⟨hitem, m, hm, i, hi, hib⟩ := ih.1 ha
        refine ⟨hitem, m + 1, Nat.succ_lt_succ hm, key b, ?_, ((hc _ _).1 hb).2⟩
        rw [climb_add, hi, Option.bind_some, climb_one, hib]
    · intro ⟨hitem, m, hm, i, hi, hk⟩
      cases m with
      | zero =>
        cases hi
        exact ⟨a, (hc _ _).2 ⟨hitem, hk⟩, List.mem_cons_self⟩
      | succ m =>
        rw [climb_add] at hi
        obtain ⟨j, hj, hji⟩ := Option.bind_eq_some_iff.1 hi
        rw [climb_one] at hji
        obtain ⟨b, hb, rfl⟩ := hp j i hji
        refine ⟨b, (hc _ _).2 ⟨hb, hk⟩, List.mem_cons_of_mem _ (ih.2 ⟨hitem, m, ?_, j, hj, hji⟩)⟩
        exact Nat.lt_of_succ_lt_succ hm

/-- What hangs on a node has unfolded from its key, with the depth that is left. -/
theorem mem_nodes_grow (hc : ∀ a k, a ∈ children k → parent (key a) = k) {cs : Trees α}
    (h : (a, cs) ∈ (grow children key n k).nodes) : ∃ d m, d + (m + 1) = n ∧
      cs = grow children key m (some (key a)) ∧ ∃ i, climb parent d (key a) = some i ∧ parent i = k := by
  induction n generalizing k with
  | zero => cases h
  | succ n ih =>
    rcases mem_nodes_ofList h with ⟨ha, hcs⟩ | ⟨b, hb, h⟩
    · exact ⟨0, n, Nat.zero_add _, hcs, key a, rfl, hc a k ha⟩
    · obtain ⟨d, m, hn, hcs, i, hi, hib⟩ := ih h
      refine ⟨d + 1, m, by omega, hcs, key b, ?_, hc b k hb⟩
      rw [climb_add, hi, Option.bind_some, climb_one, hib]

/-- Where the depth reaches beyond every chain of parents, all children hang on their parent. -/
theorem roots_of_mem_nodes_grow (hc : ∀ a k, a ∈ children k → parent (key a) = k)
    (hn : ∀ k, ∀ b ∈ children k, ∀ d i, climb parent d (key b) = some i → parent i = none → d < n) {cs : Trees α}
    (h : (a, cs) ∈ (grow children key n none).nodes) : cs.roots = children (some (key a)) := by
  obtain ⟨d, m, hm, rfl, i, hi, hroot⟩ := mem_nodes_grow hc h
  cases m with
  | succ m => exact roots_grow (Nat.succ_pos m)
  | zero =>
    refine (List.eq_nil_iff_forall_not_mem.2 fun b hb ↦ ?_).symm
    have hclimb : climb parent (1 + d) (key b) = some i := by
      rw [climb_add, climb_one, hc b _ hb]
      exact hi
    have hlt := hn _ b hb (1 + d) i hclimb hroot
    omega

/-- More depth changes nothing where no chain of parents is long enough to need it. -/
theorem grow_succ (hc : ∀ a k, a ∈ children k → parent (key a) = k)
    (h : ∀ a k', a ∈ children k' → ∀ i, climb parent n (key a) = some i → parent i ≠ k) :
    grow children key (n + 1) k = grow children key n k := by
  induction n generalizing k with
  | zero =>
    have hnil : children k = [] := by
      refine List.eq_nil_iff_forall_not_mem.2 fun a ha ↦ ?_
      exact h a k ha (key a) rfl (hc a k ha)
    simp [grow, hnil, ofList]
  | succ n ih =>
    have hbelow : ∀ b ∈ children k,
        grow children key (n + 1) (some (key b)) = grow children key n (some (key b)) := by
      intro b hb
      refine ih fun a k' ha i hi hib ↦ h a k' ha (key b) ?_ (hc b k hb)
      rw [climb_add, hi, Option.bind_some, climb_one, hib]
    have hlist : ∀ as : List α, (∀ b ∈ as, b ∈ children k) →
        ofList id (fun a ↦ grow children key (n + 1) (some (key a))) as =
          ofList id (fun a ↦ grow children key n (some (key a))) as := by
      intro as has
      induction as with
      | nil => rfl
      | cons b as ih' =>
        rw [List.forall_mem_cons] at has
        rw [ofList, ofList, hbelow b has.1, ih' has.2]
    exact hlist _ fun _ hb ↦ hb

/-- The unfolding ends where no chain of parents is longer than some length. -/
theorem acc_grow (hc : ∀ a k, a ∈ children k → parent (key a) = k)
    (h : ∀ a k', a ∈ children k' → ∀ i, climb parent n (key a) = some i → parent i ≠ k) :
    Acc (fun k' k ↦ ∃ a ∈ children k, k' = some (key a)) k := by
  induction n generalizing k with
  | zero =>
    refine ⟨k, fun k' ⟨a, ha, _⟩ ↦ ?_⟩
    exact absurd (hc a k ha) (h a k ha (key a) rfl)
  | succ n ih =>
    refine ⟨k, fun k' ⟨b, hb, hk'⟩ ↦ ?_⟩
    subst hk'
    refine ih fun a k' ha i hi hib ↦ h a k' ha (key b) ?_ (hc b k hb)
    rw [climb_add, hi, Option.bind_some, climb_one, hib]

theorem nodup_grow (hc : ∀ a k, a ∈ children k ↔ a ∈ items ∧ parent (key a) = k)
    (hp : ∀ i j, parent i = some j → ∃ a ∈ items, key a = j) (hn : ∀ k, (children k).Nodup)
    (hkey : ∀ a ∈ items, ∀ b ∈ items, key a = key b → a = b) (hk : ∀ i, k = some i → Rooted parent i) :
    (grow children key n k).values.Nodup := by
  induction n generalizing k with
  | zero => exact List.nodup_nil
  | succ n ih =>
    have hroot : ∀ a ∈ children k, Rooted parent (key a) := by
      intro a ha
      obtain ⟨_, hak⟩ := (hc a k).1 ha
      cases k with
      | none => exact rooted_of_none hak
      | some i => exact rooted_of_parent hak (hk i rfl)
    -- An element of the subtree of `b` comes to `b`, and from there on goes up.
    have hup : ∀ b ∈ children k, ∀ a ∈ b :: (grow children key n (some (key b))).values,
        ∃ m, climb parent m (key a) = some (key b) := by
      intro b hb a ha
      rcases List.mem_cons.1 ha with rfl | ha
      · exact ⟨0, rfl⟩
      · obtain ⟨_, m, _, i, hi, hib⟩ := (mem_grow hc hp).1 ha
        refine ⟨m + 1, ?_⟩
        rw [climb_add, hi, Option.bind_some, climb_one, hib]
    have hlevel : ∀ b ∈ children k, ∀ c ∈ children k, ∀ m, climb parent m (key b) = some (key c) → m = 0 := by
      intro b hb c hc' m hm
      by_contra hne
      obtain ⟨m, rfl⟩ := Nat.exists_eq_succ_of_ne_zero hne
      rw [climb_succ, ((hc b k).1 hb).2] at hm
      cases k with
      | none => cases hm
      | some i =>
        rw [Option.bind_some] at hm
        refine not_rooted_of_climb (n := m + 1) (Nat.succ_pos m) ?_ (hk i rfl)
        rw [climb_add, hm, Option.bind_some, climb_one, ((hc c _).1 hc').2]
    rw [grow, values_ofList, List.nodup_flatMap]
    refine ⟨fun b hb ↦ List.nodup_cons.2 ⟨fun h ↦ ?_, ih fun i hi ↦ ?_⟩, ?_⟩
    · obtain ⟨_, m, _, i, hi, hib⟩ := (mem_grow hc hp).1 h
      refine not_rooted_of_climb (n := m + 1) (Nat.succ_pos m) ?_ (hroot b hb)
      rw [climb_add, hi, Option.bind_some, climb_one, hib]
    · cases hi
      exact hroot b hb
    · refine (hn k).imp_of_mem fun {b c} hb hc' hne a hab hac ↦ hne ?_
      obtain ⟨m, hm⟩ := hup b hb a hab
      obtain ⟨m', hm'⟩ := hup c hc' a hac
      have hsame : key b = key c := by
        rcases Nat.le_total m m' with hle | hle
        · obtain ⟨d, rfl⟩ := Nat.exists_eq_add_of_le hle
          rw [climb_add, hm, Option.bind_some] at hm'
          have hd := hlevel b hb c hc' d hm'
          subst hd
          exact Option.some.inj hm'
        · obtain ⟨d, rfl⟩ := Nat.exists_eq_add_of_le hle
          rw [climb_add, hm', Option.bind_some] at hm
          have hd := hlevel c hc' b hb d hm
          subst hd
          exact (Option.some.inj hm).symm
      exact hkey b ((hc b k).1 hb).1 c ((hc c k).1 hc').1 hsame

end Grow

end Trees

end AdminPlatform.Foundation.RoseTree
