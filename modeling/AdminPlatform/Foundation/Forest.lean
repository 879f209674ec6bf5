import Mathlib.Logic.Relation
import Mathlib.Data.List.Perm.Subperm
import Mathlib.Data.List.Nodup
import Mathlib.Data.Nat.Find
import Mathlib.Tactic.ByContra
import Mathlib.Tactic.Choose
import Mathlib.Data.Nat.Notation

namespace AdminPlatform.Foundation.Forest

variable {α : Type} (parent : α → Option α)

/-- The ancestor `n` links up. -/
def climb : ℕ → α → Option α
  | 0, a => some a
  | n + 1, a => (parent a).bind (climb n)

/-- Every chain of parent links from `a` ends. -/
def Rooted (a : α) : Prop := Acc (fun b a ↦ parent a = some b) a

/-- `a` lies in the subtree of `b`. -/
def Below (a b : α) : Prop := Relation.ReflTransGen (fun a b ↦ parent a = some b) a b

variable {parent} {parent' : α → Option α} {a b c : α} {n m : ℕ}

@[simp] theorem climb_zero : climb parent 0 a = some a := rfl

@[simp] theorem climb_succ : climb parent (n + 1) a = (parent a).bind (climb parent n) := rfl

theorem climb_one : climb parent 1 a = parent a := by
  rw [climb_succ]
  cases parent a <;> rfl

theorem climb_add : climb parent (n + m) a = (climb parent n a).bind (climb parent m) := by
  induction n generalizing a with
  | zero => simp
  | succ n ih =>
    rw [Nat.succ_add, climb_succ, climb_succ]
    cases parent a with
    | none => rfl
    | some b => exact ih

/-- A chain of parents ends at one root only. -/
theorem climb_root_unique (h : climb parent n a = some b) (hb : parent b = none) (h' : climb parent m a = some c)
    (hc : parent c = none) : n = m := by
  rcases Nat.le_total n m with hle | hle
  · obtain ⟨d, rfl⟩ := Nat.exists_eq_add_of_le hle
    rw [climb_add, h, Option.bind_some] at h'
    cases d with
    | zero => rfl
    | succ d =>
      rw [climb_succ, hb] at h'
      cases h'
  · obtain ⟨d, rfl⟩ := Nat.exists_eq_add_of_le hle
    rw [climb_add, h', Option.bind_some] at h
    cases d with
    | zero => rfl
    | succ d =>
      rw [climb_succ, hc] at h
      cases h

theorem below_iff_climb : Below parent a b ↔ ∃ n, climb parent n a = some b := by
  constructor
  · intro h
    induction h using Relation.ReflTransGen.head_induction_on with
    | refl => exact ⟨0, rfl⟩
    | head hab _ ih =>
      obtain ⟨n, hn⟩ := ih
      refine ⟨n + 1, ?_⟩
      rw [climb_succ, hab]
      exact hn
  · rintro ⟨n, hn⟩
    induction n generalizing a with
    | zero =>
      cases hn
      exact .refl
    | succ n ih =>
      obtain ⟨c, hc, hcb⟩ := Option.bind_eq_some_iff.1 hn
      exact .head hc (ih hcb)

theorem rooted_of_none (h : parent a = none) : Rooted parent a := by
  refine ⟨a, fun b hb ↦ ?_⟩
  rw [h] at hb
  cases hb

theorem rooted_of_parent (h : parent a = some b) (hb : Rooted parent b) : Rooted parent a := by
  refine ⟨a, fun c hc ↦ ?_⟩
  rw [h] at hc
  cases hc
  exact hb

theorem Rooted.up (h : Rooted parent a) (hb : parent a = some b) : Rooted parent b := h.inv hb

/-- A rooted element reaches a root in finitely many links. -/
theorem Rooted.climb (h : Rooted parent a) :
    ∃ n r, climb parent n a = some r ∧ parent r = none := by
  induction h with
  | intro a _ ih =>
    cases hp : parent a with
    | none => exact ⟨0, a, rfl, hp⟩
    | some b =>
      obtain ⟨n, r, hn, hr⟩ := ih b hp
      refine ⟨n + 1, r, ?_, hr⟩
      rw [climb_succ, hp]
      exact hn

theorem rooted_of_climb (h : climb parent n a = some b) (hb : parent b = none) :
    Rooted parent a := by
  induction n generalizing a with
  | zero =>
    cases h
    exact rooted_of_none hb
  | succ n ih =>
    obtain ⟨c, hc, hn⟩ := Option.bind_eq_some_iff.1 h
    exact rooted_of_parent hc (ih hn)

theorem Rooted.congr (h : Rooted parent a) (hp : ∀ b, Below parent a b → parent' b = parent b) :
    Rooted parent' a := by
  induction h with
  | intro a _ ih =>
    have ha := hp a .refl
    cases hb : parent a with
    | none => exact rooted_of_none (ha.trans hb)
    | some b =>
      refine rooted_of_parent (ha.trans hb) (ih b hb fun c hc ↦ hp c ?_)
      exact .head hb hc

theorem Rooted.of_le (h : Rooted parent a) (hle : ∀ x y, parent' x = some y → parent x = some y) :
    Rooted parent' a := by
  induction h with
  | intro a _ ih => exact ⟨a, fun b hb ↦ ih b (hle a b hb)⟩

/-- Giving one element another parent keeps the forest, unless the new parent lies below. -/
theorem rooted_move (h : ∀ x, Rooted parent x) (hsame : ∀ x, x ≠ a → parent' x = parent x)
    (hnew : ∀ b, parent' a = some b → ¬ Below parent b a) (x : α) : Rooted parent' x := by
  have ha : Rooted parent' a := by
    cases hp : parent' a with
    | none => exact rooted_of_none hp
    | some b =>
      refine rooted_of_parent hp ((h b).congr fun c hc ↦ hsame c ?_)
      rintro rfl
      exact hnew b hp hc
  induction h x with
  | intro x _ ih =>
    by_cases hx : x = a
    · rw [hx]
      exact ha
    · cases hp : parent x with
      | none => exact rooted_of_none ((hsame x hx).trans hp)
      | some b => exact rooted_of_parent ((hsame x hx).trans hp) (ih b hp)

/-- A chain that comes back to its start never ends. -/
theorem not_rooted_of_climb (hn : 0 < n) (h : climb parent n a = some a) : ¬ Rooted parent a := by
  intro hr
  induction hr generalizing n with
  | intro a _ ih =>
    obtain ⟨k, rfl⟩ : ∃ k, n = k + 1 := ⟨n - 1, by omega⟩
    obtain ⟨b, hb, hk⟩ := Option.bind_eq_some_iff.1 h
    refine ih b hb (n := k + 1) (by omega) ?_
    rw [climb_add, hk, Option.bind_some, climb_one]
    exact hb

theorem rooted_of_climb_none (h : climb parent n a = none) : Rooted parent a := by
  induction n generalizing a with
  | zero => cases h
  | succ n ih =>
    cases hp : parent a with
    | none => exact rooted_of_none hp
    | some b =>
      rw [climb_succ, hp] at h
      exact rooted_of_parent hp (ih h)

/-- Where every chain ends, an element ranks above its parent. -/
theorem exists_rank (h : ∀ a, Rooted parent a) :
    ∃ rank : α → ℕ, ∀ a b, parent a = some b → rank b < rank a := by
  classical
  have hn : ∀ a, ∃ n, climb parent n a = none := by
    intro a
    obtain ⟨n, r, hc, hr⟩ := (h a).climb
    refine ⟨n + 1, ?_⟩
    rw [climb_add, hc, Option.bind_some, climb_one, hr]
  refine ⟨fun a ↦ Nat.find (hn a), fun a b hab ↦ ?_⟩
  have ha := Nat.find_spec (hn a)
  cases hk : Nat.find (hn a) with
  | zero =>
    rw [hk] at ha
    cases ha
  | succ k =>
    rw [hk, climb_succ, hab, Option.bind_some] at ha
    show Nat.find (hn b) < Nat.find (hn a)
    rw [hk]
    exact Nat.lt_succ_of_le (Nat.find_min' (hn b) ha)

/-- The chain of a rooted element is no longer than a list of those on it that have a parent. -/
theorem exists_climb_le (h : Rooted parent a) (ks : List α)
    (hk : ∀ c, Below parent a c → parent c ≠ none → c ∈ ks) :
    ∃ n ≤ ks.length, ∃ r, climb parent n a = some r ∧ parent r = none := by
  classical
  induction h generalizing ks with
  | intro a hacc ih =>
    cases hp : parent a with
    | none => exact ⟨0, Nat.zero_le _, a, rfl, hp⟩
    | some b =>
      have ha : a ∈ ks := hk a .refl (by rw [hp]; exact Option.some_ne_none b)
      have hab : ¬ Below parent b a := by
        intro hb
        obtain ⟨n, hn⟩ := below_iff_climb.1 hb
        refine not_rooted_of_climb (n := n + 1) (Nat.succ_pos n) ?_ ⟨a, hacc⟩
        rw [climb_succ, hp]
        exact hn
      obtain ⟨n, hn, r, hr, hroot⟩ := ih b hp (ks.erase a) fun c hc hne ↦ by
        refine (List.mem_erase_of_ne ?_).2 (hk c (.head hp hc) hne)
        rintro rfl
        exact hab hc
      refine ⟨n + 1, ?_, r, ?_, hroot⟩
      · rw [List.length_erase_of_mem ha] at hn
        have hpos := List.length_pos_of_mem ha
        omega
      · rw [climb_succ, hp]
        exact hr

/-- Where finitely many elements have a parent and no chain comes back to its start, every
chain ends. -/
theorem rooted_of_acyclic (ks : List α) (hk : ∀ a b, parent a = some b → a ∈ ks)
    (h : ∀ a n, 0 < n → climb parent n a ≠ some a) (a : α) : Rooted parent a := by
  by_contra hr
  have hclimb : ∀ n, ∃ b, climb parent n a = some b := by
    intro n
    cases hn : climb parent n a with
    | none => exact absurd (rooted_of_climb_none hn) hr
    | some b => exact ⟨b, rfl⟩
  choose f hf using hclimb
  have hmem : ∀ n, f n ∈ ks := by
    intro n
    have hn := hf (n + 1)
    rw [climb_add, hf n, Option.bind_some, climb_one] at hn
    exact hk _ _ hn
  have hlt : ∀ m n, m < n → f m ≠ f n := by
    intro m n hmn he
    obtain ⟨k, rfl⟩ : ∃ k, n = m + k := ⟨n - m, by omega⟩
    have hn := hf (m + k)
    rw [climb_add, hf m, Option.bind_some, ← he] at hn
    exact h _ k (by omega) hn
  have hnodup : ((List.range (ks.length + 1)).map f).Nodup := by
    refine List.Nodup.map_on (fun m _ n _ he ↦ ?_) List.nodup_range
    by_contra hne
    rcases Nat.lt_or_gt_of_ne hne with hl | hl
    · exact hlt m n hl he
    · exact hlt n m hl he.symm
  have hsub : (List.range (ks.length + 1)).map f ⊆ ks := by
    intro x hx
    obtain ⟨n, -, rfl⟩ := List.mem_map.1 hx
    exact hmem n
  have hlen := (List.subperm_of_subset hnodup hsub).length_le
  rw [List.length_map, List.length_range] at hlen
  omega

/-- Where finitely many elements have a parent, what passes from all children of an element to the
element holds everywhere. -/
theorem children_induction (h : ∀ a, Rooted parent a) (ks : List α)
    (hk : ∀ a b, parent a = some b → a ∈ ks) {motive : α → Prop}
    (step : ∀ a, (∀ b, parent b = some a → motive b) → motive a) (a : α) : motive a := by
  obtain ⟨rank, hrank⟩ := exists_rank h
  obtain ⟨m, hbound⟩ : ∃ m, ∀ b ∈ ks, rank b ≤ m := by
    clear hk
    induction ks with
    | nil => exact ⟨0, fun b hb ↦ nomatch hb⟩
    | cons c ks ih =>
      obtain ⟨m, hm⟩ := ih
      refine ⟨max (rank c) m, fun b hb ↦ ?_⟩
      rcases List.mem_cons.1 hb with rfl | hb
      · exact Nat.le_max_left _ _
      · exact Nat.le_trans (hm b hb) (Nat.le_max_right _ _)
  induction hn : m - rank a using Nat.strong_induction_on generalizing a with
  | _ n ih =>
    refine step a fun b hb ↦ ih _ ?_ b rfl
    have hlt := hrank b a hb
    have hle := hbound b (hk b a hb)
    omega

/-- Every element has an element without children at or below it. -/
theorem exists_leaf_below (h : ∀ a, Rooted parent a) (ks : List α)
    (hk : ∀ a b, parent a = some b → a ∈ ks) (a : α) :
    ∃ l, (∀ b, parent b ≠ some l) ∧ Below parent l a := by
  refine children_induction h ks hk (motive := fun a ↦
    ∃ l, (∀ b, parent b ≠ some l) ∧ Below parent l a) (fun a ih ↦ ?_) a
  by_cases hc : ∃ b, parent b = some a
  · obtain ⟨b, hb⟩ := hc
    obtain ⟨l, hl, hlb⟩ := ih b hb
    exact ⟨l, hl, hlb.tail hb⟩
  · exact ⟨a, fun b hb ↦ hc ⟨b, hb⟩, .refl⟩

def levels (children : α → List α) : ℕ → List α → List α
  | 0, level => level
  | depth + 1, level => level ++ levels children depth (level.flatMap children)

theorem mem_levels {children : α → List α} (h : ∀ {x a}, x ∈ children a ↔ parent x = some a)
    {x : α} {level : List α} :
    x ∈ levels children n level ↔ ∃ k ≤ n, ∃ a ∈ level, climb parent k x = some a := by
  induction n generalizing level with
  | zero => simp [levels]
  | succ n ih =>
    simp only [levels, List.mem_append, ih, List.mem_flatMap, h]
    constructor
    · rintro (hx | ⟨k, hk, b, ⟨a, ha, hb⟩, hc⟩)
      · exact ⟨0, by omega, x, hx, rfl⟩
      · refine ⟨k + 1, by omega, a, ha, ?_⟩
        rw [climb_add, hc, Option.bind_some, climb_one]
        exact hb
    · rintro ⟨k, hk, a, ha, hc⟩
      cases k with
      | zero =>
        cases hc
        exact .inl ha
      | succ k =>
        rw [climb_add] at hc
        obtain ⟨b, hb, hab⟩ := Option.bind_eq_some_iff.1 hc
        rw [climb_one] at hab
        exact .inr ⟨k, by omega, b, ⟨a, ha, hab⟩, hb⟩

/-- The first `n` links of the chain from an element. -/
def lineage (parent : α → Option α) : ℕ → α → List (α × Option α)
  | 0, _ => []
  | n + 1, a => (a, parent a) :: ((parent a).map (lineage parent n)).getD []

/-- Whoever keeps or cuts the links of a complete chain adds no ancestor. -/
theorem climb_of_lineage (hn : climb parent n a = none)
    (h : ∀ x ∈ lineage parent n a, parent' x.1 = x.2 ∨ parent' x.1 = none)
    (hm : climb parent' m a = some b) : climb parent m a = some b := by
  induction m generalizing n a with
  | zero => exact hm
  | succ m ih =>
    cases n with
    | zero => cases hn
    | succ n =>
      obtain ⟨c, hc, hcb⟩ := Option.bind_eq_some_iff.1 hm
      have ha : parent' a = parent a ∨ parent' a = none := h (a, parent a) List.mem_cons_self
      have hpar : parent a = some c := by
        rcases ha with ha | ha
        · rw [← ha, hc]
        · rw [hc] at ha
          cases ha
      rw [climb_succ, hpar] at hn ⊢
      refine ih hn (fun x hx ↦ h x ?_) hcb
      rw [lineage, hpar]
      exact List.mem_cons_of_mem _ hx

theorem mem_lineage {x : α × Option α} (h : x ∈ lineage parent n a) :
    x.2 = parent x.1 ∧ (x.1 = a ∨ ∃ c, parent c = some x.1) := by
  induction n generalizing a with
  | zero => cases h
  | succ n ih =>
    rcases List.mem_cons.1 h with rfl | h
    · exact ⟨rfl, .inl rfl⟩
    · cases hp : parent a with
      | none =>
        rw [hp] at h
        cases h
      | some b =>
        rw [hp] at h
        obtain ⟨he, hx⟩ := ih h
        refine ⟨he, .inr ?_⟩
        rcases hx with rfl | hc
        · exact ⟨a, hp⟩
        · exact hc

theorem climb_of_le (h : ∀ x y, parent' x = some y → parent x = some y)
    (hc : climb parent' n a = some b) : climb parent n a = some b := by
  induction n generalizing a with
  | zero => exact hc
  | succ n ih =>
    obtain ⟨x, hx, hn⟩ := Option.bind_eq_some_iff.1 hc
    rw [climb_succ, h a x hx]
    exact ih hn

/-- Giving one element another parent changes the ancestors of what lies below it only, and adds those that
the new parent has. -/
theorem climb_or_below (h : ∀ x, x ≠ c → parent' x = parent x) (hc : climb parent' n a = some b) :
    climb parent n a = some b ∨ Below parent a c ∧ ∃ p, parent' c = some p ∧ Below parent p b := by
  induction n generalizing a with
  | zero => exact .inl hc
  | succ n ih =>
    obtain ⟨x, hx, hn⟩ := Option.bind_eq_some_iff.1 hc
    by_cases ha : a = c
    · subst ha
      refine .inr ⟨.refl, x, hx, ?_⟩
      rcases ih hn with hl | ⟨-, p, hp, hb⟩
      · exact below_iff_climb.2 ⟨n, hl⟩
      · cases hx.symm.trans hp
        exact hb
    · rw [h a ha] at hx
      rcases ih hn with hl | ⟨hb, hp⟩
      · rw [climb_succ, hx]
        exact .inl hl
      · exact .inr ⟨.head hx hb, hp⟩

theorem below_mem {s : α → Prop} (h : ∀ x y, parent x = some y → s y → s x)
    (hab : Below parent a b) (hb : s b) : s a := by
  induction hab using Relation.ReflTransGen.head_induction_on with
  | refl => exact hb
  | head hxy _ ih => exact h _ _ hxy ih

end AdminPlatform.Foundation.Forest
