import AdminPlatform.Foundation.Forest

namespace AdminPlatform.Foundation.ParentChains

open Forest

variable {α : Type} {parent : α → Option α} {a b c : α} {k l : List α} {n : ℕ}

/-- The elements above `a`, its parent first and its root last. -/
inductive Chain (parent : α → Option α) : α → List α → Prop
  | root {a : α} : parent a = none → Chain parent a []
  | link {a b : α} {l : List α} : parent a = some b → Chain parent b l → Chain parent a (b :: l)

theorem exists_chain (h : Rooted parent a) : ∃ l, Chain parent a l := by
  induction h with
  | intro a _ ih =>
    cases hp : parent a with
    | none => exact ⟨[], .root hp⟩
    | some b =>
      obtain ⟨l, hl⟩ := ih b hp
      exact ⟨b :: l, .link hp hl⟩

namespace Chain

theorem unique (h : Chain parent a k) (h' : Chain parent a l) : k = l := by
  induction h generalizing l with
  | root hp =>
    cases h' with
    | root => rfl
    | link hp' => cases hp.symm.trans hp'
  | link hp _ ih =>
    cases h' with
    | root hp' => cases hp.symm.trans hp'
    | link hp' h' =>
      cases hp.symm.trans hp'
      rw [ih h']

theorem climb_succ (h : Chain parent a l) : climb parent (n + 1) a = l[n]? := by
  induction h generalizing n with
  | root hp => simp [hp]
  | link hp _ ih =>
    rw [Forest.climb_succ, hp, Option.bind_some]
    cases n with
    | zero => rfl
    | succ n => exact ih

theorem above (h : Chain parent a l) (hc : c ∈ l) : ∃ k, Chain parent c k ∧ k.length < l.length := by
  induction h with
  | root => cases hc
  | @link a b l _ h ih =>
    rcases List.mem_cons.1 hc with rfl | hc
    · exact ⟨l, h, Nat.lt_succ_self _⟩
    · obtain ⟨k, hk, hlt⟩ := ih hc
      exact ⟨k, hk, Nat.lt_succ_of_lt hlt⟩

theorem not_mem (h : Chain parent a l) : a ∉ l := by
  intro ha
  obtain ⟨k, hk, hlt⟩ := h.above ha
  rw [hk.unique h] at hlt
  exact Nat.lt_irrefl _ hlt

theorem nodup (h : Chain parent a l) : l.Nodup := by
  induction h with
  | root => exact List.nodup_nil
  | link _ h ih => exact List.nodup_cons.2 ⟨h.not_mem, ih⟩

/-- An element is at most `n` links above `a` if it stands among the first `n` of the chain. -/
theorem mem_take_iff (h : Chain parent a l) :
    c ∈ l.take n ↔ ∃ m < n, climb parent (m + 1) a = some c := by
  simp only [List.mem_take_iff_getElem, h.climb_succ, List.getElem?_eq_some_iff]
  constructor
  · rintro ⟨m, hm, rfl⟩
    exact ⟨m, by omega, by omega, rfl⟩
  · rintro ⟨m, hm, hl, rfl⟩
    exact ⟨m, by omega, rfl⟩

theorem climb_le_iff (h : Chain parent a l) :
    (∃ m ≤ n, climb parent m a = some c) ↔ c = a ∨ c ∈ l.take n := by
  rw [h.mem_take_iff]
  constructor
  · rintro ⟨m, hm, hc⟩
    cases m with
    | zero => exact .inl (Option.some.inj hc).symm
    | succ m => exact .inr ⟨m, hm, hc⟩
  · rintro (rfl | ⟨m, hm, hc⟩)
    · exact ⟨0, Nat.zero_le n, rfl⟩
    · exact ⟨m + 1, hm, hc⟩

end Chain

variable {β : Type} {step : β → List β}

theorem levels_nil : levels step n [] = [] := by
  induction n with
  | zero => rfl
  | succ n ih => simp [levels, ih]

end AdminPlatform.Foundation.ParentChains
