import Mathlib.Data.List.Nodup

namespace AdminPlatform.Foundation.Dicts

variable {κ β : Type} [DecidableEq κ] {k j : κ} {v : β} {d ms : List (κ × β)}

/-- `d[k] = v`: a key that is there keeps its place, a new one comes last. -/
def set (k : κ) (v : β) : List (κ × β) → List (κ × β)
  | [] => [(k, v)]
  | (j, w) :: d => if j = k then (k, v) :: d else (j, w) :: set k v d

/-- `dict(pairs)` -/
def ofPairs (ms : List (κ × β)) : List (κ × β) := ms.foldl (fun d m ↦ set m.1 m.2 d) []

theorem keys_set (k : κ) (v : β) (d : List (κ × β)) :
    (set k v d).map Prod.fst = if k ∈ d.map Prod.fst then d.map Prod.fst else d.map Prod.fst ++ [k] := by
  induction d with
  | nil => rfl
  | cons m d ih =>
    obtain ⟨j, w⟩ := m
    unfold set
    split
    · next hj =>
      subst hj
      rw [if_pos (by simp)]
      rfl
    · next hj =>
      rw [List.map_cons, ih, List.map_cons]
      split
      · next hk => rw [if_pos (List.mem_cons_of_mem j hk)]
      · next hk =>
        have hnew : k ∉ j :: d.map Prod.fst := by
          rw [List.mem_cons, not_or]
          exact ⟨fun h ↦ hj h.symm, hk⟩
        rw [if_neg hnew]
        rfl

theorem set_of_not_mem (h : k ∉ d.map Prod.fst) : set k v d = d ++ [(k, v)] := by
  induction d with
  | nil => rfl
  | cons m d ih =>
    obtain ⟨j, w⟩ := m
    rw [List.map_cons, List.mem_cons, not_or] at h
    rw [set, if_neg fun hj ↦ h.1 hj.symm, ih h.2]
    rfl

theorem mem_set {m : κ × β} (h : m ∈ set k v d) : m = (k, v) ∨ m ∈ d := by
  induction d with
  | nil => exact .inl (List.mem_singleton.1 h)
  | cons n d ih =>
    obtain ⟨j, w⟩ := n
    unfold set at h
    split at h
    · exact (List.mem_cons.1 h).imp_right (List.mem_cons_of_mem _)
    · rcases List.mem_cons.1 h with rfl | h
      · exact .inr List.mem_cons_self
      · exact (ih h).imp_right (List.mem_cons_of_mem _)

theorem nodup_set (h : (d.map Prod.fst).Nodup) : ((set k v d).map Prod.fst).Nodup := by
  rw [keys_set]
  split
  · exact h
  · next hk =>
    refine List.nodup_append.2 ⟨h, List.nodup_singleton k, fun a ha b hb he ↦ hk ?_⟩
    obtain rfl := List.mem_singleton.1 hb
    exact he ▸ ha

theorem nodup_ofPairs (ms : List (κ × β)) : ((ofPairs ms).map Prod.fst).Nodup := by
  have hstep : ∀ d : List (κ × β), (d.map Prod.fst).Nodup →
      ((ms.foldl (fun d m ↦ set m.1 m.2 d) d).map Prod.fst).Nodup := by
    induction ms with
    | nil => exact fun d h ↦ h
    | cons m ms ih => exact fun d h ↦ ih _ (nodup_set h)
  exact hstep [] List.nodup_nil

theorem mem_of_mem_ofPairs {m : κ × β} (h : m ∈ ofPairs ms) : m ∈ ms := by
  have hstep : ∀ d : List (κ × β), m ∈ ms.foldl (fun d m ↦ set m.1 m.2 d) d → m ∈ d ∨ m ∈ ms := by
    clear h
    induction ms with
    | nil => exact fun d h ↦ .inl h
    | cons n ms ih =>
      intro d h
      rcases ih _ h with h | h
      · exact (mem_set h).elim (fun he ↦ .inr (he ▸ List.mem_cons_self)) .inl
      · exact .inr (List.mem_cons_of_mem n h)
  exact (hstep [] h).resolve_left List.not_mem_nil

theorem mem_keys_ofPairs (h : k ∈ ms.map Prod.fst) : k ∈ (ofPairs ms).map Prod.fst := by
  have hset : ∀ (m : κ × β) (d : List (κ × β)), k = m.1 ∨ k ∈ d.map Prod.fst →
      k ∈ (set m.1 m.2 d).map Prod.fst := by
    intro m d hk
    rw [keys_set]
    split
    · next hm => exact hk.elim (fun he ↦ he ▸ hm) id
    · exact hk.elim (fun he ↦ he ▸ List.mem_append_right _ List.mem_cons_self) (List.mem_append_left _)
  have hstep : ∀ d : List (κ × β), k ∈ d.map Prod.fst ∨ k ∈ ms.map Prod.fst →
      k ∈ (ms.foldl (fun d m ↦ set m.1 m.2 d) d).map Prod.fst := by
    clear h
    induction ms with
    | nil => exact fun d hk ↦ hk.resolve_right List.not_mem_nil
    | cons m ms ih =>
      intro d hk
      rw [List.map_cons, List.mem_cons] at hk
      rcases hk with hk | hk | hk
      · exact ih _ (.inl (hset m d (.inr hk)))
      · exact ih _ (.inl (hset m d (.inl hk)))
      · exact ih _ (.inr hk)
  exact hstep [] (.inr h)

theorem ofPairs_eq_self (h : (ms.map Prod.fst).Nodup) : ofPairs ms = ms := by
  have hstep : ∀ d : List (κ × β), ((d ++ ms).map Prod.fst).Nodup →
      ms.foldl (fun d m ↦ set m.1 m.2 d) d = d ++ ms := by
    clear h
    induction ms with
    | nil => exact fun d _ ↦ (List.append_nil d).symm
    | cons m ms ih =>
      intro d h
      have hm : m.1 ∉ d.map Prod.fst := by
        intro hk
        rw [List.map_append, List.map_cons] at h
        exact (List.nodup_append.1 h).2.2 m.1 hk m.1 List.mem_cons_self rfl
      rw [List.foldl_cons, set_of_not_mem hm, ih _ (by rwa [List.append_assoc]), List.append_assoc]
      rfl
  exact hstep [] h

theorem ofPairs_map {κ' γ : Type} [DecidableEq κ'] {f : κ → κ'} (hf : Function.Injective f) (g : β → γ)
    (ms : List (κ × β)) :
    ofPairs (ms.map fun m ↦ (f m.1, g m.2)) = (ofPairs ms).map fun m ↦ (f m.1, g m.2) := by
  have hset : ∀ (k : κ) (v : β) (d : List (κ × β)),
      set (f k) (g v) (d.map fun m ↦ (f m.1, g m.2)) = (set k v d).map fun m ↦ (f m.1, g m.2) := by
    intro k v d
    induction d with
    | nil => rfl
    | cons m d ih =>
      obtain ⟨j, w⟩ := m
      by_cases hj : j = k
      · rw [set, if_pos hj, List.map_cons, set, if_pos (congrArg f hj), List.map_cons]
      · rw [set, if_neg hj, List.map_cons, set, if_neg fun he ↦ hj (hf he), ih, List.map_cons]
  have hstep : ∀ d : List (κ × β),
      (ms.map fun m ↦ (f m.1, g m.2)).foldl (fun d m ↦ set m.1 m.2 d) (d.map fun m ↦ (f m.1, g m.2)) =
        (ms.foldl (fun d m ↦ set m.1 m.2 d) d).map fun m ↦ (f m.1, g m.2) := by
    induction ms with
    | nil => exact fun d ↦ rfl
    | cons m ms ih =>
      intro d
      rw [List.map_cons, List.foldl_cons, hset, ih, List.foldl_cons]
  exact hstep []

end AdminPlatform.Foundation.Dicts
