import AdminPlatform.Frontend.VueRouter

namespace AdminPlatform.Frontend.AddedRoutes

open Foundation.RoseTree VueRouter

variable {κ : Type} {router : Router κ} {record : RouteRecord κ} {t : Trees (RouteRecord κ)}
  {parent : Option ℕ} {m q : Matcher κ} {name : String} {start : ℕ}

/-- Every record since `start` has its parent, if any, among those records. -/
def Closed (start : ℕ) (router : Router κ) : Prop := ∀ m ∈ router.matchers, start ≤ m.serial → ∀ p,
  m.parent = some p → start ≤ p ∧ ∃ q ∈ router.matchers, q.serial = p

/-- Exactly the given records were added since `start`, and their parents are there. -/
structure Added (start : ℕ) (records : List (RouteRecord κ)) (router : Router κ) : Prop where
  le : start ≤ router.next
  records : (router.since start).map Matcher.record = records
  closed : Closed start router

def MayParent (start : ℕ) (router : Router κ) (parent : Option ℕ) : Prop :=
  ∀ p, parent = some p → start ≤ p ∧ ∃ q ∈ router.matchers, q.serial = p

def Distinct (names : List String) : Prop := names.Pairwise fun a b ↦ a ≠ "" → a ≠ b

section Added

variable {records : List (RouteRecord κ)}

theorem mem_since : m ∈ router.since start ↔ m ∈ router.matchers ∧ start ≤ m.serial := by
  rw [Router.since, List.mem_filter, decide_eq_true_eq]

theorem Added.names (h : Added start records router) :
    (router.since start).map Matcher.name = records.map RouteRecord.name := by
  rw [← h.records, List.map_map]
  rfl

theorem Added.apart (h : Added start records router) (hn : name ≠ "" → name ∉ records.map RouteRecord.name) :
    Apart (fun n ↦ decide (start ≤ n)) [name] router where
  closed m hm hs p hp := decide_eq_true (h.closed m hm (of_decide_eq_true hs) p hp).1
  names m hm hs hne hin := by
    have he := List.mem_singleton.1 hin
    refine hn (he ▸ hne) ?_
    rw [← h.names, ← he]
    exact List.mem_map_of_mem (mem_since.2 ⟨hm, of_decide_eq_true hs⟩)

theorem since_removeRoute (h : Apart (fun n ↦ decide (start ≤ n)) [name] router) :
    (router.removeRoute name).since start = router.since start := filter_removeRoute h

theorem Added.insert (h : Added start records router)
    (hn : record.name ≠ "" → record.name ∉ records.map RouteRecord.name)
    (hp : MayParent start router parent) : Added start (records ++ [record]) (router.insert parent record) := by
  have hkeep := since_removeRoute (h.apart hn)
  have hold : ∀ q ∈ router.matchers, start ≤ q.serial → q ∈ (router.insert parent record).matchers := by
    intro q hq hs
    have hq' : q ∈ (router.removeRoute record.name).since start := by
      rw [hkeep]
      exact mem_since.2 ⟨hq, hs⟩
    exact mem_insert.2 (.inl (mem_since.1 hq').1)
  refine ⟨Nat.le_succ_of_le h.le, ?_, fun m hm hs p hmp ↦ ?_⟩
  · have hsince : (router.insert parent record).since start =
        router.since start ++ [⟨router.next, record, parent⟩] := by
      rw [← hkeep, Router.since, Router.insert, List.filter_append]
      simp [h.le, Router.since]
    rw [hsince, List.map_append, h.records]
    rfl
  · have hparent : start ≤ p ∧ ∃ q ∈ router.matchers, q.serial = p := by
      rcases mem_insert.1 hm with hm | rfl
      · exact h.closed m (removeRoute_sublist.subset hm) hs p hmp
      · exact hp p hmp
    obtain ⟨hsp, q, hq, rfl⟩ := hparent
    exact ⟨hsp, q, hold q hq hsp, rfl⟩

/-- Under distinct names nothing of what has been added goes again. -/
theorem Added.add (h : Added start records router)
    (hn : Distinct (records.map RouteRecord.name ++ t.values.map RouteRecord.name))
    (hp : MayParent start router parent) :
    Added start (records ++ t.values) (Router.add parent t router) ∧
      ∀ m ∈ router.since start, m ∈ (Router.add parent t router).since start := by
  induction t generalizing router parent records with
  | nil => exact ⟨by simpa [Router.add] using h, fun m hm ↦ hm⟩
  | cons record cs ts ih ih' =>
    rw [Trees.values_cons, List.map_cons, List.map_append] at hn
    obtain ⟨hold, hnew, hcross⟩ := List.pairwise_append.1 hn
    have hfresh : record.name ≠ "" → record.name ∉ records.map RouteRecord.name :=
      fun hne hin ↦ hcross _ hin _ List.mem_cons_self hne rfl
    have hinsert := h.insert hfresh hp
    have hkeep : ∀ m ∈ router.since start, m ∈ (router.insert parent record).since start := by
      intro m hm
      rw [← since_removeRoute (h.apart hfresh)] at hm
      obtain ⟨hm, hs⟩ := mem_since.1 hm
      exact mem_since.2 ⟨mem_insert.2 (.inl hm), hs⟩
    have hself : MayParent start (router.insert parent record) (some router.next) := by
      intro p hp
      cases hp
      exact ⟨h.le, _, mem_insert.2 (.inr rfl), rfl⟩
    obtain ⟨hchildren, hkeep'⟩ := ih hinsert (by simpa [Distinct] using hn.sublist (by simp)) hself
    have hparent : MayParent start (Router.add (some router.next) cs (router.insert parent record)) parent := by
      intro p hpp
      obtain ⟨hs, q, hq, rfl⟩ := hp p hpp
      exact ⟨hs, q, (mem_since.1 (hkeep' q (hkeep q (mem_since.2 ⟨hq, hs⟩)))).1, rfl⟩
    obtain ⟨hrest, hkeep''⟩ := ih' hchildren (by simpa [Distinct] using hn) hparent
    refine ⟨?_, fun m hm ↦ hkeep'' m (hkeep' m (hkeep m hm))⟩
    rw [Trees.values_cons, Router.add]
    simpa using hrest

end Added

theorem Closed.removeRoute (h : Closed start router) (hw : WellFormed router) (name : String) :
    Closed start (router.removeRoute name) := by
  intro m hm hs p hp
  obtain ⟨hsp, q, hq, rfl⟩ := h m (removeRoute_sublist.subset hm) hs p hp
  refine ⟨hsp, q, ?_, rfl⟩
  have hlt := hw.parent m (removeRoute_sublist.subset hm) _ hp
  unfold Router.removeRoute at hm ⊢
  cases hf : router.getRecordMatcher name with
  | none => exact hq
  | some r =>
    rw [hf] at hm
    exact parent_mem_dropTree hw.sorted hm hq hp hlt

theorem Closed.removeRoutes (h : Closed start router) (hw : WellFormed router) (names : List String) :
    Closed start (router.removeRoutes names) := by
  induction names generalizing router with
  | nil => exact h
  | cons name names ih => exact ih (h.removeRoute hw name) (hw.removeRoute name)

/-- With its roots goes everything that was added. -/
theorem since_eq_nil (h : Closed start router) (hw : WellFormed router)
    (hroots : ∀ m ∈ router.matchers, start ≤ m.serial → m.parent ≠ none) : router.since start = [] := by
  have hnone : ∀ n, ∀ m ∈ router.matchers, m.serial = n → ¬ start ≤ m.serial := by
    intro n
    induction n using Nat.strong_induction_on with
    | _ n ih =>
      intro m hm hn hs
      obtain ⟨p, hp⟩ := Option.ne_none_iff_exists'.1 (hroots m hm hs)
      obtain ⟨hsp, q, hq, rfl⟩ := h m hm hs p hp
      exact ih _ (hn ▸ hw.parent m hm _ hp) q hq rfl hsp
  refine List.eq_nil_iff_forall_not_mem.2 fun m hm ↦ ?_
  obtain ⟨hm, hs⟩ := mem_since.1 hm
  exact hnone _ m hm rfl hs

end AdminPlatform.Frontend.AddedRoutes
