import AdminPlatform.Foundation.RoseTree
import Mathlib.Data.List.Pairwise

namespace AdminPlatform.Frontend.VueRouter

open Foundation.RoseTree

/-- The keys that the application gives to `meta`. -/
structure RouteMeta where
  title : Option String := none
  icon : Option String := none
  noCache : Option Bool := none
  link : Option String := none
  hidden : Option Bool := none
  isPublic : Option Bool := none
  deriving DecidableEq, Repr

structure RouteRecord (κ : Type) where
  path : String
  name : String
  component : κ
  «meta» : RouteMeta
  redirect : Option String
  deriving DecidableEq, Repr

/-- A registered record. Records are numbered in the order in which they are added. -/
structure Matcher (κ : Type) where
  serial : ℕ
  record : RouteRecord κ
  parent : Option ℕ
  deriving DecidableEq, Repr

abbrev Matcher.name {κ : Type} (m : Matcher κ) : String := m.record.name

structure Router (κ : Type) where
  matchers : List (Matcher κ)
  next : ℕ
  deriving DecidableEq, Repr

variable {κ : Type}

/-- The records that are left without those in `gone` and what hangs on them. A record comes after
its parent. -/
def dropTree : List ℕ → List (Matcher κ) → List (Matcher κ)
  | _, [] => []
  | gone, m :: ms =>
    if m.serial ∈ gone ∨ m.parent.any (fun p ↦ decide (p ∈ gone)) then dropTree (m.serial :: gone) ms
    else m :: dropTree gone ms

namespace Router

def getRecordMatcher (router : Router κ) (name : String) : Option (Matcher κ) :=
  router.matchers.find? fun m ↦ decide (m.name ≠ "" ∧ m.name = name)

def hasRoute (router : Router κ) (name : String) : Bool := (router.getRecordMatcher name).isSome

def removeRoute (router : Router κ) (name : String) : Router κ :=
  match router.getRecordMatcher name with
  | none => router
  | some m => { router with matchers := dropTree [m.serial] router.matchers }

def insert (router : Router κ) (parent : Option ℕ) (record : RouteRecord κ) : Router κ where
  matchers := (router.removeRoute record.name).matchers ++ [⟨router.next, record, parent⟩]
  next := router.next + 1

def add (parent : Option ℕ) : Trees (RouteRecord κ) → Router κ → Router κ
  | .nil, router => router
  | .cons record children rest, router =>
    add parent rest (add (some router.next) children (router.insert parent record))

/-- The records with the numbers from `start` on. -/
def since (router : Router κ) (start : ℕ) : List (Matcher κ) :=
  router.matchers.filter fun m ↦ decide (start ≤ m.serial)

def removeRoutes (router : Router κ) (names : List String) : Router κ := names.foldl removeRoute router

end Router

section Removal

variable {gone : List ℕ} {ms : List (Matcher κ)} {m q : Matcher κ} {s : ℕ → Bool}

theorem dropTree_sublist : (dropTree gone ms).Sublist ms := by
  induction ms generalizing gone with
  | nil => exact .refl _
  | cons m ms ih =>
    unfold dropTree
    split
    · exact .cons m ih
    · exact ih.cons_cons m

theorem not_gone_of_mem (h : m ∈ dropTree gone ms) :
    m.serial ∉ gone ∧ ∀ p, m.parent = some p → p ∉ gone := by
  induction ms generalizing gone with
  | nil => cases h
  | cons n ms ih =>
    unfold dropTree at h
    split at h
    · obtain ⟨hserial, hparent⟩ := ih h
      exact ⟨fun hg ↦ hserial (List.mem_cons_of_mem _ hg),
        fun p hp hg ↦ hparent p hp (List.mem_cons_of_mem _ hg)⟩
    · rename_i hkeep
      rcases List.mem_cons.1 h with rfl | h
      · rw [not_or] at hkeep
        refine ⟨hkeep.1, fun p hp hg ↦ hkeep.2 ?_⟩
        simp [hp, hg]
      · exact ih h

/-- Records whose chains of parents avoid what goes stay as they are. -/
theorem filter_dropTree (hs : ∀ m ∈ ms, s m.serial = true → ∀ p, m.parent = some p → s p = true)
    (hg : ∀ g ∈ gone, s g = false) :
    (dropTree gone ms).filter (fun m ↦ s m.serial) = ms.filter fun m ↦ s m.serial := by
  induction ms generalizing gone with
  | nil => rfl
  | cons m ms ih =>
    have hrest := fun n hn ↦ hs n (List.mem_cons_of_mem _ hn)
    unfold dropTree
    split
    · rename_i hdrop
      have hm : s m.serial = false := by
        cases hm : s m.serial with
        | false => rfl
        | true =>
          rcases hdrop with hd | hd
          · rw [hg _ hd] at hm
            cases hm
          · obtain ⟨p, hp, hpg⟩ := Option.any_eq_true _ _ |>.1 hd
            have hsp := hs m List.mem_cons_self hm p hp
            rw [hg p (of_decide_eq_true hpg)] at hsp
            cases hsp
      rw [List.filter_cons_of_neg (by simp [hm]), ih hrest]
      intro g hg'
      rcases List.mem_cons.1 hg' with rfl | hg'
      · exact hm
      · exact hg g hg'
    · rw [List.filter_cons, List.filter_cons, ih hrest hg]

/-- Whoever stays keeps its parent. -/
theorem parent_mem_dropTree (hsorted : ms.Pairwise fun a b ↦ a.serial < b.serial)
    (h : m ∈ dropTree gone ms) (hq : q ∈ ms) (hp : m.parent = some q.serial) (hlt : q.serial < m.serial) :
    q ∈ dropTree gone ms := by
  induction ms generalizing gone with
  | nil => cases hq
  | cons n ms ih =>
    obtain ⟨hn, hrest⟩ := List.pairwise_cons.1 hsorted
    unfold dropTree at h ⊢
    split at h
    · rename_i hdrop
      rw [if_pos hdrop]
      rcases List.mem_cons.1 hq with rfl | hq
      · exact absurd List.mem_cons_self ((not_gone_of_mem h).2 _ hp)
      · exact ih hrest h hq
    · rename_i hkeep
      rw [if_neg hkeep]
      rcases List.mem_cons.1 hq with rfl | hq'
      · exact List.mem_cons_self
      · refine List.mem_cons_of_mem _ (ih hrest ?_ hq')
        rcases List.mem_cons.1 h with rfl | h
        · exact absurd (hn q hq') (Nat.not_lt.2 (Nat.le_of_lt hlt))
        · exact h

end Removal

structure WellFormed (router : Router κ) : Prop where
  below : ∀ m ∈ router.matchers, m.serial < router.next
  sorted : router.matchers.Pairwise fun a b ↦ a.serial < b.serial
  parent : ∀ m ∈ router.matchers, ∀ p, m.parent = some p → p < m.serial
  unique : router.matchers.Pairwise fun a b ↦ a.name ≠ "" → a.name ≠ b.name

variable {router : Router κ} {record : RouteRecord κ} {t : Trees (RouteRecord κ)} {parent : Option ℕ}
  {m q : Matcher κ} {name : String} {start : ℕ}

theorem removeRoute_sublist : (router.removeRoute name).matchers.Sublist router.matchers := by
  unfold Router.removeRoute
  split
  · exact .refl _
  · exact dropTree_sublist

@[simp] theorem removeRoute_next : (router.removeRoute name).next = router.next := by
  unfold Router.removeRoute
  split <;> rfl

theorem found {router : Router κ} (h : router.getRecordMatcher name = some m) :
    m ∈ router.matchers ∧ m.name ≠ "" ∧ m.name = name :=
  ⟨List.mem_of_find?_eq_some h, by simpa using List.find?_some h⟩

theorem wellFormed_empty : WellFormed (⟨[], 0⟩ : Router κ) := ⟨by simp, by simp, by simp, by simp⟩

namespace WellFormed

variable (h : WellFormed router)
include h

theorem serial_inj (hm : m ∈ router.matchers) (hq : q ∈ router.matchers) (he : m.serial = q.serial) :
    m = q := by
  by_contra hne
  have hsymm : Std.Symm fun a b : Matcher κ ↦ a.serial ≠ b.serial := ⟨fun _ _ ↦ Ne.symm⟩
  have hpair : router.matchers.Pairwise fun a b ↦ a.serial ≠ b.serial := h.sorted.imp Nat.ne_of_lt
  exact hpair.forall hm hq hne he

theorem name_inj (hm : m ∈ router.matchers) (hq : q ∈ router.matchers) (hne : m.name ≠ "")
    (he : m.name = q.name) : m = q := by
  by_contra hmq
  have hsymm : Std.Symm fun a b : Matcher κ ↦ a.name ≠ "" → a.name ≠ b.name :=
    ⟨fun _ _ hab hb he ↦ hab (he ▸ hb) he.symm⟩
  exact h.unique.forall hm hq hmq hne he

theorem removeRoute (name : String) : WellFormed (router.removeRoute name) where
  below m hm := by
    rw [removeRoute_next]
    exact h.below m (removeRoute_sublist.subset hm)
  sorted := h.sorted.sublist removeRoute_sublist
  parent m hm := h.parent m (removeRoute_sublist.subset hm)
  unique := h.unique.sublist removeRoute_sublist

/-- After the removal no record of that name is left. -/
theorem name_ne (hm : m ∈ (router.removeRoute name).matchers) (hne : m.name ≠ "") : m.name ≠ name := by
  intro he
  have hmem := removeRoute_sublist.subset hm
  cases hf : router.getRecordMatcher name with
  | none =>
    have hno := List.find?_eq_none.1 hf m hmem
    exact hno (decide_eq_true ⟨hne, he⟩)
  | some q =>
    obtain ⟨hq, hqne, hqn⟩ := found hf
    have hmq := h.name_inj hmem hq hne (he.trans hqn.symm)
    unfold Router.removeRoute at hm
    rw [hf] at hm
    exact (not_gone_of_mem hm).1 (by rw [hmq]; exact List.mem_singleton.2 rfl)

theorem insert (hp : ∀ p, parent = some p → p < router.next) :
    WellFormed (router.insert parent record) where
  below m hm := by
    rcases List.mem_append.1 hm with hm | hm
    · exact Nat.lt_succ_of_lt (h.below m (removeRoute_sublist.subset hm))
    · cases List.mem_singleton.1 hm
      exact Nat.lt_succ_self _
  sorted := by
    refine List.pairwise_append.2 ⟨h.sorted.sublist removeRoute_sublist, List.pairwise_singleton _ _, ?_⟩
    intro a ha b hb
    cases List.mem_singleton.1 hb
    exact h.below a (removeRoute_sublist.subset ha)
  parent m hm p hmp := by
    rcases List.mem_append.1 hm with hm | hm
    · exact h.parent m (removeRoute_sublist.subset hm) p hmp
    · cases List.mem_singleton.1 hm
      exact hp p hmp
  unique := by
    refine List.pairwise_append.2 ⟨h.unique.sublist removeRoute_sublist, List.pairwise_singleton _ _, ?_⟩
    intro a ha b hb hne
    cases List.mem_singleton.1 hb
    exact h.name_ne ha hne

end WellFormed

theorem le_add_next : router.next ≤ (Router.add parent t router).next := by
  induction t generalizing router parent with
  | nil => exact Nat.le_refl _
  | cons record cs ts ih ih' =>
    have hinsert : router.next ≤ (router.insert parent record).next := Nat.le_succ _
    exact Nat.le_trans hinsert (Nat.le_trans ih ih')

theorem WellFormed.add (h : WellFormed router) (hp : ∀ p, parent = some p → p < router.next) :
    WellFormed (Router.add parent t router) := by
  induction t generalizing router parent with
  | nil => exact h
  | cons record cs ts ih ih' =>
    have hinsert : WellFormed (router.insert parent record) := h.insert hp
    have hchildren : ∀ p, some router.next = some p → p < (router.insert parent record).next := by
      intro p hs
      cases hs
      exact Nat.lt_succ_self _
    refine ih' (ih hinsert hchildren) fun p hs ↦ ?_
    have hlt : p < (router.insert parent record).next := Nat.lt_succ_of_lt (hp p hs)
    exact Nat.lt_of_lt_of_le hlt le_add_next

/-- What a set of records needs in order to be left alone: it has the parents of its members, and
no member bears one of the names. -/
structure Apart (s : ℕ → Bool) (names : List String) (router : Router κ) : Prop where
  closed : ∀ m ∈ router.matchers, s m.serial = true → ∀ p, m.parent = some p → s p = true
  names : ∀ m ∈ router.matchers, s m.serial = true → m.name ≠ "" → m.name ∉ names

section Kept

variable {s : ℕ → Bool} {names : List String}

theorem Apart.mono {router' : Router κ} {names' : List String} (h : Apart s names router)
    (hm : ∀ m ∈ router'.matchers, s m.serial = true → m ∈ router.matchers) (hn : names' ⊆ names) :
    Apart s names' router' :=
  ⟨fun m hmem hs ↦ h.closed m (hm m hmem hs) hs, fun m hmem hs hne hin ↦ h.names m (hm m hmem hs) hs hne (hn hin)⟩

theorem filter_removeRoute (h : Apart s [name] router) :
    (router.removeRoute name).matchers.filter (fun m ↦ s m.serial) =
      router.matchers.filter fun m ↦ s m.serial := by
  cases hf : router.getRecordMatcher name with
  | none => rw [Router.removeRoute, hf]
  | some q =>
    obtain ⟨hq, hqne, hqn⟩ := found hf
    rw [Router.removeRoute, hf]
    refine filter_dropTree h.closed fun g hg ↦ ?_
    rw [List.mem_singleton.1 hg]
    cases hs : s q.serial with
    | false => rfl
    | true => exact absurd (List.mem_singleton.2 hqn) (h.names q hq hs hqne)

theorem mem_insert : m ∈ (router.insert parent record).matchers ↔
    m ∈ (router.removeRoute record.name).matchers ∨ m = ⟨router.next, record, parent⟩ := by
  rw [Router.insert, List.mem_append, List.mem_singleton]

theorem filter_insert (h : Apart s [record.name] router) (hnext : s router.next = false) :
    (router.insert parent record).matchers.filter (fun m ↦ s m.serial) =
      router.matchers.filter fun m ↦ s m.serial := by
  rw [Router.insert, List.filter_append, filter_removeRoute h]
  simp [hnext]

theorem filter_add (h : Apart s (t.values.map RouteRecord.name) router)
    (hnew : ∀ n, router.next ≤ n → s n = false) :
    (Router.add parent t router).matchers.filter (fun m ↦ s m.serial) =
      router.matchers.filter fun m ↦ s m.serial := by
  induction t generalizing router parent with
  | nil => rfl
  | cons record cs ts ih ih' =>
    have hin : ∀ {r : Router κ}, r.matchers.filter (fun m ↦ s m.serial) =
        router.matchers.filter (fun m ↦ s m.serial) → ∀ m ∈ r.matchers, s m.serial = true →
        m ∈ router.matchers := by
      intro r hr m hm hs
      have hm' : m ∈ router.matchers.filter fun m ↦ s m.serial := hr ▸ List.mem_filter.2 ⟨hm, hs⟩
      exact (List.mem_filter.1 hm').1
    rw [Trees.values_cons, List.map_cons, List.map_append] at h
    have hinsert : (router.insert parent record).matchers.filter (fun m ↦ s m.serial) =
        router.matchers.filter fun m ↦ s m.serial :=
      filter_insert (h.mono (fun _ hm _ ↦ hm) (by simp)) (hnew _ (Nat.le_refl _))
    have hle : router.next ≤ (router.insert parent record).next := Nat.le_succ _
    have hchildren : (Router.add (some router.next) cs (router.insert parent record)).matchers.filter
        (fun m ↦ s m.serial) = router.matchers.filter fun m ↦ s m.serial :=
      (ih (h.mono (hin hinsert) (by simp)) fun n hn ↦ hnew n (Nat.le_trans hle hn)).trans hinsert
    refine (ih' (h.mono (hin hchildren) (by simp)) fun n hn ↦ ?_).trans hchildren
    exact hnew n (Nat.le_trans (Nat.le_trans hle le_add_next) hn)

end Kept

/-- Every record that is there after an addition was there before, hangs on another one, or is one
of the new roots. -/
theorem mem_add (h : m ∈ (Router.add parent t router).matchers) : m ∈ router.matchers ∨
    (∃ p, m.parent = some p) ∨ (m.parent = parent ∧ m.name ∈ t.roots.map RouteRecord.name) := by
  induction t generalizing router parent with
  | nil => exact .inl h
  | cons record cs ts ih ih' =>
    rcases ih' h with h | h | ⟨hp, hn⟩
    · rcases ih h with h | h | ⟨hp, -⟩
      · rcases mem_insert.1 h with h | rfl
        · exact .inl (removeRoute_sublist.subset h)
        · exact .inr (.inr ⟨rfl, List.mem_cons_self⟩)
      · exact .inr (.inl h)
      · exact .inr (.inl ⟨_, hp⟩)
    · exact .inr (.inl h)
    · exact .inr (.inr ⟨hp, List.mem_cons_of_mem _ hn⟩)

theorem removeRoutes_sublist {names : List String} :
    (router.removeRoutes names).matchers.Sublist router.matchers := by
  induction names generalizing router with
  | nil => exact .refl _
  | cons name names ih => exact ih.trans removeRoute_sublist

@[simp] theorem removeRoutes_next {names : List String} : (router.removeRoutes names).next = router.next := by
  induction names generalizing router with
  | nil => rfl
  | cons name names ih => exact ih.trans removeRoute_next

theorem WellFormed.removeRoutes (h : WellFormed router) (names : List String) :
    WellFormed (router.removeRoutes names) := by
  induction names generalizing router with
  | nil => exact h
  | cons name names ih => exact ih (h.removeRoute name)

theorem filter_removeRoutes {s : ℕ → Bool} {names : List String} (h : Apart s names router) :
    (router.removeRoutes names).matchers.filter (fun m ↦ s m.serial) =
      router.matchers.filter fun m ↦ s m.serial := by
  induction names generalizing router with
  | nil => rfl
  | cons name names ih =>
    have hhead := filter_removeRoute (h.mono (fun _ hm _ ↦ hm)
      (List.cons_subset_cons name (List.nil_subset names)))
    refine (ih (h.mono (fun m hm _ ↦ removeRoute_sublist.subset hm)
      (List.subset_cons_self name names))).trans hhead

theorem name_not_mem_removeRoutes {names : List String} (h : WellFormed router)
    (hm : m ∈ (router.removeRoutes names).matchers) (hne : m.name ≠ "") : m.name ∉ names := by
  induction names generalizing router with
  | nil => exact List.not_mem_nil
  | cons name names ih =>
    have hrest := ih (h.removeRoute name) hm
    have hhead : m.name ≠ name := h.name_ne (removeRoutes_sublist.subset hm) hne
    exact fun hin ↦ (List.mem_cons.1 hin).elim hhead hrest

section Nameless

variable (h : WellFormed router) (hm : m ∈ router.matchers) (hn : m.name = "") (hp : m.parent = none)
include h hm hn hp

theorem apart_nameless (names : List String) : Apart (fun n ↦ decide (n = m.serial)) names router := by
  have heq : ∀ q ∈ router.matchers, decide (q.serial = m.serial) = true → q = m :=
    fun q hq hs ↦ h.serial_inj hq hm (of_decide_eq_true hs)
  refine ⟨fun q hq hs p hqp ↦ ?_, fun q hq hs hne ↦ ?_⟩
  · rw [heq q hq hs, hp] at hqp
    cases hqp
  · rw [heq q hq hs] at hne
    exact absurd hn hne

theorem mem_removeRoutes_of_nameless (names : List String) : m ∈ (router.removeRoutes names).matchers := by
  have hmem : m ∈ router.matchers.filter fun q ↦ decide (q.serial = m.serial) :=
    List.mem_filter.2 ⟨hm, decide_eq_true rfl⟩
  rw [← filter_removeRoutes (apart_nameless h hm hn hp names)] at hmem
  exact (List.mem_filter.1 hmem).1

theorem mem_add_of_nameless : m ∈ (Router.add parent t router).matchers := by
  have hmem : m ∈ router.matchers.filter fun q ↦ decide (q.serial = m.serial) :=
    List.mem_filter.2 ⟨hm, decide_eq_true rfl⟩
  have hnew : ∀ n, router.next ≤ n → decide (n = m.serial) = false :=
    fun n hle ↦ decide_eq_false (Nat.ne_of_gt (Nat.lt_of_lt_of_le (h.below m hm) hle))
  have hkeep : (Router.add parent t router).matchers.filter (fun q ↦ decide (q.serial = m.serial)) =
      router.matchers.filter fun q ↦ decide (q.serial = m.serial) := filter_add (apart_nameless h hm hn hp _) hnew
  rw [← hkeep] at hmem
  exact (List.mem_filter.1 hmem).1

end Nameless

theorem exists_nameless (h : WellFormed router) (hr : record ∈ t.roots) (hn : record.name = "") :
    ∃ m ∈ (Router.add none t router).matchers, router.next ≤ m.serial ∧ m.name = "" ∧ m.parent = none := by
  induction t generalizing router with
  | nil => cases hr
  | cons first cs ts _ ih =>
    have hinsert : WellFormed (router.insert none first) := h.insert fun _ hp ↦ nomatch hp
    have hchildren : WellFormed (Router.add (some router.next) cs (router.insert none first)) := by
      refine hinsert.add fun p hp ↦ ?_
      cases hp
      exact Nat.lt_succ_self _
    rcases List.mem_cons.1 hr with rfl | hr
    · refine ⟨⟨router.next, record, none⟩, ?_, Nat.le_refl _, hn, rfl⟩
      have hm : ⟨router.next, record, none⟩ ∈ (router.insert none record).matchers :=
        mem_insert.2 (.inr rfl)
      have hm' : ⟨router.next, record, none⟩ ∈
          (Router.add (some router.next) cs (router.insert none record)).matchers :=
        mem_add_of_nameless hinsert hm hn rfl
      exact @mem_add_of_nameless _ _ ts none _ hchildren hm' hn rfl
    · obtain ⟨m, hm, hle, hname, hparent⟩ := ih hchildren hr
      have hstep : router.next ≤ (router.insert none first).next := Nat.le_succ _
      exact ⟨m, hm, Nat.le_trans hstep (Nat.le_trans le_add_next hle), hname, hparent⟩

end AdminPlatform.Frontend.VueRouter
