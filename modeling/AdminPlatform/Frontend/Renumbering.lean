import AdminPlatform.Frontend.DynamicRoutes

namespace AdminPlatform.Frontend.Renumbering

open Foundation.RoseTree Menu.Routers VueRouter DynamicRoutes

variable {κ : Type}

def renumber (f : ℕ → ℕ) (m : Matcher κ) : Matcher κ := ⟨f m.serial, m.record, m.parent.map f⟩

/-- The second router is the first one under other numbers. -/
structure Renumbers (f : ℕ → ℕ) (a b : Router κ) : Prop where
  inj : Function.Injective f
  next : ∀ k, f (a.next + k) = b.next + k
  matchers : b.matchers = a.matchers.map (renumber f)

def shape (router : Router κ) : List (RouteRecord κ × Option ℕ) :=
  router.matchers.map fun m ↦
    (m.record, m.parent.map fun p ↦ router.matchers.findIdx fun q ↦ decide (q.serial = p))

variable {f : ℕ → ℕ} {a b : Router κ} {gone : List ℕ} {ms : List (Matcher κ)} {name : String}
  {parent : Option ℕ} {record : RouteRecord κ} {t : Trees (RouteRecord κ)}

theorem dropTree_renumber (hf : Function.Injective f) (gone : List ℕ) (ms : List (Matcher κ)) :
    dropTree (gone.map f) (ms.map (renumber f)) = (dropTree gone ms).map (renumber f) := by
  induction ms generalizing gone with
  | nil => rfl
  | cons m ms ih =>
    have hmem : ∀ n, f n ∈ gone.map f ↔ n ∈ gone := fun n ↦ List.mem_map_of_injective hf
    have hcond : ((renumber f m).serial ∈ gone.map f ∨
          (renumber f m).parent.any (fun p ↦ decide (p ∈ gone.map f)) = true) ↔
        (m.serial ∈ gone ∨ m.parent.any (fun p ↦ decide (p ∈ gone)) = true) := by
      have hserial : (renumber f m).serial = f m.serial := rfl
      have hparent : (renumber f m).parent = m.parent.map f := rfl
      rw [hserial, hparent, hmem, Option.any_map]
      simp only [hmem]
    rw [List.map_cons]
    unfold dropTree
    by_cases hdrop : m.serial ∈ gone ∨ m.parent.any (fun p ↦ decide (p ∈ gone)) = true
    · rw [if_pos hdrop, if_pos (hcond.2 hdrop)]
      exact ih (m.serial :: gone)
    · rw [if_neg hdrop, if_neg (mt hcond.1 hdrop), List.map_cons, ih]

namespace Renumbers

variable (h : Renumbers f a b)
include h

theorem shape_eq : shape b = shape a := by
  have hidx : ∀ p, (a.matchers.map (renumber f)).findIdx (fun q ↦ decide (q.serial = f p)) =
      a.matchers.findIdx fun q ↦ decide (q.serial = p) := by
    intro p
    rw [List.findIdx_map]
    congr 1
    funext q
    exact decide_eq_decide.2 h.inj.eq_iff
  unfold shape
  rw [h.matchers, List.map_map]
  refine List.map_congr_left fun m _ ↦ ?_
  simp only [Function.comp_apply, renumber, Option.map_map, Function.comp_def, hidx]

theorem getRecordMatcher : b.getRecordMatcher name = (a.getRecordMatcher name).map (renumber f) := by
  rw [Router.getRecordMatcher, h.matchers, List.find?_map]
  rfl

theorem removeRoute (name : String) : Renumbers f (a.removeRoute name) (b.removeRoute name) := by
  refine ⟨h.inj, fun k ↦ ?_, ?_⟩
  · rw [removeRoute_next, removeRoute_next]
    exact h.next k
  · unfold Router.removeRoute
    rw [h.getRecordMatcher]
    cases a.getRecordMatcher name with
    | none => exact h.matchers
    | some m =>
      have hdrop := dropTree_renumber h.inj [m.serial] a.matchers
      rw [← h.matchers] at hdrop
      exact hdrop

theorem removeRoutes (names : List String) : Renumbers f (a.removeRoutes names) (b.removeRoutes names) := by
  induction names generalizing a b with
  | nil => exact h
  | cons name names ih => exact ih (h.removeRoute name)

theorem insert (parent : Option ℕ) (record : RouteRecord κ) :
    Renumbers f (a.insert parent record) (b.insert (parent.map f) record) where
  inj := h.inj
  next k := by
    have hnext := h.next (1 + k)
    rw [← Nat.add_assoc, ← Nat.add_assoc] at hnext
    exact hnext
  matchers := by
    have hnew : b.next = f a.next := (h.next 0).symm
    simp only [Router.insert, (h.removeRoute record.name).matchers, List.map_append, hnew]
    rfl

theorem add (parent : Option ℕ) (t : Trees (RouteRecord κ)) :
    Renumbers f (.add parent t a) (.add (parent.map f) t b) := by
  induction t generalizing a b parent with
  | nil => exact h
  | cons record cs ts ih ih' =>
    have hchildren := ih (h.insert parent record) (some a.next)
    have hnew : b.next = f a.next := (h.next 0).symm
    rw [Option.map_some, ← hnew] at hchildren
    exact ih' hchildren parent

end Renumbers

structure Alike (f : ℕ → ℕ) (s t : Routing) : Prop where
  router : Renumbers f s.router t.router
  names : t.installedRouteNames = s.installedRouteNames

variable {pages : List String} {s t : Routing} {payload : Trees RouterVO} {routes : Trees (RouteRecord View)}

theorem Alike.reset (h : Alike f s t) : Alike f (resetDynamicRoutes s) (resetDynamicRoutes t) where
  router := by
    rw [resetDynamicRoutes_router, resetDynamicRoutes_router, h.names]
    exact h.router.removeRoutes _
  names := rfl

theorem Alike.addRoutes (h : Alike f s t) : Alike f (addRoutes routes s).1 (addRoutes routes t).1 ∧
    (DynamicRoutes.addRoutes routes t).2 = (DynamicRoutes.addRoutes routes s).2 := by
  induction routes generalizing s t with
  | nil => exact ⟨h, rfl⟩
  | cons record cs ts _ ih =>
    unfold DynamicRoutes.addRoutes
    split
    · exact ih ⟨h.router.add none _, congrArg (· ++ [record.name]) h.names⟩
    · exact ⟨h, rfl⟩

/-- It is enough that the routings are alike once what was installed is removed. -/
theorem alike_install (pages : List String) (payload : Trees RouterVO)
    (h : Alike f (resetDynamicRoutes s) (resetDynamicRoutes t)) :
    Alike f (installDynamicRoutes pages payload s).1 (installDynamicRoutes pages payload t).1 ∧
      (installDynamicRoutes pages payload t).2 = (installDynamicRoutes pages payload s).2 := by
  unfold installDynamicRoutes
  cases toRoutes pages payload with
  | none => exact ⟨h, rfl⟩
  | some routes => exact h.addRoutes

end AdminPlatform.Frontend.Renumbering
