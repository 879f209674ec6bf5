import AdminPlatform.Frontend.Renumbering
import AdminPlatform.Frontend.StaticRoutes

namespace AdminPlatform.Frontend.RemovableRoutes

open Foundation.RoseTree Menu.Routers VueRouter AddedRoutes DynamicRoutes StaticRoutes Renumbering

/-- Apart from the static records, which are still there, every record hangs below one that has a
name and is noted as installed. -/
structure Removable (s : Routing) : Prop where
  sound : Sound s
  closed : Closed createRouter.next s.router
  roots : ∀ m ∈ s.router.matchers, createRouter.next ≤ m.serial → m.parent = none →
    m.name ≠ "" ∧ m.name ∈ s.installedRouteNames

def Unrepeated (above : List String) : Trees String → Prop
  | .nil => True
  | .cons name children rest =>
    (name ≠ "" → name ∉ above) ∧ Unrepeated (name :: above) children ∧ Unrepeated above rest

/-- A payload whose top-level routes have names, and none of whose routes takes the name of a static
one or of one that it hangs below. -/
structure Tidy (payload : Trees RouterVO) : Prop where
  roots : ∀ node ∈ payload.roots, node.name ≠ ""
  unrepeated : Unrepeated [] (payload.map RouterVO.name)
  static : ∀ name ∈ payload.values.map RouterVO.name, name ∉ staticNames

variable {κ : Type} {router : Router κ} {gone : List ℕ} {ms line : List (Matcher κ)} {m q : Matcher κ}
  {name : String} {names : List String} {start : ℕ} {parent : Option ℕ} {record : RouteRecord κ}
  {t : Trees (RouteRecord κ)}

def Linked : Option ℕ → List (Matcher κ) → Prop
  | parent, [] => parent = none
  | parent, q :: line => parent = some q.serial ∧ Linked q.parent line

/-- A record whose parent stays, or was not there, is dropped only by its number. -/
theorem mem_dropTree (hsorted : ms.Pairwise fun a b ↦ a.serial < b.serial) (hq : q ∈ ms)
    (hserial : q.serial ∉ gone)
    (hparent : ∀ p, q.parent = some p → (∃ r ∈ dropTree gone ms, r.serial = p) ∨
      p ∉ gone ∧ ∀ r ∈ ms, r.serial ≠ p) : q ∈ dropTree gone ms := by
  induction ms generalizing gone with
  | nil => cases hq
  | cons n ms ih =>
    obtain ⟨hn, hrest⟩ := List.pairwise_cons.1 hsorted
    have hgone : ∀ p, q.parent = some p → p ∉ gone := by
      intro p hp
      rcases hparent p hp with ⟨r, hr, rfl⟩ | ⟨hpg, -⟩
      · exact (not_gone_of_mem hr).1
      · exact hpg
    by_cases hdrop : n.serial ∈ gone ∨ n.parent.any (fun p ↦ decide (p ∈ gone)) = true
    · unfold dropTree at hparent ⊢
      rw [if_pos hdrop] at hparent ⊢
      rcases List.mem_cons.1 hq with rfl | hq
      · rcases hdrop with hd | hd
        · exact absurd hd hserial
        · obtain ⟨p, hp, hpg⟩ := Option.any_eq_true _ _ |>.1 hd
          exact absurd (of_decide_eq_true hpg) (hgone p hp)
      · refine ih hrest hq ?_ fun p hp ↦ ?_
        · intro hmem
          rcases List.mem_cons.1 hmem with he | hmem
          · exact Nat.ne_of_gt (hn q hq) he
          · exact hserial hmem
        · rcases hparent p hp with hr | ⟨hpg, hp'⟩
          · exact .inl hr
          · refine .inr ⟨fun hmem ↦ ?_, fun r hr ↦ hp' r (List.mem_cons_of_mem _ hr)⟩
            rcases List.mem_cons.1 hmem with rfl | hmem
            · exact hp' n List.mem_cons_self rfl
            · exact hpg hmem
    · unfold dropTree at hparent ⊢
      rw [if_neg hdrop] at hparent ⊢
      rcases List.mem_cons.1 hq with rfl | hq
      · exact List.mem_cons_self
      · refine List.mem_cons_of_mem _ (ih hrest hq hserial fun p hp ↦ ?_)
        rcases hparent p hp with ⟨r, hr, rfl⟩ | ⟨hpg, hp'⟩
        · rcases List.mem_cons.1 hr with rfl | hr
          · exact .inr ⟨fun hmem ↦ hdrop (.inl hmem), fun r' hr' ↦ Nat.ne_of_gt (hn r' hr')⟩
          · exact .inl ⟨r, hr, rfl⟩
        · exact .inr ⟨hpg, fun r hr ↦ hp' r (List.mem_cons_of_mem _ hr)⟩

section Line

variable (h : WellFormed router)
include h

/-- The removal of a name leaves a line in which it does not occur. -/
theorem line_removeRoute (hl : Linked parent line) (hline : ∀ q ∈ line, q ∈ router.matchers)
    (hname : name ≠ "" → name ∉ line.map Matcher.name) : ∀ q ∈ line, q ∈ (router.removeRoute name).matchers := by
  unfold Router.removeRoute
  cases hf : router.getRecordMatcher name with
  | none => exact hline
  | some r =>
    obtain ⟨hr, hrne, hrn⟩ := found hf
    have hnot : name ∉ line.map Matcher.name := hname (hrn ▸ hrne)
    clear hname
    induction line generalizing parent with
    | nil => exact fun _ hq ↦ nomatch hq
    | cons q line ih =>
      obtain ⟨-, hl⟩ := hl
      rw [List.map_cons, List.mem_cons, not_or] at hnot
      have hrest := ih hl (fun q hq ↦ hline q (List.mem_cons_of_mem _ hq)) hnot.2
      have hq : q ∈ dropTree [r.serial] router.matchers := by
        refine mem_dropTree h.sorted (hline q List.mem_cons_self) ?_ fun p hp ↦ ?_
        · intro hmem
          have he := h.serial_inj (hline q List.mem_cons_self) hr (List.mem_singleton.1 hmem)
          exact hnot.1 (he ▸ hrn.symm)
        · cases line with
          | nil =>
            rw [hl] at hp
            cases hp
          | cons q' line =>
            rw [hl.1] at hp
            cases hp
            exact .inl ⟨q', hrest q' List.mem_cons_self, rfl⟩
      intro q' hq'
      rcases List.mem_cons.1 hq' with rfl | hq'
      · exact hq
      · exact hrest q' hq'

theorem closed_insert (hc : Closed start router) (hs : start ≤ router.next) (hl : Linked parent line)
    (hline : ∀ q ∈ line, q ∈ router.matchers ∧ start ≤ q.serial)
    (hname : record.name ≠ "" → record.name ∉ line.map Matcher.name) :
    Closed start (router.insert parent record) ∧
      ∀ q ∈ ⟨router.next, record, parent⟩ :: line,
        q ∈ (router.insert parent record).matchers ∧ start ≤ q.serial := by
  have hstay := line_removeRoute h hl (fun q hq ↦ (hline q hq).1) hname
  refine ⟨fun m hm hle p hp ↦ ?_, fun q hq ↦ ?_⟩
  · rcases mem_insert.1 hm with hm | rfl
    · obtain ⟨hsp, q, hq, rfl⟩ := hc.removeRoute h record.name m hm hle p hp
      exact ⟨hsp, q, mem_insert.2 (.inl hq), rfl⟩
    · cases line with
      | nil => cases hl.symm.trans hp
      | cons q line =>
        cases hl.1.symm.trans hp
        exact ⟨(hline q List.mem_cons_self).2, q, mem_insert.2 (.inl (hstay q List.mem_cons_self)), rfl⟩
  · rcases List.mem_cons.1 hq with rfl | hq
    · exact ⟨mem_insert.2 (.inr rfl), hs⟩
    · exact ⟨mem_insert.2 (.inl (hstay q hq)), (hline q hq).2⟩

theorem closed_add (hc : Closed start router) (hs : start ≤ router.next) (hl : Linked parent line)
    (hline : ∀ q ∈ line, q ∈ router.matchers ∧ start ≤ q.serial)
    (ht : Unrepeated (line.map Matcher.name) (t.map RouteRecord.name)) :
    Closed start (Router.add parent t router) ∧
      ∀ q ∈ line, q ∈ (Router.add parent t router).matchers ∧ start ≤ q.serial := by
  induction t generalizing router parent line with
  | nil => exact ⟨hc, hline⟩
  | cons record cs ts ih ih' =>
    obtain ⟨hname, hchildren, hrest⟩ := ht
    have hp : ∀ p, parent = some p → p < router.next := by
      intro p hp
      cases line with
      | nil => cases hl.symm.trans hp
      | cons q line =>
        cases hl.1.symm.trans hp
        exact h.below q (hline q List.mem_cons_self).1
    obtain ⟨hc', hline'⟩ := closed_insert h hc hs hl hline hname
    have hw' : WellFormed (router.insert parent record) := h.insert hp
    have hs' : start ≤ (router.insert parent record).next := Nat.le_succ_of_le hs
    have hl' : Linked (some router.next) (⟨router.next, record, parent⟩ :: line) := ⟨rfl, hl⟩
    obtain ⟨hc'', hline''⟩ := ih hw' hc' hs' hl' hline' hchildren
    have hw'' : WellFormed (Router.add (some router.next) cs (router.insert parent record)) := by
      refine hw'.add fun p hp ↦ ?_
      cases hp
      exact Nat.lt_succ_self _
    exact ih' hw'' hc'' (Nat.le_trans hs' le_add_next) hl
      (fun q hq ↦ hline'' q (List.mem_cons_of_mem _ hq)) hrest

end Line

variable {pages : List String} {s : Routing} {payload : Trees RouterVO} {routes : Trees (RouteRecord View)}

theorem removable_start : Removable ⟨createRouter, []⟩ := by
  have hold : ∀ m ∈ createRouter.matchers, ¬ createRouter.next ≤ m.serial :=
    fun m hm ↦ Nat.not_le.2 (kept_createRouter.wellFormed.below m hm)
  exact ⟨⟨kept_createRouter, fun _ hn ↦ absurd hn List.not_mem_nil⟩, fun m hm hle ↦ absurd hle (hold m hm),
    fun m hm hle ↦ absurd hle (hold m hm)⟩

/-- Nothing that hangs below a noted name stays. -/
theorem Removable.matchers_reset (h : Removable s) :
    (resetDynamicRoutes s).router.matchers = createRouter.matchers := by
  have hw := h.sound.kept.wellFormed
  have hnil : (s.router.removeRoutes s.installedRouteNames).since createRouter.next = [] := by
    refine since_eq_nil (h.closed.removeRoutes hw _) (hw.removeRoutes _) fun m hm hle hp ↦ ?_
    obtain ⟨hne, hin⟩ := h.roots m (removeRoutes_sublist.subset hm) hle hp
    exact name_not_mem_removeRoutes hw hm hne hin
  have hall : ∀ m ∈ (s.router.removeRoutes s.installedRouteNames).matchers, isStatic m.serial = true := by
    intro m hm
    refine decide_eq_true (Nat.lt_of_not_le fun hle ↦ ?_)
    exact List.not_mem_nil (hnil ▸ mem_since.2 ⟨hm, hle⟩)
  have hkept := h.sound.reset.kept.records
  rw [resetDynamicRoutes_router] at hkept ⊢
  rw [← hkept, List.filter_eq_self.2 hall]

theorem Removable.reset (h : Removable s) : Removable (resetDynamicRoutes s) := by
  have hold : ∀ m ∈ (resetDynamicRoutes s).router.matchers, ¬ createRouter.next ≤ m.serial := by
    intro m hm
    rw [h.matchers_reset] at hm
    exact Nat.not_le.2 (kept_createRouter.wellFormed.below m hm)
  exact ⟨h.sound.reset, fun m hm hle ↦ absurd hle (hold m hm), fun m hm hle ↦ absurd hle (hold m hm)⟩

/-- Numbers from `a` on are moved to those from `b` on. -/
def shift (a b n : ℕ) : ℕ := if n < a then n else n - a + b

theorem shift_injective {a b : ℕ} (h : a ≤ b) : Function.Injective (shift a b) := by
  intro m n hmn
  unfold shift at hmn
  split at hmn <;> split at hmn <;> omega

/-- After a reset the next routes are installed as if they were the first. -/
theorem Removable.alike (h : Removable s) :
    Alike (shift createRouter.next s.router.next) (resetDynamicRoutes ⟨createRouter, []⟩)
      (resetDynamicRoutes s) where
  router := by
    have hfix : ∀ n, n < createRouter.next → shift createRouter.next s.router.next n = n := fun n hn ↦ if_pos hn
    refine ⟨shift_injective h.sound.kept.next, fun k ↦ ?_, ?_⟩
    · have hnext : (resetDynamicRoutes s).router.next = s.router.next := by simp
      have hge : shift createRouter.next s.router.next (createRouter.next + k) = s.router.next + k := by
        unfold shift
        split <;> omega
      rw [hnext]
      exact hge
    · rw [h.matchers_reset]
      refine (List.map_id _).symm.trans (List.map_congr_left fun m hm ↦ ?_)
      have hserial := kept_createRouter.wellFormed.below m hm
      have hparent : m.parent.map (shift createRouter.next s.router.next) = m.parent := by
        cases hp : m.parent with
        | none => rfl
        | some p =>
          have hlt := kept_createRouter.wellFormed.parent m hm p hp
          rw [Option.map_some, hfix p (Nat.lt_trans hlt hserial)]
      rw [renumber, hfix _ hserial, hparent]
      rfl
  names := rfl

theorem Removable.addRoutes (h : Removable s) (hroots : ∀ record ∈ routes.roots, record.name ≠ "")
    (hstatic : ∀ name ∈ routes.values.map RouteRecord.name, name ∉ staticNames)
    (ht : Unrepeated [] (routes.map RouteRecord.name)) : Removable (addRoutes routes s).1 := by
  induction routes generalizing s with
  | nil => exact h
  | cons record cs ts _ ih =>
    rw [Trees.values_cons, List.map_cons, List.map_append, List.forall_mem_cons, List.forall_mem_append] at hstatic
    obtain ⟨hrecord, hcs, hts⟩ := hstatic
    obtain ⟨-, hbelow, hbeside⟩ := ht
    have hl : Linked none ([] : List (Matcher View)) := rfl
    unfold DynamicRoutes.addRoutes
    split
    · refine ih ⟨⟨h.sound.kept.add ?_, ?_⟩, ?_, fun m hm hle hp ↦ ?_⟩
        (fun r hr ↦ hroots r (List.mem_cons_of_mem _ hr)) hts hbeside
      · intro name hn
        simp only [Trees.values_cons, Trees.values_nil, List.append_nil, List.map_cons, List.mem_cons] at hn
        rcases hn with rfl | hn
        · exact hrecord
        · exact hcs name hn
      · intro name hn
        rcases List.mem_append.1 hn with hn | hn
        · exact h.sound.names name hn
        · rw [List.mem_singleton.1 hn]
          exact hrecord
      · exact (closed_add (t := .cons record cs .nil) h.sound.kept.wellFormed h.closed
          h.sound.kept.next hl (fun _ hq ↦ absurd hq List.not_mem_nil)
          ⟨fun _ ↦ List.not_mem_nil, hbelow, trivial⟩).1
      · rcases mem_add hm with hold | ⟨p, hpp⟩ | ⟨-, hroot⟩
        · obtain ⟨hne, hin⟩ := h.roots m hold hle hp
          exact ⟨hne, List.mem_append_left _ hin⟩
        · cases hp.symm.trans hpp
        · have hname : m.name = record.name := List.mem_singleton.1 hroot
          rw [hname]
          exact ⟨hroots record List.mem_cons_self, List.mem_append_right _ (List.mem_singleton.2 rfl)⟩
    · exact h

theorem map_names_toRoutes (h : toRoutes pages payload = some routes) :
    routes.map RouteRecord.name = payload.map RouterVO.name := by
  induction payload generalizing routes with
  | nil =>
    cases h
    rfl
  | cons node children rest ih ih' =>
    obtain ⟨component, cs, ts, _, hcs, hts, rfl⟩ := toRoutes_cons h
    rw [Trees.map, Trees.map, ih hcs, ih' hts]
    rfl

/-- After tidy payloads a reset leaves the static records. -/
theorem Removable.install (h : Removable s) (ht : Tidy payload) :
    Removable (installDynamicRoutes pages payload s).1 := by
  unfold installDynamicRoutes
  cases hr : toRoutes pages payload with
  | none => exact h.reset
  | some routes =>
    have hmap := map_names_toRoutes hr
    refine h.reset.addRoutes (fun record hrec ↦ ?_) ?_ (hmap ▸ ht.unrepeated)
    · have hroots := congrArg Trees.roots hmap
      rw [Trees.roots_map, Trees.roots_map] at hroots
      have hmem : record.name ∈ payload.roots.map RouterVO.name := hroots ▸ List.mem_map_of_mem hrec
      obtain ⟨node, hnode, he⟩ := List.mem_map.1 hmem
      exact he ▸ ht.roots node hnode
    · rw [names_toRoutes hr]
      exact ht.static

end AdminPlatform.Frontend.RemovableRoutes
