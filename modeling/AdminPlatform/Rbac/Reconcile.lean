import AdminPlatform.Rbac.SeedPrune

namespace AdminPlatform.Rbac.Reconcile

open Model.Schema Model.Service Model.Scope Foundation.Relational Foundation.Transaction
open Foundation.Sequential Foundation.Forest Menu.Service Seed SeedRoles SeedMenus SeedPrune
open Dept.Accepted (ensures_acquireLock)

variable {v v₁ v₂ v₃ : Snapshot} {i j : ℕ} {db db' : Db} {manifest : Manifest} {keys : List String}
  {ids : String → ℕ}

def Dropped (keys : List String) (db : Db) (i : ℕ) : Prop :=
  ∃ (m : Menu) (key : String), db.rows .menus i = some m ∧ m.seedKey = some key ∧ key ∉ keys

def Hanging (keys : List String) (db : Db) : Prop :=
  ∃ i c, ∃ m : Menu, Dropped keys db i ∧ db.rows .menus c = some m ∧ m.seedKey = none ∧
    m.parentId = some i

/-- What a run makes of the database. -/
structure Reconciled (manifest : Manifest) (db db' : Db) : Prop where
  menus : ∃ ids : String → ℕ,
    (∀ e ∈ entriesOfAll none manifest.menuTree,
      db'.rows .menus (ids e.key) = some (newMenu e.1 (e.2.map ids))) ∧
    ∀ i (m : Menu), db'.rows .menus i = some m → m.seedKey.isSome →
      ∃ e ∈ entriesOfAll none manifest.menuTree, ids e.key = i
  survive : ∀ i (m : Menu) key, db.rows .menus i = some m → m.seedKey = some key →
    key ∈ keysOfAll manifest.menuTree → ∃ m', db'.rows .menus i = some m' ∧ m'.seedKey = some key
  bindings : ∀ j (r : RoleMenu), db'.rows .roleMenus j = some r ↔
    db.rows .roleMenus j = some r ∧ ¬ Dropped (keysOfAll manifest.menuTree) db r.menuId
  userMenus : ∀ i (m : Menu), m.seedKey = none → (db'.rows .menus i = some m ↔ db.rows .menus i = some m)
  builtRoles : ∀ sr ∈ manifest.roles, ∃ i r, db'.rows .roles i = some r ∧ Built sr r
  userRoles : ∀ i (r : Role), r.code ∉ manifest.roles.map SeedRole.code →
    (db'.rows .roles i = some r ↔ db.rows .roles i = some r)
  codes : CodesUnique db'
  frame : ∀ t i, t ≠ .menus → t ≠ .roleMenus → t ≠ .roles → db'.rows t i = db.rows t i

theorem Dropped.congr (hdb : ∀ i, db'.rows .menus i = db.rows .menus i) :
    Dropped keys db' i ↔ Dropped keys db i := by
  unfold Dropped
  rw [hdb]

theorem mem_idsOf_stale : i ∈ idsOf (stale (seededMenus db) keys) ↔ Dropped keys db i := by
  simp only [idsOf, List.mem_toFinset, List.mem_map, stale, List.mem_filter, Prod.exists]
  constructor
  · rintro ⟨a, m, ⟨hm, hs⟩, rfl⟩
    obtain ⟨hrow, hkey⟩ := mem_select.1 hm
    obtain ⟨key, hk⟩ := Option.isSome_iff_exists.1 hkey
    refine ⟨m, key, hrow, hk, fun hin ↦ ?_⟩
    simp [hk, hin] at hs
  · rintro ⟨m, key, hrow, hk, hin⟩
    refine ⟨i, m, ⟨mem_select.2 ⟨hrow, by rw [hk]; rfl⟩, ?_⟩, rfl⟩
    simp [hk, hin]

section Phases

variable (hroles : RolesSeeded manifest.roles v.db v₁.db) (hu : SeedKeysUnique v.db)
  (hmenus : MenusSeeded ids (entriesOfAll none manifest.menuTree) v₁.db v₂)
  (hpruned : Pruned (idsOf (stale (seededMenus v₁.db) (keysOfAll manifest.menuTree))) v₂ v₃)

theorem mem_keys {e : Entry} {ns : List SeedMenu} (he : e ∈ entriesOfAll none ns) :
    e.key ∈ keysOfAll ns := by
  rw [← key_entriesOfAll none ns]
  exact List.mem_map.2 ⟨e, he, rfl⟩

theorem exists_entry {key : String} {ns : List SeedMenu} (hk : key ∈ keysOfAll ns) :
    ∃ e ∈ entriesOfAll none ns, e.key = key := by
  rw [← key_entriesOfAll none ns] at hk
  exact List.mem_map.1 hk

include hmenus in
theorem not_dropped {e : Entry} (he : e ∈ entriesOfAll none manifest.menuTree) :
    ¬ Dropped (keysOfAll manifest.menuTree) v₁.db (ids e.key) := by
  rintro ⟨m, key, hm, hk, hin⟩
  rcases hmenus.origin e he with ⟨m', hm', hk'⟩ | ⟨hn, -⟩
  · rw [hm] at hm'
    cases hm'
    rw [hk] at hk'
    cases hk'
    exact hin (mem_keys he)
  · rw [hm] at hn
    cases hn

include hmenus hpruned in
theorem row_entry {e : Entry} (he : e ∈ entriesOfAll none manifest.menuTree) :
    v₃.db.rows .menus (ids e.key) = some (newMenu e.1 (e.2.map ids)) := by
  rw [hpruned.menus, if_neg fun hg ↦ not_dropped hmenus he (mem_idsOf_stale.1 hg)]
  exact hmenus.rows e he

include hroles in
theorem menus_roles (i : ℕ) : v₁.db.rows .menus i = v.db.rows .menus i :=
  hroles.frame .menus i (by decide)

include hroles hu hmenus in
theorem ids_of_row {e : Entry} (he : e ∈ entriesOfAll none manifest.menuTree) {m : Menu}
    (hm : v.db.rows .menus i = some m) (hk : m.seedKey = some e.key) : ids e.key = i := by
  have hm₁ : v₁.db.rows .menus i = some m := (menus_roles hroles i).trans hm
  rcases hmenus.origin e he with ⟨m', hm', hk'⟩ | ⟨-, hn⟩
  · rw [menus_roles hroles] at hm'
    exact hu _ i m' m e.key hm' hm hk' hk
  · exact absurd hk (hn i m hm₁)

include hmenus hpruned in
theorem row_user {m : Menu} (hs : m.seedKey = none) :
    v₃.db.rows .menus i = some m ↔ v₁.db.rows .menus i = some m := by
  by_cases he : ∃ e ∈ entriesOfAll none manifest.menuTree, ids e.key = i
  · obtain ⟨e, he, rfl⟩ := he
    rw [row_entry hmenus hpruned he]
    refine ⟨fun h ↦ ?_, fun h ↦ ?_⟩
    · cases h
      cases hs
    · rcases hmenus.origin e he with ⟨m', hm', hk'⟩ | ⟨hn, -⟩
      · rw [h] at hm'
        cases hm'
        rw [hs] at hk'
        cases hk'
      · rw [h] at hn
        cases hn
  · have hne : ∀ e ∈ entriesOfAll none manifest.menuTree, ids e.key ≠ i := fun e h h' ↦ he ⟨e, h, h'⟩
    rw [hpruned.menus, hmenus.others i hne]
    split
    · next hg =>
      obtain ⟨m', key, hm', hk, -⟩ := mem_idsOf_stale.1 hg
      rw [hm']
      refine ⟨fun h ↦ (by cases h), fun h ↦ ?_⟩
      cases h
      rw [hs] at hk
      cases hk
    · exact .rfl

include hroles hu hmenus hpruned in
theorem reconciled : Reconciled manifest v.db v₃.db where
  menus := by
    refine ⟨ids, fun e he ↦ row_entry hmenus hpruned he, fun i m hm hs ↦ ?_⟩
    by_contra hne
    have hne' : ∀ e ∈ entriesOfAll none manifest.menuTree, ids e.key ≠ i := fun e h h' ↦ hne ⟨e, h, h'⟩
    rw [hpruned.menus, hmenus.others i hne'] at hm
    split at hm
    · cases hm
    · next hg =>
      obtain ⟨key, hk⟩ := Option.isSome_iff_exists.1 hs
      have hin : key ∈ keysOfAll manifest.menuTree := by
        by_contra hin
        exact hg (mem_idsOf_stale.2 ⟨m, key, hm, hk, hin⟩)
      obtain ⟨e, he, rfl⟩ := exists_entry hin
      rw [menus_roles hroles] at hm
      exact hne' e he (ids_of_row hroles hu hmenus he hm hk)
  survive i m key hm hk hin := by
    obtain ⟨e, he, rfl⟩ := exists_entry hin
    rw [← ids_of_row hroles hu hmenus he hm hk]
    exact ⟨_, row_entry hmenus hpruned he, rfl⟩
  bindings j r := by
    rw [hpruned.links, hmenus.frame .roleMenus j (by decide), hroles.frame .roleMenus j (by decide),
      Option.filter_eq_some_iff, decide_eq_true_eq, mem_idsOf_stale,
      Dropped.congr (menus_roles hroles)]
  userMenus i m hs := by
    rw [row_user hmenus hpruned hs, menus_roles hroles]
  builtRoles sr hsr := by
    obtain ⟨i, r, hr, hb⟩ := hroles.built sr hsr
    refine ⟨i, r, ?_, hb⟩
    rw [hpruned.frame .roles i (by decide) (by decide), hmenus.frame .roles i (by decide), hr]
  userRoles i r hr := by
    rw [hpruned.frame .roles i (by decide) (by decide), hmenus.frame .roles i (by decide)]
    exact hroles.others i r hr
  codes i j r r' hr hr' hc := by
    rw [hpruned.frame .roles _ (by decide) (by decide), hmenus.frame .roles _ (by decide)] at hr hr'
    exact hroles.codes i j r r' hr hr' hc
  frame t i h₁ h₂ h₃ := by
    rw [hpruned.frame t i h₁ h₂, hmenus.frame t i h₁, hroles.frame t i h₃]

include hroles hmenus hpruned in
theorem not_hanging : ¬ Hanging (keysOfAll manifest.menuTree) v.db := by
  rintro ⟨i, c, m, hd, hc, hs, hp⟩
  have hc₁ : v₁.db.rows .menus c = some m := (menus_roles hroles c).trans hc
  have hne : ∀ e ∈ entriesOfAll none manifest.menuTree, ids e.key ≠ c := by
    rintro e he rfl
    rcases hmenus.origin e he with ⟨m', hm', hk'⟩ | ⟨hn, -⟩
    · rw [hc₁] at hm'
      cases hm'
      rw [hs] at hk'
      cases hk'
    · rw [hc₁] at hn
      cases hn
  have hgone := hpruned.childless i
    (mem_idsOf_stale.2 ((Dropped.congr (menus_roles hroles)).2 hd)) c m
    ((hmenus.others c hne).trans hc₁) hp
  obtain ⟨m', key, hm', hk, -⟩ := mem_idsOf_stale.1 hgone
  rw [hc₁] at hm'
  cases hm'
  rw [hs] at hk
  cases hk

end Phases

/-- Keys in use are drawn, the unique indexes hold, and no menu is above itself. -/
structure Start (v : Snapshot) : Prop where
  below : Below v
  codes : CodesUnique v.db
  seedKeys : SeedKeysUnique v.db
  acyclic : ∀ i n, 0 < n → climb (parentOf v.db) n i ≠ some i

theorem Start.rooted (h : Start v) (i : ℕ) : Rooted (parentOf v.db) i := by
  refine rooted_of_acyclic (v.db.keys .menus) (fun a b hab ↦ ?_) h.acyclic i
  obtain ⟨m, hm, -⟩ := Option.bind_eq_some_iff.1 hab
  exact v.db.complete .menus a m hm

theorem stale_parent {x : ℕ × Menu} (hx : x ∈ stale (seededMenus db) keys) :
    parentOf db x.1 = x.2.parentId := by
  obtain ⟨i, m⟩ := x
  have hm := (mem_select.1 (List.mem_filter.1 hx).1).1
  rw [parentOf, hm]
  rfl

theorem ensures_seedRbac (hs : Start v) (hcodes : (manifest.roles.map SeedRole.code).Nodup) :
    Ensures (seedRbac manifest) v fun _ v' ↦
      Reconciled manifest v.db v'.db ∧ ¬ Hanging (keysOfAll manifest.menuTree) v.db := by
  refine ensures_bind (ensures_acquireLock ?_)
  refine ensures_bind (ensures_mono (ensures_findRoles manifest.roles) fun found v' h ↦ ?_)
  obtain ⟨rfl, rfl⟩ := h
  refine ensures_bind (ensures_mono (ensures_flushRoles hs.below (RolesSeeded.init hs.codes) hcodes)
    fun _ v₁ h₁ ↦ ?_)
  obtain ⟨hb₁, -, hroles⟩ := h₁
  have hmenus₁ : ∀ i, v₁.db.rows .menus i = v'.db.rows .menus i := fun i ↦
    hroles.frame .menus i (by decide)
  refine ensures_bind (ensures_read ?_)
  have hinit : MenusSeeded (fun _ ↦ 0) [] v₁.db v₁ := .init hb₁
  refine ensures_bind (ensures_mono (@ensures_upsertAll v₁.db manifest.menuTree v₁ _ [] none hinit
    (fun p hp ↦ by cases hp) manifest.distinct) fun _ v₂ h₂ ↦ ?_)
  obtain ⟨ids, -, hmenus⟩ := h₂
  have hrooted : ∀ i, Rooted (parentOf v₁.db) i := by
    intro i
    refine (hs.rooted i).congr fun b _ ↦ ?_
    rw [parentOf, parentOf, hmenus₁]
  refine ensures_bind (ensures_mono (ensures_prune hrooted (fun x hx ↦ stale_parent hx) le_rfl
    (Pruned.init v₂)) fun _ v₃ h₃ ↦ ?_)
  rw [Finset.empty_union] at h₃
  exact ensures_pure ⟨reconciled hroles hs.seedKeys hmenus h₃, not_hanging hroles hmenus h₃⟩

theorem Reconciled.seedKeys (h : Reconciled manifest db db') : SeedKeysUnique db' := by
  obtain ⟨ids, hrows, honly⟩ := h.menus
  have hid : ∀ i (m : Menu) key, db'.rows .menus i = some m → m.seedKey = some key → i = ids key := by
    intro i m key hm hk
    obtain ⟨e, he, rfl⟩ := honly i m hm (by rw [hk]; rfl)
    rw [hrows e he] at hm
    cases hm
    cases hk
    rfl
  intro i j m m' key hm hm' hk hk'
  rw [hid i m key hm hk, hid j m' key hm' hk']

/-- A second run writes nothing. -/
theorem completes_seedRbac (h : Reconciled manifest db v.db) :
    Completes (seedRbac manifest) v fun _ v' ↦ v' = v := by
  have hu := h.seedKeys
  obtain ⟨ids, hrows, honly⟩ := h.menus
  refine completes_bind (completes_query rfl ?_)
  rw [run_unlocked rfl rfl rfl]
  refine completes_bind (completes_mono (completes_findRoles manifest.roles) fun found v₁ hf ↦ ?_)
  obtain ⟨hv₁, hf⟩ := hf
  rw [hv₁, hf]
  refine completes_bind (completes_mono (completes_flushRoles h.codes h.builtRoles) fun _ v₂ hv₂ ↦ ?_)
  rw [hv₂]
  refine completes_bind (completes_read ?_)
  refine completes_bind (completes_mono (@completes_upsertAll v ids hu manifest.menuTree none hrows)
    fun _ v₃ hv₃ ↦ ?_)
  rw [hv₃]
  have hnone : stale (seededMenus v.db) (keysOfAll manifest.menuTree) = [] := by
    refine List.filter_eq_nil_iff.2 fun x hx ↦ ?_
    obtain ⟨i, m⟩ := x
    obtain ⟨hm, hs⟩ := mem_select.1 hx
    obtain ⟨e, he, rfl⟩ := honly i m hm hs
    rw [hrows e he] at hm
    cases hm
    have hk := mem_keys he
    simp [newMenu, Entry.key] at hk ⊢
    exact hk
  rw [hnone]
  exact completes_bind (completes_pure (completes_pure rfl))

theorem uncommitted_findRole (code : String) : Uncommitted (findRole code) := by
  unfold findRole
  exact uncommitted_query _

theorem uncommitted_loadExisting : Uncommitted loadExisting := by
  unfold loadExisting
  exact uncommitted_query _

theorem uncommitted_findRoles : (srs : List SeedRole) → Uncommitted (findRoles srs)
  | [] => trivial
  | _ :: srs => uncommitted_bind (uncommitted_findRole _) fun _ ↦
    uncommitted_bind (uncommitted_findRoles srs) fun _ ↦ trivial

theorem uncommitted_flushRole (sr : SeedRole) (found : Option (ℕ × Role)) :
    Uncommitted (flushRole sr found) := by
  cases found with
  | none => exact uncommitted_query _
  | some x => exact uncommitted_query _

theorem uncommitted_flushRoles : (found : List (SeedRole × Option (ℕ × Role))) →
    Uncommitted (flushRoles found)
  | [] => trivial
  | (sr, x) :: found => uncommitted_bind (uncommitted_flushRole sr x) fun _ ↦
    uncommitted_flushRoles found

theorem uncommitted_upsertItem (existing : List (ℕ × Menu)) (item : SeedItem) (parentId : Option ℕ) :
    Uncommitted (upsertItem existing item parentId) := by
  unfold upsertItem
  cases byKey existing item.seedKey with
  | none => exact uncommitted_bind (uncommitted_query _) fun _ ↦ trivial
  | some x => exact uncommitted_bind (uncommitted_query _) fun _ ↦ trivial

mutual

theorem uncommitted_upsert (existing : List (ℕ × Menu)) : (n : SeedMenu) → ∀ parentId,
    Uncommitted (upsert existing parentId n)
  | .node item children, parentId =>
    uncommitted_bind (uncommitted_upsertItem existing item parentId) fun id ↦
      uncommitted_upsertAll existing children (some id)

theorem uncommitted_upsertAll (existing : List (ℕ × Menu)) : (ns : List SeedMenu) → ∀ parentId,
    Uncommitted (upsertAll existing parentId ns)
  | [], _ => trivial
  | n :: ns, parentId => uncommitted_bind (uncommitted_upsert existing n parentId) fun _ ↦
    uncommitted_upsertAll existing ns parentId

end

theorem uncommitted_deleteAll : (xs : List (ℕ × Menu)) → Uncommitted (deleteAll xs)
  | [] => trivial
  | _ :: xs => uncommitted_bind (uncommitted_query _) fun _ ↦ uncommitted_deleteAll xs

theorem uncommitted_prune : (rounds : ℕ) → (old : List (ℕ × Menu)) → Uncommitted (prune rounds old)
  | 0, _ => trivial
  | rounds + 1, old => by
    rw [prune_round]
    split
    · trivial
    · exact uncommitted_bind (uncommitted_deleteAll _) fun _ ↦
        uncommitted_bind (uncommitted_prune rounds _) fun _ ↦ trivial

theorem uncommitted_seedRbac (manifest : Manifest) : Uncommitted (seedRbac manifest) :=
  uncommitted_bind (uncommitted_query _) fun _ ↦
    uncommitted_bind (uncommitted_findRoles _) fun _ ↦
    uncommitted_bind (uncommitted_flushRoles _) fun _ ↦
    uncommitted_bind uncommitted_loadExisting fun _ ↦
    uncommitted_bind (uncommitted_upsertAll _ _ _) fun _ ↦
    uncommitted_bind (uncommitted_prune _ _) fun _ ↦ trivial

/-- A run that ends normally leaves the manifest in the database, and a second one changes nothing;
where a user's menu hangs under a dropped one the run fails; the loop that prunes always ends. -/
theorem seedRbac_reconciles (manifest : Manifest) (w : Shared) (hw : Start w.toView)
    (hcodes : (manifest.roles.map SeedRole.code).Nodup) :
    (∀ w' result, (getSession (seedRbac manifest)).exec w = (w', .ok result) →
      Reconciled manifest w.db w'.db ∧
      ∃ w'' result', (getSession (seedRbac manifest)).exec w' = (w'', .ok result') ∧
        w''.toView = w'.toView) ∧
    (Hanging (keysOfAll manifest.menuTree) w.db →
      ∃ w' e, (getSession (seedRbac manifest)).exec w = (w', .error e) ∧ w'.db = w.db) ∧
    ∀ old rounds, old.length ≤ rounds → prune rounds old = prune old.length old := by
  refine ⟨fun w' result he ↦ ?_, fun hh ↦ ?_, fun old rounds h ↦ prune_eq h⟩
  · have hr : Reconciled manifest w.db w'.db :=
      (ensures_exec (ensures_seedRbac hw hcodes) he).1
    refine ⟨hr, ?_⟩
    exact completes_exec (completes_seedRbac (v := w'.toView) hr)
  · exact fails_exec (ensures_mono (ensures_seedRbac hw hcodes) fun _ _ h ↦ h.2 hh)
      (uncommitted_seedRbac manifest)

def superadmin : SeedRole := ⟨"superadmin", "超级管理员", .self, 0⟩

def usersPage : Manifest where
  roles := [superadmin]
  menuTree := [.node { seedKey := "system", name := "系统管理", menuType := .directory } [
    .node { seedKey := "system:user:list", name := "用户管理", menuType := .menu } []]]
  distinct := by decide

/-- The page stands outside the directory, which has a menu the manifest lacks; a menu of a user
hangs under the page, and a role is bound to the page and to the old menu. -/
def outdated : Shared where
  now := 0
  next := 7
  ext := ⟨[], []⟩
  db := Store.empty.apply [
    ⟨.menus, 0, some ⟨none, "系统", .directory, "", none, none, "", 0, true, .active, some "system"⟩⟩,
    ⟨.menus, 1, some ⟨none, "用户", .menu, "", none, none, "", 0, true, .disabled,
      some "system:user:list"⟩⟩,
    ⟨.menus, 2, some ⟨some 0, "旧", .menu, "", none, none, "", 0, true, .active, some "system:old"⟩⟩,
    ⟨.menus, 3, some ⟨some 1, "自建", .menu, "", none, none, "", 0, true, .active, none⟩⟩,
    ⟨.roles, 4, some ⟨"ops", "ops", .self, 0, .active⟩⟩,
    ⟨.roleMenus, 5, some ⟨4, 1⟩⟩, ⟨.roleMenus, 6, some ⟨4, 2⟩⟩]
  log := []

theorem start_outdated : Start outdated.toView where
  below t i r hr := by
    have hlt : ∀ t, ∀ i ∈ outdated.db.keys t, i < 7 := by
      intro t
      cases t <;> decide
    exact hlt t i (outdated.db.complete t i r hr)
  codes i j r r' hr hr' _ := by
    have hone : ∀ i ∈ outdated.db.keys .roles, i = 4 := by decide
    rw [hone i (outdated.db.complete .roles i r hr), hone j (outdated.db.complete .roles j r' hr')]
  seedKeys i j m m' key hm hm' hk hk' := by
    have hkey : ∀ i ∈ outdated.db.keys .menus, ∀ j ∈ outdated.db.keys .menus,
        (outdated.db.rows .menus i).bind Menu.seedKey = (outdated.db.rows .menus j).bind Menu.seedKey →
          i = j := by decide
    refine hkey i (outdated.db.complete .menus i m hm) j (outdated.db.complete .menus j m' hm') ?_
    have hm₀ : outdated.db.rows .menus i = some m := hm
    have hm₁ : outdated.db.rows .menus j = some m' := hm'
    rw [hm₀, hm₁, Option.bind_some, Option.bind_some, hk, hk']
  acyclic i n hn hc := by
    have hup : ∀ i ∈ outdated.db.keys .menus, (parentOf outdated.db i).all fun p ↦ decide (p < i) := by
      decide
    refine not_rooted_of_climb hn hc ?_
    clear hc
    induction i using Nat.strong_induction_on with
    | _ i ih =>
      cases hp : parentOf outdated.db i with
      | none => exact rooted_of_none hp
      | some p =>
        obtain ⟨m, hm, -⟩ := Option.bind_eq_some_iff.1 hp
        have hlt := hup i (outdated.db.complete .menus i m hm)
        rw [hp, Option.all_some, decide_eq_true_eq] at hlt
        exact rooted_of_parent hp (ih p hlt)

theorem seedRbac_reconciles_outdated :
    ∃ w', (getSession (seedRbac usersPage)).exec outdated = (w', .ok ⟨1, 2, 1⟩) ∧
      Reconciled usersPage outdated.db w'.db := by
  have hr : ((getSession (seedRbac usersPage)).exec outdated).2 = .ok ⟨1, 2, 1⟩ := by decide +kernel
  refine ⟨((getSession (seedRbac usersPage)).exec outdated).1, Prod.ext rfl hr, ?_⟩
  exact ((seedRbac_reconciles usersPage outdated start_outdated (by decide)).1 _ _ (Prod.ext rfl hr)).1

end AdminPlatform.Rbac.Reconcile
