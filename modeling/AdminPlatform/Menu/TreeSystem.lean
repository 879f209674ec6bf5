import AdminPlatform.Rbac.SeedSafety

namespace AdminPlatform.Menu.TreeSystem

open Model.Schema Model.Service Foundation.Relational Foundation.Transaction
open Foundation.Interleaving Foundation.RelyGuarantee Foundation.Forest
open Service MenuRepository TreeInvariant TreeTransaction TreeSafety Rbac.Seed Rbac.SeedSafety

variable {n₀ : ℕ} {w : Shared} {S : State Table Row LockName Storage Note Failure Unit}

/-- The calls that change menus. -/
inductive MenuOp
  | create (payload : MenuCreate) (isSuperAdmin : Bool)
  | update (itemId : ℕ) (payload : MenuUpdate) (isSuperAdmin : Bool)
  | delete (itemId : ℕ)
  | seed (manifest : Manifest)

def MenuOp.call : MenuOp → Call Unit
  | .create payload isSuperAdmin => do
    let _ ← getSession (Service.create payload isSuperAdmin)
    pure ()
  | .update itemId payload isSuperAdmin => do
    let _ ← getSession (Service.update itemId payload isSuperAdmin)
    pure ()
  | .delete itemId => getSession (Service.delete itemId)
  | .seed manifest => do
    let _ ← getSession (seedRbac manifest)
    pure ()

def shallowGuard : Guard Table Row LockName Storage Note := ⟨fun w _ ↦ Shallow w, fun _ _ ↦ True⟩

/-- Of these, the runs in which no move and no seeding run commits over links that the other has
changed since it looked. -/
def seedGuard : Guard Table Row LockName Storage Note :=
  ⟨fun w _ ↦ Shallow w, fun w notes ↦ MoveGuard w notes ∧ SeedGuard w notes⟩

theorem safe_call (op : MenuOp) (hi : MenuInv n₀ w) :
    safe (menuProtocol n₀) seedGuard op.call {} w := by
  have hG : ∀ w notes, seedGuard.commit w notes → MoveGuard w notes ∧ SeedGuard w notes :=
    fun _ _ h ↦ h
  have hS : ∀ w f, seedGuard.stmt w f → Shallow w := fun _ _ h ↦ h
  cases op with
  | create payload isSuperAdmin =>
    exact wp_bind (wp_mono (fun _ _ _ _ ↦ trivial) (fun _ _ _ h ↦ h) (safe_create hG hi payload isSuperAdmin))
  | update itemId payload isSuperAdmin =>
    exact wp_bind (wp_mono (fun _ _ _ _ ↦ trivial) (fun _ _ _ h ↦ h)
      (safe_update hG hS hi payload isSuperAdmin))
  | delete itemId => exact safe_delete hG hi
  | seed manifest =>
    exact wp_bind (wp_mono (fun _ _ _ _ ↦ trivial) (fun _ _ _ h ↦ h) (safe_seedRbac hG hi manifest))

def IsAcyclic (db : Db) : Prop := ∀ i,
  (∀ p, parentOf db i = some p → ∃ m : Menu, db.rows .menus p = some m) ∧
  ∀ n, 0 < n → climb (parentOf db) n i ≠ some i

/-- Where runs start: an acyclic tree, before anything is logged. -/
structure Start (w : Shared) : Prop where
  below : ∀ i (m : Menu), w.db.rows .menus i = some m → i < w.next
  acyclic : IsAcyclic w.db
  log : w.log = []

theorem isAcyclic_of_inv (h : MenuInv n₀ w) : IsAcyclic w.db := by
  refine fun i ↦ ⟨fun p hp ↦ Option.isSome_iff_exists.1 (h.parent i p hp), fun n hn hc ↦ ?_⟩
  exact not_rooted_of_climb hn hc (h.rooted i)

theorem menuInv_of_start (h : Start w) : MenuInv w.next w where
  born i m hm := .inl (h.below i m hm)
  below i hb := by
    rcases hb with hlt | hn
    · exact hlt
    · rw [h.log] at hn
      cases hn
  parent i p hp := Option.isSome_iff_exists.2 ((h.acyclic i).1 p hp)
  rooted := by
    refine rooted_of_acyclic (w.db.keys .menus) (fun i p hp ↦ ?_) fun i ↦ (h.acyclic i).2
    obtain ⟨m, hm, -⟩ := parentOf_eq_some.1 hp
    exact w.db.complete .menus i m hm

/-- The menus stay acyclic in every such interleaving of the services with seeding runs. -/
theorem acyclic_of_reach (hw : Start w) (h : Reach MenuOp.call .crash seedGuard w S) :
    IsAcyclic S.world.db :=
  isAcyclic_of_inv (sound_of_reach (P := menuProtocol w.next) (fun op _ hi ↦ safe_call op hi)
    (menuInv_of_start hw) h).inv

section Runs

def shallowCheck (w : Shared) : Bool :=
  (w.db.keys .menus).all fun i ↦ (climb (parentOf w.db) (_MAX_MENU_DEPTH + 1) i).isNone

theorem shallow_of_check (h : shallowCheck w = true) : Shallow w := by
  intro i n r hn _
  apply Nat.le_of_not_lt
  intro hlt
  obtain ⟨k, rfl⟩ : ∃ k, n = _MAX_MENU_DEPTH + 1 + k := ⟨n - (_MAX_MENU_DEPTH + 1), by omega⟩
  have hnone : climb (parentOf w.db) (_MAX_MENU_DEPTH + 1) i = none := by
    cases hp : parentOf w.db i with
    | none => rw [climb_succ, hp]; rfl
    | some p =>
      obtain ⟨m, hm, -⟩ := parentOf_eq_some.1 hp
      have hi := List.all_eq_true.1 h i (w.db.complete .menus i m hm)
      simpa using hi
  rw [climb_add, hnone] at hn
  cases hn

def isReparenting (i : ℕ) : Note → Bool
  | .menuSeeded j _ .reparented => decide (j = i)
  | _ => false

theorem any_isReparenting {log : List Note} {i : ℕ} :
    log.any (isReparenting i) = true ↔ Reparented log i := by
  rw [List.any_eq_true]
  constructor
  · rintro ⟨n, hn, hr⟩
    unfold isReparenting at hr
    split at hr
    · obtain rfl := of_decide_eq_true hr
      exact ⟨_, hn⟩
    · cases hr
  · rintro ⟨a, ha⟩
    exact ⟨_, ha, by simp [isReparenting]⟩

def moveCheck (w : Shared) (notes : List Note) : Note → Bool
  | .menuChecked i p above => !decide (.menuMoved i p ∈ notes) || above.all fun x ↦
    !w.log.any (isReparenting x.1) || decide (parentOf w.db x.1 = x.2) || (parentOf w.db x.1).isNone
  | _ => true

def isReparentingAny : Note → Bool
  | .menuSeeded _ _ .reparented => true
  | _ => false

def keptCheck (w : Shared) : Note → Bool
  | .menuSeeded i a .kept => decide (parentOf w.db i = a) || (parentOf w.db i).isNone
  | _ => true

def commitCheck (w : Shared) (notes : List Note) : Bool :=
  notes.all (moveCheck w notes) && (!notes.any isReparentingAny || notes.all (keptCheck w))

theorem guards_of_check {notes : List Note} (h : commitCheck w notes = true) :
    MoveGuard w notes ∧ SeedGuard w notes := by
  obtain ⟨hmove, hseed⟩ := Bool.and_eq_true_iff.1 h
  refine ⟨fun i p above hc hm x hx hr ↦ ?_, fun hre i a hk ↦ ?_⟩
  · have hall := List.all_eq_true.1 hmove _ hc
    have habove : above.all (fun x ↦ !w.log.any (isReparenting x.1) ||
        decide (parentOf w.db x.1 = x.2) || (parentOf w.db x.1).isNone) = true := by
      simpa [moveCheck, hm] using hall
    have hone := List.all_eq_true.1 habove x hx
    simpa [any_isReparenting.2 hr] using hone
  · obtain ⟨j, b, hj⟩ := hre
    have hany : notes.any isReparentingAny = true := List.any_eq_true.2 ⟨_, hj, rfl⟩
    rw [hany] at hseed
    have hone := List.all_eq_true.1 hseed _ hk
    simpa [keptCheck] using hone

def shallowAt (S : State Table Row LockName Storage Note Failure Unit) (_ : Label MenuOp) : Bool :=
  shallowCheck S.world

def guardedAt (S : State Table Row LockName Storage Note Failure Unit) (a : Label MenuOp) : Bool :=
  shallowCheck S.world && S.passes commitCheck a

theorem admits_of_shallowAt (S : State Table Row LockName Storage Note Failure Unit)
    (a : Label MenuOp) (h : shallowAt S a = true) : shallowGuard.admits S a := by
  cases a with
  | step i =>
    intro s _
    split
    · exact shallow_of_check h
    · trivial
    · trivial
  | _ => trivial

theorem admits_of_guardedAt (S : State Table Row LockName Storage Note Failure Unit)
    (a : Label MenuOp) (h : guardedAt S a = true) : seedGuard.admits S a := by
  obtain ⟨hs, hc⟩ := Bool.and_eq_true_iff.1 h
  cases a with
  | step i =>
    rintro ⟨p, l⟩ hi
    cases p with
    | step effect rest => exact shallow_of_check hs
    | commit rest =>
      simp only [State.passes, hi] at hc
      exact guards_of_check hc
    | _ => trivial
  | _ => trivial

def systemItem : SeedItem where
  seedKey := "system"
  name := "系统管理"
  menuType := .directory
  path := "system"
  icon := "system"
  sortOrder := 1

def userItem : SeedItem where
  seedKey := "system:user"
  name := "用户管理"
  menuType := .menu
  path := "user"
  component := some "system/user/index"
  perms := some "system:user:list"
  icon := "user"
  sortOrder := 1

def systemBranch : Manifest where
  roles := [{ code := "superadmin", name := "超级管理员", dataScope := .self }]
  menuTree := [.node systemItem [.node userItem []]]
  distinct := by decide

def twoRoots : Shared where
  now := 0
  next := 2
  ext := ⟨[], []⟩
  db := Store.empty.apply
    [⟨.menus, 0, some (newMenu systemItem none)⟩, ⟨.menus, 1, some (newMenu userItem none)⟩]
  log := []

theorem start_twoRoots : Start twoRoots where
  below i m hm := by
    by_cases h0 : i = 0
    · subst h0
      exact Nat.zero_lt_two
    · by_cases h1 : i = 1
      · subst h1
        exact Nat.one_lt_two
      · have hnone : twoRoots.db.rows .menus i = none := by
          rw [twoRoots, apply_rows, pending_cons, pending_singleton, Write.at_id_ne (Ne.symm h1),
            Write.at_id_ne (Ne.symm h0)]
          rfl
        rw [hnone] at hm
        cases hm
  acyclic i := by
    have hnone : parentOf twoRoots.db i = none := by
      by_cases h0 : i = 0
      · subst h0
        rfl
      · by_cases h1 : i = 1
        · subst h1
          rfl
        · rw [parentOf, twoRoots, apply_rows, pending_cons, pending_singleton,
            Write.at_id_ne (Ne.symm h1), Write.at_id_ne (Ne.symm h0)]
          rfl
    refine ⟨fun p hp ↦ (by rw [hnone] at hp; cases hp), fun n hn hc ↦ ?_⟩
    obtain ⟨k, rfl⟩ : ∃ k, n = k + 1 := ⟨n - 1, by omega⟩
    rw [climb_succ, hnone] at hc
    cases hc
  log := rfl

def steps (i n : ℕ) : List (Label MenuOp) := List.replicate n (.step i)

def seedAndMove : List (Label MenuOp) :=
  .start (.seed systemBranch) :: steps 0 9 ++
    .start (.create { name := "岗位", menuType := .menu, parentId := some 1 } false) :: steps 1 5 ++
    .start (.update 3 { parentId := some (some 0) } false) :: steps 2 7

theorem acyclic_of_reach_seedAndMove : ∃ S, Reach MenuOp.call .crash seedGuard twoRoots S ∧
    parentOf S.world.db 1 = some 0 ∧ parentOf S.world.db 3 = some 0 ∧ IsAcyclic S.world.db := by
  have hrun : ∃ S, Reach MenuOp.call .crash seedGuard twoRoots S ∧
      decide (parentOf S.world.db 1 = some 0 ∧ parentOf S.world.db 3 = some 0) = true :=
    exists_reach_of_walk guardedAt seedAndMove admits_of_guardedAt (by decide +kernel)
  obtain ⟨S, hS, hp⟩ := hrun
  obtain ⟨h₁, h₃⟩ := of_decide_eq_true hp
  exact ⟨S, hS, h₁, h₃, acyclic_of_reach start_twoRoots hS⟩

/-- A move of the first menu under the second passes its check; a seeding run puts the second
back under the first; the move commits. -/
def moveAndSeed : List (Label MenuOp) :=
  .start (.update 0 { parentId := some (some 1) } false) :: steps 0 4 ++
    .start (.seed systemBranch) :: steps 1 8 ++ steps 0 3

theorem not_acyclic_moveAndSeed :
    ∃ w S, Start w ∧ Reach MenuOp.call .crash shallowGuard w S ∧ ¬ IsAcyclic S.world.db := by
  have hrun : ∃ S, Reach MenuOp.call .crash shallowGuard twoRoots S ∧
      decide (climb (parentOf S.world.db) 2 0 = some 0) = true :=
    exists_reach_of_walk shallowAt moveAndSeed admits_of_shallowAt (by decide +kernel)
  obtain ⟨S, hS, hc⟩ := hrun
  exact ⟨twoRoots, S, start_twoRoots, hS, fun h ↦ (h 0).2 2 Nat.zero_lt_two (of_decide_eq_true hc)⟩

end Runs

end AdminPlatform.Menu.TreeSystem
