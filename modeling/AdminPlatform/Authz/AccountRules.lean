import AdminPlatform.Authz.Permission
import AdminPlatform.Foundation.Sequential
import AdminPlatform.User.SuperAdmin

namespace AdminPlatform.Authz.AccountRules

open Model.Schema Model.Service Model.Scope Foundation.Relational Foundation.Transaction
open Foundation.Sequential Foundation.RowRules
open User.SuperAdmin (AtMostOne)

/-- A super administrator keeps password and status, and nobody else becomes one. -/
structure Untouched (a b : Option User) : Prop where
  made : ∀ n, b = some n → n.isSuperAdmin = true → ∃ u, a = some u ∧ u.isSuperAdmin = true
  kept : ∀ u, a = some u → u.isSuperAdmin = true → ∃ n, b = some n ∧ n.isSuperAdmin = true ∧
    n.passwordHash = u.passwordHash ∧ n.status = u.status

/-- A row with an old key was there before, with the same `f`. -/
def Survives {R B : Type} (n₀ : ℕ) (f : R → B) (i : ℕ) (a b : Option R) : Prop :=
  i < n₀ → ∀ r', b = some r' → ∃ r, a = some r ∧ f r = f r'

def Shrinks {R : Type} (a b : Option R) : Prop := ∀ r, b = some r → a = some r

section Relations

variable {R B : Type} {n₀ i : ℕ} {f : R → B} {a b c : Option R} {u u' u'' : Option User}

theorem Untouched.refl (u : Option User) : Untouched u u :=
  ⟨fun n hn hs ↦ ⟨n, hn, hs⟩, fun u hu hs ↦ ⟨u, hu, hs, rfl, rfl⟩⟩

theorem Untouched.trans (h : Untouched u u') (h' : Untouched u' u'') : Untouched u u'' where
  made n hn hs := by
    obtain ⟨m, hm, hs⟩ := h'.made n hn hs
    exact h.made m hm hs
  kept x hx hs := by
    obtain ⟨m, hm, hs, hp, hst⟩ := h.kept x hx hs
    obtain ⟨n, hn, hs, hp', hst'⟩ := h'.kept m hm hs
    exact ⟨n, hn, hs, hp'.trans hp, hst'.trans hst⟩

theorem Survives.refl (a : Option R) : Survives n₀ f i a a := fun _ r hr ↦ ⟨r, hr, rfl⟩

theorem Survives.trans (h : Survives n₀ f i a b) (h' : Survives n₀ f i b c) : Survives n₀ f i a c := by
  intro hi r hr
  obtain ⟨r', hr', he⟩ := h' hi r hr
  obtain ⟨r'', hr'', he'⟩ := h hi r' hr'
  exact ⟨r'', hr'', he'.trans he⟩

end Relations

def roleGrants (r : Role) : Status := r.status

def menuGrants (m : Menu) : Option String × Status := (m.perms, m.status)

/-- What may become of each row, for the keys below `n₀`. -/
def untouched (n₀ : ℕ) : (t : Table) → ℕ → Option (Row t) → Option (Row t) → Prop
  | .users, _, a, b => Untouched a b
  | .userRoles, _, a, b => Shrinks a b
  | .roleMenus, _, a, b => Shrinks a b
  | .roles, i, a, b => Survives n₀ roleGrants i a b
  | .menus, i, a, b => Survives n₀ menuGrants i a b
  | _, _, _, _ => True

def rules (n₀ : ℕ) : Rules Table Row where
  step := untouched n₀
  refl t i r := by
    cases t with
    | users => exact Untouched.refl r
    | userRoles => exact fun _ h ↦ h
    | roleMenus => exact fun _ h ↦ h
    | roles => exact Survives.refl r
    | menus => exact Survives.refl r
    | _ => trivial
  trans t i r r' r'' h h' := by
    cases t with
    | users => exact Untouched.trans h h'
    | userRoles => exact fun x hx ↦ h x (h' x hx)
    | roleMenus => exact fun x hx ↦ h x (h' x hx)
    | roles => exact Survives.trans h h'
    | menus => exact Survives.trans h h'
    | _ => trivial

variable {n₀ n i : ℕ} {db db' : Db} {ws ws' : List (Write Row)} {t : Table}

def Allows (n₀ : ℕ) (db : Db) (ws : List (Write Row)) : Prop :=
  ∀ x ∈ ws, untouched n₀ x.table x.id (db.rows x.table x.id) x.value

theorem Allows.obeys (h : Allows n₀ db ws) : (rules n₀).Obeys db (db.apply ws) := by
  intro t i
  cases hp : pending ws t i with
  | none =>
    rw [apply_rows_of_none hp]
    exact (rules n₀).refl t i _
  | some v =>
    rw [apply_rows_of_pending hp]
    exact h _ (pending_mem hp)

theorem Allows.append (h : Allows n₀ db ws) (h' : Allows n₀ db ws') : Allows n₀ db (ws ++ ws') := by
  intro x hx
  rcases List.mem_append.1 hx with hx | hx
  · exact h x hx
  · exact h' x hx

theorem allows_one {v : Option (Row t)} (h : untouched n₀ t i (db.rows t i) v) :
    Allows n₀ db [⟨t, i, v⟩] := by
  intro x hx
  rw [List.mem_singleton] at hx
  subst hx
  exact h

/-- Only the deletion of users is ruled. -/
theorem allows_delete (h : t ≠ .users) (p : ℕ → Row t → Bool) : Allows n₀ db (db.delete t p) := by
  intro x hx
  obtain ⟨i, r, -, -, rfl⟩ := mem_delete.1 hx
  cases t with
  | users => exact absurd rfl h
  | userRoles => exact fun _ h ↦ by cases h
  | roleMenus => exact fun _ h ↦ by cases h
  | roles => exact fun _ _ h ↦ by cases h
  | menus => exact fun _ _ h ↦ by cases h
  | _ => trivial

def Free (t : Table) : Prop := ∀ n₀ i a b, untouched n₀ t i a b

theorem allows_free (h : ∀ x ∈ ws, Free x.table) : Allows n₀ db ws := fun x hx ↦ h x hx n₀ x.id _ _

theorem atMostOne_of_obeys (h : (rules n₀).Obeys db db') (hone : AtMostOne db) : AtMostOne db' := by
  have hs : ∀ i, Untouched (db.rows .users i) (db'.rows .users i) := fun i ↦ h .users i
  intro i j u u' hu hsup hu' hsup'
  obtain ⟨x, hx, hxs⟩ := (hs i).made u hu hsup
  obtain ⟨y, hy, hys⟩ := (hs j).made u' hu' hsup'
  exact hone i j x y hx hxs hy hys

/-- The foreign keys of the links that grant permissions. -/
structure Linked (db : Db) : Prop where
  user : ∀ i (r : UserRole), db.rows .userRoles i = some r → (db.rows .users r.userId).isSome = true
  role : ∀ i (r : UserRole), db.rows .userRoles i = some r → (db.rows .roles r.roleId).isSome = true
  roleOfMenu : ∀ i (r : RoleMenu), db.rows .roleMenus i = some r →
    (db.rows .roles r.roleId).isSome = true
  menu : ∀ i (r : RoleMenu), db.rows .roleMenus i = some r → (db.rows .menus r.menuId).isSome = true

/-- What was granted by old links, roles and menus is all that is granted. -/
theorem granted_of_obeys {perm : String} {userId : ℕ} (hd : ∀ t i r, db.rows t i = some r → i < n₀)
    (hl : Linked db) (h : (rules n₀).Obeys db db') (hg : Permission.Granted db' perm userId) :
    Permission.Granted db perm userId := by
  obtain ⟨i, j, roleId, menuId, role, m, hi, hrole, hact, hj, hm, hmact, hperm⟩ := hg
  have hi₀ : db.rows .userRoles i = some ⟨userId, roleId⟩ := h .userRoles i _ hi
  have hj₀ : db.rows .roleMenus j = some ⟨roleId, menuId⟩ := h .roleMenus j _ hj
  obtain ⟨x, hx⟩ := Option.isSome_iff_exists.1 (hl.role i _ hi₀)
  obtain ⟨y, hy⟩ := Option.isSome_iff_exists.1 (hl.menu j _ hj₀)
  obtain ⟨role₀, hrole₀, he⟩ := h .roles roleId (hd .roles roleId x hx) role hrole
  obtain ⟨m₀, hm₀, he'⟩ := h .menus menuId (hd .menus menuId y hy) m hm
  have hact₀ : role₀.status = .active := Eq.trans he hact
  have hperm₀ : m₀.perms = some perm := (congrArg Prod.fst he').trans hperm
  have hmact₀ : m₀.status = .active := (congrArg Prod.snd he').trans hmact
  exact ⟨i, j, roleId, menuId, role₀, m₀, hi₀, hrole₀, hact₀, hj₀, hm₀, hmact₀, hperm₀⟩

end AdminPlatform.Authz.AccountRules
