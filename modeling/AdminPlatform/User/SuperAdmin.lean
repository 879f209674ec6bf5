import AdminPlatform.Foundation.RowRules
import AdminPlatform.User.Service

namespace AdminPlatform.User.SuperAdmin

open Model.Schema Model.Service Model.Scope Foundation.Relational Foundation.Transaction
open Foundation.Interleaving Foundation.RelyGuarantee Foundation.RowRules
open Service UserRepository

/-- A user is not made a super administrator, and a super administrator is neither deleted nor
disabled. -/
structure Stays (a b : Option User) : Prop where
  made : ∀ n, b = some n → n.isSuperAdmin = true → ∃ u, a = some u ∧ u.isSuperAdmin = true
  kept : ∀ u, a = some u → u.isSuperAdmin = true →
    ∃ n, b = some n ∧ n.isSuperAdmin = true ∧ (u.status = .active → n.status = .active)

theorem Stays.refl (a : Option User) : Stays a a :=
  ⟨fun n hn hs ↦ ⟨n, hn, hs⟩, fun u hu hs ↦ ⟨u, hu, hs, id⟩⟩

theorem Stays.trans {a b c : Option User} (h : Stays a b) (h' : Stays b c) : Stays a c where
  made n hn hs := by
    obtain ⟨m, hm, hs⟩ := h'.made n hn hs
    exact h.made m hm hs
  kept u hu hs := by
    obtain ⟨m, hm, hs, hact⟩ := h.kept u hu hs
    obtain ⟨n, hn, hs, hact'⟩ := h'.kept m hm hs
    exact ⟨n, hn, hs, fun ha ↦ hact' (hact ha)⟩

def stays : (t : Table) → ℕ → Option (Row t) → Option (Row t) → Prop
  | .users, _, a, b => Stays a b
  | _, _, _, _ => True

def rules : Rules Table Row where
  step := stays
  refl t i r := by
    cases t with
    | users => exact Stays.refl r
    | _ => trivial
  trans t i r r' r'' h h' := by
    cases t with
    | users => exact Stays.trans h h'
    | _ => trivial

def HasActive (db : Db) : Prop :=
  ∃ i, ∃ u : User, db.rows .users i = some u ∧ u.isSuperAdmin = true ∧ u.status = .active

/-- The unique index `uq_users_one_super_admin`. -/
def AtMostOne (db : Db) : Prop := ∀ i j (u u' : User), db.rows .users i = some u →
  u.isSuperAdmin = true → db.rows .users j = some u' → u'.isSuperAdmin = true → i = j

def superAdmin : Kept rules where
  holds db := HasActive db ∧ AtMostOne db
  keep db db' h ho := by
    have hs : ∀ i, Stays (db.rows .users i) (db'.rows .users i) := fun i ↦ ho .users i
    refine ⟨?_, fun i j u u' hu hu₁ hu' hu₁' ↦ ?_⟩
    · obtain ⟨i, u, hu, hsup, hact⟩ := h.1
      obtain ⟨n, hn, hnsup, hnact⟩ := (hs i).kept u hu hsup
      exact ⟨i, n, hn, hnsup, hnact hact⟩
    · obtain ⟨x, hx, hx₁⟩ := (hs i).made u hu hu₁
      obtain ⟨y, hy, hy₁⟩ := (hs j).made u' hu' hu₁'
      exact h.2 i j x y hx hx₁ hy hy₁

inductive UserOp
  | create (payload : UserCreate) (scope : Option DataScope)
  | update (userId : ℕ) (payload : UserUpdate) (scope : Option DataScope)
  | delete (userId : ℕ) (scope : Option DataScope)

def UserOp.call : UserOp → Call Unit
  | .create payload scope => getSession (Service.create payload scope) >>= fun _ ↦ pure ()
  | .update userId payload scope => getSession (Service.update userId payload scope) >>= fun _ ↦ pure ()
  | .delete userId scope => getSession (Service.delete userId scope)

variable {G : Guard Table Row LockName Storage Note} {w w' w₁ : Shared} {l : Private} {i : ℕ}
  {row : User} {db : Db}

theorem length_select_le_one {t : Table} {p : ℕ → Row t → Bool}
    (h : ∀ i j r r', db.rows t i = some r → p i r = true → db.rows t j = some r' → p j r' = true →
      i = j) : (db.select t p).length ≤ 1 := by
  have hnodup : ((db.select t p).map Prod.fst).Nodup :=
    (List.filter_sublist.map Prod.fst).nodup (scan_keys_nodup db t)
  cases hl : db.select t p with
  | nil => simp
  | cons x xs =>
    cases xs with
    | nil => simp
    | cons y ys =>
      have hx : x ∈ db.select t p := by rw [hl]; exact List.mem_cons_self
      have hy : y ∈ db.select t p := by rw [hl]; exact List.mem_cons_of_mem _ List.mem_cons_self
      obtain ⟨hx, hpx⟩ := mem_select.1 hx
      obtain ⟨hy, hpy⟩ := mem_select.1 hy
      rw [hl, List.map_cons, List.nodup_cons] at hnodup
      refine absurd ?_ hnodup.1
      rw [h x.1 y.1 x.2 y.2 hx hpx hy hpy]
      exact List.mem_map_of_mem List.mem_cons_self

theorem countSuperAdmins_le (h : AtMostOne db) :
    (db.select .users fun _ (u : User) ↦ u.isSuperAdmin).length ≤ 1 :=
  length_select_le_one h

def Loaded (db : Db) (w : Shared) (i : ℕ) (row : User) : Prop :=
  db.rows .users i = some row ∧ rules.Obeys db w.db

theorem Loaded.rely (h : Loaded db w i row) (hr : Rely (protocol rules superAdmin) l w w') :
    Loaded db w' i row :=
  ⟨h.1, fun t k ↦ rules.trans t k _ _ _ (h.2 t k) (hr.guar t k)⟩

theorem Loaded.super {u : User} (h : Loaded db w i row) (hu : w.db.rows .users i = some u)
    (hs : u.isSuperAdmin = true) : row.isSuperAdmin = true := by
  have hstays : Stays (db.rows .users i) (w.db.rows .users i) := h.2 .users i
  obtain ⟨x, hx, hxs⟩ := hstays.made u hu hs
  rw [h.1] at hx
  cases hx
  exact hxs

theorem patch_status {payload : UserUpdate} {hash : Option PasswordHash} {u : User}
    (h : payload.status ≠ some (some .disabled)) (hn : payload.status ≠ some none)
    (hact : u.status = .active) : (patch row payload hash u).status = .active := by
  show (flushed (some row.status) (some u.status) payload.status).getD u.status = _
  cases hp : payload.status with
  | none => exact hact
  | some x =>
    cases x with
    | none => exact absurd hp hn
    | some st =>
      cases st with
      | disabled => exact absurd hp h
      | active =>
        simp only [flushed]
        split
        · exact hact
        · rfl

def Ready (l : Private) (w : Shared) : Prop :=
  (superAdmin.holds w.db ∧ Drawn w) ∧ RowTx rules l w

theorem wp_hashPassword {Q : PasswordHash → Private → Shared → Prop} (password : String)
    (hb : Blank l) (htx : RowTx rules l w)
    (hQ : ∀ hash l' w' w'', Rely (protocol rules superAdmin) l w w' → w''.db = w'.db → Blank l' →
      RowTx rules l' w'' → Q hash l' w'') :
    wp (protocol rules superAdmin) G (hashPassword password) Q (fun _ _ _ ↦ True) l w := by
  unfold hashPassword
  refine wp_bind (wp_rows htx fun w' hr g a hq ↦ ?_)
  cases hq
  refine ⟨rfl, fun t i v hp ↦ (by cases hp), fun t i r hp ↦ (by cases hp), fun htx' _ ↦ ?_⟩
  exact hQ _ _ w' _ hr rfl (hb.run rfl rfl _) htx'

theorem safe_create (payload : UserCreate) (scope : Option DataScope) :
    safe (protocol rules superAdmin) G (getSession (Service.create payload scope)) {} w := by
  refine safe_save ?_
  unfold Service.create
  split
  · trivial
  · refine wp_bind (wp_read fun w₁ hr₁ ↦ ?_)
    split
    · trivial
    · refine wp_bind (wp_hashPassword _ .init (RowTx.init.rely hr₁) fun hash l w₂ w₃ _ _ hb htx ↦ ?_)
      refine wp_bind (wp_rows htx fun w₄ hr₄ g a hq ↦ ?_)
      split at hq
      · cases hq
      · split at hq
        · cases hq
          have hnone : (w₄.view l).db.rows .users w₄.next = none := by
            rw [hb.view]
            cases hu : w₄.db.rows .users w₄.next with
            | none => rfl
            | some u => exact absurd (hr₄.inv.2 .users _ u hu) (Nat.lt_irrefl _)
          refine ⟨rfl, of_pending_singleton ?_, lt_of_pending_singleton (Nat.lt_succ_self _),
            fun htx' hi ↦ ⟨hi, htx'⟩⟩
          refine ⟨fun n hn hs ↦ ?_, fun u hu _ ↦ ?_⟩
          · cases hn
            cases hs
          · exact absurd (hnone.symm.trans hu) (by simp)
        · cases hq

theorem wp_flush {payload : UserUpdate} {hash : Option PasswordHash} {Q : User → Private → Shared → Prop}
    (hb : Blank l) (htx : RowTx rules l w) (hl : Loaded db w i row)
    (hguard : payload.status = some (some .disabled) → row.isSuperAdmin = false)
    (hQ : ∀ a l' w', Ready l' w' → Q a l' w') :
    wp (protocol rules superAdmin) G (UserRepository.update i row payload hash) Q (fun _ _ _ ↦ True) l w := by
  refine wp_rows htx fun w' hr g a hq ↦ ?_
  split at hq
  · cases hq
  · next hnull =>
    split at hq
    · cases hq
      exact ⟨rfl, fun t i v hp ↦ (by cases hp), fun t i r hp ↦ (by cases hp),
        fun htx' hi ↦ hQ _ _ _ ⟨hi, htx'⟩⟩
    · split at hq
      · cases hq
      · next u hu =>
        dsimp only at hq
        split at hq
        · cases hq
        · cases hq
          have hu' : w'.db.rows .users i = some u := (hb.view w' .users i).symm.trans hu
          refine ⟨rfl, of_pending_singleton ?_, lt_of_pending_singleton ?_, fun htx' hi ↦ hQ _ _ _ ⟨hi, htx'⟩⟩
          · refine ⟨fun n hn hs ↦ ?_, fun x hx hs ↦ ?_⟩
            · cases hn
              exact ⟨u, hu, hs⟩
            · rw [hu] at hx
              cases hx
              refine ⟨_, rfl, hs, patch_status (fun hd ↦ ?_) (fun hn ↦ ?_)⟩
              · have hsup := (hl.rely hr).super hu' hs
                rw [hguard hd] at hsup
                cases hsup
              · rw [hn] at hnull
                simp at hnull
          · exact Nat.lt_of_lt_of_le (hr.inv.2 .users i u hu') (Nat.le_add_right _ _)

theorem safe_update (payload : UserUpdate) (scope : Option DataScope) :
    safe (protocol rules superAdmin) G (getSession (Service.update i payload scope)) {} w := by
  refine safe_save ?_
  unfold Service.update
  refine wp_bind (wp_read fun w₁ hr₁ ↦ ?_)
  cases hrow : (w₁.view {}).db.rows .users i with
  | none => trivial
  | some row =>
    have hloaded : Loaded w₁.db w₁ i row :=
      ⟨(Blank.init.view w₁ .users i).symm.trans hrow, fun t k ↦ rules.refl t k _⟩
    dsimp only
    split
    · trivial
    · split
      · trivial
      · refine wp_bind (wp_read fun w₂ hr₂ ↦ ?_)
        split
        · trivial
        · next hguard =>
          have hg : payload.status = some (some .disabled) → row.isSuperAdmin = false := by
            intro hd
            cases hs : row.isSuperAdmin with
            | false => rfl
            | true =>
              refine absurd ?_ hguard
              have hone : AtMostOne (w₂.view ({} : Private)).db := by
                intro a b u u' hu hu₁ hu' hu₁'
                rw [Blank.init.view] at hu hu'
                exact hr₂.inv.1.2 a b u u' hu hu₁ hu' hu₁'
              have hle := countSuperAdmins_le hone
              simp only [hd, hs, decide_true, Bool.true_and, Bool.and_true, decide_eq_true_eq]
              exact hle
          have htx : RowTx rules ({} : Private) w₂ := (RowTx.init.rely hr₁).rely hr₂
          have hl₂ := hloaded.rely hr₂
          split
          · refine wp_bind ?_
            show wp _ G (UserRepository.update i row payload none >>= fun r ↦
              pure (UserRead.modelValidate i r)) _ _ _ _
            exact wp_bind (wp_flush .init htx hl₂ hg fun a l' w' h ↦ h)
          · refine wp_bind (wp_bind (wp_hashPassword _ .init htx fun hash l w₃ w₄ hr₃ hdb hb htx' ↦ ?_))
            have hl₄ : Loaded w₁.db w₄ i row := by
              obtain ⟨h, ho⟩ := hl₂.rely hr₃
              exact ⟨h, hdb ▸ ho⟩
            exact wp_bind (wp_flush hb htx' hl₄ hg fun a l' w' h ↦ h)

theorem safe_delete (scope : Option DataScope) :
    safe (protocol rules superAdmin) G (getSession (Service.delete i scope)) {} w := by
  refine safe_save ?_
  unfold Service.delete
  refine wp_bind (wp_read fun w₁ hr₁ ↦ ?_)
  cases hrow : (w₁.view {}).db.rows .users i with
  | none => trivial
  | some row =>
    have hloaded : Loaded w₁.db w₁ i row :=
      ⟨(Blank.init.view w₁ .users i).symm.trans hrow, fun t k ↦ rules.refl t k _⟩
    dsimp only
    split
    · trivial
    · refine wp_bind (wp_read fun w₂ hr₂ ↦ ?_)
      split
      · trivial
      · next hguard =>
        have hs : row.isSuperAdmin = false := by
          cases hs : row.isSuperAdmin with
          | false => rfl
          | true =>
            refine absurd ?_ hguard
            have hone : AtMostOne (w₂.view ({} : Private)).db := by
              intro a b u u' hu hu₁ hu' hu₁'
              rw [Blank.init.view] at hu hu'
              exact hr₂.inv.1.2 a b u u' hu hu₁ hu' hu₁'
            have hle := countSuperAdmins_le hone
            simp only [hs, Bool.true_and, decide_eq_true_eq]
            exact hle
        refine wp_rows ((RowTx.init.rely hr₁).rely hr₂) fun w₃ hr₃ g a hq ↦ ?_
        split at hq
        · cases hq
          refine ⟨rfl, fun t k v hp ↦ ?_, fun t k r hp ↦ ?_, fun htx' hi ↦ ⟨hi, htx'⟩⟩
          · cases t with
            | users =>
              rw [pending_append, pending_append, pending_append,
                delete_other (by decide : Table.userPosts ≠ .users),
                delete_other (by decide : Table.userRoles ≠ .users),
                delete_other (by decide : Table.refreshTokens ≠ .users)] at hp
              simp only [Option.or_none] at hp
              obtain ⟨u, hu, hk, rfl⟩ := pending_delete hp
              have hk' : k = i := of_decide_eq_true hk
              subst hk'
              refine ⟨fun n hn ↦ (by cases hn), fun x hx hxs ↦ ?_⟩
              rw [Blank.init.view] at hx
              have hsup := ((hloaded.rely hr₂).rely hr₃).super hx hxs
              rw [hs] at hsup
              cases hsup
            | _ => trivial
          · have hm := pending_mem hp
            simp only [List.mem_append] at hm
            rcases hm with ((hm | hm) | hm) | hm
            all_goals
              obtain ⟨_, _, -, -, he⟩ := mem_delete.1 hm
              cases he
        · cases hq

theorem safe_call (op : UserOp) (w : Shared) : safe (protocol rules superAdmin) G op.call {} w := by
  cases op with
  | create payload scope =>
    exact wp_bind (wp_mono (fun _ _ _ _ ↦ trivial) (fun _ _ _ h ↦ h) (safe_create payload scope))
  | update userId payload scope =>
    exact wp_bind (wp_mono (fun _ _ _ _ ↦ trivial) (fun _ _ _ h ↦ h) (safe_update payload scope))
  | delete userId scope => exact safe_delete scope

/-- Whoever changes users in whatever order, an active super administrator is left. -/
theorem hasActive_of_reach (w : Shared) (S : State Table Row LockName Storage Note Failure Unit)
    (hw : HasActive w.db) (hone : AtMostOne w.db) (hd : Drawn w)
    (h : Reach UserOp.call .crash .free w S) : HasActive S.world.db :=
  (sound_of_reach (P := protocol rules superAdmin) (fun op w _ ↦ safe_call op w)
    ⟨⟨hw, hone⟩, hd⟩ h).inv.1.1

def rootOnly : Shared where
  now := 0
  next := 1
  ext := ⟨[], []⟩
  db := Store.empty.apply [⟨.users, 0, some ⟨"root", ⟨"", 0⟩, "", .active, true, none⟩⟩]
  log := []

theorem drawn_rootOnly : Drawn rootOnly := by
  intro t i r hr
  have hm := rootOnly.db.complete t i r hr
  cases t with
  | users =>
    have hk : rootOnly.db.keys .users = [0] := by decide
    rw [hk, List.mem_singleton] at hm
    rw [hm]
    exact Nat.one_pos
  | _ => cases hm

theorem users_rootOnly {i : ℕ} {u : User} (h : rootOnly.db.rows .users i = some u) :
    i = 0 ∧ u = ⟨"root", ⟨"", 0⟩, "", .active, true, none⟩ := by
  have hi : i = 0 := Nat.lt_one_iff.1 (drawn_rootOnly .users i u h)
  subst hi
  exact ⟨rfl, (Option.some.inj h).symm⟩

def disableRoot : List (Label UserOp) :=
  [.start (.create { username := "eve", password := "" } none),
    .start (.update 0 { status := some (some .disabled) } none)] ++
    List.replicate 5 (.step 0) ++ List.replicate 5 (.step 1)

theorem hasActive_of_reach_disableRoot : ∃ S, Reach UserOp.call .crash .free rootOnly S ∧
    (S.world.db.rows .users 2).isSome = true ∧ HasActive S.world.db := by
  have hrun : ∃ S, Reach UserOp.call .crash .free rootOnly S ∧
      (S.world.db.rows .users 2).isSome = true :=
    exists_reach_of_follow (fun _ _ ↦ true) disableRoot (fun _ _ ↦ trivial) (fun _ _ _ ↦ trivial)
      (by decide +kernel)
  obtain ⟨S, hS, hp⟩ := hrun
  refine ⟨S, hS, hp, hasActive_of_reach rootOnly S ⟨0, _, rfl, rfl, rfl⟩ ?_ drawn_rootOnly hS⟩
  intro i j u u' hu _ hu' _
  rw [(users_rootOnly hu).1, (users_rootOnly hu').1]

end AdminPlatform.User.SuperAdmin
