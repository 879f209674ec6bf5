import AdminPlatform.Dept.Accepted
import AdminPlatform.Rbac.Seed

namespace AdminPlatform.Rbac.SeedRoles

open Model.Schema Model.Service Model.Scope Foundation.Relational Foundation.Transaction
open Foundation.Sequential Seed

variable {v v' : Snapshot} {g : Statement} {t : Table} {i j n : ℕ} {db db' : Db}
  {sr : SeedRole} {srs done : List SeedRole}

def Below (v : Snapshot) : Prop := ∀ t i r, v.db.rows t i = some r → i < v.next

theorem Below.write (h : Below v) {x : Row t} (hw : g.writes = [⟨t, i, some x⟩])
    (hi : i < v.next + g.fresh) : Below (runView v g) := by
  intro s k r hr
  show k < v.next + g.fresh
  have hr' : (v.db.apply g.writes).rows s k = some r := hr
  rw [hw] at hr'
  by_cases hs : t = s
  · subst hs
    rw [apply_one] at hr'
    by_cases hk : k = i
    · rw [hk]
      exact hi
    · rw [if_neg hk] at hr'
      exact Nat.lt_of_lt_of_le (h t k r hr') (Nat.le_add_right _ _)
  · rw [apply_one_other v.db hs] at hr'
    exact Nat.lt_of_lt_of_le (h s k r hr') (Nat.le_add_right _ _)

theorem Below.none (h : Below v) : v.db.rows t v.next = none := by
  cases hr : v.db.rows t v.next with
  | none => rfl
  | some r => exact absurd (h t _ r hr) (Nat.lt_irrefl _)

/-- The unique index `uq_roles_code`. -/
def CodesUnique (db : Db) : Prop := ∀ i j (r r' : Role), db.rows .roles i = some r →
  db.rows .roles j = some r' → r.code = r'.code → i = j

theorem roleByCode_some {code : String} {x : ℕ × Role} (h : roleByCode db code = some x) :
    db.rows .roles x.1 = some x.2 ∧ x.2.code = code := by
  have hm : x ∈ db.select .roles fun _ (r : Role) ↦ decide (r.code = code) :=
    List.mem_of_mem_head? h
  obtain ⟨i, r⟩ := x
  exact (mem_select.1 hm).imp id of_decide_eq_true

theorem roleByCode_none {code : String} (h : roleByCode db code = none) {r : Role}
    (hr : db.rows .roles i = some r) : r.code ≠ code := by
  intro hc
  have hm : (i, r) ∈ db.select .roles fun _ (r : Role) ↦ decide (r.code = code) :=
    mem_select.2 ⟨hr, decide_eq_true hc⟩
  rw [List.head?_eq_none_iff.1 h] at hm
  cases hm

theorem roleByCode_eq (hu : CodesUnique db) {r : Role} (hr : db.rows .roles i = some r) :
    roleByCode db r.code = some (i, r) := by
  cases hx : roleByCode db r.code with
  | none => exact absurd rfl (roleByCode_none hx hr)
  | some x =>
    obtain ⟨j, r'⟩ := x
    obtain ⟨hr', hc⟩ := roleByCode_some hx
    obtain rfl := hu j i r' r hr' hr hc
    rw [hr] at hr'
    cases hr'
    rfl

/-- The role is as the manifest says. -/
structure Built (sr : SeedRole) (r : Role) : Prop where
  code : r.code = sr.code
  name : r.name = sr.name
  dataScope : r.dataScope = sr.dataScope
  sortOrder : r.sortOrder = sr.sortOrder

/-- The listed roles are as the manifest says, and the others as they were. -/
structure RolesSeeded (srs : List SeedRole) (db db' : Db) : Prop where
  built : ∀ sr ∈ srs, ∃ i r, db'.rows .roles i = some r ∧ Built sr r
  others : ∀ i (r : Role), r.code ∉ srs.map SeedRole.code →
    (db'.rows .roles i = some r ↔ db.rows .roles i = some r)
  kept : ∀ i (r : Role), db.rows .roles i = some r →
    ∃ r', db'.rows .roles i = some r' ∧ r'.code = r.code ∧ r'.status = r.status
  frame : ∀ t i, t ≠ .roles → db'.rows t i = db.rows t i
  codes : CodesUnique db'

theorem RolesSeeded.init (h : CodesUnique db) : RolesSeeded [] db db :=
  ⟨fun _ hm ↦ (by cases hm), fun _ _ _ ↦ .rfl, fun _ r hr ↦ ⟨r, hr, rfl, rfl⟩, fun _ _ _ ↦ rfl, h⟩

/-- One role is inserted, or rewritten with its code and status. -/
theorem RolesSeeded.write (h : RolesSeeded done db db') {r₁ : Role} (hb : Built sr r₁)
    (hnew : sr.code ∉ done.map SeedRole.code)
    (hold : (db.rows .roles i = none ∧ db'.rows .roles i = none ∧
        ∀ j (r : Role), db'.rows .roles j = some r → r.code ≠ sr.code) ∨
      ∃ r₀ : Role, db.rows .roles i = some r₀ ∧ db'.rows .roles i = some r₀ ∧
        r₀.code = sr.code ∧ r₁.status = r₀.status) :
    RolesSeeded (done ++ [sr]) db (db'.apply [⟨.roles, i, some r₁⟩]) := by
  have hrow : ∀ k, (db'.apply [⟨.roles, i, some r₁⟩]).rows .roles k =
      if k = i then some r₁ else db'.rows .roles k := fun k ↦ apply_one db' .roles i _ k
  have honly : ∀ j (r : Role), j ≠ i → db'.rows .roles j = some r → r.code ≠ sr.code := by
    intro j r hj hr hc
    rcases hold with ⟨-, -, hn⟩ | ⟨r₀, -, hr₀, hc₀, -⟩
    · exact hn j r hr hc
    · exact hj (h.codes j i r r₀ hr hr₀ (hc.trans hc₀.symm))
  refine ⟨fun s hs ↦ ?_, fun k r hk ↦ ?_, fun k r hr ↦ ?_, fun t k ht ↦ ?_, fun a b r r' ha hb' hc ↦ ?_⟩
  · rcases List.mem_append.1 hs with hs | hs
    · obtain ⟨k, r, hr, hbuilt⟩ := h.built s hs
      have hne : k ≠ i := by
        rintro rfl
        rcases hold with ⟨-, hn, -⟩ | ⟨r₀, -, hr₀, hc₀, -⟩
        · rw [hr] at hn
          cases hn
        · rw [hr] at hr₀
          cases hr₀
          exact hnew (List.mem_map.2 ⟨s, hs, hbuilt.code.symm.trans hc₀⟩)
      exact ⟨k, r, by rw [hrow, if_neg hne, hr], hbuilt⟩
    · rw [List.mem_singleton.1 hs]
      exact ⟨i, r₁, by rw [hrow, if_pos rfl], hb⟩
  · rw [List.map_append, List.mem_append, not_or] at hk
    have hsr : r.code ≠ sr.code := fun he ↦ hk.2 (by rw [he]; exact List.mem_cons_self)
    rw [hrow, ← h.others k r hk.1]
    by_cases hki : k = i
    · subst hki
      rw [if_pos rfl]
      refine ⟨fun he ↦ ?_, fun he ↦ ?_⟩
      · cases he
        exact absurd hb.code hsr
      · rcases hold with ⟨-, hn, -⟩ | ⟨r₀, -, hr₀, hc₀, -⟩
        · rw [hn] at he
          cases he
        · rw [hr₀] at he
          cases he
          exact absurd hc₀ hsr
    · rw [if_neg hki]
  · by_cases hki : k = i
    · subst hki
      rcases hold with ⟨hn, -⟩ | ⟨r₀, hr₀, -, hc₀, hst⟩
      · rw [hr] at hn
        cases hn
      · rw [hr] at hr₀
        cases hr₀
        exact ⟨r₁, by rw [hrow, if_pos rfl], hb.code.trans hc₀.symm, hst⟩
    · obtain ⟨r', hr', hc⟩ := h.kept k r hr
      exact ⟨r', by rw [hrow, if_neg hki, hr'], hc⟩
  · rw [apply_one_other db' ht.symm]
    exact h.frame t k ht
  · rw [hrow] at ha hb'
    by_cases hai : a = i
    · by_cases hbi : b = i
      · rw [hai, hbi]
      · rw [if_pos hai] at ha
        rw [if_neg hbi] at hb'
        cases ha
        exact absurd (hc.symm.trans hb.code) (honly b r' hbi hb')
    · rw [if_neg hai] at ha
      by_cases hbi : b = i
      · rw [if_pos hbi] at hb'
        cases hb'
        exact absurd (hc.trans hb.code) (honly a r hai ha)
      · rw [if_neg hbi] at hb'
        exact h.codes a b r r' ha hb' hc

/-- A role that is as the manifest says is left alone. -/
theorem RolesSeeded.same (h : RolesSeeded done db db') {r₀ : Role} (hr : db'.rows .roles i = some r₀)
    (hb : Built sr r₀) : RolesSeeded (done ++ [sr]) db db' := by
  refine ⟨fun s hs ↦ ?_, fun k r hk ↦ ?_, h.kept, h.frame, h.codes⟩
  · rcases List.mem_append.1 hs with hs | hs
    · exact h.built s hs
    · rw [List.mem_singleton.1 hs]
      exact ⟨i, r₀, hr, hb⟩
  · rw [List.map_append, List.mem_append, not_or] at hk
    exact h.others k r hk.1

theorem run_unlocked (h : g.writes = []) (hf : g.fresh = 0) (he : g.ext = id) : runView v g = v := by
  unfold runView
  rw [h, hf, he, apply_nil]
  rfl

def foundRoles (db : Db) (srs : List SeedRole) : List (SeedRole × Option (ℕ × Role)) :=
  srs.map fun sr ↦ (sr, roleByCode db sr.code)

theorem ensures_findRoles : (srs : List SeedRole) →
    Ensures (findRoles srs) v fun found v' ↦ v' = v ∧ found = foundRoles v.db srs
  | [] => ensures_pure ⟨rfl, rfl⟩
  | sr :: srs => by
    refine ensures_bind (ensures_read ?_)
    refine ensures_bind (ensures_mono (ensures_findRoles srs) fun found v' h ↦ ensures_pure ?_)
    obtain ⟨rfl, rfl⟩ := h
    exact ⟨rfl, rfl⟩

theorem ensures_flushRole (hb : Below v) (h : RolesSeeded done db v.db)
    (hnew : sr.code ∉ done.map SeedRole.code) :
    Ensures (flushRole sr (roleByCode db sr.code)) v fun _ v' ↦
      Below v' ∧ v.next ≤ v'.next ∧ RolesSeeded (done ++ [sr]) db v'.db := by
  cases hf : roleByCode db sr.code with
  | none =>
    refine ensures_query fun g a hq ↦ ?_
    split at hq
    · cases hq
    · next hfree =>
      cases hq
      have hnone : db.rows .roles v.next = none := by
        cases hr : db.rows .roles v.next with
        | none => rfl
        | some r =>
          obtain ⟨r', hr', -⟩ := h.kept _ r hr
          exact absurd (hb .roles _ r' hr') (Nat.lt_irrefl _)
      refine ⟨hb.write rfl (Nat.lt_succ_self _), Nat.le_succ _, h.write ⟨rfl, rfl, rfl, rfl⟩ hnew ?_⟩
      refine .inl ⟨hnone, hb.none, fun j r hr ↦ ?_⟩
      rw [Option.not_isSome_iff_eq_none] at hfree
      exact roleByCode_none hfree hr
  | some x =>
    obtain ⟨id, loaded⟩ := x
    obtain ⟨hrow, hcode⟩ := roleByCode_some hf
    have hcur : v.db.rows .roles id = some loaded := by
      refine (h.others id loaded ?_).2 hrow
      rw [hcode]
      exact hnew
    refine ensures_query fun g a hq ↦ ?_
    split at hq
    · next he =>
      cases hq
      rw [run_empty]
      exact ⟨hb, Nat.le_refl _, h.same hcur ⟨hcode, he.1, he.2.1, he.2.2⟩⟩
    · rw [hcur] at hq
      cases hq
      refine ⟨hb.write rfl (Nat.lt_of_lt_of_le (hb .roles id loaded hcur) (Nat.le_add_right _ _)),
        Nat.le_add_right _ _, h.write ⟨hcode, ?_, ?_, ?_⟩ hnew (.inr ⟨loaded, hrow, hcur, hcode, rfl⟩)⟩
      all_goals
        simp only [flushed]
        split
        · next he => exact he.symm
        · rfl

theorem ensures_flushRoles (hb : Below v) (h : RolesSeeded done db v.db)
    (hnd : ((done ++ srs).map SeedRole.code).Nodup) :
    Ensures (flushRoles (foundRoles db srs)) v fun _ v' ↦
      Below v' ∧ v.next ≤ v'.next ∧ RolesSeeded (done ++ srs) db v'.db := by
  induction srs generalizing v done with
  | nil =>
    rw [List.append_nil]
    exact ensures_pure ⟨hb, Nat.le_refl _, h⟩
  | cons sr srs ih =>
    have hnew : sr.code ∉ done.map SeedRole.code := by
      rw [List.map_append, List.map_cons] at hnd
      intro hm
      exact (List.nodup_append.1 hnd).2.2 _ hm _ List.mem_cons_self rfl
    refine ensures_bind (ensures_mono (ensures_flushRole hb h hnew) fun _ v₁ h₁ ↦ ?_)
    obtain ⟨hb₁, hle, h₁⟩ := h₁
    refine ensures_mono (ih hb₁ h₁ ?_) fun _ v₂ h₂ ↦ ?_
    · rwa [List.append_assoc]
    · rw [List.append_assoc] at h₂
      exact ⟨h₂.1, Nat.le_trans hle h₂.2.1, h₂.2.2⟩

theorem completes_findRoles : (srs : List SeedRole) →
    Completes (findRoles srs) v fun found v' ↦ v' = v ∧ found = foundRoles v.db srs
  | [] => completes_pure ⟨rfl, rfl⟩
  | sr :: srs => by
    refine completes_bind (completes_read ?_)
    refine completes_bind (completes_mono (completes_findRoles srs) fun found v' h ↦ completes_pure ?_)
    obtain ⟨rfl, rfl⟩ := h
    exact ⟨rfl, rfl⟩

theorem completes_flushRoles (hu : CodesUnique v.db) (h : ∀ sr ∈ srs, ∃ i r,
      v.db.rows .roles i = some r ∧ Built sr r) :
    Completes (flushRoles (foundRoles v.db srs)) v fun _ v' ↦ v' = v := by
  induction srs with
  | nil => exact completes_pure rfl
  | cons sr srs ih =>
    obtain ⟨i, r, hr, hb⟩ := h sr List.mem_cons_self
    have hx : roleByCode v.db sr.code = some (i, r) := hb.code ▸ roleByCode_eq hu hr
    have hstep : Completes (flushRole sr (roleByCode v.db sr.code)) v fun _ v' ↦ v' = v := by
      rw [hx]
      refine completes_query (if_pos ⟨hb.name, hb.dataScope, hb.sortOrder⟩) ?_
      rw [run_empty]
    refine completes_bind (completes_mono hstep fun _ v' he ↦ ?_)
    rw [he]
    exact ih fun s hs ↦ h s (List.mem_cons_of_mem _ hs)

end AdminPlatform.Rbac.SeedRoles
