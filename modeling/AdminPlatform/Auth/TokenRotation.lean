import AdminPlatform.Auth.TokenPrograms

namespace AdminPlatform.Auth.TokenRotation

open Model.Schema Model.Service Foundation.Relational Foundation.Transaction
open Foundation.Interleaving Foundation.RelyGuarantee RefreshService RefreshTokenRepository
open TokenInvariant TokenTransaction TokenStatements TokenPrograms

variable {s : Settings} {strict : Prop} {G : Guard Table Row LockName Storage Note}
  {l l' : Private} {w w' : Shared} {i j n : ℕ} {t r : RefreshToken}
  {E : Failure → Private → Shared → Prop}

/-- The live token `i` is locked for rotation and nothing has been written yet. -/
structure Locked (s : Settings) (l : Private) (w : Shared) (i : ℕ)
    (r : RefreshToken) : Prop where
  tx : Tx s none none none l w
  redo : l.redo = []
  notes : l.notes = []
  row : w.db.rows .refreshTokens i = some r
  held : (.row .refreshTokens i, .exclusive) ∈ l.held
  unrevoked : r.revokedAt = none
  end_ : r.rotatedToJti = none
  locked : LocksUser l r.userId

theorem Locked.onward (h : Locked s l w i r) (ho : Onward s strict l w l' w')
    (htx : Tx s none none none l' w') (hr : l'.redo = l.redo) (hn : l'.notes = l.notes) :
    Locked s l' w' i r where
  tx := htx
  redo := hr.trans h.redo
  notes := hn.trans h.notes
  row := (ho.after.rely.row _ _ _ h.held).trans h.row
  held := ho.after.held h.held
  unrevoked := h.unrevoked
  end_ := h.end_
  locked := ho.locks h.locked

/-- The successor `t` is inserted, the token `i` not yet marked. -/
structure Succeeding (s : Settings) (l : Private) (w : Shared) (i j : ℕ)
    (t r : RefreshToken) : Prop where
  covered : Covered l
  redo : l.redo = [⟨.refreshTokens, j, some t⟩]
  notes : l.notes = [.minted t.jti t.userId, .issued t.familyId t.userId]
  row : w.db.rows .refreshTokens i = some r
  held : (.row .refreshTokens i, .exclusive) ∈ l.held
  unrevoked : r.revokedAt = none
  end_ : r.rotatedToJti = none
  id : Sole l w j
  jti : Sole l w t.jti
  new : t.rotatedToJti = none
  locked : LocksUser l t.userId
  users : Holds l (.row .users t.userId) ∧ ∃ x : User, w.db.rows .users t.userId = some x
  family : t.familyId = r.familyId
  user : t.userId = r.userId
  absolute : t.familyAbsoluteAt = r.familyAbsoluteAt
  clock : t.issuedAt ≤ w.now
  expires : t.expiresAt ≤ t.familyAbsoluteAt
  window : t.lastUsedAt = none ∧ t.expiresAt ≤ t.issuedAt + s.authRefreshIdleTtlSeconds
  later : r.issuedAt ≤ t.issuedAt ∧ r.expiresAt ≤ t.expiresAt
  lt : i < j

theorem Succeeding.rely (h : Succeeding s l w i j t r)
    (hr : Rely (tokenProtocol s strict) l w w') : Succeeding s l w' i j t r :=
  { h with
    row := (hr.row _ _ _ h.held).trans h.row
    id := sole_rely h.id hr
    jti := sole_rely h.jti hr
    users := by
      obtain ⟨hh, x, hx⟩ := h.users
      exact ⟨hh, x, (row_of_holds hh hr).trans hx⟩
    clock := Nat.le_trans h.clock hr.later.now }

/-- Inserting the successor of a locked token. -/
theorem wp_create_successor {Q : Unit → Private → Shared → Prop} (h : Locked s l w i r)
    (hj : Sole l w t.jti) (hf : t.familyId = r.familyId) (hu : t.userId = r.userId)
    (ha : t.familyAbsoluteAt = r.familyAbsoluteAt) (hc : t.issuedAt ≤ w.now)
    (hexp : t.expiresAt ≤ t.familyAbsoluteAt) (he : t.rotatedToJti = none)
    (hwin : t.lastUsedAt = none ∧ t.expiresAt ≤ t.issuedAt + s.authRefreshIdleTtlSeconds)
    (hlater : r.issuedAt ≤ t.issuedAt ∧ r.expiresAt ≤ t.expiresAt)
    (hE : ∀ l w, E .integrity l w)
    (hQ : ∀ j l' w', Onward s strict l w l' w' → Succeeding s l' w' i j t r → Q () l' w') :
    wp (tokenProtocol s strict) G (create t) Q E l w := by
  refine wp_query fun w' hr ↦ ?_
  cases hx : (w'.view l).db.rows .users t.userId with
  | none => exact hE l w'
  | some x =>
    refine fun _ ↦ ⟨rfl, ?_⟩
    have htx := h.tx.rely hr
    have hrow : w'.db.rows .refreshTokens i = some r := (hr.row _ _ _ h.held).trans h.row
    have hredo : (l.run (creation t w'.next) w'.next).redo = [⟨.refreshTokens, w'.next, some t⟩] := by
      show l.redo ++ _ = _
      rw [h.redo]
      rfl
    refine hQ w'.next _ _ (onward_run hr rfl fun u ↦ ?_) ⟨covered_run h.tx.covered _ _, hredo,
      ?_, hrow, List.mem_append_left _ h.held, h.unrevoked, h.end_,
      sole_drawn hr.inv.1 Nat.one_pos, sole_run (sole_rely hj hr), he, hu ▸ locksUser_run h.locked,
      ⟨creation_holds, x, ?_⟩, hf, hu, ha, Nat.le_trans hc hr.later.now, hexp,
      hwin, hlater, hr.inv.1.below i (.tokenId r hrow)⟩
    · rw [pending_singleton]
      exact Write.at_other (by decide) _ _ _
    · show l.notes ++ _ = _
      rw [h.notes]
      rfl
    · rw [view_db, apply_rows, h.redo] at hx
      exact hx

/-- The statement of `markRotated`. -/
abbrev rotation (i : ℕ) (x n : ℕ) (r : RefreshToken) : Statement where
  writes := [⟨.refreshTokens, i, some (rotatedRow x n r)⟩]
  notes := [.rotated i r.familyId]

theorem tx_rotation (h : Succeeding s l w i j t r) (hs : s.authRefreshTokenPepper ≠ "")
    (hn : n ≤ w.now) (hlt : n < r.expiresAt) (hnt : n ≤ t.issuedAt) :
    Tx s (some j) (some i) none (l.run (rotation i t.jti n r) w.next)
      (w.run (rotation i t.jti n r)) := by
  have hne : i ≠ j := Nat.ne_of_lt h.lt
  have hpend : ∀ (T : Table) k, pending (l.run (rotation i t.jti n r) w.next).redo T k =
      ((⟨.refreshTokens, i, some (rotatedRow t.jti n r)⟩ : Write Row).at T k).or
        ((⟨.refreshTokens, j, some t⟩ : Write Row).at T k) := by
    intro T k
    show pending (l.redo ++ [_]) T k = _
    rw [pending_append, h.redo, pending_singleton, pending_singleton]
  have hpj : pending (l.run (rotation i t.jti n r) w.next).redo .refreshTokens j = some (some t) := by
    rw [hpend, Write.at_id_ne hne, Write.at_self]
    rfl
  have hpu : ∀ u, pending (l.run (rotation i t.jti n r) w.next).redo .users u = none := by
    intro u
    rw [hpend, Write.at_other (by decide), Write.at_other (by decide)]
    rfl
  have hpi : pending (l.run (rotation i t.jti n r) w.next).redo .refreshTokens i =
      some (some (rotatedRow t.jti n r)) := by
    rw [hpend, Write.at_self]
    rfl
  have hnotes : (l.run (rotation i t.jti n r) w.next).notes =
      [.minted t.jti t.userId, .issued t.familyId t.userId, .rotated i r.familyId] := by
    show l.notes ++ _ = _
    rw [h.notes]
    rfl
  have hborn : Born (l.run (rotation i t.jti n r) w.next) (w.run (rotation i t.jti n r)) (some i) j t :=
    ⟨hpj, sole_run h.id, sole_run h.jti, h.new, locksUser_run h.locked,
      by simp [hnotes], by simp [hnotes],
      ⟨holds_run h.users.1, h.users.2⟩, by rw [hpu]; simp, h.clock, h.expires, fun ho ↦ by cases ho⟩
  refine ⟨covered_run h.covered _ _, fun k v hv hk hk' ↦ ?_, fun k hk ↦ ?_, fun k hk ↦ ?_,
    fun k t' hk ht' ↦ ?_,
    fun u v hv ↦ ?_, fun u hp ↦ ?_, fun k q _ hk ↦ ?_, fun x u hm ↦ ?_, fun f u hm ↦ ?_, fun f u y hm ↦ ?_,
    fun f x hm ↦ ?_,
    fun k f hm ↦ ?_, ?_, fun u y o m hm ↦ ?_⟩
  · rw [hpend, Write.at_id_ne (fun he ↦ hk' (congrArg some he.symm)),
      Write.at_id_ne (fun he ↦ hk (congrArg some he.symm))] at hv
    cases hv
  · cases hk
    exact ⟨t, hborn⟩
  · cases hk
    exact ⟨j, t, r, rotatedRow t.jti n r, rfl, hborn, h.row, hpi,
      ⟨rfl, rfl, rfl, rfl, rfl, rfl, fun _ ↦ rfl⟩, h.unrevoked, h.end_, rfl, rfl, h.family, h.user,
      h.absolute, h.lt, List.mem_append_right _ (by simp), ⟨n, rfl, hn, hlt⟩, rfl, h.later.1, hnt, h.later.2⟩
  · cases hk
    rw [hpj] at ht'
    cases ht'
    exact h.window
  · rw [hpu] at hv
    cases hv
  · rw [hpu] at hp
    cases hp
  · rw [hpend] at hk
    rcases Option.or_eq_some_iff.1 hk with hk | ⟨-, hk⟩
    · cases Write.at_eq_some hk
    · cases Write.at_eq_some hk
  · simp only [hnotes, List.mem_cons, Note.minted.injEq, reduceCtorEq, List.not_mem_nil,
      or_false] at hm
    exact ⟨j, t, rfl, hpj, hm.1.symm, hm.2.symm⟩
  · simp only [hnotes, List.mem_cons, Note.issued.injEq, reduceCtorEq, List.not_mem_nil,
      or_false, false_or] at hm
    exact ⟨j, t, rfl, hpj, hm.1.symm, hm.2.symm⟩
  · simp [hnotes] at hm
  · simp [hnotes] at hm
  · simp only [hnotes, List.mem_cons, Note.rotated.injEq, reduceCtorEq, List.not_mem_nil,
      or_false, false_or] at hm
    exact ⟨hs, congrArg some hm.1.symm, r, hm.1 ▸ h.row, hm.2.symm⟩
  · refine List.pairwise_of_forall_mem_list fun m hm m' _ f x k he ↦ ?_
    subst he
    simp [hnotes] at hm
  · simp [hnotes] at hm

theorem wp_markRotated {Q : Unit → Private → Shared → Prop} (h : Succeeding s l w i j t r)
    (hs : s.authRefreshTokenPepper ≠ "") (hn : n ≤ w.now) (hlt : n < r.expiresAt)
    (hnt : n ≤ t.issuedAt)
    (hQ : ∀ l' w', Onward s strict l w l' w' → Tx s (some j) (some i) none l' w' → Q () l' w') :
    wp (tokenProtocol s strict) G (markRotated i t.jti n) Q E l w := by
  refine wp_query fun w' hr ↦ ?_
  have h' := h.rely hr
  have hv : (w'.view l).db.rows .refreshTokens i = some r := by
    rw [view_db, apply_rows_of_none ?_]
    · exact h'.row
    · rw [h.redo, pending_singleton]
      exact Write.at_id_ne (Nat.ne_of_gt h.lt) _
  rw [hv]
  have hn' : n ≤ w'.now := Nat.le_trans hn hr.later.now
  refine fun _ ↦ ⟨rfl, hQ _ _ (onward_run hr rfl fun u ↦ ?_) (tx_rotation h' hs hn' hlt hnt)⟩
  rw [pending_singleton]
  exact Write.at_other (by decide) _ _ _

end AdminPlatform.Auth.TokenRotation
