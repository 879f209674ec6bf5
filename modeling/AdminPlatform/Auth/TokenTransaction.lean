import AdminPlatform.Auth.TokenInvariant

namespace AdminPlatform.Auth.TokenTransaction

open Model.Schema Model.Service Foundation.Relational Foundation.Transaction
open Foundation.Interleaving Foundation.RelyGuarantee RefreshService TokenInvariant

def Holds (l : Private) (r : Resource Table LockName) : Prop := ∃ m, (r, m) ∈ l.held

def LocksUser (l : Private) (userId : ℕ) : Prop :=
  (.named (refreshUserLockName userId), .exclusive) ∈ l.held

/-- A value drawn by this session that the committed state does not know. -/
structure Sole (l : Private) (w : Shared) (u : ℕ) : Prop where
  own : (.own u, .exclusive) ∈ l.held
  fresh : ¬ Mentions w u
  below : u < w.next

/-- Every token of the family is revoked in what the session sees, and no other session
can add one. -/
def Ended (l : Private) (w : Shared) (f : ℕ) : Prop :=
  ∃ u, LocksUser l u ∧ (Note.issued f u ∈ w.log ∨ Note.issued f u ∈ l.notes ∧ Sole l w f) ∧
    ∀ i (r : RefreshToken), (w.view l).db.rows .refreshTokens i = some r → r.familyId = f →
      r.revokedAt.isSome

/-- No token of the user is left but in the families `rest` and in the family the session
itself opens. -/
def Swept (l : Private) (w : Shared) (u : ℕ) (rest : List ℕ) : Prop :=
  LocksUser l u ∧ ∀ i (r : RefreshToken), (w.view l).db.rows .refreshTokens i = some r →
    r.userId = u → Dead w.now r ∨ r.familyId ∈ rest ∨ Sole l w r.familyId

/-- The token a session adds. It opens a family unless it succeeds the token `old`. -/
structure Born (l : Private) (w : Shared) (old : Option ℕ) (j : ℕ) (t : RefreshToken) : Prop where
  pending : pending l.redo .refreshTokens j = some (some t)
  id : Sole l w j
  jti : Sole l w t.jti
  end_ : t.rotatedToJti = none
  locked : LocksUser l t.userId
  minted : Note.minted t.jti t.userId ∈ l.notes
  issued : Note.issued t.familyId t.userId ∈ l.notes
  users : Holds l (.row .users t.userId) ∧ ∃ x : User, w.db.rows .users t.userId = some x
  kept : Foundation.Relational.pending l.redo .users t.userId ≠ some none
  clock : t.issuedAt ≤ w.now
  expires : t.expiresAt ≤ t.familyAbsoluteAt
  opens : old = none → Sole l w t.familyId

/-- The token `i` that the session rotates to `t`. -/
structure Rotated (l : Private) (w : Shared) (i j : ℕ) (t : RefreshToken) (r r' : RefreshToken) :
    Prop where
  row : w.db.rows .refreshTokens i = some r
  pending : pending l.redo .refreshTokens i = some (some r')
  same : SameToken r r'
  unrevoked : r.revokedAt = none
  end_ : r.rotatedToJti = none
  link : r'.rotatedToJti = some t.jti
  revoked : r'.revokedAt.isSome
  family : t.familyId = r.familyId
  user : t.userId = r.userId
  absolute : t.familyAbsoluteAt = r.familyAbsoluteAt
  lt : i < j
  note : Note.rotated i r.familyId ∈ l.notes
  checked : ∃ n, r'.lastUsedAt = some n ∧ n ≤ w.now ∧ n < r.expiresAt
  followed : Followed r' t

/-- What a session's write to a user may be. -/
inductive UserWrite (l : Private) (w : Shared) (u : ℕ) : Option User → Prop
  | delete (x : User) : w.db.rows .users u = some x → UserWrite l w u none
  | keep (x x' : User) : w.db.rows .users u = some x → x.passwordHash = x'.passwordHash →
      UserWrite l w u (some x')
  | replace (x x' : User) (y : PasswordWriter) : w.db.rows .users u = some x →
      Note.passwordReplaced u y x.passwordHash x'.passwordHash ∈ l.notes → UserWrite l w u (some x')
  | create (x' : User) : Sole l w u → Sole l w x'.passwordHash.salt → UserWrite l w u (some x')

/-- A token that goes takes the one that was rotated to it along. -/
structure Removed (l : Private) (w : Shared) (t : RefreshToken) : Prop where
  minted : ∃ u, Note.minted t.jti u ∈ w.log
  linked : ∀ i (r : RefreshToken), w.db.rows .refreshTokens i = some r → r.rotatedToJti = some t.jti →
    pending l.redo .refreshTokens i = some none

/-- Where an unfinished transaction on users and tokens stands: the token `new` it adds, the
token `old` it rotates, and the user `reset` whose password it has replaced without having
ended the sessions yet. -/
structure Tx (s : Settings) (new old reset : Option ℕ) (l : Private) (w : Shared) :
    Prop where
  covered : Covered l
  weaken : ∀ i v, pending l.redo .refreshTokens i = some v → some i ≠ new → some i ≠ old →
    ∃ r : RefreshToken, w.db.rows .refreshTokens i = some r ∧
      ∀ r' : RefreshToken, v = some r' → SameToken r r' ∧ r'.rotatedToJti = r.rotatedToJti ∧
        r'.lastUsedAt = r.lastUsedAt
  born : ∀ j, new = some j → ∃ t, Born l w old j t
  rotates : ∀ i, old = some i → ∃ j t r r', new = some j ∧ Born l w old j t ∧ Rotated l w i j t r r'
  window : ∀ j (t : RefreshToken), new = some j →
    pending l.redo .refreshTokens j = some (some t) →
      t.lastUsedAt = none ∧ t.expiresAt ≤ t.issuedAt + s.authRefreshIdleTtlSeconds
  users : ∀ u v, pending l.redo .users u = some v → UserWrite l w u v
  gone : ∀ u, pending l.redo .users u = some none → ∀ i (r : RefreshToken),
    w.db.rows .refreshTokens i = some r → r.userId = u → pending l.redo .refreshTokens i = some none
  removed : ∀ j (t : RefreshToken), w.db.rows .refreshTokens j = some t →
    pending l.redo .refreshTokens j = some none → Removed l w t
  minted : ∀ x u, Note.minted x u ∈ l.notes → ∃ j, ∃ t : RefreshToken, new = some j ∧
    pending l.redo .refreshTokens j = some (some t) ∧ t.jti = x ∧ t.userId = u
  issued : ∀ f u, Note.issued f u ∈ l.notes → ∃ j, ∃ t : RefreshToken, new = some j ∧
    pending l.redo .refreshTokens j = some (some t) ∧ t.familyId = f ∧ t.userId = u
  granted : ∀ f u h, Note.granted f u h ∈ l.notes → Note.issued f u ∈ l.notes ∧ Sole l w f ∧
    (Note.loginVerified u h ∈ l.notes ∧ pending l.redo .users u = none ∨
      ∃ x : User, pending l.redo .users u = some (some x) ∧ x.passwordHash = h)
  revoked : ∀ f x, Note.revoked f x ∈ l.notes → Ended l w f
  rotated : ∀ i f, Note.rotated i f ∈ l.notes → s.authRefreshTokenPepper ≠ "" ∧ old = some i ∧
    ∃ r : RefreshToken, w.db.rows .refreshTokens i = some r ∧ r.familyId = f
  ordered : l.notes.Pairwise Final
  replaced : ∀ u y o n, Note.passwordReplaced u y o n ∈ l.notes → old = none ∧ Sole l w n.salt ∧
    (∃ x x' : User, w.db.rows .users u = some x ∧ x.passwordHash = o ∧
      pending l.redo .users u = some (some x') ∧ x'.passwordHash = n) ∧
    (y = .changePassword → s.authRefreshTokenPepper ≠ "" → reset = some u ∨ Swept l w u [])

/-- The conditions under which a password change is sure to end the old sessions. -/
structure PasswordGuard (w : Shared) (notes : List Note) : Prop where
  login : ∀ f u h, Note.granted f u h ∈ notes → Note.loginVerified u h ∈ notes →
    ∀ x : User, w.db.rows .users u = some x → x.passwordHash = h
  update : ∀ u o n, Note.passwordReplaced u .userUpdate o n ∈ notes →
    ∀ i (r : RefreshToken), w.db.rows .refreshTokens i = some r → r.userId = u → Dead w.now r
  rotate : ∀ i f, Note.rotated i f ∈ notes →
    ∀ r : RefreshToken, w.db.rows .refreshTokens i = some r → w.now < r.expiresAt

variable {s : Settings} {strict : Prop} {new old reset : Option ℕ} {l l' : Private} {w w' : Shared}
  {u f : ℕ}

theorem sole_rely (h : Sole l w u) (hr : Rely (tokenProtocol s strict) l w w') : Sole l w' u :=
  ⟨h.own, hr.prot _ h.own h.fresh, Nat.lt_of_lt_of_le h.below hr.later.next⟩

theorem userProt_rely {u : ℕ} (h : LocksUser l u) (hr : Rely (tokenProtocol s strict) l w w') :
    UserProt (u % _REFRESH_USER_LOCK_BUCKETS) w w' :=
  hr.prot _ h

theorem row_of_pending {t : Table} {i : ℕ} {v : Option (Row t)} (hc : Covered l)
    (hr : Rely (tokenProtocol s strict) l w w') (hp : pending l.redo t i = some v) :
    w'.db.rows t i = w.db.rows t i :=
  hr.row t i .exclusive (hc _ (pending_mem hp))

theorem row_of_holds {t : Table} {i : ℕ} (h : Holds l (.row t i))
    (hr : Rely (tokenProtocol s strict) l w w') : w'.db.rows t i = w.db.rows t i := by
  obtain ⟨m, hm⟩ := h
  exact hr.row t i m hm

/-- What a session sees of a locked user's tokens, it saw before. -/
theorem view_token {u i : ℕ} (h : LocksUser l u)
    (hr : Rely (tokenProtocol s strict) l w w') {r' : RefreshToken}
    (hv : (w'.view l).db.rows .refreshTokens i = some r') (hu : r'.userId = u) :
    ∃ r : RefreshToken, (w.view l).db.rows .refreshTokens i = some r ∧ SameToken r r' := by
  rw [view_db, apply_rows] at hv
  cases hp : pending l.redo .refreshTokens i with
  | some v =>
    refine ⟨r', ?_, .refl r'⟩
    rw [view_db, apply_rows, hp]
    rw [hp] at hv
    exact hv
  | none =>
    rw [hp] at hv
    obtain ⟨r, hrow, hs⟩ := userProt_rely h hr i r' hv (by rw [hu]; rfl)
    refine ⟨r, ?_, hs⟩
    rw [view_db, apply_rows, hp]
    exact hrow

theorem ended_rely (h : Ended l w f) (hr : Rely (tokenProtocol s strict) l w w') :
    Ended l w' f := by
  obtain ⟨u, hl, hi, hrev⟩ := h
  have hi' : Note.issued f u ∈ w'.log ∨ Note.issued f u ∈ l.notes ∧ Sole l w' f := by
    rcases hi with hi | ⟨hn, hs⟩
    · exact .inl (hr.later.mem_log hi)
    · exact .inr ⟨hn, sole_rely hs hr⟩
  refine ⟨u, hl, hi', fun i r' hv hf ↦ ?_⟩
  cases hp : pending l.redo .refreshTokens i with
  | some v =>
    refine hrev i r' ?_ hf
    rw [view_db, apply_rows, hp] at hv ⊢
    exact hv
  | none =>
    have hrow : w'.db.rows .refreshTokens i = some r' := by
      rw [view_db, apply_rows, hp] at hv
      exact hv
    have hiss := hr.inv.1.issued i r' hrow
    rw [hf] at hiss
    have hu : r'.userId = u := by
      rcases hi' with hi' | ⟨-, hs⟩
      · exact hr.inv.1.issued_fun f _ _ hiss hi'
      · exact absurd (.issued _ hiss) hs.fresh
    obtain ⟨r, hvr, hs⟩ := view_token hl hr hv hu
    exact hs.revoked (hrev i r hvr (hs.family.symm.trans hf))

theorem swept_rely {rest : List ℕ} (h : Swept l w u rest)
    (hr : Rely (tokenProtocol s strict) l w w') : Swept l w' u rest := by
  refine ⟨h.1, fun i r' hv hu ↦ ?_⟩
  obtain ⟨r, hvr, hs⟩ := view_token h.1 hr hv hu
  rcases h.2 i r hvr (hs.user.symm.trans hu) with hd | hm | hn
  · exact .inl (hs.dead (hd.later hr.later.now))
  · exact .inr (.inl (hs.family ▸ hm))
  · exact .inr (.inr (hs.family ▸ sole_rely hn hr))

theorem born_rely {j : ℕ} {t : RefreshToken} (h : Born l w old j t)
    (hr : Rely (tokenProtocol s strict) l w w') : Born l w' old j t where
  pending := h.pending
  id := sole_rely h.id hr
  jti := sole_rely h.jti hr
  end_ := h.end_
  locked := h.locked
  minted := h.minted
  issued := h.issued
  users := by
    obtain ⟨hh, x, hx⟩ := h.users
    exact ⟨hh, x, by rw [row_of_holds hh hr]; exact hx⟩
  kept := h.kept
  clock := Nat.le_trans h.clock hr.later.now
  expires := h.expires
  opens ho := sole_rely (h.opens ho) hr

theorem rotated_rely {i j : ℕ} {t r r' : RefreshToken} (h : Rotated l w i j t r r')
    (hc : Covered l) (hr : Rely (tokenProtocol s strict) l w w') : Rotated l w' i j t r r' :=
  { h with
    row := by rw [row_of_pending hc hr h.pending]; exact h.row
    checked := by
      obtain ⟨n, hn, hw, he⟩ := h.checked
      exact ⟨n, hn, Nat.le_trans hw hr.later.now, he⟩ }

theorem userWrite_rely {u : ℕ} {v : Option User} (h : UserWrite l w u v) (hc : Covered l)
    (hp : pending l.redo .users u = some v) (hr : Rely (tokenProtocol s strict) l w w') :
    UserWrite l w' u v := by
  have he : w'.db.rows .users u = w.db.rows .users u := row_of_pending hc hr hp
  cases h with
  | delete x hx => exact .delete x (he.trans hx)
  | keep x x' hx hk => exact .keep x x' (he.trans hx) hk
  | replace x x' y hx hn => exact .replace x x' y (he.trans hx) hn
  | create x' h h' => exact .create x' (sole_rely h hr) (sole_rely h' hr)

theorem removed_rely {t : RefreshToken} (h : Removed l w t) (hr : Rely (tokenProtocol s strict) l w w') :
    Removed l w' t where
  minted := by
    obtain ⟨u, hu⟩ := h.minted
    exact ⟨u, hr.later.mem_log hu⟩
  linked i r' hr' hl := by
    obtain ⟨u, hu⟩ := h.minted
    have hguar : TokenGuar w w' := hr.guar
    obtain ⟨r, hrow, hx⟩ := hguar.linked t.jti u i r' hu hr' hl
    exact h.linked i r hrow hx

/-- The others do not disturb a transaction. -/
theorem Tx.rely (h : Tx s new old reset l w) (hr : Rely (tokenProtocol s strict) l w w') :
    Tx s new old reset l w' where
  covered := h.covered
  weaken i v hp hn ho := by
    rw [row_of_pending h.covered hr hp]
    exact h.weaken i v hp hn ho
  born j hj := by
    obtain ⟨t, ht⟩ := h.born j hj
    exact ⟨t, born_rely ht hr⟩
  rotates i hi := by
    obtain ⟨j, t, r, r', hj, ht, hrot⟩ := h.rotates i hi
    exact ⟨j, t, r, r', hj, born_rely ht hr, rotated_rely hrot h.covered hr⟩
  window := h.window
  users u v hp := userWrite_rely (h.users u v hp) h.covered hp hr
  gone u hp i r' hr' hu := by
    have hprot : NoneAdded u w w' := hr.prot _ (h.covered _ (pending_mem hp))
    obtain ⟨r, hrow, hu'⟩ := hprot i r' hr' hu
    exact h.gone u hp i r hrow hu'
  removed j t ht hp := removed_rely (h.removed j t ((row_of_pending h.covered hr hp).symm.trans ht) hp) hr
  minted := h.minted
  issued := h.issued
  granted f u y hn := by
    obtain ⟨hi, hs, hg⟩ := h.granted f u y hn
    exact ⟨hi, sole_rely hs hr, hg⟩
  revoked f x hn := ended_rely (h.revoked f x hn) hr
  rotated i f hn := by
    obtain ⟨hs, ho, r, hrow, hf⟩ := h.rotated i f hn
    obtain ⟨j, t, r₀, r', -, -, hrot⟩ := h.rotates i ho
    exact ⟨hs, ho, r, by rw [row_of_pending h.covered hr hrot.pending]; exact hrow, hf⟩
  ordered := h.ordered
  replaced u y o n hn := by
    obtain ⟨ho, hs, ⟨x, x', hx, hxo, hp, hxn⟩, hsw⟩ := h.replaced u y o n hn
    refine ⟨ho, sole_rely hs hr, ⟨x, x', ?_, hxo, hp, hxn⟩, fun hy hsp ↦ ?_⟩
    · rw [row_of_pending h.covered hr hp]
      exact hx
    · rcases hsw hy hsp with hsw | hsw
      · exact .inl hsw
      · exact .inr (swept_rely hsw hr)

end AdminPlatform.Auth.TokenTransaction
