import AdminPlatform.Auth.Service

namespace AdminPlatform.Auth.TokenInvariant

open Model.Schema Model.Service Foundation.Relational Foundation.Transaction
open Foundation.Interleaving Foundation.RelyGuarantee RefreshService RefreshTokenRepository

/-- The committed state knows the value `u`, so it is not fresh any more. -/
inductive Mentions (w : Shared) (u : ℕ) : Prop
  | tokenId (r : RefreshToken) : w.db.rows .refreshTokens u = some r → Mentions w u
  | jti (i : ℕ) (r : RefreshToken) : w.db.rows .refreshTokens i = some r → r.jti = u → Mentions w u
  | link (i : ℕ) (r : RefreshToken) :
      w.db.rows .refreshTokens i = some r → r.rotatedToJti = some u → Mentions w u
  | userId (x : User) : w.db.rows .users u = some x → Mentions w u
  | salt (i : ℕ) (x : User) : w.db.rows .users i = some x → x.passwordHash.salt = u → Mentions w u
  | minted (x : ℕ) : Note.minted u x ∈ w.log → Mentions w u
  | issued (x : ℕ) : Note.issued u x ∈ w.log → Mentions w u
  | issuedTo (x : ℕ) : Note.issued x u ∈ w.log → Mentions w u
  | granted (x : ℕ) (h : PasswordHash) : Note.granted u x h ∈ w.log → Mentions w u
  | revoked (x : RevokedReason) : Note.revoked u x ∈ w.log → Mentions w u
  | rotated (x : ℕ) : Note.rotated x u ∈ w.log → Mentions w u
  | replaced (x : ℕ) (y : PasswordWriter) (old new : PasswordHash) :
      Note.passwordReplaced x y old new ∈ w.log → old.salt = u → Mentions w u

def Final (n n' : Note) : Prop := ∀ f x i, n = .revoked f x → n' ≠ .rotated i f

/-- What holds of the committed refresh tokens and of the log of committed transactions. -/
structure TokenInv (w : Shared) : Prop where
  below : ∀ u, Mentions w u → u < w.next
  jti_inj : ∀ i j (r s : RefreshToken), w.db.rows .refreshTokens i = some r →
    w.db.rows .refreshTokens j = some s → r.jti = s.jti → i = j
  minted : ∀ i (r : RefreshToken), w.db.rows .refreshTokens i = some r →
    Note.minted r.jti r.userId ∈ w.log
  minted_fun : ∀ x u u', Note.minted x u ∈ w.log → Note.minted x u' ∈ w.log → u = u'
  issued : ∀ i (r : RefreshToken), w.db.rows .refreshTokens i = some r →
    Note.issued r.familyId r.userId ∈ w.log
  owner : ∀ i (r : RefreshToken), w.db.rows .refreshTokens i = some r →
    ∃ x : User, w.db.rows .users r.userId = some x
  issued_fun : ∀ f u u', Note.issued f u ∈ w.log → Note.issued f u' ∈ w.log → u = u'
  granted_issued : ∀ f u h, Note.granted f u h ∈ w.log → Note.issued f u ∈ w.log
  rotated_revoked : ∀ i (r : RefreshToken), w.db.rows .refreshTokens i = some r →
    r.rotatedToJti.isSome → r.revokedAt.isSome
  one_end : ∀ i j (r s : RefreshToken), w.db.rows .refreshTokens i = some r →
    w.db.rows .refreshTokens j = some s → r.familyId = s.familyId →
    r.rotatedToJti = none → s.rotatedToJti = none → i = j
  link_inj : ∀ i j (r s : RefreshToken) x, w.db.rows .refreshTokens i = some r →
    w.db.rows .refreshTokens j = some s → r.rotatedToJti = some x → s.rotatedToJti = some x → i = j
  link : ∀ i j (r s : RefreshToken), w.db.rows .refreshTokens i = some r →
    w.db.rows .refreshTokens j = some s → r.rotatedToJti = some s.jti →
    r.familyId = s.familyId ∧ r.userId = s.userId ∧ i < j
  target : ∀ i (r : RefreshToken) x, w.db.rows .refreshTokens i = some r → r.rotatedToJti = some x →
    ∃ j, ∃ t : RefreshToken, w.db.rows .refreshTokens j = some t ∧ t.jti = x
  revoked : ∀ f x, Note.revoked f x ∈ w.log → ∀ i (r : RefreshToken),
    w.db.rows .refreshTokens i = some r → r.familyId = f → r.revokedAt.isSome
  final : w.log.Pairwise Final

theorem TokenInv.end_of_unrevoked {w : Shared} (h : TokenInv w) {i : ℕ} {r : RefreshToken}
    (hr : w.db.rows .refreshTokens i = some r) (hn : r.revokedAt = none) : r.rotatedToJti = none := by
  by_contra hc
  have hs := h.rotated_revoked i r hr (Option.isSome_iff_ne_none.2 hc)
  rw [hn] at hs
  cases hs

theorem TokenInv.unrevoked_inj {w : Shared} (h : TokenInv w) (i j : ℕ) (r t : RefreshToken)
    (hr : w.db.rows .refreshTokens i = some r) (ht : w.db.rows .refreshTokens j = some t)
    (hf : r.familyId = t.familyId) (hn : r.revokedAt = none) (hn' : t.revokedAt = none) : i = j :=
  h.one_end i j r t hr ht hf (h.end_of_unrevoked hr hn) (h.end_of_unrevoked ht hn')

def Fresher (log : List Note) (n n' : Note) : Prop := ∀ u x old new i f h,
  n = .passwordReplaced u x old new → n' = .rotated i f → Note.granted f u h ∈ log → h ≠ old

def Dead (now : ℕ) (r : RefreshToken) : Prop := r.revokedAt.isSome ∨ r.expiresAt ≤ now

structure PasswordInv (s : Settings) (w : Shared) : Prop where
  stale : s.authRefreshTokenPepper ≠ "" → ∀ f u h (x : User), Note.granted f u h ∈ w.log →
    w.db.rows .users u = some x → x.passwordHash ≠ h → ∀ i (r : RefreshToken),
    w.db.rows .refreshTokens i = some r → r.familyId = f → Dead w.now r
  retired : ∀ u y old new (x : User), Note.passwordReplaced u y old new ∈ w.log →
    w.db.rows .users u = some x → x.passwordHash ≠ old
  fresher : w.log.Pairwise (Fresher w.log)

/-- The same token, at most revoked. -/
structure SameToken (r r' : RefreshToken) : Prop where
  jti : r'.jti = r.jti
  family : r'.familyId = r.familyId
  user : r'.userId = r.userId
  expires : r'.expiresAt = r.expiresAt
  issued : r'.issuedAt = r.issuedAt
  absolute : r'.familyAbsoluteAt = r.familyAbsoluteAt
  revoked : r.revokedAt.isSome → r'.revokedAt.isSome

/-- The token `t` has followed `r` in its family. -/
structure Followed (r t : RefreshToken) : Prop where
  rotated : r.rotatedToJti.isSome
  issued : r.issuedAt ≤ t.issuedAt
  used : r.lastUsedAt.getD r.issuedAt ≤ t.issuedAt
  expires : r.expiresAt ≤ t.expiresAt

structure LifetimeInv (s : Settings) (w : Shared) : Prop where
  issued : ∀ i (r : RefreshToken), w.db.rows .refreshTokens i = some r → r.issuedAt ≤ w.now
  expires : ∀ i (r : RefreshToken), w.db.rows .refreshTokens i = some r →
    r.expiresAt ≤ r.familyAbsoluteAt
  window : ∀ i (r : RefreshToken), w.db.rows .refreshTokens i = some r →
    r.expiresAt ≤ r.issuedAt + s.authRefreshIdleTtlSeconds
  unused : ∀ i (r : RefreshToken), w.db.rows .refreshTokens i = some r →
    r.rotatedToJti = none → r.lastUsedAt = none
  followed : ∀ i j (r t : RefreshToken), w.db.rows .refreshTokens i = some r →
    w.db.rows .refreshTokens j = some t → r.familyId = t.familyId → i < j → Followed r t

def liveFamilies (db : Db) (userId now : ℕ) : List ℕ :=
  byRecency (db.select .refreshTokens fun _ r ↦ isActive userId now r)

/-- A token that the step from `w` to `w'` revokes for the concurrency limit. -/
structure Evicted (w w' : Shared) (r : RefreshToken) : Prop where
  before : r.revokedAt = none
  after : ∃ i, ∃ r' : RefreshToken, w.db.rows .refreshTokens i = some r ∧
    w'.db.rows .refreshTokens i = some r' ∧ r'.revokedAt.isSome ∧
    r'.revokedReason = some .concurrencyLimit

/-- What the step from `w` to `w'` that opens a family with the token `t` does. -/
structure Opening (s : Settings) (w w' : Shared) (t : RefreshToken) : Prop where
  absolute : t.familyAbsoluteAt = t.issuedAt + s.authRefreshAbsoluteTtlSeconds
  expires : t.expiresAt = min (t.issuedAt + s.authRefreshIdleTtlSeconds) t.familyAbsoluteAt
  unrevoked : t.revokedAt = none
  cap : (liveFamilies w'.db t.userId w'.now).length ≤ s.authRefreshMaxSessionsPerUser
  eldest : ∀ r, Evicted w w' r → r.userId = t.userId → ∀ k (q : RefreshToken),
    w'.db.rows .refreshTokens k = some q → isActive t.userId w'.now q = true →
    q.familyId ≠ t.familyId → r.issuedAt ≤ q.issuedAt

/-- What holds across one change of users and refresh tokens. -/
structure TokenChange (s : Settings) (w w' : Shared) : Prop where
  opened : ∀ j (t : RefreshToken), w'.db.rows .refreshTokens j = some t →
    (∀ u, Note.issued t.familyId u ∉ w.log) → Opening s w w' t
  rotated : ∀ i (r r' : RefreshToken), w.db.rows .refreshTokens i = some r →
    r.rotatedToJti = none → w'.db.rows .refreshTokens i = some r' → r'.rotatedToJti.isSome →
    ∃ n, r'.lastUsedAt = some n ∧ n ≤ w.now ∧ n < r.expiresAt
  kept : ∀ i (r r' : RefreshToken), w.db.rows .refreshTokens i = some r →
    w'.db.rows .refreshTokens i = some r' → SameToken r r'
  added : ∀ i (r' : RefreshToken), w.db.rows .refreshTokens i = none →
    w'.db.rows .refreshTokens i = some r' → r'.rotatedToJti = none

theorem Dead.later {now now' : ℕ} {r : RefreshToken} (h : Dead now r) (hn : now ≤ now') :
    Dead now' r := by
  rcases h with h | h
  · exact .inl h
  · exact .inr (by omega)

theorem SameToken.refl (r : RefreshToken) : SameToken r r := ⟨rfl, rfl, rfl, rfl, rfl, rfl, id⟩

theorem SameToken.trans {r r' r'' : RefreshToken} (h : SameToken r r') (h' : SameToken r' r'') :
    SameToken r r'' :=
  ⟨h'.jti.trans h.jti, h'.family.trans h.family, h'.user.trans h.user, h'.expires.trans h.expires,
    h'.issued.trans h.issued, h'.absolute.trans h.absolute, fun hs ↦ h'.revoked (h.revoked hs)⟩

theorem SameToken.dead {n : ℕ} {r r' : RefreshToken} (hs : SameToken r r') (h : Dead n r) :
    Dead n r' := by
  rcases h with h | h
  · exact .inl (hs.revoked h)
  · exact .inr (by rw [hs.expires]; exact h)

theorem SameToken.unrevoked {r r' : RefreshToken} (hs : SameToken r r') (h : r'.revokedAt = none) :
    r.revokedAt = none := by
  by_contra hn
  have hr := hs.revoked (Option.isSome_iff_ne_none.2 hn)
  rw [h] at hr
  cases hr

theorem Mentions.congr {w w' : Shared} (hd : w'.db = w.db) (hl : w'.log = w.log) {u : ℕ}
    (h : Mentions w' u) : Mentions w u := by
  cases h with
  | tokenId r h => exact .tokenId r (hd ▸ h)
  | jti i r h e => exact .jti i r (hd ▸ h) e
  | link i r h e => exact .link i r (hd ▸ h) e
  | userId x h => exact .userId x (hd ▸ h)
  | salt i x h e => exact .salt i x (hd ▸ h) e
  | minted x h => exact .minted x (hl ▸ h)
  | issued x h => exact .issued x (hl ▸ h)
  | issuedTo x h => exact .issuedTo x (hl ▸ h)
  | granted x y h => exact .granted x y (hl ▸ h)
  | revoked x h => exact .revoked x (hl ▸ h)
  | rotated x h => exact .rotated x (hl ▸ h)
  | replaced x y old new h e => exact .replaced x y old new (hl ▸ h) e

theorem TokenInv.congr {w w' : Shared} (h : TokenInv w) (hd : w'.db = w.db) (hl : w'.log = w.log)
    (hn : w.next ≤ w'.next) : TokenInv w' where
  below u hu := Nat.lt_of_lt_of_le (h.below u (hu.congr hd hl)) hn
  jti_inj := by rw [hd]; exact h.jti_inj
  minted := by rw [hd, hl]; exact h.minted
  minted_fun := by rw [hl]; exact h.minted_fun
  issued := by rw [hd, hl]; exact h.issued
  owner := by rw [hd]; exact h.owner
  issued_fun := by rw [hl]; exact h.issued_fun
  granted_issued := by rw [hl]; exact h.granted_issued
  rotated_revoked := by rw [hd]; exact h.rotated_revoked
  one_end := by rw [hd]; exact h.one_end
  link_inj := by rw [hd]; exact h.link_inj
  link := by rw [hd]; exact h.link
  target := by rw [hd]; exact h.target
  revoked := by rw [hd, hl]; exact h.revoked
  final := by rw [hl]; exact h.final

theorem PasswordInv.congr {s : Settings} {w w' : Shared} (h : PasswordInv s w) (hd : w'.db = w.db)
    (hl : w'.log = w.log) (hn : w.now ≤ w'.now) : PasswordInv s w' where
  stale hs f u y x hg hx hne i r hr hf := by
    rw [hl] at hg
    rw [hd] at hx hr
    exact (h.stale hs f u y x hg hx hne i r hr hf).later hn
  retired := by rw [hd, hl]; exact h.retired
  fresher := by rw [hl]; exact h.fresher

theorem LifetimeInv.congr {s : Settings} {w w' : Shared} (h : LifetimeInv s w) (hd : w'.db = w.db)
    (hn : w.now ≤ w'.now) : LifetimeInv s w' where
  issued i r hr := by
    have hi := h.issued i r (hd ▸ hr)
    omega
  expires i r hr := h.expires i r (hd ▸ hr)
  window i r hr := h.window i r (hd ▸ hr)
  unused i r hr := h.unused i r (hd ▸ hr)
  followed i j r t hr ht := h.followed i j r t (hd ▸ hr) (hd ▸ ht)

/-- What the holder of a user's lock keeps to itself: the user's tokens only go away or get
revoked. -/
def UserProt (bucket : ℕ) (w w' : Shared) : Prop := ∀ i (r' : RefreshToken),
  w'.db.rows .refreshTokens i = some r' → refreshUserLockName r'.userId = .refreshUser bucket →
    ∃ r : RefreshToken, w.db.rows .refreshTokens i = some r ∧ SameToken r r'

def NoneAdded (userId : ℕ) (w w' : Shared) : Prop := ∀ i (r' : RefreshToken),
  w'.db.rows .refreshTokens i = some r' → r'.userId = userId →
    ∃ r : RefreshToken, w.db.rows .refreshTokens i = some r ∧ r.userId = userId

def tokenProt : Resource Table LockName → Shared → Shared → Prop
  | .own u, w, w' => ¬ Mentions w u → ¬ Mentions w' u
  | .row .users u, w, w' => NoneAdded u w w'
  | .named (.refreshUser b), w, w' => UserProt b w w'
  | _, _, _ => True

theorem UserProt.refl (b : ℕ) (w : Shared) : UserProt b w w := fun _ r h _ ↦ ⟨r, h, .refl r⟩

theorem UserProt.trans {b : ℕ} {w w' w'' : Shared} (h : UserProt b w w') (h' : UserProt b w' w'') :
    UserProt b w w'' := by
  intro i r'' hr'' hb
  obtain ⟨r', hr', hs'⟩ := h' i r'' hr'' hb
  obtain ⟨r, hr, hs⟩ := h i r' hr' (hs'.user ▸ hb)
  exact ⟨r, hr, hs.trans hs'⟩

/-- The password a family was opened on is settled when the family is, and so is the end of
the family's lifetime. No token is rotated to one that is there already. -/
structure TokenGuar (w w' : Shared) : Prop where
  log : ∀ n ∈ w.log, n ∈ w'.log
  granted : ∀ f u h x, Note.granted f u h ∈ w'.log → Note.issued f x ∈ w.log →
    Note.granted f u h ∈ w.log
  anchor : ∀ i u (r' : RefreshToken), w'.db.rows .refreshTokens i = some r' →
    Note.issued r'.familyId u ∈ w.log → ∃ j, ∃ r : RefreshToken,
      w.db.rows .refreshTokens j = some r ∧ r.familyId = r'.familyId ∧
        r.familyAbsoluteAt = r'.familyAbsoluteAt
  linked : ∀ x u i (r' : RefreshToken), Note.minted x u ∈ w.log → w'.db.rows .refreshTokens i = some r' →
    r'.rotatedToJti = some x →
    ∃ r : RefreshToken, w.db.rows .refreshTokens i = some r ∧ r.rotatedToJti = some x

theorem TokenGuar.refl (w : Shared) : TokenGuar w w :=
  ⟨fun _ h ↦ h, fun _ _ _ _ h _ ↦ h, fun i _ r hr _ ↦ ⟨i, r, hr, rfl, rfl⟩, fun _ _ _ r _ hr hl ↦ ⟨r, hr, hl⟩⟩

theorem TokenGuar.trans {w w' w'' : Shared} (h : TokenGuar w w') (h' : TokenGuar w' w'') :
    TokenGuar w w'' where
  log n hn := h'.log n (h.log n hn)
  granted f u y x hg hi := h.granted f u y x (h'.granted f u y x hg (h.log _ hi)) hi
  anchor i u r'' hr'' hi := by
    obtain ⟨j, r', hr', hf', ha'⟩ := h'.anchor i u r'' hr'' (h.log _ hi)
    obtain ⟨k, r, hr, hf, ha⟩ := h.anchor j u r' hr' (hf' ▸ hi)
    exact ⟨k, r, hr, hf.trans hf', ha.trans ha'⟩
  linked x u i r'' hm hr'' hl := by
    obtain ⟨r', hr', hl'⟩ := h'.linked x u i r'' (h.log _ hm) hr'' hl
    exact h.linked x u i r' hm hr' hl'

theorem TokenChange.quiet {s : Settings} {w w' : Shared} (h : TokenInv w) (hd : w'.db = w.db) :
    TokenChange s w w' where
  opened j t ht hno := by
    rw [hd] at ht
    exact absurd (h.issued j t ht) (hno _)
  rotated i r r' hr he hr' hs := by
    rw [hd, hr] at hr'
    cases hr'
    rw [he] at hs
    cases hs
  kept i r r' hr hr' := by
    rw [hd, hr] at hr'
    cases hr'
    exact .refl r
  added i r' hr hr' := by
    rw [hd, hr] at hr'
    cases hr'

/-- The agreement between the calls that touch users and refresh tokens. With `strict` it
also covers passwords. -/
def tokenProtocol (s : Settings) (strict : Prop) : Protocol Table Row LockName Storage Note where
  inv w := TokenInv w ∧ (strict → PasswordInv s w) ∧ LifetimeInv s w
  guar := TokenGuar
  change := TokenChange s
  prot := tokenProt
  guar_refl := .refl
  guar_trans _ _ _ := .trans
  prot_refl r w := by
    unfold tokenProt
    split
    · exact id
    · exact fun _ r hr hu ↦ ⟨r, hr, hu⟩
    · exact .refl _ w
    · trivial
  prot_trans r w w' w'' h h' := by
    unfold tokenProt at *
    split at h
    · exact fun hm ↦ h' (h hm)
    · intro i r hr hu
      obtain ⟨r', hr', hu'⟩ := h' i r hr hu
      exact h i r' hr' hu'
    · exact h.trans h'
    · trivial
  quiet w w' h hd hl _ hn hx := by
    refine ⟨⟨h.1.congr hd hl hx, fun hs ↦ (h.2.1 hs).congr hd hl hn, h.2.2.congr hd hn⟩,
      ⟨fun n hm ↦ hl ▸ hm, fun f u y x hg _ ↦ hl ▸ hg, fun i _ r hr _ ↦ ⟨i, r, hd ▸ hr, rfl, rfl⟩,
        fun _ _ _ r _ hr hx ↦ ⟨r, hd ▸ hr, hx⟩⟩,
      .quiet h.1 hd, fun r ↦ ?_⟩
    unfold tokenProt
    split
    · exact fun hm hm' ↦ hm (hm'.congr hd hl)
    · exact fun i r hr hu ↦ ⟨r, hd ▸ hr, hu⟩
    · exact fun i r' hr' _ ↦ ⟨r', hd ▸ hr', .refl r'⟩
    · trivial

end AdminPlatform.Auth.TokenInvariant
