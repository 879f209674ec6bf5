import AdminPlatform.Auth.PasswordCommit

namespace AdminPlatform.Auth.SessionCommit

open Model.Schema Model.Service Foundation.Relational Foundation.Transaction
open Foundation.Interleaving Foundation.RelyGuarantee RefreshService RefreshTokenRepository
open TokenInvariant TokenTransaction TokenCommit PasswordCommit

/-- In what the session sees, no token of the user is live but in the families `fs`. -/
def Within (l : Private) (w : Shared) (u : ℕ) (fs : List ℕ) : Prop :=
  LocksUser l u ∧ ∀ i (r : RefreshToken), (w.view l).db.rows .refreshTokens i = some r →
    r.userId = u → Dead w.now r ∨ r.familyId ∈ fs

/-- The token `t` that opens a family, once the concurrency limit has been enforced. -/
structure Opened (s : Settings) (l : Private) (w : Shared) (j : ℕ) (t : RefreshToken) : Prop where
  pending : pending l.redo .refreshTokens j = some (some t)
  absolute : t.familyAbsoluteAt = t.issuedAt + s.authRefreshAbsoluteTtlSeconds
  expires : t.expiresAt = min (t.issuedAt + s.authRefreshIdleTtlSeconds) t.familyAbsoluteAt
  unrevoked : t.revokedAt = none
  within : ∃ fs, fs.length ≤ s.authRefreshMaxSessionsPerUser ∧ Within l w t.userId fs
  eldest : ∀ i (r r' : RefreshToken), w.db.rows .refreshTokens i = some r →
    r.userId = t.userId → r.revokedAt = none → (w.view l).db.rows .refreshTokens i = some r' →
    r'.revokedAt.isSome → r'.revokedReason = some .concurrencyLimit → ∀ k (q : RefreshToken),
    (w.view l).db.rows .refreshTokens k = some q → q.userId = t.userId → ¬ Dead w.now q →
    q.familyId ≠ t.familyId → r.issuedAt ≤ q.issuedAt

def Ready (s : Settings) (l : Private) (w : Shared) : Prop :=
  ∃ new old, Tx s new old none l w ∧ ∀ j, new = some j → old = none → ∃ t, Opened s l w j t

variable {s : Settings} {strict : Prop} {new old reset : Option ℕ} {l : Private} {w w' : Shared}
  {i j u : ℕ} {fs : List ℕ} {r t : RefreshToken}

theorem ready_none (h : Tx s none old none l w) : Ready s l w :=
  ⟨none, old, h, fun _ hj ↦ by cases hj⟩

theorem ready_rotated (h : Tx s new (some i) none l w) : Ready s l w :=
  ⟨new, some i, h, fun _ _ ho ↦ by cases ho⟩

theorem within_rely (h : Within l w u fs) (hr : Rely (tokenProtocol s strict) l w w') :
    Within l w' u fs := by
  refine ⟨h.1, fun i r' hv hu ↦ ?_⟩
  obtain ⟨r, hvr, hs⟩ := view_token h.1 hr hv hu
  rcases h.2 i r hvr (hs.user.symm.trans hu) with hd | hm
  · exact .inl (hs.dead (hd.later hr.later.now))
  · exact .inr (hs.family ▸ hm)

theorem opened_rely (h : Opened s l w j t) (hc : Covered l)
    (hr : Rely (tokenProtocol s strict) l w w') : Opened s l w' j t where
  pending := h.pending
  absolute := h.absolute
  expires := h.expires
  unrevoked := h.unrevoked
  within := by
    obtain ⟨fs, hfs, hw⟩ := h.within
    exact ⟨fs, hfs, within_rely hw hr⟩
  eldest i r r' hrow hu he hv hs hreason k q hq hqu hd hne := by
    obtain ⟨fs, -, hl, -⟩ := h.within
    cases hp : Foundation.Relational.pending l.redo .refreshTokens i with
    | none =>
      rw [view_db, apply_rows_of_none hp, hrow] at hv
      cases hv
      rw [he] at hs
      cases hs
    | some v =>
      have hi : w'.db.rows .refreshTokens i = w.db.rows .refreshTokens i := row_of_pending hc hr hp
      have hv' : (w.view l).db.rows .refreshTokens i = some r' := by
        rw [view_db, apply_rows_of_pending hp] at hv ⊢
        exact hv
      obtain ⟨q₀, hq₀, hsame⟩ := view_token hl hr hq hqu
      have hlive : ¬ Dead w.now q₀ := fun hd₀ ↦ hd (hsame.dead (hd₀.later hr.later.now))
      have hle := h.eldest i r r' (hi ▸ hrow) hu he hv' hs hreason k q₀ hq₀
        (hsame.user.symm.trans hqu) hlive (hsame.family ▸ hne)
      rw [hsame.issued]
      exact hle

theorem ready_rely (h : Ready s l w) (hr : Rely (tokenProtocol s strict) l w w') : Ready s l w' := by
  obtain ⟨new, old, h, ho⟩ := h
  refine ⟨new, old, h.rely hr, fun j hn hold ↦ ?_⟩
  obtain ⟨t, ht⟩ := ho j hn hold
  exact ⟨t, opened_rely ht h.covered hr⟩

theorem mem_byRecency {f : ℕ} {rows : List (ℕ × RefreshToken)} :
    f ∈ byRecency rows ↔ ∃ i, ∃ r : RefreshToken, (i, r) ∈ rows ∧ r.familyId = f := by
  simp [byRecency]

theorem mem_liveFamilies {db : Db} {f n : ℕ} : f ∈ liveFamilies db u n ↔
    ∃ i, ∃ r : RefreshToken, db.rows .refreshTokens i = some r ∧ isActive u n r = true ∧
      r.familyId = f := by
  unfold liveFamilies
  rw [mem_byRecency]
  simp only [mem_select, and_assoc]

theorem nodup_liveFamilies (db : Db) (u n : ℕ) : (liveFamilies db u n).Nodup := by
  unfold liveFamilies byRecency
  exact (List.perm_insertionSort _ _).nodup_iff.2 (List.nodup_dedup _)

theorem isActive_iff {n : ℕ} : isActive u n r = true ↔ r.userId = u ∧ ¬ Dead n r := by
  simp [isActive, Dead, and_assoc]

theorem length_liveFamilies_le (h : Within l w u fs) :
    (liveFamilies (w.commit l).db u w.now).length ≤ fs.length := by
  refine List.Subperm.length_le ((nodup_liveFamilies _ _ _).subperm fun f hf ↦ ?_)
  obtain ⟨i, r, hr, ha, rfl⟩ := mem_liveFamilies.1 hf
  obtain ⟨hu, hd⟩ := isActive_iff.1 ha
  exact (h.2 i r hr hu).resolve_left hd

theorem opening_commit (h : Opened s l w j t) : Opening s w (w.commit l) t where
  absolute := h.absolute
  expires := h.expires
  unrevoked := h.unrevoked
  cap := by
    obtain ⟨fs, hfs, hw⟩ := h.within
    exact Nat.le_trans (length_liveFamilies_le hw) hfs
  eldest r he hu k q hq ha hne := by
    obtain ⟨i, r', hr, hr', hs, hreason⟩ := he.after
    obtain ⟨hqu, hd⟩ := isActive_iff.1 ha
    exact h.eldest i r r' hr hu he.before hr' hs hreason k q hq hqu hd hne

theorem tokenChange_commit (hi : TokenInv w) (h : Tx s new old reset l w)
    (ho : ∀ j, new = some j → old = none → ∃ t, Opened s l w j t) : TokenChange s w (w.commit l) where
  opened j t ht hno := by
    rcases (origin h ht).same with ⟨r, hr, hs⟩ | ⟨hn, hb⟩
    · exact absurd (hi.issued j r hr) (hs.family ▸ hno _)
    · rcases born_family h hn hb with hsole | ⟨i, r, r', hold, hrot⟩
      · cases hold : old with
        | none =>
          obtain ⟨t', ht'⟩ := ho j hn hold
          have he : some (some t) = some (some t') := hb.pending.symm.trans ht'.pending
          cases he
          exact opening_commit ht'
        | some i =>
          obtain ⟨k, q, r, r', hk, hq, hrot⟩ := h.rotates i hold
          have hkj : some j = some k := hn.symm.trans hk
          cases hkj
          have he : some (some t) = some (some q) := hb.pending.symm.trans hq.pending
          cases he
          exact absurd (hi.issued i r hrot.row) (hrot.family ▸ hno _)
      · exact absurd (hi.issued i r hrot.row) (hrot.family ▸ hno _)
  rotated i r r' hr he hr' hs := by
    cases origin h hr' with
    | stay r₀ hr₀ hsame hl =>
      cases hr.symm.trans hr₀
      rw [hl, he] at hs
      cases hs
    | rotated j q r₀ hold hn hb hrot =>
      cases hr.symm.trans hrot.row
      exact hrot.checked
    | born hn hb =>
      rw [hb.end_] at hs
      cases hs
  kept i r r' hr hr' := by
    rcases (origin h hr').same with ⟨r₀, hr₀, hs⟩ | ⟨-, hb⟩
    · cases hr.symm.trans hr₀
      exact hs
    · exact absurd (.tokenId r hr) hb.id.fresh
  added i r' hr hr' := by
    cases origin h hr' with
    | stay r₀ hr₀ hs hl =>
      rw [hr] at hr₀
      cases hr₀
    | rotated j q r₀ hold hn hb hrot =>
      have hrow := hrot.row
      rw [hr] at hrow
      cases hrow
    | born hn hb => exact hb.end_

theorem followed_same {r₀ t₀ : RefreshToken} (h : Followed r₀ t₀) (hs : SameToken r₀ r)
    (hl : r.rotatedToJti = r₀.rotatedToJti) (hu : r.lastUsedAt = r₀.lastUsedAt)
    (ht : SameToken t₀ t) : Followed r t where
  rotated := by
    rw [hl]
    exact h.rotated
  issued := by
    rw [hs.issued, ht.issued]
    exact h.issued
  used := by
    rw [hu, hs.issued, ht.issued]
    exact h.used
  expires := by
    rw [hs.expires, ht.expires]
    exact h.expires

/-- A new token follows all tokens of its family. -/
theorem followed_born (ht : TokenInv w) (hi : LifetimeInv s w) (h : Tx s new old reset l w)
    (hn : new = some j) (hb : Born l w old j t)
    (hr : (w.commit l).db.rows .refreshTokens i = some r) (hf : r.familyId = t.familyId)
    (hij : i ≠ j) : i < j ∧ Followed r t := by
  cases origin h hr with
  | born hn' hb' => exact absurd (Option.some.inj (hn'.symm.trans hn)) hij
  | rotated k q r₀ ho hn' hb' hrot =>
    cases hn.symm.trans hn'
    have he : some (some t) = some (some q) := hb.pending.symm.trans hb'.pending
    cases he
    exact ⟨hrot.lt, hrot.followed⟩
  | stay r₀ hr₀ hs hl hu =>
    rcases born_family h hn hb with hsole | ⟨k, q, q', ho, hrot⟩
    · exact absurd (hf ▸ hs.family ▸ mentions_family ht hr₀) hsole.fresh
    · have hfam : r₀.familyId = q.familyId := by rw [← hs.family, hf, hrot.family]
      have hne : i ≠ k := by
        rintro rfl
        cases hr₀.symm.trans hrot.row
        have hq : some q' = some r := by
          rw [commit_db, apply_rows, hrot.pending] at hr
          exact hr
        cases hq
        rw [hrot.link, hrot.end_] at hl
        cases hl
      have hik : i < k := by
        rcases Nat.lt_or_gt_of_ne hne with hlt | hgt
        · exact hlt
        · have hrotated := (hi.followed k i q r₀ hrot.row hr₀ hfam.symm hgt).rotated
          rw [hrot.end_] at hrotated
          cases hrotated
      have hrq := hi.followed i k r₀ q hr₀ hrot.row hfam hik
      have hqt : q.issuedAt ≤ t.issuedAt := hrot.same.issued ▸ hrot.followed.issued
      have hqe : q.expiresAt ≤ t.expiresAt := hrot.same.expires ▸ hrot.followed.expires
      refine ⟨hik.trans hrot.lt, hl ▸ hrq.rotated, ?_, ?_, ?_⟩
      · rw [hs.issued]
        exact hrq.issued.trans hqt
      · rw [hu, hs.issued]
        exact hrq.used.trans hqt
      · rw [hs.expires]
        exact hrq.expires.trans hqe

theorem lifetimeInv_commit (ht : TokenInv w) (hi : LifetimeInv s w) (h : Tx s new old reset l w) :
    LifetimeInv s (w.commit l) where
  issued i r hr := by
    rcases (origin h hr).same with ⟨r₀, hr₀, hs⟩ | ⟨-, hb⟩
    · rw [hs.issued]
      exact hi.issued i r₀ hr₀
    · exact hb.clock
  expires i r hr := by
    rcases (origin h hr).same with ⟨r₀, hr₀, hs⟩ | ⟨-, hb⟩
    · rw [hs.expires, hs.absolute]
      exact hi.expires i r₀ hr₀
    · exact hb.expires
  window i r hr := by
    rcases (origin h hr).same with ⟨r₀, hr₀, hs⟩ | ⟨hn, hb⟩
    · rw [hs.expires, hs.issued]
      exact hi.window i r₀ hr₀
    · exact (h.window i r hn hb.pending).2
  unused i r hr he := by
    cases origin h hr with
    | stay r₀ hr₀ hs hl hu =>
      rw [hu]
      exact hi.unused i r₀ hr₀ (hl ▸ he)
    | rotated j t r₀ ho hn hb hrot =>
      rw [hrot.link] at he
      cases he
    | born hn hb => exact (h.window i r hn hb.pending).1
  followed i j r t hr htok hf hij := by
    rcases (origin h htok).same with ⟨t₀, ht₀, hst⟩ | ⟨hn, hb⟩
    · cases origin h hr with
      | stay r₀ hr₀ hs hl hu =>
        have hold := hi.followed i j r₀ t₀ hr₀ ht₀ (by rw [← hs.family, hf, hst.family]) hij
        exact followed_same hold hs hl hu hst
      | rotated k q r₀ ho hn hb hrot =>
        have hfam : r₀.familyId = t₀.familyId := by rw [← hrot.same.family, hf, hst.family]
        have hrotated := (hi.followed i j r₀ t₀ hrot.row ht₀ hfam hij).rotated
        rw [hrot.end_] at hrotated
        cases hrotated
      | born hn hb =>
        have hlt := (followed_born ht hi h hn hb htok hf.symm (Nat.ne_of_gt hij)).1
        omega
    · exact (followed_born ht hi h hn hb hr hf (Nat.ne_of_lt hij)).2

theorem tokenGuar_commit (h : Tx s new old reset l w) : TokenGuar w (w.commit l) where
  log n hn := List.mem_append_left _ hn
  granted f u y x hgr hiss := by
    rcases List.mem_append.1 hgr with hgr | hgr
    · exact hgr
    · exact absurd (.issued x hiss) (h.granted f u y hgr).2.1.fresh
  anchor i u r' hr' hiss := by
    rcases (origin h hr').same with ⟨r, hr, hs⟩ | ⟨hn, hb⟩
    · exact ⟨i, r, hr, hs.family.symm, hs.absolute.symm⟩
    · rcases born_family h hn hb with hsole | ⟨k, r, q, -, hrot⟩
      · exact absurd (.issued u hiss) hsole.fresh
      · exact ⟨k, r, hrot.row, hrot.family.symm, hrot.absolute.symm⟩
  linked x u i r' hm hr' hl := by
    cases origin h hr' with
    | stay r hr hs he => exact ⟨r, hr, he.symm.trans hl⟩
    | rotated j t r ho hn hb hrot =>
      obtain rfl := Option.some.inj (hrot.link.symm.trans hl)
      exact absurd (.minted u hm) hb.jti.fresh
    | born hn hb =>
      rw [hb.end_] at hl
      cases hl

theorem userProt_commit (h : Tx s new old reset l w) {b : ℕ}
    (hb : ∀ m, (Resource.named (.refreshUser b), m) ∉ l.held) : UserProt b w (w.commit l) := by
  intro i r' hr' hu
  rcases (origin h hr').same with ⟨r, hr, hs⟩ | ⟨-, hborn⟩
  · exact ⟨r, hr, hs⟩
  · have hl := hborn.locked
    rw [LocksUser, hu] at hl
    exact absurd hl (hb _)

/-- The obligations of a commit. -/
theorem moves_commit (hi : (tokenProtocol s strict).inv w) (h : Ready s l w)
    (hg : strict → PasswordGuard w l.notes) :
    Moves (tokenProtocol s strict) l.held w (w.commit l) := by
  obtain ⟨new, old, h, ho⟩ := h
  refine ⟨⟨tokenInv_commit hi.1 h, fun hst ↦ passwordInv_commit hi.1 (hi.2.1 hst) h (hg hst),
    lifetimeInv_commit hi.1 hi.2.2 h⟩, tokenGuar_commit h, tokenChange_commit hi.1 h ho, fun r hr ↦ ?_⟩
  show tokenProt r w (w.commit l)
  unfold tokenProt
  split
  · intro hm hm'
    rcases mentions_commit hi.1 h hm' with hm' | hs
    · exact hm hm'
    · exact hr _ hs.own
  · intro i r' hr' hu
    rcases (origin h hr').same with ⟨r, hr, hs⟩ | ⟨-, hb⟩
    · exact ⟨r, hr, hs.user.symm.trans hu⟩
    · obtain ⟨⟨m, hm⟩, -⟩ := hb.users
      exact absurd (hu ▸ hm) (hr m)
  · exact userProt_commit h hr
  · trivial

end AdminPlatform.Auth.SessionCommit
