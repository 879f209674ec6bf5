import AdminPlatform.Auth.TokenPrograms

namespace AdminPlatform.Auth.SessionCap

open Model.Schema Model.Service Foundation.Relational Foundation.Transaction
open Foundation.Interleaving Foundation.RelyGuarantee RefreshService RefreshTokenRepository
open TokenInvariant TokenTransaction SessionCommit TokenStatements TokenPrograms

variable {s : Settings} {strict : Prop} {reset : Option ℕ} {l : Private} {w w' : Shared}
  {i j u f n : ℕ} {r t : RefreshToken} {rows : List (ℕ × RefreshToken)}

section Recency

def lastActive (rows : List (ℕ × RefreshToken)) (f : ℕ) : ℕ :=
  ((rows.filter fun x ↦ x.2.familyId = f).map fun x ↦ x.2.issuedAt).max?.getD 0

def lastId (rows : List (ℕ × RefreshToken)) (f : ℕ) : ℕ :=
  ((rows.filter fun x ↦ x.2.familyId = f).map fun x ↦ x.1).max?.getD 0

/-- The families in the order of `listActiveFamilies`. -/
def MoreRecent (rows : List (ℕ × RefreshToken)) (f g : ℕ) : Prop :=
  lastActive rows g < lastActive rows f ∨ lastActive rows f = lastActive rows g ∧ lastId rows g ≤ lastId rows f

instance (rows : List (ℕ × RefreshToken)) : DecidableRel (MoreRecent rows) := fun f g ↦ inferInstanceAs (Decidable
  (lastActive rows g < lastActive rows f ∨ lastActive rows f = lastActive rows g ∧ lastId rows g ≤ lastId rows f))

theorem total_moreRecent (rows : List (ℕ × RefreshToken)) : Std.Total (MoreRecent rows) := by
  refine ⟨fun f g ↦ ?_⟩
  unfold MoreRecent
  omega

theorem trans_moreRecent (rows : List (ℕ × RefreshToken)) : IsTrans ℕ (MoreRecent rows) := by
  refine ⟨fun f g h hfg hgh ↦ ?_⟩
  unfold MoreRecent at hfg hgh ⊢
  omega

theorem pairwise_byRecency (rows : List (ℕ × RefreshToken)) :
    (byRecency rows).Pairwise fun f g ↦ lastActive rows g < lastActive rows f ∨
      lastActive rows f = lastActive rows g ∧ lastId rows g ≤ lastId rows f := by
  have htotal : Std.Total (MoreRecent rows) := total_moreRecent rows
  have htrans : IsTrans ℕ (MoreRecent rows) := trans_moreRecent rows
  exact List.pairwise_insertionSort (MoreRecent rows) _

theorem getD_max?_le {l : List ℕ} {b : ℕ} (h : ∀ a ∈ l, a ≤ b) : l.max?.getD 0 ≤ b := by
  cases hm : l.max? with
  | none => exact Nat.zero_le b
  | some m => exact h m (List.max?_mem hm)

theorem le_lastActive (h : (i, r) ∈ rows) : r.issuedAt ≤ lastActive rows r.familyId := by
  refine List.le_max?_getD_of_mem (List.mem_map.2 ⟨(i, r), List.mem_filter.2 ⟨h, ?_⟩, rfl⟩)
  exact decide_eq_true rfl

theorem le_lastId (h : (i, r) ∈ rows) : i ≤ lastId rows r.familyId := by
  refine List.le_max?_getD_of_mem (List.mem_map.2 ⟨(i, r), List.mem_filter.2 ⟨h, ?_⟩, rfl⟩)
  exact decide_eq_true rfl

theorem lastActive_le (h : ∀ i r, (i, r) ∈ rows → r.familyId = f → r.issuedAt ≤ n) :
    lastActive rows f ≤ n := by
  refine getD_max?_le fun a ha ↦ ?_
  obtain ⟨⟨i, r⟩, hm, rfl⟩ := List.mem_map.1 ha
  obtain ⟨hr, hf⟩ := List.mem_filter.1 hm
  exact h i r hr (of_decide_eq_true hf)

theorem lastId_le (h : ∀ i r, (i, r) ∈ rows → r.familyId = f → i ≤ n) : lastId rows f ≤ n := by
  refine getD_max?_le fun a ha ↦ ?_
  obtain ⟨⟨i, r⟩, hm, rfl⟩ := List.mem_map.1 ha
  obtain ⟨hr, hf⟩ := List.mem_filter.1 hm
  exact h i r hr (of_decide_eq_true hf)

end Recency

/-- The token a login has just inserted is the latest of its user. -/
structure Newest (l : Private) (w : Shared) (j : ℕ) (t : RefreshToken) : Prop where
  pending : pending l.redo .refreshTokens j = some (some t)
  id : Sole l w j
  unrevoked : t.revokedAt = none
  locked : LocksUser l t.userId
  first : ∀ i (r : RefreshToken), (w.view l).db.rows .refreshTokens i = some r →
    r.userId = t.userId → i ≠ j → r.issuedAt ≤ t.issuedAt ∧ i < j ∧ r.familyId ≠ t.familyId

theorem Newest.view (h : Newest l w j t) : (w.view l).db.rows .refreshTokens j = some t :=
  view_of_pending h.pending

theorem Newest.not_committed (h : Newest l w j t) : w.db.rows .refreshTokens j = none := by
  cases hr : w.db.rows .refreshTokens j with
  | none => rfl
  | some r => exact absurd (.tokenId r hr) h.id.fresh

theorem newest_rely (h : Newest l w j t) (hr : Rely (tokenProtocol s strict) l w w') :
    Newest l w' j t where
  pending := h.pending
  id := sole_rely h.id hr
  unrevoked := h.unrevoked
  locked := h.locked
  first i r hv hu hij := by
    obtain ⟨r₀, hv₀, hs⟩ := view_token h.locked hr hv hu
    have hf := h.first i r₀ hv₀ (hs.user.symm.trans hu) hij
    rwa [← hs.issued, ← hs.family] at hf

/-- A login on its way through the families `all` that are over the limit: the families
`rest` are still to be revoked, the families `kept` stay. -/
structure Enforcing (l : Private) (w : Shared) (j : ℕ) (t : RefreshToken)
    (all kept rest : List ℕ) : Prop where
  newest : Newest l w j t
  within : Within l w t.userId (rest ++ kept)
  subset : rest ⊆ all
  apart : t.familyId ∉ all
  touched : ∀ i (r r' : RefreshToken), w.db.rows .refreshTokens i = some r → r.revokedAt = none →
    (w.view l).db.rows .refreshTokens i = some r' → r'.revokedAt.isSome → r.familyId ∈ all
  ranked : ∀ i k (r q : RefreshToken), w.db.rows .refreshTokens i = some r → r.userId = t.userId →
    r.revokedAt = none → r.familyId ∈ all → (w.view l).db.rows .refreshTokens k = some q →
    q.userId = t.userId → ¬ Dead w.now q → q.familyId ∈ kept → q.familyId ≠ t.familyId →
    r.issuedAt ≤ q.issuedAt

variable {all kept rest : List ℕ}

theorem enforcing_rely (h : Enforcing l w j t all kept rest) (hc : Covered l)
    (hr : Rely (tokenProtocol s strict) l w w') : Enforcing l w' j t all kept rest where
  newest := newest_rely h.newest hr
  within := within_rely h.within hr
  subset := h.subset
  apart := h.apart
  touched i r r' hrow he hv hs := by
    cases hp : pending l.redo .refreshTokens i with
    | none =>
      rw [view_db, apply_rows_of_none hp, hrow] at hv
      cases hv
      rw [he] at hs
      cases hs
    | some v =>
      have hi : w'.db.rows .refreshTokens i = w.db.rows .refreshTokens i := row_of_pending hc hr hp
      refine h.touched i r r' (hi ▸ hrow) he ?_ hs
      rw [view_of_pending hp] at hv ⊢
      exact hv
  ranked i k r q hrow hu he hall hv hqu hd hk hne := by
    obtain ⟨r₀, hrow₀, hs₀⟩ := userProt_rely h.newest.locked hr i r hrow (by rw [hu]; rfl)
    obtain ⟨q₀, hv₀, hs⟩ := view_token h.newest.locked hr hv hqu
    have hle := h.ranked i k r₀ q₀ hrow₀ (hs₀.user.symm.trans hu) (hs₀.unrevoked he)
      (hs₀.family ▸ hall) hv₀ (hs.user.symm.trans hqu)
      (fun hd₀ ↦ hd (hs.dead (hd₀.later hr.later.now))) (hs.family ▸ hk) (hs.family ▸ hne)
    rw [hs₀.issued, hs.issued]
    exact hle

section Revocation

variable {x : RevokedReason} {old new : Option ℕ}

theorem newest_revocation (h : Newest l w j t) (hf : t.familyId ≠ f) :
    Newest (l.run (revocation (w.view l).db f x n) w.next)
      (w.run (revocation (w.view l).db f x n)) j t where
  pending := by
    refine (pending_run ?_).trans h.pending
    cases hp : pending (revocation (w.view l).db f x n).writes .refreshTokens j with
    | none => rfl
    | some v =>
      obtain ⟨r, hr, hin, -⟩ := pending_update hp
      rw [h.view] at hr
      cases hr
      simp [inFamily, hf] at hin
  id := sole_run h.id
  unrevoked := h.unrevoked
  locked := locksUser_run h.locked
  first i r hv hu hij := by
    obtain ⟨r₀, hv₀, hs⟩ := view_revocation hv
    have hfirst := h.first i r₀ hv₀ (hs.user.symm.trans hu) hij
    rwa [← hs.issued, ← hs.family] at hfirst

/-- The committed row behind a token that the session sees revoked. -/
theorem family_of_view (htx : Tx s (some j) none reset l w) {r r' : RefreshToken} (hij : i ≠ j)
    (hr : w.db.rows .refreshTokens i = some r)
    (hv : (w.view l).db.rows .refreshTokens i = some r') : r'.familyId = r.familyId := by
  cases hp : pending l.redo .refreshTokens i with
  | none =>
    rw [view_db, apply_rows_of_none hp, hr] at hv
    cases hv
    rfl
  | some v =>
    obtain ⟨r₀, hr₀, hw⟩ := htx.weaken i v hp (fun he ↦ hij (Option.some.inj he)) (by simp)
    rw [view_of_pending hp] at hv
    cases hr.symm.trans hr₀
    exact (hw r' hv).1.family

theorem enforcing_revocation (h : Enforcing l w j t all kept (f :: rest))
    (htx : Tx s (some j) none reset l w) :
    Enforcing (l.run (revocation (w.view l).db f x n) w.next)
      (w.run (revocation (w.view l).db f x n)) j t all kept rest where
  newest := newest_revocation h.newest fun he ↦ h.apart (he ▸ h.subset List.mem_cons_self)
  within := by
    refine ⟨locksUser_run h.within.1, fun i r hv hu ↦ ?_⟩
    obtain ⟨r₀, hv₀, hs⟩ := view_revocation hv
    rcases h.within.2 i r₀ hv₀ (hs.user.symm.trans hu) with hd | hm
    · exact .inl (hs.dead hd)
    · rcases List.mem_cons.1 hm with hm | hm
      · exact .inl (.inl (revoked_in_view hv (hs.family.trans hm)))
      · exact .inr (hs.family ▸ hm)
  subset g hg := h.subset (List.mem_cons_of_mem _ hg)
  apart := h.apart
  touched i r r' hr he hv hs := by
    have hij : i ≠ j := by
      rintro rfl
      have hno : w.db.rows .refreshTokens i = some r := hr
      rw [h.newest.not_committed] at hno
      cases hno
    rw [view_run] at hv
    cases hp : pending (revocation (w.view l).db f x n).writes .refreshTokens i with
    | none =>
      rw [hp] at hv
      exact h.touched i r r' hr he hv hs
    | some v =>
      obtain ⟨r₀, hv₀, hin, -⟩ := pending_update hp
      have hf : r₀.familyId = f := by
        simp only [inFamily, Bool.and_eq_true, decide_eq_true_eq] at hin
        exact hin.1
      rw [← family_of_view htx hij hr hv₀, hf]
      exact h.subset List.mem_cons_self
  ranked i k r q hr hu he hall hv hqu hd hk hne := by
    obtain ⟨q₀, hv₀, hs⟩ := view_revocation hv
    rw [hs.issued]
    exact h.ranked i k r q₀ hr hu he hall hv₀ (hs.user.symm.trans hqu) (fun hd₀ ↦ hd (hs.dead hd₀))
      (hs.family ▸ hk) (hs.family ▸ hne)

end Revocation

def Alone (l : Private) (j : ℕ) : Prop := ∀ i, i ≠ j → pending l.redo .refreshTokens i = none

theorem Alone.committed (h : Alone l j) (hij : i ≠ j)
    (hv : (w.view l).db.rows .refreshTokens i = some r) : w.db.rows .refreshTokens i = some r := by
  rwa [view_db, apply_rows_of_none (h i hij)] at hv

theorem newest_creation (hi : TokenInv w) (hf : Sole l w t.familyId) (hl : LocksUser l t.userId)
    (he : t.revokedAt = none) (hredo : ∀ i, pending l.redo .refreshTokens i = none)
    (hold : ∀ i (r : RefreshToken), w.db.rows .refreshTokens i = some r → r.userId = t.userId →
      r.issuedAt ≤ t.issuedAt) :
    Newest (l.run (creation t w.next) w.next) (w.run (creation t w.next)) w.next t ∧
      Alone (l.run (creation t w.next) w.next) w.next := by
  have halone : Alone (l.run (creation t w.next) w.next) w.next := by
    intro i hij
    refine (pending_run ?_).trans (hredo i)
    rw [pending_singleton]
    exact Write.at_id_ne (Ne.symm hij) _
  refine ⟨⟨pending_creation, sole_drawn hi Nat.one_pos, he, locksUser_run hl, ?_⟩, halone⟩
  intro i r hv hu hij
  have hr : w.db.rows .refreshTokens i = some r := halone.committed hij hv
  refine ⟨hold i r hr hu, hi.below i (.tokenId r hr), fun hc ↦ ?_⟩
  exact hf.fresh (.issued r.userId (hc ▸ hi.issued i r hr))

theorem Newest.ne_of_family (h : Newest l w j t) (hv : (w.view l).db.rows .refreshTokens i = some r)
    (hf : r.familyId ≠ t.familyId) : i ≠ j := by
  rintro rfl
  rw [h.view] at hv
  cases hv
  exact hf rfl

abbrev activeRows (l : Private) (w : Shared) (u n : ℕ) : List (ℕ × RefreshToken) :=
  (w.view l).db.select .refreshTokens fun _ r ↦ isActive u n r

abbrev listed (l : Private) (w : Shared) (u n : ℕ) : List ℕ := liveFamilies (w.view l).db u n

theorem pairwise_listed (limit : ℕ) {g k : ℕ} (hk : k ∈ (listed l w u n).take limit)
    (hg : g ∈ (listed l w u n).drop limit) :
    lastActive (activeRows l w u n) g < lastActive (activeRows l w u n) k ∨
      lastActive (activeRows l w u n) k = lastActive (activeRows l w u n) g ∧
        lastId (activeRows l w u n) g ≤ lastId (activeRows l w u n) k := by
  have h := pairwise_byRecency (activeRows l w u n)
  rw [← List.take_append_drop limit (byRecency _), List.pairwise_append] at h
  exact h.2.2 k hk g hg

theorem mem_listed_row (hf : f ∈ listed l w u n) : ∃ i, ∃ r : RefreshToken,
    (w.view l).db.rows .refreshTokens i = some r ∧ r.userId = u ∧ r.revokedAt = none ∧
      n < r.expiresAt ∧ r.familyId = f ∧ (i, r) ∈ activeRows l w u n := by
  obtain ⟨i, r, hv, ha, hfam⟩ := mem_liveFamilies.1 hf
  have hact := ha
  simp only [isActive, Bool.and_eq_true, decide_eq_true_eq, Option.isNone_iff_eq_none] at hact
  exact ⟨i, r, hv, hact.1.1, hact.1.2, hact.2, hfam, mem_select.2 ⟨hv, ha⟩⟩

/-- The new family is not over the limit. -/
theorem apart_listed (h : Newest l w j t) {limit : ℕ} (hl : 1 ≤ limit) :
    t.familyId ∉ (listed l w t.userId n).drop limit := by
  intro hm
  have hlong : limit < (listed l w t.userId n).length := by
    have hpos := List.length_pos_of_mem hm
    rw [List.length_drop] at hpos
    omega
  have hhead : 0 < ((listed l w t.userId n).take limit).length := by
    rw [List.length_take]
    omega
  obtain ⟨k, hk⟩ := List.exists_mem_of_length_pos hhead
  have hne : k ≠ t.familyId := by
    rintro rfl
    exact List.disjoint_take_drop (nodup_liveFamilies _ _ _) (Nat.le_refl _) hk hm
  have hrank := pairwise_listed limit hk hm
  obtain ⟨i, r, hv, hu, -, -, hf, hrow⟩ := mem_listed_row (List.mem_of_mem_drop hm)
  have hij : i = j := by
    by_contra hij
    exact (h.first i r hv hu hij).2.2 hf
  subst hij
  rw [h.view] at hv
  cases hv
  have hactive := le_lastActive hrow
  have hid := le_lastId hrow
  have hothers : ∀ m (q : RefreshToken), (m, q) ∈ activeRows l w t.userId n → q.familyId = k →
      q.issuedAt ≤ t.issuedAt ∧ m < i := by
    intro m q hq hqk
    obtain ⟨hqv, ha⟩ := mem_select.1 hq
    have hmi := h.ne_of_family hqv (hqk ▸ hne)
    have hfirst := h.first m q hqv (isActive_iff.1 ha).1 hmi
    exact ⟨hfirst.1, hfirst.2.1⟩
  have hle := lastActive_le fun m q hq hqk ↦ (hothers m q hq hqk).1
  have hlt := lastId_le (n := i - 1) fun m q hq hqk ↦ Nat.le_sub_one_of_lt (hothers m q hq hqk).2
  obtain ⟨m, q, -, -, -, -, hqk, hq⟩ := mem_listed_row (List.mem_of_mem_take hk)
  have hmi := (hothers m q hq hqk).2
  omega

/-- The families over the limit were last active no later than the kept ones. -/
theorem ranked_listed (hi : TokenInv w) (h : Newest l w j t) (ha : Alone l j) {limit : ℕ}
    (hl : 1 ≤ limit) {i k : ℕ} {r q : RefreshToken}
    (hr : w.db.rows .refreshTokens i = some r) (he : r.revokedAt = none)
    (hall : r.familyId ∈ (listed l w t.userId n).drop limit)
    (hq : (w.view l).db.rows .refreshTokens k = some q) (hd : ¬ Dead w.now q)
    (hk : q.familyId ∈ (listed l w t.userId n).take limit) (hne : q.familyId ≠ t.familyId) :
    r.issuedAt ≤ q.issuedAt := by
  have hrank := pairwise_listed limit hk hall
  have hkj := h.ne_of_family hq hne
  have hqe : q.revokedAt = none := by
    by_contra hc
    exact hd (.inl (Option.isSome_iff_ne_none.2 hc))
  have hold : r.issuedAt ≤ lastActive (activeRows l w t.userId n) r.familyId := by
    obtain ⟨m, r₂, hv, -, he₂, -, hf, hrow⟩ := mem_listed_row (List.mem_of_mem_drop hall)
    have hmj := h.ne_of_family hv fun hc ↦ apart_listed h hl ((hf.symm.trans hc) ▸ hall)
    have hr₂ := ha.committed hmj hv
    have him := hi.unrevoked_inj i m r r₂ hr hr₂ hf.symm he he₂
    subst him
    cases hr.symm.trans hr₂
    exact le_lastActive hrow
  have hnew : lastActive (activeRows l w t.userId n) q.familyId ≤ q.issuedAt := by
    refine lastActive_le fun m q₂ hm hf ↦ ?_
    obtain ⟨hv, hact⟩ := mem_select.1 hm
    simp only [isActive, Bool.and_eq_true, decide_eq_true_eq, Option.isNone_iff_eq_none] at hact
    have hmj := h.ne_of_family hv (hf ▸ hne)
    have hq₂ := ha.committed hmj hv
    have hkm := hi.unrevoked_inj m k q₂ q hq₂ (ha.committed hkj hq) hf hact.1.2 hqe
    subst hkm
    cases hv.symm.trans hq
    exact Nat.le_refl _
  omega

theorem enforcing_listed (hi : TokenInv w) (h : Newest l w j t) (ha : Alone l j) {limit : ℕ}
    (hl : 1 ≤ limit) (hn : n ≤ w.now) : Enforcing l w j t ((listed l w t.userId n).drop limit)
      ((listed l w t.userId n).take limit) ((listed l w t.userId n).drop limit) where
  newest := h
  within := by
    refine ⟨h.locked, fun i r hv hu ↦ ?_⟩
    by_cases hd : Dead w.now r
    · exact .inl hd
    · have hact : isActive t.userId n r = true := isActive_iff.2 ⟨hu, fun hc ↦ hd (hc.later hn)⟩
      have hm := mem_liveFamilies.2 ⟨i, r, hv, hact, rfl⟩
      rw [← List.take_append_drop limit (liveFamilies _ _ _)] at hm
      exact .inr (List.mem_append.2 (List.mem_append.1 hm).symm)
  subset := fun _ hg ↦ hg
  apart := apart_listed h hl
  touched i r r' hr he hv hs := by
    have hij : i ≠ j := by
      rintro rfl
      rw [h.not_committed] at hr
      cases hr
    cases hr.symm.trans (ha.committed hij hv)
    rw [he] at hs
    cases hs
  ranked i k r q hr _ he hall hv _ hd hk hne :=
    ranked_listed hi h ha hl hr he hall hv hd hk hne

theorem opened_of_enforcing (h : Enforcing l w j t all kept [])
    (hk : kept.length ≤ s.authRefreshMaxSessionsPerUser)
    (ha : t.familyAbsoluteAt = t.issuedAt + s.authRefreshAbsoluteTtlSeconds)
    (he : t.expiresAt = min (t.issuedAt + s.authRefreshIdleTtlSeconds) t.familyAbsoluteAt) :
    Opened s l w j t where
  pending := h.newest.pending
  absolute := ha
  expires := he
  unrevoked := h.newest.unrevoked
  within := ⟨kept, hk, h.within⟩
  eldest i r r' hr hu hrev hv hs _ k q hq hqu hd hne := by
    have hm := (h.within.2 k q hq hqu).resolve_left hd
    exact h.ranked i k r q hr hu hrev (h.touched i r r' hr hrev hv hs) hq hqu hd hm hne

end AdminPlatform.Auth.SessionCap
