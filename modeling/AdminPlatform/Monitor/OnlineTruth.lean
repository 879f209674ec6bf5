import AdminPlatform.Monitor.OnlineSessions

namespace AdminPlatform.Monitor.OnlineTruth

open Model.Schema Model.Service Foundation.Relational Foundation.Transaction Foundation.Query
open Foundation.Interleaving Auth.RefreshService Auth.TokenInvariant Auth.AccountSystem
open Auth.TokenFamily Auth.SessionLifetime OnlineSessions

/-- The entry is about a family with an unrevoked, unexpired token, its newest one, and shows when
this token was issued, when it expires, and whose it is. -/
def Current (db : Db) (now : ℕ) (e : OnlineSession) : Prop :=
  ∃ i, ∃ t : RefreshToken, db.rows .refreshTokens i = some t ∧ t.familyId = e.sessionId ∧
    active now t = true ∧
    (∀ j (r : RefreshToken), db.rows .refreshTokens j = some r → r.familyId = e.sessionId → j ≤ i) ∧
    e.lastActiveTime = t.issuedAt ∧ e.expiresAt = t.expiresAt ∧ e.userId = t.userId ∧
    ∃ u : User, db.rows .users t.userId = some u ∧ e.username = u.username

/-- The pages together hold one entry for each active family and no other, and the count is their
number. -/
structure Complete (db : Db) (now : ℕ) : Prop where
  pages : ∀ k size, (activeFamilies db now).length ≤ k * size →
    ((List.range k).flatMap fun n ↦ listOnlineSessions db now (n + 1) size) = ordered db now
  nodup : ((ordered db now).map OnlineSession.sessionId).Nodup
  families : ∀ f, f ∈ (ordered db now).map OnlineSession.sessionId ↔ ∃ i, ∃ r : RefreshToken,
    db.rows .refreshTokens i = some r ∧ r.familyId = f ∧ r.revokedAt = none ∧ now < r.expiresAt
  count : countOnlineSessions db now = (ordered db now).length

def LoginTime (s : Settings) (w : Shared) (S : SystemState) (e : OnlineSession) : Prop :=
  ∃ S₀ S₁ label t, Reach (AccountOp.call s) .crash .free w S₀ ∧
    S₀.next (AccountOp.call s) .crash label = some S₁ ∧ OpensFamily S₀ S₁ t ∧
    Continues (AccountOp.call s) .crash .free S₁ S ∧ t.familyId = e.sessionId ∧ e.loginTime = t.issuedAt

variable {s : Settings} {w : Shared} {S S' : SystemState} {now f : ℕ} {e : OnlineSession}

abbrev sessionKey (x : RefreshToken × String) : ℕ × ℕ × String := (x.1.familyId, x.1.userId, x.2)

/-- Every token has a user, and all tokens of a family the same one. -/
structure SoundFamilies (db : Db) : Prop where
  owner : ∀ i (r : RefreshToken), db.rows .refreshTokens i = some r → ∃ u : User, db.rows .users r.userId = some u
  family : ∀ i j (r t : RefreshToken), db.rows .refreshTokens i = some r →
    db.rows .refreshTokens j = some t → r.familyId = t.familyId → r.userId = t.userId

/-- The groups are the active families. -/
theorem families_perm {db : Db} (h : SoundFamilies db) (now : ℕ) :
    ((_activeSessions db now).map OnlineSession.sessionId).Perm (activeFamilies db now) := by
  have hmap : (_activeSessions db now).map OnlineSession.sessionId =
      ((joined db now).map sessionKey).dedup.map Prod.fst := by
    rw [← grouped_keys, _activeSessions, List.map_map, List.map_map]
    rfl
  have hnodup : (((joined db now).map sessionKey).dedup.map Prod.fst).Nodup := by
    refine (List.nodup_dedup _).map_on fun x hx y hy hxy ↦ ?_
    obtain ⟨⟨r, name⟩, hr, rfl⟩ := List.mem_map.1 (List.mem_dedup.1 hx)
    obtain ⟨⟨t, name'⟩, htok, rfl⟩ := List.mem_map.1 (List.mem_dedup.1 hy)
    obtain ⟨i, u, hr, -, hu, hn⟩ := mem_joined.1 hr
    obtain ⟨j, u', htok, -, hu', hn'⟩ := mem_joined.1 htok
    have hf : r.familyId = t.familyId := hxy
    have huser := h.family i j r t hr htok hf
    rw [huser, hu'] at hu
    cases hu
    simp only [sessionKey, hf, huser, ← hn, ← hn']
  have hactive : (activeFamilies db now).Nodup := List.nodup_dedup _
  rw [hmap]
  refine (List.perm_ext_iff_of_nodup hnodup hactive).2 fun f ↦ ?_
  rw [List.mem_map]
  constructor
  · rintro ⟨x, hx, rfl⟩
    obtain ⟨⟨r, name⟩, hr, rfl⟩ := List.mem_map.1 (List.mem_dedup.1 hx)
    obtain ⟨i, u, -, ha, -⟩ := mem_joined.1 hr
    exact ha
  · intro hf
    obtain ⟨i, r, hr, -, rfl⟩ := mem_activeFamilies.1 hf
    obtain ⟨u, hu⟩ := h.owner i r hr
    refine ⟨sessionKey (r, u.username), List.mem_dedup.2 (List.mem_map_of_mem ?_), rfl⟩
    exact mem_joined.2 ⟨i, u, hr, hf, hu, rfl⟩

section Table

variable (ht : TokenInv w) (hl : LifetimeInv s w)

include ht in
theorem user_eq {i j : ℕ} {r t : RefreshToken} (hr : w.db.rows .refreshTokens i = some r)
    (htok : w.db.rows .refreshTokens j = some t) (hf : r.familyId = t.familyId) :
    r.userId = t.userId := by
  refine ht.issued_fun t.familyId _ _ ?_ (ht.issued j t htok)
  rw [← hf]
  exact ht.issued i r hr

include ht in
/-- The rows of a group are those of its family. -/
theorem group_rows {k : ℕ × ℕ × String} {rows : List (RefreshToken × String)}
    (hk : (k, rows) ∈ grouped sessionKey (joined w.db now)) {i : ℕ} {r : RefreshToken}
    (hr : w.db.rows .refreshTokens i = some r) (hf : r.familyId = k.1) : (r, k.2.2) ∈ rows := by
  obtain ⟨⟨⟨q, name⟩, hq, hkey⟩, rfl⟩ := mem_grouped.1 hk
  obtain ⟨j, u, hj, ha, hu, hname⟩ := mem_joined.1 hq
  subst hkey
  have hfam : r.familyId = q.familyId := hf
  have huser := user_eq ht hr hj hfam
  refine List.mem_filter.2 ⟨mem_joined.2 ⟨i, u, hr, hfam ▸ ha, huser ▸ hu, hname⟩, ?_⟩
  simp only [sessionKey, hfam, huser, decide_true]

theorem row_of_group {k : ℕ × ℕ × String} {rows : List (RefreshToken × String)} {x : RefreshToken × String}
    (hk : (k, rows) ∈ grouped sessionKey (joined w.db now)) (hx : x ∈ rows) :
    (∃ i, w.db.rows .refreshTokens i = some x.1) ∧ x.1.familyId = k.1 ∧ x.1.userId = k.2.1 ∧ x.2 = k.2.2 := by
  obtain ⟨-, rfl⟩ := mem_grouped.1 hk
  obtain ⟨hm, he⟩ := List.mem_filter.1 hx
  obtain ⟨i, u, hr, -⟩ := mem_joined.1 hm
  have he' := of_decide_eq_true he
  subst he'
  exact ⟨⟨i, hr⟩, rfl, rfl, rfl⟩

include ht hl in
/-- The unrevoked token of a family is its newest, and all others were followed by it. -/
theorem newest {i j : ℕ} {r t : RefreshToken} (htok : w.db.rows .refreshTokens i = some t)
    (hn : t.revokedAt = none) (hr : w.db.rows .refreshTokens j = some r) (hf : r.familyId = t.familyId) :
    j ≤ i ∧ (r = t ∨ Followed r t) := by
  rcases Nat.lt_trichotomy j i with hlt | rfl | hgt
  · exact ⟨hlt.le, .inr (hl.followed j i r t hr htok hf hlt)⟩
  · cases hr.symm.trans htok
    exact ⟨le_rfl, .inl rfl⟩
  · have hrot := (hl.followed i j t r htok hr hf.symm hgt).rotated
    rw [ht.end_of_unrevoked htok hn] at hrot
    cases hrot

include ht hl in
theorem current_of_mem (he : e ∈ ordered w.db now) : Current w.db now e := by
  obtain ⟨⟨k, rows⟩, hk, rfl⟩ := List.mem_map.1 (mem_ordered.1 he)
  obtain ⟨⟨⟨q, name⟩, hq, hkey⟩, -⟩ := mem_grouped.1 hk
  obtain ⟨j, u, hj, ha, hu, hname⟩ := mem_joined.1 hq
  obtain ⟨i, t, htok, hact, hf⟩ := mem_activeFamilies.1 ha
  have hn : t.revokedAt = none := by
    simp only [active, Bool.and_eq_true, Option.isNone_iff_eq_none] at hact
    exact hact.1
  have hfk : t.familyId = k.1 := hf.trans (congrArg Prod.fst hkey)
  have huser : t.userId = q.userId := user_eq ht htok hj hf
  have hmem := group_rows ht hk htok hfk
  have hall : ∀ x ∈ rows, x.1 = t ∨ Followed x.1 t := by
    intro x hx
    obtain ⟨⟨l, hrow⟩, hxf, -⟩ := row_of_group hk hx
    exact (newest ht hl htok hn hrow (hxf.trans hfk.symm)).2
  have hused : t.lastUsedAt = none := hl.unused i t htok (ht.end_of_unrevoked htok hn)
  have hlast : lastActive t = t.issuedAt := by rw [lastActive, hused, Option.getD_none]
  refine ⟨i, t, htok, hfk, hact, fun l r hr hrf ↦ ?_, ?_, ?_, ?_, u, huser ▸ hu, ?_⟩
  · exact (newest ht hl htok hn hr (hrf.trans hfk.symm)).1
  · rw [← hlast]
    refine maximum_eq (f := fun x ↦ lastActive x.1) hmem fun x hx ↦ ?_
    rcases hall x hx with hxt | hxt
    · rw [hxt]
    · exact hlast ▸ hxt.used
  · refine maximum_eq (f := fun x ↦ x.1.expiresAt) hmem fun x hx ↦ ?_
    rcases hall x hx with hxt | hxt
    · rw [hxt]
    · exact hxt.expires
  · exact (congrArg (fun x : ℕ × ℕ × String ↦ x.2.1) hkey).symm.trans huser.symm
  · exact (congrArg (fun x : ℕ × ℕ × String ↦ x.2.2) hkey).symm.trans hname.symm

include ht hl in
/-- The earliest row of the family that is left gives the login time of its entry. -/
theorem loginTime_of_first {i : ℕ} {r : RefreshToken} (he : e ∈ ordered w.db now)
    (hr : w.db.rows .refreshTokens i = some r) (hf : r.familyId = e.sessionId)
    (hfirst : ∀ j (t : RefreshToken), w.db.rows .refreshTokens j = some t →
      t.familyId = e.sessionId → i ≤ j) : e.loginTime = r.issuedAt := by
  obtain ⟨⟨k, rows⟩, hk, rfl⟩ := List.mem_map.1 (mem_ordered.1 he)
  refine minimum_eq (f := fun x ↦ x.1.issuedAt) (group_rows ht hk hr hf) fun x hx ↦ ?_
  obtain ⟨⟨j, hrow⟩, hxf, -⟩ := row_of_group hk hx
  have hij := hfirst j x.1 hrow hxf
  rcases Nat.lt_or_ge i j with hlt | hge
  · exact (hl.followed i j r x.1 hr hrow (hf.trans hxf.symm) hlt).issued
  · have hji : i = j := by omega
    subst hji
    cases hr.symm.trans hrow
    exact le_rfl

include ht in
theorem soundFamilies_of_tokenInv : SoundFamilies w.db where
  owner := ht.owner
  family _ _ _ _ hr htok hf := user_eq ht hr htok hf

include ht in
theorem complete_list : Complete w.db now := by
  have hfam := families_perm (soundFamilies_of_tokenInv ht) now
  have hperm := ((ordered_perm w.db now).map OnlineSession.sessionId).trans hfam
  have hactive : (activeFamilies w.db now).Nodup := List.nodup_dedup _
  have hcount : (activeFamilies w.db now).length = (ordered w.db now).length := by
    rw [← hperm.length_eq, List.length_map]
  refine ⟨fun k size hk ↦ flatMap_pages (hcount ▸ hk), hperm.nodup_iff.2 hactive, fun f ↦ ?_, hcount⟩
  rw [hperm.mem_iff, mem_activeFamilies]
  constructor
  · rintro ⟨i, r, hr, ha, hf⟩
    simp only [active, Bool.and_eq_true, Option.isNone_iff_eq_none, decide_eq_true_eq] at ha
    exact ⟨i, r, hr, hf, ha.1, ha.2⟩
  · rintro ⟨i, r, hr, hf, hn, hlt⟩
    refine ⟨i, r, hr, ?_, hf⟩
    simp only [active, hn, Option.isNone_none, Bool.true_and, decide_eq_true hlt]

end Table

/-- The step from `S` to `S'` does not take the earliest token of a family away while it leaves
others. -/
def KeepsFirst (S S' : SystemState) : Prop := ∀ i (r : RefreshToken),
  S.world.db.rows .refreshTokens i = some r →
    (∀ j (t : RefreshToken), S.world.db.rows .refreshTokens j = some t → t.familyId = r.familyId → i ≤ j) →
    (∃ j, ∃ t : RefreshToken, S'.world.db.rows .refreshTokens j = some t ∧ t.familyId = r.familyId) →
    S'.world.db.rows .refreshTokens i ≠ none

/-- The states of the runs whose steps keep the first tokens. -/
inductive KeptReach (s : Settings) (w : Shared) : SystemState → Prop
  | init : KeptReach s w (.init w)
  | step {S S' : SystemState} (label : Label AccountOp) : KeptReach s w S →
      S.next (AccountOp.call s) .crash label = some S' → KeepsFirst S S' → KeptReach s w S'

theorem KeptReach.reach (h : KeptReach s w S) : Reach (AccountOp.call s) .crash .free w S := by
  induction h with
  | init => exact .init
  | step label _ hn _ ih => exact .step label ih (admits_free _ label) hn

/-- The login that opened the family `f`, and its token, the earliest of the family. -/
def Remembered (s : Settings) (w : Shared) (S : SystemState) (f : ℕ) : Prop :=
  ∃ S₀ S₁ label t, Reach (AccountOp.call s) .crash .free w S₀ ∧
    S₀.next (AccountOp.call s) .crash label = some S₁ ∧ OpensFamily S₀ S₁ t ∧
    Continues (AccountOp.call s) .crash .free S₁ S ∧ t.familyId = f ∧
    ∃ i, ∃ r : RefreshToken, S.world.db.rows .refreshTokens i = some r ∧ r.familyId = f ∧
      r.issuedAt = t.issuedAt ∧ ∀ j (q : RefreshToken), S.world.db.rows .refreshTokens j = some q →
        q.familyId = f → i ≤ j

theorem Remembered.next {label : Label AccountOp} (hw : Start w)
    (hS : Reach (AccountOp.call s) .crash .free w S)
    (hn : S.next (AccountOp.call s) .crash label = some S') (hk : KeepsFirst S S')
    (h : Remembered s w S f)
    (hf : ∃ j, ∃ t : RefreshToken, S'.world.db.rows .refreshTokens j = some t ∧ t.familyId = f) :
    Remembered s w S' f := by
  obtain ⟨S₀, S₁, label₀, t, h₀, hn₀, ho, hc, htf, i, r, hr, hrf, hissued, hfirst⟩ := h
  have hchange := tokenChange_of_step hw hS hn
  have hS' : Reach (AccountOp.call s) .crash .free w S' := .step label hS (admits_free S label) hn
  have hstay := hk i r hr (fun j q hq hqf ↦ hfirst j q hq (hqf.trans hrf)) (hrf.symm ▸ hf)
  obtain ⟨r', hr'⟩ := Option.ne_none_iff_exists'.1 hstay
  have hsame := hchange.kept i r r' hr hr'
  refine ⟨S₀, S₁, label₀, t, h₀, hn₀, ho, .step label hc (admits_free S label) hn, htf, i, r', hr',
    hsame.family.trans hrf, hsame.issued.trans hissued, fun j q hq hqf ↦ ?_⟩
  cases hold : S.world.db.rows .refreshTokens j with
  | some q₀ => exact hfirst j q₀ hold ((hchange.kept j q₀ q hold hq).family.symm.trans hqf)
  | none =>
    by_contra hlt
    have hrot := ((lifetimeInv_of_reach hw hS').followed j i q r' hq hr'
      (hqf.trans (hsame.family.trans hrf).symm) (by omega)).rotated
    rw [hchange.added j q hold hq] at hrot
    cases hrot

theorem Remembered.opened {label : Label AccountOp} {i : ℕ} {t : RefreshToken} (hw : Start w)
    (hS : Reach (AccountOp.call s) .crash .free w S)
    (hn : S.next (AccountOp.call s) .crash label = some S')
    (hr : S'.world.db.rows .refreshTokens i = some t) (hno : ∀ u, Note.issued t.familyId u ∉ S.world.log) :
    Remembered s w S' t.familyId := by
  have hchange := tokenChange_of_step hw hS hn
  have hS' : Reach (AccountOp.call s) .crash .free w S' := .step label hS (admits_free S label) hn
  refine ⟨S, S', label, t, hS, hn, ⟨hno, i, hr⟩, .refl, rfl, i, t, hr, rfl, rfl, fun j q hq hqf ↦ ?_⟩
  have hopen := hchange.opened i t hr hno
  have hopen' := hchange.opened j q hq (hqf.symm ▸ hno)
  have hij := (tokenInv_of_reach hw hS').unrevoked_inj i j t q hr hq hqf.symm hopen.unrevoked
    hopen'.unrevoked
  exact hij.le

theorem remembered_of_reach (hw : Start w) (h : KeptReach s w S) : ∀ i (r : RefreshToken),
    S.world.db.rows .refreshTokens i = some r → Remembered s w S r.familyId := by
  induction h with
  | init =>
    intro i r hr
    have hnone : (State.init w : SystemState).world.db.rows .refreshTokens i = none := hw.tokens i
    rw [hnone] at hr
    cases hr
  | @step S S' label hS hn hk ih =>
    intro i r hr
    have hreach := hS.reach
    by_cases hno : ∀ u, Note.issued r.familyId u ∉ S.world.log
    · exact .opened hw hreach hn hr hno
    · obtain ⟨u, hu⟩ := not_forall_not.1 hno
      have hc : Continues (AccountOp.call s) .crash .free S S' :=
        .step label .refl (admits_free S label) hn
      obtain ⟨j, q, hq, hqf, -⟩ := (tokenGuar_of_continues hw hreach hc).anchor i u r hr hu
      rw [← hqf]
      exact .next hw hreach hn hk (ih j q hq) ⟨i, r, hr, hqf.symm⟩

/-- What the list and the count say is true of every state of a run that keeps the first tokens. -/
theorem online_list_true (hw : Start w) (h : KeptReach s w S) (now : ℕ) : Complete S.world.db now ∧
    ∀ e ∈ ordered S.world.db now, Current S.world.db now e ∧ LoginTime s w S e := by
  have hreach := h.reach
  have ht := tokenInv_of_reach hw hreach
  have hl := lifetimeInv_of_reach hw hreach
  refine ⟨complete_list ht, fun e he ↦ ?_⟩
  have hcur := current_of_mem ht hl he
  obtain ⟨i, t, htok, hf, -⟩ := id hcur
  obtain ⟨S₀, S₁, label, q, h₀, hn, ho, hc, hqf, j, r, hr, hrf, hissued, hfirst⟩ :=
    remembered_of_reach hw h i t htok
  rw [hf] at hqf hrf hfirst
  refine ⟨hcur, S₀, S₁, label, q, h₀, hn, ho, hc, hqf, ?_⟩
  rw [loginTime_of_first ht hl he hr hrf hfirst, hissued]

section Example

def tokensStay (S S' : SystemState) : Bool :=
  (S.world.db.scan .refreshTokens).all fun x ↦ (S'.world.db.rows .refreshTokens x.1).isSome

def followKept (s : Settings) (S : SystemState) : List (Label AccountOp) → Option SystemState
  | [] => some S
  | a :: as => (S.next (AccountOp.call s) .crash a).bind fun S' ↦
    if tokensStay S S' then followKept s S' as else none

theorem keepsFirst_of_stay (h : tokensStay S S' = true) : KeepsFirst S S' := by
  intro i r hr _ _ hnone
  have hs := List.all_eq_true.1 h (i, r) (mem_scan.2 hr)
  simp only [hnone] at hs
  cases hs

theorem keptReach_follow {as : List (Label AccountOp)} (h : KeptReach s w S)
    (hf : followKept s S as = some S') : KeptReach s w S' := by
  induction as generalizing S with
  | nil =>
    cases hf
    exact h
  | cons a as ih =>
    obtain ⟨S₁, hn, hf⟩ := Option.bind_eq_some_iff.1 hf
    split at hf
    · next hs => exact ih (.step a h hn (keepsFirst_of_stay hs)) hf
    · cases hf

theorem online_list_true_aliceRefreshes : ∃ S, (ordered S.world.db 60).length = 1 ∧
    Complete S.world.db 60 ∧ ∀ e ∈ ordered S.world.db 60, Current S.world.db 60 e ∧
      LoginTime someSettings aliceOnly S e := by
  have h : ((followKept someSettings (.init aliceOnly) aliceRefreshes).any fun S ↦
      decide ((ordered S.world.db 60).length = 1)) = true := by decide +kernel
  obtain ⟨S, hS, hp⟩ := (Option.any_eq_true _ _).1 h
  exact ⟨S, of_decide_eq_true hp, online_list_true start_aliceOnly (keptReach_follow .init hS) 60⟩

def aliceIsCleanedUp : List (Label AccountOp) :=
  aliceLogsIn ++ .tick 1000 :: .start (.refresh (some ⟨3, 4⟩)) :: List.replicate 20 (.step 1) ++
    .tick 604000 :: .start (.deleteExpired none) :: List.replicate 5 (.step 2)

def loginMoved (S : SystemState) : Bool :=
  ((ordered S.world.db S.world.now).any fun e ↦ decide (e.sessionId = 2) && decide (e.loginTime = 1000)) &&
    (S.world.db.scan .refreshTokens).any fun x ↦
      decide (x.2.familyId = 2) && decide (x.2.familyAbsoluteAt = 2592000)

theorem not_loginTime_aliceIsCleanedUp : ¬ ∀ (s : Settings) (w : Shared) (S : SystemState), Start w →
    Reach (AccountOp.call s) .crash .free w S → ∀ now, ∀ e ∈ ordered S.world.db now,
      LoginTime s w S e := by
  intro h
  obtain ⟨S, hS, hp⟩ := exists_reach_aliceOnly aliceIsCleanedUp (p := loginMoved) (by decide +kernel)
  rw [loginMoved, Bool.and_eq_true, List.any_eq_true, List.any_eq_true] at hp
  obtain ⟨⟨e, he, hmoved⟩, ⟨i, r⟩, hr, hrow⟩ := hp
  rw [Bool.and_eq_true, decide_eq_true_eq, decide_eq_true_eq] at hmoved hrow
  obtain ⟨S₀, S₁, label, t, h₀, hn, ho, hc, hf, htime⟩ :=
    h someSettings aliceOnly S start_aliceOnly hS S.world.now e he
  have hanchor := anchored_of_opens start_aliceOnly h₀ hn ho hc i r (mem_scan.1 hr)
    (hrow.1.trans (hmoved.1.symm.trans hf.symm))
  have habsolute : someSettings.authRefreshAbsoluteTtlSeconds = 2592000 := rfl
  have htwo := hrow.2
  have hissued := hmoved.2
  rw [hanchor.1] at htwo
  omega

end Example

end AdminPlatform.Monitor.OnlineTruth
