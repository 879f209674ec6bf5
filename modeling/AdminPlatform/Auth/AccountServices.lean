import AdminPlatform.Auth.TokenServices

namespace AdminPlatform.Auth.AccountServices

open Model.Schema Model.Service Model.Scope Foundation.Relational Foundation.Transaction
open Foundation.Interleaving Foundation.RelyGuarantee RefreshService RefreshTokenRepository
open TokenInvariant TokenTransaction SessionCommit TokenStatements TokenPrograms TokenServices
open Service
open User.Service (UserCreate UserUpdate hashPassword)

variable {α : Type} {s : Settings} {strict : Prop} {G : Guard Table Row LockName Storage Note}
  {new old reset : Option ℕ} {l l' : Private} {w w' : Shared} {i j u f n : ℕ} {r : RefreshToken}
  {g : Statement} {E : Failure → Private → Shared → Prop}

/-- The session has neither written nor noted anything. -/
structure Blank (l : Private) : Prop where
  redo : l.redo = []
  notes : l.notes = []

/-- The first writing statement of a call that issues no token. -/
theorem tx_blank (hb : Blank l)
    (htok : ∀ i v, pending g.writes .refreshTokens i = some v →
      v = none ∧ ∃ r : RefreshToken, w.db.rows .refreshTokens i = some r)
    (husr : ∀ u v, pending g.writes .users u = some v →
      UserWrite (l.run g w.next) (w.run g) u v)
    (hgone : ∀ u, pending g.writes .users u = some none → ∀ i (r : RefreshToken),
      w.db.rows .refreshTokens i = some r → r.userId = u →
        pending g.writes .refreshTokens i = some none)
    (hrem : ∀ j (t : RefreshToken), w.db.rows .refreshTokens j = some t →
      pending g.writes .refreshTokens j = some none → (∃ u, Note.minted t.jti u ∈ w.log) ∧
        ∀ i (r : RefreshToken), w.db.rows .refreshTokens i = some r → r.rotatedToJti = some t.jti →
          pending g.writes .refreshTokens i = some none)
    (hn : ∀ n ∈ g.notes, ∃ u y o h, n = .passwordReplaced u y o h ∧ Sole l w h.salt ∧
      (∃ x x' : User, w.db.rows .users u = some x ∧ x.passwordHash = o ∧
        pending g.writes .users u = some (some x') ∧ x'.passwordHash = h) ∧
      (y = .changePassword → reset = some u)) :
    Tx s none none reset (l.run g w.next) (w.run g) := by
  have hredo : (l.run g w.next).redo = g.writes := by
    show l.redo ++ g.writes = _
    rw [hb.redo]
    rfl
  have hnotes : (l.run g w.next).notes = g.notes := by
    show l.notes ++ g.notes = _
    rw [hb.notes]
    rfl
  have hno : ∀ n ∈ (l.run g w.next).notes, ∃ u y o h, n = .passwordReplaced u y o h := by
    intro n hm
    rw [hnotes] at hm
    obtain ⟨u, y, o, h, he, -⟩ := hn n hm
    exact ⟨u, y, o, h, he⟩
  refine ⟨fun x hx ↦ ?_, fun i v hv _ _ ↦ ?_, (fun j hj ↦ by cases hj), (fun i hi ↦ by cases hi),
    (fun j t hj ↦ by cases hj), fun u v hv ↦ ?_, fun u hp ↦ ?_, fun j t ht hp ↦ ?_, fun x u hm ↦ ?_,
    fun f u hm ↦ ?_, fun f u y hm ↦ ?_, fun f x hm ↦ ?_,
    fun i f hm ↦ ?_, ?_, fun u y o h hm ↦ ?_⟩
  · rw [hredo] at hx
    simp only [Local.run, Effect.claims, List.mem_append, List.mem_map]
    exact .inr (.inl (.inr ⟨x, hx, rfl⟩))
  · rw [hredo] at hv
    obtain ⟨rfl, r, hr⟩ := htok i v hv
    exact ⟨r, hr, fun r' he ↦ by cases he⟩
  · rw [hredo] at hv
    exact husr u v hv
  · rw [hredo] at hp ⊢
    exact hgone u hp
  · rw [hredo] at hp
    obtain ⟨hm, hl⟩ := hrem j t ht hp
    refine ⟨hm, fun i r hr he ↦ ?_⟩
    rw [hredo]
    exact hl i r hr he
  · simpa using hno _ hm
  · simpa using hno _ hm
  · simpa using hno _ hm
  · simpa using hno _ hm
  · simpa using hno _ hm
  · refine List.pairwise_of_forall_mem_list fun n _ n' hm f x i _ he ↦ ?_
    subst he
    simpa using hno _ hm
  · rw [hnotes] at hm
    obtain ⟨u', y', o', h', he, hs, ⟨x, x', hx⟩, hy⟩ := hn _ hm
    cases he
    refine ⟨rfl, sole_run hs, ⟨x, x', ?_⟩, fun hc _ ↦ .inl (hy hc)⟩
    rw [hredo]
    exact hx

theorem blank_view (hb : Blank l) (t : Table) (i : ℕ) :
    (w.view l).db.rows t i = w.db.rows t i := by
  rw [view_db, apply_rows, hb.redo]
  rfl

theorem wp_hashPassword {Q : PasswordHash → Private → Shared → Prop} {p : String}
    (h : Tx s new old reset l w)
    (hQ : ∀ y l' w', Onward s strict l w l' w' → l'.redo = l.redo → l'.notes = l.notes →
      Tx s new old reset l' w' → Sole l' w' y.salt → Q y l' w') :
    wp (tokenProtocol s strict) G (hashPassword p) Q E l w := by
  unfold hashPassword
  exact wp_bind (wp_uuid4 h fun y l' w' ho hr hn h' hs ↦ hQ _ l' w' ho hr hn h' hs)

theorem wp_commit {Q : Unit → Private → Shared → Prop}
    (hG : strict → ∀ w notes, G.commit w notes → PasswordGuard w notes)
    (h : Ready s l w) (hQ : ∀ l' w', Q () l' w') :
    wp (tokenProtocol s strict) G .save Q E l w := by
  refine wp_save fun w' hr hg ↦ ⟨?_, hQ _ _⟩
  exact moves_commit hr.inv (ready_rely h hr) fun hst ↦ hG hst _ _ hg

/-- A call that catches its business errors and commits in either case. -/
theorem safe_committing {p : Call α}
    (hG : strict → ∀ w notes, G.commit w notes → PasswordGuard w notes)
    (h : wp (tokenProtocol s strict) G p (fun _ ↦ Ready s)
      (Err s) l w) : safe (tokenProtocol s strict) G (committing p) l w := by
  unfold committing caught
  refine wp_bind (wp_tryCatch (wp_bind (wp_mono (fun a l' w' ht ↦ ?_) (fun e l' w' he ↦ ?_) h)))
  · exact wp_bind (wp_commit hG ht fun _ _ ↦ trivial)
  · cases e with
    | app e => exact wp_bind (wp_commit hG he fun _ _ ↦ trivial)
    | _ => trivial

theorem safe_getSession {p : Call α}
    (hG : strict → ∀ w notes, G.commit w notes → PasswordGuard w notes)
    (h : wp (tokenProtocol s strict) G p (fun _ ↦ Ready s)
      (fun _ _ _ ↦ True) l w) : safe (tokenProtocol s strict) G (getSession p) l w := by
  refine wp_bind (wp_mono (fun a l' w' ht ↦ ?_) (fun _ _ _ _ ↦ trivial) h)
  exact wp_bind (wp_commit hG ht fun _ _ ↦ trivial)

section Calls

variable (hG : strict → ∀ w notes, G.commit w notes → PasswordGuard w notes)
  (hinv : (tokenProtocol s strict).inv w)

theorem wp_loginSession {username password : String} :
    wp (tokenProtocol s strict) G (loginSession s username password) (fun _ ↦ Ready s)
      (fun _ _ _ ↦ True) {} w := by
  refine wp_bind (wp_look (tx_init w) fun w₁ ho₁ h₁ ↦ ?_)
  split
  · exact ready_none h₁
  · next u x hfind =>
    split
    · refine wp_bind (wp_mark h₁ (fun _ _ _ _ ↦ trivial) (by simp) (by simp)
        fun l₂ w₂ ho₂ hr₂ h₂ hv ↦ ?_)
      refine wp_bind ?_
      unfold issueAccessToken
      split
      · trivial
      · show wp _ _ _ _ _ _ _
        split
        · exact ready_none h₂
        · refine wp_bind (wp_mono (fun _ _ _ h ↦ h) (fun _ _ _ _ ↦ trivial)
            (wp_issueLoginRefresh h₂ hr₂ fun y j l₃ w₃ ho₃ h₃ hopen hi hs ↦ ?_))
          obtain ⟨t, ht⟩ := hopen
          refine wp_bind (wp_mark h₃ (fun l₄ w₄ ho₄ _ ↦ ?_) (by simp) (by simp)
            fun l₄ w₄ ho₄ hr₄ h₄ _ ↦ ⟨_, _, h₄, fun k hk _ ↦ ?_⟩)
          · refine ⟨ho₄.after.notes hi, ho₄.sole hs,
              .inl ⟨ho₄.after.notes (ho₃.after.notes hv), ?_⟩⟩
            rw [ho₄.users, ho₃.users, hr₂]
            rfl
          · cases hk
            exact ⟨t, opened_onward ht h₃.covered ho₄ hr₄⟩
    · exact ready_none h₁

include hG in
theorem safe_login {guard : Except AppError Unit} {username password : String} :
    safe (tokenProtocol s strict) G (login s guard username password) {} w := by
  unfold login
  cases guard with
  | error e => trivial
  | ok x =>
    refine wp_bind (wp_mono (fun a l' w' ht ↦ ?_) (fun _ _ _ _ ↦ trivial) wp_loginSession)
    refine wp_bind (wp_commit hG ht fun l w ↦ ?_)
    cases a with
    | none => trivial
    | some x => trivial

theorem wp_refreshSession (raw : Option RawToken) :
    wp (tokenProtocol s strict) G (refreshSession s raw)
      (fun _ ↦ Ready s) (Err s) {} w := by
  refine wp_bind (wp_rotateRefreshToken raw (tx_init w) rfl rfl
    fun x i j l₁ w₁ ho₁ h₁ ↦ ?_)
  refine wp_bind (wp_look h₁ fun w₂ ho₂ h₂ ↦ ?_)
  have hrevoke : ∀ {e : AppError}, wp (tokenProtocol s strict) G
      (revokeRefreshToken s raw >>= fun _ ↦ (raise e : Call LoginResponse))
      (fun _ ↦ Ready s) (Err s) l₁ w₂ := by
    intro e
    exact wp_bind (wp_revokeRefreshToken raw h₂ (fun b l₃ w₃ _ h₃ ↦ ready_rotated h₃)
      ho₂.after.rely.inv)
  split
  · exact hrevoke
  · split
    · refine wp_bind ?_
      unfold issueAccessToken
      split
      · trivial
      · exact ready_rotated h₂
    · exact hrevoke

include hG in
theorem safe_refresh (raw : Option RawToken) :
    safe (tokenProtocol s strict) G (refresh s raw) {} w :=
  safe_committing hG (wp_refreshSession raw)

include hG hinv in
theorem safe_logout (raw : Option RawToken) :
    safe (tokenProtocol s strict) G (logout s raw) {} w := by
  refine wp_bind (wp_mono (fun _ _ _ h ↦ h) (fun _ _ _ _ ↦ trivial)
    (wp_revokeRefreshToken raw (tx_init w) (fun b l₁ w₁ _ h₁ ↦ ?_) hinv))
  exact wp_commit hG (ready_none h₁) fun _ _ ↦ trivial

include hG in
theorem safe_issueLoginRefresh (userId : ℕ) :
    safe (tokenProtocol s strict) G (getSession (issueLoginRefresh s userId)) {} w :=
  safe_getSession hG (wp_mono (fun _ _ _ h ↦ h) (fun _ _ _ _ ↦ trivial)
    (wp_issueLoginRefresh (tx_init w) rfl fun _ j _ _ _ h hopen _ _ ↦ ⟨_, _, h, fun k hk _ ↦ by
      cases hk
      exact hopen⟩))

include hG in
theorem safe_rotateRefreshToken (raw : Option RawToken) :
    safe (tokenProtocol s strict) G (getSession (rotateRefreshToken s raw)) {} w :=
  safe_getSession hG (wp_mono (fun _ _ _ h ↦ h) (fun _ _ _ _ ↦ trivial)
    (wp_rotateRefreshToken raw (tx_init w) rfl rfl
      fun _ _ _ _ _ _ h ↦ ready_rotated h))

theorem settle (h : Tx s new old (some u) l w)
    (hs : s.authRefreshTokenPepper = "" ∨ Swept l w u []) : Tx s new old none l w :=
  { h with
    replaced := by
      intro v y o m hm
      obtain ⟨h₁, h₂, h₃, h₄⟩ := h.replaced v y o m hm
      refine ⟨h₁, h₂, h₃, fun hy hsp ↦ ?_⟩
      rcases h₄ hy hsp with h₄ | h₄
      · cases h₄
        exact .inr (hs.resolve_left hsp)
      · exact .inr h₄ }

theorem swept_listed (hl : LocksUser l u) (hn : n ≤ w.now) :
    Swept l w u (liveFamilies (w.view l).db u n) := by
  refine ⟨hl, fun i r hr hu ↦ ?_⟩
  by_cases hd : Dead w.now r
  · exact .inl hd
  · refine .inr (.inl (mem_liveFamilies.2 ⟨i, r, hr, ?_, rfl⟩))
    exact isActive_iff.2 ⟨hu, fun hc ↦ hd (hc.later hn)⟩

theorem wp_setPasswordHash {Q : Unit → Private → Shared → Prop} {y : PasswordHash}
    (hb : Blank l) (hs : Sole l w y.salt) (hE : ∀ l w, E .staleData l w)
    (hQ : ∀ o l' w', After (tokenProtocol s strict) l w l' w' →
      Tx s none none (some u) l' w' →
      (∃ x : User, pending l'.redo .users u = some (some x) ∧ x.passwordHash = y) →
      Note.passwordReplaced u .changePassword o y ∈ l'.notes → Q () l' w') :
    wp (tokenProtocol s strict) G (setPasswordHash u y) Q E l w := by
  refine wp_query fun w' hr ↦ ?_
  cases hx : (w'.view l).db.rows .users u with
  | none => exact hE l w'
  | some x =>
    refine fun _ ↦ ⟨rfl, ?_⟩
    rw [blank_view hb] at hx
    let g : Statement := {
      writes := [⟨.users, u, some { x with passwordHash := y }⟩]
      notes := [.passwordReplaced u .changePassword x.passwordHash y] }
    have hself : pending g.writes .users u = some (some { x with passwordHash := y }) := by
      rw [pending_singleton, Write.at_self]
    have htx : Tx s none none (some u) (l.run g w'.next) (w'.run g) := by
      refine tx_blank hb (fun i v hv ↦ ?_) (fun v z hz ↦ ?_) (fun v hd ↦ ?_) (fun j t _ hd ↦ ?_)
        (fun m hm ↦ ?_)
      · rw [pending_singleton, Write.at_other (by decide)] at hv
        cases hv
      · have hw := Write.at_eq_some ((pending_singleton _ _ _).symm.trans hz)
        cases hw
        exact .replace x _ .changePassword hx (List.mem_append_right _ List.mem_cons_self)
      · have hw := Write.at_eq_some ((pending_singleton _ _ _).symm.trans hd)
        cases hw
      · cases Write.at_eq_some ((pending_singleton _ _ _).symm.trans hd)
      · rw [List.mem_singleton.1 hm]
        exact ⟨u, .changePassword, x.passwordHash, y, rfl, sole_rely hs hr,
          ⟨x, _, hx, rfl, hself, rfl⟩, fun _ ↦ rfl⟩
    refine hQ x.passwordHash _ _ (after_run hr rfl) htx ⟨{ x with passwordHash := y }, ?_, rfl⟩
      (List.mem_append_right _ List.mem_cons_self)
    show pending (l.redo ++ g.writes) .users u = _
    rw [pending_append, hself]
    rfl

theorem wp_reissue {Q : IssuedRefresh → Private → Shared → Prop} {y o : PasswordHash}
    (h : Tx s none none (some u) l w)
    (hp : ∃ x : User, pending l.redo .users u = some (some x) ∧ x.passwordHash = y)
    (hn : Note.passwordReplaced u .changePassword o y ∈ l.notes)
    (hQ : ∀ x l' w', Ready s l' w' → Q x l' w') :
    wp (tokenProtocol s strict) G (reissue s u y) Q (Err s) l w := by
  unfold reissue
  refine wp_bind (wp_acquireUserLock h fun l₁ w₁ ho₁ hr₁ hn₁ h₁ hl ↦ ?_)
  refine wp_bind (wp_look h₁ fun w₂ ho₂ h₂ ↦ ?_)
  refine wp_bind (wp_look h₂ fun w₃ ho₃ h₃ ↦ ?_)
  have hsw := swept_listed (w := w₃) hl ho₃.after.rely.later.now
  refine wp_bind (wp_revokeAll (I := fun fs l w ↦ Swept l w u fs)
    (fun _ _ _ _ _ hr hs ↦ swept_rely hs hr) (fun _ _ _ _ _ hs ↦ swept_revocation hs)
    ho₃.after.rely.inv h₃ hl (fun f hf ↦ issued_of_listed ho₃.after.rely.inv.1 h₃ hf) hsw
    fun l₄ w₄ ho₄ h₄ hsw₄ ↦ ?_)
  have ho := (((ho₁.trans ho₂).trans ho₃).trans ho₄)
  refine wp_bind (wp_issueRefreshToken h₄ (ho₄.locks hl) (.inr ⟨_, o, y, ho.after.notes hn⟩)
    fun x j t l₅ w₅ ho₅ h₅ hsw₅ ht _ ↦ ?_)
  have hsw' := hsw₅ u [] hsw₄
  have hopen := opened_of_swept ho₅.after.rely.inv.1 h₅ hsw' ht
  refine wp_bind (wp_mark (settle h₅ (.inr hsw')) (fun l₆ w₆ ho₆ _ ↦ ?_) (by simp) (by simp)
    fun l₆ w₆ ho₆ hr₆ h₆ _ ↦ hQ x l₆ w₆ ⟨_, _, h₆, fun k hk _ ↦ ?_⟩)
  · obtain ⟨z, hz, hzy⟩ := hp
    refine ⟨ho₆.after.notes ht.noted, ho₆.sole ht.sole, .inr ⟨z, ?_, hzy⟩⟩
    rw [ho₆.users, ho₅.users, ho.users, hz]
  · cases hk
    exact ⟨t, opened_onward hopen h₅.covered ho₆ hr₆⟩

theorem wp_changePasswordSession {userId : ℕ} {oldPassword newPassword : String} :
    wp (tokenProtocol s strict) G (changePasswordSession s userId oldPassword newPassword)
      (fun _ ↦ Ready s) (Err s) {} w := by
  refine wp_bind (wp_look (tx_init w) fun w₁ ho₁ h₁ ↦ ?_)
  split
  · exact ready_none h₁
  · split
    · exact ready_none h₁
    · split
      · exact ready_none h₁
      · refine wp_bind ?_
        unfold validateNewPassword
        split
        · exact ready_none h₁
        · split
          · exact ready_none h₁
          · refine wp_bind (wp_hashPassword h₁ fun y l₂ w₂ ho₂ hr₂ hn₂ h₂ hs₂ ↦ ?_)
            refine wp_bind (wp_setPasswordHash ⟨hr₂, hn₂⟩ hs₂ (fun _ _ ↦ trivial)
              fun o l₃ w₃ ha₃ h₃ hp hn ↦ ?_)
            refine wp_bind ?_
            unfold issueAccessToken
            split
            · trivial
            · show wp (tokenProtocol s strict) G _ _ _ _ _
              split
              · next hpep => exact ready_none (settle h₃ (.inl hpep))
              · exact wp_bind (wp_reissue h₃ hp hn fun _ _ _ h₄ ↦ h₄)

include hG in
theorem safe_changePassword (userId : ℕ) (oldPassword newPassword : String) :
    safe (tokenProtocol s strict) G (changePassword s userId oldPassword newPassword) {} w :=
  safe_committing hG wp_changePasswordSession

include hG in
theorem safe_forceLogout (sessionId : ℕ) :
    safe (tokenProtocol s strict) G (getSession (forceLogout sessionId)) {} w := by
  refine safe_getSession hG (wp_bind (wp_look (tx_init w) fun w₁ ho₁ h₁ ↦ ?_))
  refine wp_bind (wp_look h₁ fun w₂ ho₂ h₂ ↦ ?_)
  split
  · trivial
  · next u name hrow =>
    have hi : Note.issued sessionId u ∈ w₂.log := by
      simp only [Option.ite_none_right_eq_some] at hrow
      obtain ⟨x, hx, hxu⟩ := List.mem_filterMap.1 (List.mem_of_mem_head? hrow.2)
      obtain ⟨i, r⟩ := x
      obtain ⟨hr, hf⟩ := mem_select.1 hx
      obtain ⟨y, -, he⟩ := Option.map_eq_some_iff.1 hxu
      have hiss := ho₂.after.rely.inv.1.issued i r hr
      rw [of_decide_eq_true hf, (Prod.mk.inj he).1] at hiss
      exact hiss
    refine wp_bind (wp_acquireUserLock h₂ fun l₃ w₃ ho₃ _ _ h₃ hl ↦ ?_)
    refine wp_bind (wp_revokeFamily h₃ hl (.inl (ho₃.log hi)) fun _ _ _ _ _ _ _ h₄ ↦ ready_none h₄)

theorem blank_init : Blank {} := ⟨rfl, rfl⟩

/-- Physical deletion of tokens, as a call's first statement. -/
theorem wp_deleteExpired {Q : ℕ → Private → Shared → Prop} {before : Option ℕ}
    (hQ : ∀ n l' w', Tx s none none none l' w' → Q n l' w') :
    wp (tokenProtocol s strict) G (deleteExpired before) Q E {} w := by
  refine wp_query fun w' hr _ ↦ ⟨rfl, hQ _ _ _ ?_⟩
  refine tx_blank blank_init (fun i v hv ↦ ?_) (fun u v hv ↦ ?_) (fun u hd ↦ ?_)
    (fun j t ht hd ↦ ⟨⟨_, hr.inv.1.minted j t ht⟩, fun i r hrow he ↦ ?_⟩) (fun n hn ↦ by cases hn)
  · obtain ⟨r, hr', -, rfl⟩ := pending_delete hv
    exact ⟨rfl, r, hr'⟩
  · rw [delete_other (by decide)] at hv
    cases hv
  · rw [delete_other (by decide)] at hd
    cases hd
  · -- A token expires no later than the one it was rotated to.
    obtain ⟨q, hq, hle, -⟩ := pending_delete hd
    cases ((blank_view blank_init _ _).symm.trans hq).symm.trans ht
    obtain ⟨hf, -, hij⟩ := hr.inv.1.link i j r t hrow ht he
    have hexp := (hr.inv.2.2.followed i j r t hrow ht hf hij).expires
    refine pending_delete_self ((blank_view blank_init _ _).trans hrow) (decide_eq_true ?_)
    exact hexp.trans (of_decide_eq_true hle)

include hG in
theorem safe_deleteExpired (before : Option ℕ) :
    safe (tokenProtocol s strict) G (getSession (deleteExpired before)) {} w :=
  safe_getSession hG (wp_deleteExpired fun _ _ _ h ↦ ready_none h)

end Calls

section Users

open User.Service User.Service.UserRepository

variable (hG : strict → ∀ w notes, G.commit w notes → PasswordGuard w notes)

abbrev deletion (db : Db) (u : ℕ) : List (Write Row) :=
  db.delete .refreshTokens (fun _ (r : RefreshToken) ↦ decide (r.userId = u)) ++
  db.delete .userRoles (fun _ (r : UserRole) ↦ decide (r.userId = u)) ++
  db.delete .userPosts (fun _ (r : UserPost) ↦ decide (r.userId = u)) ++
  db.delete .users (fun i _ ↦ decide (i = u))

theorem pending_deletion {db : Db} {v : Option RefreshToken}
    (h : pending (deletion db u) .refreshTokens i = some v) :
    v = none ∧ ∃ r : RefreshToken, db.rows .refreshTokens i = some r ∧ r.userId = u := by
  have hm := pending_mem h
  simp only [List.mem_append, mem_delete] at hm
  obtain ((⟨k, r, hk, hu, he⟩ | ⟨k, r, hk, -, he⟩) | ⟨k, r, hk, -, he⟩) | ⟨k, r, hk, -, he⟩ := hm
  · cases he
    exact ⟨rfl, r, hk, of_decide_eq_true hu⟩
  all_goals cases he

theorem pending_deletion_self {db : Db} (hr : db.rows .refreshTokens i = some r) (hu : r.userId = u) :
    pending (deletion db u) .refreshTokens i = some none := by
  simp only [pending_append]
  rw [delete_other (by decide), delete_other (by decide), delete_other (by decide),
    pending_delete_self hr (decide_eq_true hu)]
  rfl

theorem pending_deletion_user {db : Db} {k : ℕ} {v : Option User}
    (h : pending (deletion db u) .users k = some v) :
    v = none ∧ k = u ∧ ∃ x : User, db.rows .users k = some x := by
  have hm := pending_mem h
  simp only [List.mem_append, mem_delete] at hm
  obtain ((⟨j, r, hj, -, he⟩ | ⟨j, r, hj, -, he⟩) | ⟨j, r, hj, -, he⟩) | ⟨j, r, hj, hu, he⟩ := hm
  all_goals cases he
  exact ⟨rfl, of_decide_eq_true hu, r, hj⟩

theorem wp_deleteUser {Q : Unit → Private → Shared → Prop} (hb : Blank l)
    (hE : ∀ l w, E .integrity l w)
    (hQ : ∀ l' w', Tx s none none none l' w' → Q () l' w') :
    wp (tokenProtocol s strict) G (UserRepository.delete u) Q E l w := by
  refine wp_query fun w' hr ↦ ?_
  have hview : ∀ t k, (w'.view l).db.rows t k = w'.db.rows t k := fun t k ↦ blank_view hb t k
  by_cases hfiles : ((w'.view l).db.select .files fun _ (f : File) ↦ decide (f.uploaderId = u)).isEmpty
  · rw [if_pos hfiles]
    refine fun _ ↦ ⟨rfl, hQ _ _ (tx_blank hb (fun i v hv ↦ ?_) (fun v z hz ↦ ?_)
      (fun v hd i r hr' hu ↦ ?_) (fun j t ht hd ↦ ⟨⟨_, hr.inv.1.minted j t ht⟩, fun i r hr' he ↦ ?_⟩)
      fun n hn ↦ by cases hn)⟩
    · obtain ⟨hv, r, hr', -⟩ := pending_deletion hv
      exact ⟨hv, r, (hview _ _).symm.trans hr'⟩
    · obtain ⟨rfl, -, x, hx⟩ := pending_deletion_user hz
      exact .delete x ((hview _ _).symm.trans hx)
    · obtain ⟨-, rfl, -⟩ := pending_deletion_user hd
      exact pending_deletion_self ((hview _ _).trans hr') hu
    · obtain ⟨-, q, hq, hu⟩ := pending_deletion hd
      cases ((hview _ _).symm.trans hq).symm.trans ht
      exact pending_deletion_self ((hview _ _).trans hr') ((hr.inv.1.link i j r t hr' ht he).2.1.trans hu)
  · rw [if_neg hfiles]
    exact hE _ _

theorem wp_createUser {Q : ℕ × User → Private → Shared → Prop} {payload : UserCreate}
    {y : PasswordHash} (hb : Blank l) (hs : Sole l w y.salt) (hE : ∀ l w, E .integrity l w)
    (hQ : ∀ x l' w', Tx s none none none l' w' → Q x l' w') :
    wp (tokenProtocol s strict) G (UserRepository.create payload y) Q E l w := by
  refine wp_query fun w' hr ↦ ?_
  cases hd : deptReference (w'.view l).db payload.deptId with
  | none => exact hE _ _
  | some locks =>
    by_cases hname : ((w'.view l).db.select .users fun _ (u : User) ↦
        decide (u.username = payload.username)).isEmpty
    · simp only [if_pos hname]
      refine fun _ ↦ ⟨trivial, hQ _ _ _ (tx_blank hb (fun i v hv ↦ ?_) (fun v z hz ↦ ?_)
        (fun v hd ↦ ?_) (fun j t _ hd ↦ ?_) fun n hn ↦ by cases hn)⟩
      · rw [pending_singleton, Write.at_other (by decide)] at hv
        cases hv
      · have hw := Write.at_eq_some ((pending_singleton _ _ _).symm.trans hz)
        cases hw
        exact .create _ (sole_drawn hr.inv.1 Nat.one_pos) (sole_run (sole_rely hs hr))
      · have hw := Write.at_eq_some ((pending_singleton _ _ _).symm.trans hd)
        cases hw
      · cases Write.at_eq_some ((pending_singleton _ _ _).symm.trans hd)
    · simp only [if_neg hname]
      exact hE _ _

theorem wp_updateUser {Q : User → Private → Shared → Prop} {payload : UserUpdate} {loaded : User}
    {h : Option PasswordHash} (hb : Blank l) (hs : ∀ y, h = some y → Sole l w y.salt)
    (hE : ∀ l w, E .integrity l w) (hE' : ∀ l w, E .staleData l w)
    (hQ : ∀ x l' w', Tx s none none none l' w' → Q x l' w') :
    wp (tokenProtocol s strict) G (UserRepository.update u loaded payload h) Q E l w := by
  refine wp_query fun w' hr ↦ ?_
  by_cases hnull : (payload.nickname = some none || payload.status = some none) = true
  · rw [if_pos hnull]
    exact hE _ _
  · rw [if_neg hnull]
    by_cases hdirty : (!isDirty loaded payload h) = true
    · rw [if_pos hdirty]
      exact fun _ ↦ ⟨rfl, hQ _ _ _ (tx_blank hb (fun i v hv ↦ by cases hv) (fun v z hz ↦ by cases hz)
        (fun v hd ↦ by cases hd) (fun j t _ hd ↦ by cases hd) fun n hn ↦ by cases hn)⟩
    · rw [if_neg hdirty]
      cases hx : (w'.view l).db.rows .users u with
      | none => exact hE' _ _
      | some x =>
        rw [blank_view hb] at hx
        dsimp only
        generalize (if dirty loaded.deptId payload.deptId = true then
          deptReference (w'.view l).db (patch loaded payload h x).deptId else some []) = ref
        cases ref with
        | none => exact hE _ _
        | some locks =>
          refine fun _ ↦ ⟨rfl, hQ _ _ _ (tx_blank hb (fun i v hv ↦ ?_) (fun v z hz ↦ ?_)
            (fun v hd ↦ ?_) (fun j t _ hd ↦ ?_) fun n hn ↦ ?_)⟩
          · rw [pending_singleton, Write.at_other (by decide)] at hv
            cases hv
          · have hw := Write.at_eq_some ((pending_singleton _ _ _).symm.trans hz)
            cases hw
            cases h with
            | none => exact .keep x _ hx rfl
            | some y =>
              exact .replace x _ .userUpdate hx (List.mem_append_right _ List.mem_cons_self)
          · have hw := Write.at_eq_some ((pending_singleton _ _ _).symm.trans hd)
            cases hw
          · cases Write.at_eq_some ((pending_singleton _ _ _).symm.trans hd)
          · cases h with
            | none => cases hn
            | some y =>
              rw [List.mem_singleton.1 hn]
              refine ⟨u, .userUpdate, x.passwordHash, y, rfl, sole_rely (hs y rfl) hr,
                ⟨x, patch loaded payload (some y) x, hx, rfl, ?_, rfl⟩, fun hc ↦ by cases hc⟩
              rw [pending_singleton, Write.at_self]

include hG in
theorem safe_deleteUser (userId : ℕ) (scope : Option DataScope) :
    safe (tokenProtocol s strict) G (getSession (User.Service.delete userId scope)) {} w := by
  refine safe_getSession hG (wp_bind (wp_look (tx_init w) fun w₁ ho₁ h₁ ↦ ?_))
  split
  · trivial
  · split
    · trivial
    · refine wp_bind (wp_look h₁ fun w₂ ho₂ h₂ ↦ ?_)
      split
      · trivial
      · exact wp_deleteUser blank_init (fun _ _ ↦ trivial) fun _ _ h ↦ ready_none h

include hG in
theorem safe_createUser (payload : UserCreate) (scope : Option DataScope) :
    safe (tokenProtocol s strict) G (getSession (User.Service.create payload scope)) {} w := by
  refine safe_getSession hG ?_
  unfold User.Service.create
  split
  · trivial
  · refine wp_bind (wp_look (tx_init w) fun w₁ ho₁ h₁ ↦ ?_)
    split
    · trivial
    · refine wp_bind (wp_hashPassword h₁ fun y l₂ w₂ ho₂ hr₂ hn₂ h₂ hs₂ ↦ ?_)
      refine wp_bind (wp_createUser ⟨hr₂, hn₂⟩ hs₂ (fun _ _ ↦ trivial) fun _ _ _ h ↦ ready_none h)

include hG in
theorem safe_updateUser (userId : ℕ) (payload : UserUpdate) (scope : Option DataScope) :
    safe (tokenProtocol s strict) G (getSession (User.Service.update userId payload scope)) {} w := by
  refine safe_getSession hG (wp_bind (wp_look (tx_init w) fun w₁ ho₁ h₁ ↦ ?_))
  split
  · trivial
  · split
    · trivial
    · split
      · trivial
      · refine wp_bind (wp_look h₁ fun w₂ ho₂ h₂ ↦ ?_)
        split
        · trivial
        · dsimp only
          split
          · refine wp_bind ?_
            show wp _ _ _ _ _ _ _
            refine wp_bind (wp_updateUser blank_init (fun _ h ↦ by cases h) (fun _ _ ↦ trivial)
              (fun _ _ ↦ trivial) fun _ _ _ h ↦ ready_none h)
          · refine wp_bind (wp_bind <| wp_hashPassword h₂ fun y l₃ w₃ ho₃ hr₃ hn₃ h₃ hs₃ ↦ ?_)
            refine wp_bind (wp_updateUser ⟨hr₃, hn₃⟩ (fun z hz ↦ ?_) (fun _ _ ↦ trivial)
              (fun _ _ ↦ trivial) fun _ _ _ h ↦ ready_none h)
            cases hz
            exact hs₃

end Users

end AdminPlatform.Auth.AccountServices
