import AdminPlatform.Idempotency.Dispatch

namespace AdminPlatform.Idempotency.Isolation

open Model.Service Middleware Dispatch Function
open Auth.LoginGuard (Entry Reply live)

variable {cfg : Config} {P : State → Label → Prop} {S S' : State} {now i j : ℕ} {c c' : Call}
  {response : Response}

/-- The call `j` wrote the response: it is about the same subject, path, key and body hash, and it
was answered with the response itself. -/
structure Source (cfg : Config) (S : State) (key hash : String) (response : Response) (j : ℕ) : Prop where
  call : ∃ c, S.calls[j]? = some c ∧ c.cacheKey = key ∧ c.bodyHash cfg = hash ∧
    c.stage = .ended (.handled response)

/-- Every stored response has its source, and so has every replayed one. -/
structure Sourced (cfg : Config) (S : State) : Prop where
  store : ∀ key hash response j until_,
    S.store key = some ⟨⟨.completed hash response, j⟩, until_⟩ → Source cfg S key hash response j
  replay : ∀ (i : ℕ) (c : Call) response, S.calls[i]? = some c → c.stage = .ended (.replayed response) →
    ∃ j, c.servedFrom = some j ∧ Source cfg S c.cacheKey (c.bodyHash cfg) response j

theorem sourced_init : Sourced cfg (.init now) where
  store key hash response j until_ h := by cases h
  replay i c response h := by cases h

theorem next_ended (S : State) (i : ℕ) (reply : Reply) (result : Handled) {answer : Answer}
    (h : c.stage = .ended answer) : c.next cfg S i reply result = (S.store, c) := by
  simp only [Call.next, h]

theorem Source.keep {key hash : String} (h : Source cfg S key hash response j)
    (hkeep : ∀ (j : ℕ) (c : Call) (answer : Answer), S.calls[j]? = some c → c.stage = .ended answer →
      S'.calls[j]? = some c) :
    Source cfg S' key hash response j := by
  obtain ⟨c, hc, hk, hh, hs⟩ := h.call
  exact ⟨c, hkeep j c _ hc hs, hk, hh, hs⟩

/-- A key of the store is emptied, or taken over by somebody else. -/
theorem Sourced.emptied {store : Store} {key : String} (h : Sourced cfg S)
    (hother : ∀ k, k ≠ key → store k = S.store k)
    (hkey : ∀ hash response j until_, store key ≠ some ⟨⟨.completed hash response, j⟩, until_⟩) :
    Sourced cfg { S with store := store } := by
  have hkeep : ∀ (j : ℕ) (c : Call) (answer : Answer), S.calls[j]? = some c →
      c.stage = .ended answer → S.calls[j]? = some c := fun j c answer hc _ ↦ hc
  refine ⟨fun k hash response j until_ hs ↦ ?_, fun i c response hc hst ↦ ?_⟩
  · by_cases hk : k = key
    · subst hk
      exact absurd hs (hkey hash response j until_)
    · have hold : S.store k = some ⟨⟨.completed hash response, j⟩, until_⟩ := (hother k hk).symm.trans hs
      exact (h.store k hash response j until_ hold).keep hkeep
  · obtain ⟨j, hj, hs⟩ := h.replay i c response hc hst
    exact ⟨j, hj, hs.keep hkeep⟩

theorem keep_set {cs : List Call} {d : Call} (hc : cs[i]? = some c)
    (hd : ∀ answer, c.stage = .ended answer → d = c) {k : ℕ} {e : Call} {answer : Answer}
    (he : cs[k]? = some e) (hs : e.stage = .ended answer) : (cs.set i d)[k]? = some e := by
  rw [List.getElem?_set]
  have hi : i < cs.length := (List.getElem?_eq_some_iff.1 hc).1
  by_cases hik : i = k
  · subst hik
    rw [hc] at he
    cases he
    rw [if_pos rfl, if_pos hi, hd answer hs]
  · rw [if_neg hik]
    exact he

/-- What a step of a call leaves in the store: what was there, or its own payload. -/
theorem next_store (S : State) (i : ℕ) (c : Call) (reply : Reply) (result : Handled)
    (key hash : String) (response : Response) (j : ℕ) (until_ : Option ℕ)
    (h : (c.next cfg S i reply result).1 key = some ⟨⟨.completed hash response, j⟩, until_⟩) :
    S.store key = some ⟨⟨.completed hash response, j⟩, until_⟩ ∨
      (j = i ∧ key = c.cacheKey ∧ hash = c.bodyHash cfg ∧
        (c.next cfg S i reply result).2.stage = .ended (.handled response)) := by
  have hwrite : ∀ (ttl : ℕ) (p : Payload),
      S.write c.cacheKey ttl p i key = some ⟨⟨.completed hash response, j⟩, until_⟩ →
      S.store key = some ⟨⟨.completed hash response, j⟩, until_⟩ ∨
        (key = c.cacheKey ∧ p = .completed hash response ∧ i = j) := by
    intro ttl p hw
    unfold State.write at hw
    by_cases hk : key = c.cacheKey
    · subst hk
      rw [update_self] at hw
      cases hw
      exact .inr ⟨rfl, rfl, rfl⟩
    · rw [update_of_ne hk] at hw
      exact .inl hw
  cases hst : c.stage with
  | setNx =>
    simp only [Call.next, hst] at h
    split at h
    · exact .inl h
    · cases reply with
      | answered =>
        rcases hwrite _ _ h with hold | ⟨-, hp, -⟩
        · exact .inl hold
        · cases hp
      | raised a =>
        cases a with
        | true =>
          rcases hwrite _ _ h with hold | ⟨-, hp, -⟩
          · exact .inl hold
          · cases hp
        | false => exact .inl h
  | get =>
    simp only [Call.next, hst] at h
    split at h <;> exact .inl h
  | handler locked =>
    simp only [Call.next, hst] at h
    split at h
    · exact .inl h
    · exact .inl h
    · split at h <;> exact .inl h
  | setex response' =>
    have hstage : (c.next cfg S i reply result).2.stage = .ended (.handled response') := by
      simp only [Call.next, hst]
    simp only [Call.next, hst] at h
    split at h
    · rcases hwrite _ _ h with hold | ⟨hk, hp, hj⟩
      · exact .inl hold
      · cases hp
        exact .inr ⟨hj.symm, hk, rfl, hstage⟩
    · exact .inl h
  | ended answer =>
    simp only [Call.next, hst] at h
    exact .inl h

/-- A call is served what the store holds under its key, and only if the body hash is its own. -/
theorem next_replay (S : State) (i : ℕ) (c : Call) (reply : Reply) (result : Handled)
    {response : Response} (h : (c.next cfg S i reply result).2.stage = .ended (.replayed response)) :
    c.stage = .ended (.replayed response) ∨ ∃ j until_,
      S.store c.cacheKey = some ⟨⟨.completed (c.bodyHash cfg) response, j⟩, until_⟩ ∧
        (c.next cfg S i reply result).2.servedFrom = some j := by
  cases hst : c.stage with
  | setNx =>
    simp only [Call.next, hst] at h
    split at h
    · cases h
    · cases reply <;> cases h
  | get =>
    cases reply with
    | raised a =>
      simp only [Call.next, hst, Option.map_none, _resolveConflict] at h
      cases h
    | answered =>
      cases hf : S.found c.cacheKey with
      | none =>
        simp only [Call.next, hst, hf, Option.map_none, _resolveConflict] at h
        cases h
      | some x =>
        obtain ⟨p, j⟩ := x
        have hentry : ∃ until_, S.store c.cacheKey = some ⟨⟨p, j⟩, until_⟩ := by
          obtain ⟨⟨v, until_⟩, he, hlive⟩ := Option.bind_eq_some_iff.1 hf
          split at hlive
          · cases hlive
            exact ⟨until_, he⟩
          · cases hlive
        obtain ⟨until_, he⟩ := hentry
        simp only [Call.next, hst, hf, Option.map_some] at h ⊢
        cases p with
        | foreign => cases h
        | inProgress hash =>
          simp only [_resolveConflict] at h
          by_cases hh : hash ≠ c.bodyHash cfg
          · rw [if_pos hh] at h
            cases h
          · rw [if_neg hh] at h
            cases h
        | completed hash response' =>
          simp only [_resolveConflict] at h ⊢
          by_cases hh : hash ≠ c.bodyHash cfg
          · rw [if_pos hh] at h
            cases h
          · rw [if_neg hh] at h ⊢
            cases h
            rw [not_not] at hh
            subst hh
            exact .inr ⟨j, until_, he, rfl⟩
  | handler locked =>
    simp only [Call.next, hst] at h
    split at h
    · cases h
    · cases h
    · split at h <;> cases h
  | setex response' =>
    simp only [Call.next, hst] at h
    cases h
  | ended answer =>
    rw [next_ended S i reply result hst] at h
    exact .inl (hst.symm.trans h)

theorem Sourced.next {label : Label} (h : Sourced cfg S) (hn : S.next cfg label = some S') :
    Sourced cfg S' := by
  cases label with
  | arrive request =>
    simp only [State.next] at hn
    split at hn
    · next clientKey _ =>
      cases hn
      have hkeep : ∀ (j : ℕ) (c : Call) (answer : Answer), S.calls[j]? = some c → c.stage = .ended answer →
          (S.calls ++ [{ request := request, clientKey := clientKey }])[j]? = some c := by
        intro j c answer hc _
        rw [List.getElem?_append_left (List.getElem?_eq_some_iff.1 hc).1]
        exact hc
      refine ⟨fun key hash response j until_ hs ↦ (h.store key hash response j until_ hs).keep hkeep,
        fun i c response hc hst ↦ ?_⟩
      rcases getElem?_append_one hc with hc | ⟨-, rfl⟩
      · obtain ⟨j, hj, hs⟩ := h.replay i c response hc hst
        exact ⟨j, hj, hs.keep hkeep⟩
      · cases hst
    · cases hn
      exact h
  | step i reply result =>
    obtain ⟨c, hc, rfl⟩ := Option.map_eq_some_iff.1 hn
    have hkeep : ∀ (k : ℕ) (e : Call) (answer : Answer), S.calls[k]? = some e → e.stage = .ended answer →
        (S.calls.set i (c.next cfg S i reply result).2)[k]? = some e := fun k e answer he hs ↦
      keep_set hc (fun answer ha ↦ by rw [next_ended S i reply result ha]) he hs
    have hi : i < S.calls.length := (List.getElem?_eq_some_iff.1 hc).1
    have hself : (S.calls.set i (c.next cfg S i reply result).2)[i]? =
        some (c.next cfg S i reply result).2 := by
      rw [List.getElem?_set, if_pos rfl, if_pos hi]
    have hkey := next_cacheKey cfg S i c reply result
    have hhash : (c.next cfg S i reply result).2.bodyHash cfg = c.bodyHash cfg := by
      rw [Call.bodyHash, (next_request cfg S i c reply result).1]
      rfl
    refine ⟨fun key hash response j until_ hs ↦ ?_, fun k d response hd hst ↦ ?_⟩
    · rcases next_store S i c reply result key hash response j until_ hs with hold | ⟨rfl, rfl, rfl, hst⟩
      · exact (h.store key hash response j until_ hold).keep hkeep
      · exact ⟨_, hself, hkey, hhash, hst⟩
    · rcases getElem?_set hc hd with ⟨rfl, rfl⟩ | ⟨-, hd⟩
      · rw [hkey, hhash]
        rcases next_replay S k c reply result hst with hold | ⟨j, until_, hentry, hfrom⟩
        · obtain ⟨j, hj, hs⟩ := h.replay k c response hc hold
          have hend : c.next cfg S k reply result = (S.store, c) := next_ended S k reply result hold
          rw [hend] at hkeep ⊢
          exact ⟨j, hj, hs.keep hkeep⟩
        · exact ⟨j, hfrom, (h.store _ _ _ _ _ hentry).keep hkeep⟩
      · obtain ⟨j, hj, hs⟩ := h.replay k d response hd hst
        exact ⟨j, hj, hs.keep hkeep⟩
  | lose key =>
    cases hn
    exact h.emptied (fun k hk ↦ update_of_ne hk _ _) fun hash response j until_ hs ↦ by
      rw [update_self] at hs
      cases hs
  | intrude key ttl =>
    cases hn
    exact h.emptied (fun k hk ↦ update_of_ne hk _ _) fun hash response j until_ hs ↦ by
      rw [update_self] at hs
      cases hs
  | tick d =>
    cases hn
    have hkeep : ∀ (j : ℕ) (c : Call) (answer : Answer), S.calls[j]? = some c →
        c.stage = .ended answer → S.calls[j]? = some c := fun j c answer hc _ ↦ hc
    refine ⟨fun k hash response j until_ hs ↦ (h.store k hash response j until_ hs).keep hkeep,
      fun i c response hc hst ↦ ?_⟩
    obtain ⟨j, hj, hs⟩ := h.replay i c response hc hst
    exact ⟨j, hj, hs.keep hkeep⟩

theorem sourced_of_reach (h : Reach cfg P now S) : Sourced cfg S := by
  induction h with
  | init => exact sourced_init
  | step label _ hn _ ih => exact ih.next hn

/-- The store key is an injective function of subject, path and client key; and whatever happens to
the store, a request is served the response of a request with its own subject, path, key and body
hash. -/
theorem served_own_response (cfg : Config) (now : ℕ) :
    (∀ (s s' : Subject) (p p' : Path) (k k' : String),
      _buildCacheKey s.text p.text k = _buildCacheKey s'.text p'.text k' →
        s = s' ∧ p.text = p'.text ∧ k = k') ∧
      ∀ S, Reach cfg (fun _ _ ↦ True) now S → ∀ (i : ℕ) (c : Call) response, S.calls[i]? = some c →
        c.stage = .ended (.replayed response) → ∃ j c', c.servedFrom = some j ∧ S.calls[j]? = some c' ∧
          c'.stage = .ended (.handled response) ∧ c.request.subject = c'.request.subject ∧
          c.request.path.text = c'.request.path.text ∧ c.clientKey = c'.clientKey ∧
          cfg.sha256 c.request.body = cfg.sha256 c'.request.body := by
  refine ⟨fun _ _ _ _ _ _ he ↦ buildCacheKey_inj he, fun S h i c response hc hst ↦ ?_⟩
  obtain ⟨j, hj, hs⟩ := (sourced_of_reach h).replay i c response hc hst
  obtain ⟨c', hc', hkey, hhash, hst'⟩ := hs.call
  obtain ⟨hsub, hpath, hck⟩ := buildCacheKey_inj hkey
  exact ⟨j, c', hj, hc', hst', hsub.symm, hpath.symm, hck.symm, hhash.symm⟩

end AdminPlatform.Idempotency.Isolation
