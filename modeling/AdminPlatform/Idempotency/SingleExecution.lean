import AdminPlatform.Idempotency.Dispatch

namespace AdminPlatform.Idempotency.SingleExecution

open Model.Service Middleware Dispatch Function
open Auth.LoginGuard (Entry Reply live)

def running (c : Call) : Bool :=
  match c.stage with
  | .handler _ => true
  | _ => false

def storing (c : Call) : Bool :=
  match c.stage with
  | .setex _ => true
  | _ => false

def Spared : Answer → Prop
  | .replayed _ => True
  | .problem e => e = inFlight ∨ e = keyReused
  | _ => False

variable (cfg : Config)

/-- The store never fails or loses a key, only the middleware writes to it, and no handler runs
longer than the lock's lifetime. -/
def Reliable (S : State) : Label → Prop
  | .arrive _ => True
  | .step _ reply _ => reply = .answered
  | .lose _ | .intrude _ _ => False
  | .tick d => ∀ c ∈ S.calls, running c → ∀ a ∈ c.startedAt, S.now + d ≤ a + cfg.lockTtl

/-- A request that lost the race still finds the key, a response can be stored, and a lock outlives both
its handler and the write of the response. -/
def Covering (S : State) : Label → Prop
  | .step i _ result => ∀ c ∈ S.calls[i]?, (c.stage = .get → (S.found c.cacheKey).isSome) ∧
      (running c → result ≠ .undecodable)
  | .tick d => ∀ c ∈ S.calls, running c ∨ storing c → ∀ e ∈ c.coveredUntil, S.now + d < e
  | _ => True

/-- Of the requests with one store key, the executions with a 2xx are a cache lifetime apart; a
request that executes its handler does so after the earlier executions have ended, with no 2xx or
with one whose cached response has expired; the others are spared. -/
structure AtMostOnce (S : State) : Prop where
  once : ∀ (i j : ℕ) (c d : Call) s t, S.calls[i]? = some c → S.calls[j]? = some d → i ≠ j →
    c.cacheKey = d.cacheKey → c.succeededAt = some s → d.succeededAt = some t →
    s + cfg.ttl ≤ t ∨ t + cfg.ttl ≤ s
  follows : ∀ (i j : ℕ) (c d : Call) a b, S.calls[i]? = some c → S.calls[j]? = some d → i ≠ j →
    c.cacheKey = d.cacheKey → c.startedAt = some a → d.startedAt = some b →
    a ≠ b ∧ (a < b → (∃ answer, c.stage = .ended answer) ∧ ∀ s, c.succeededAt = some s → s + cfg.ttl ≤ b)
  spared : ∀ (i : ℕ) (c : Call) answer, S.calls[i]? = some c → c.stage = .ended answer →
    Spared answer ∨ c.startedAt.isSome

/-- Where a call stands, and what its stage says about the times on record. -/
def Timed (now : ℕ) (c : Call) : Prop :=
  match c.stage with
  | .setNx | .get => c.startedAt = none ∧ c.succeededAt = none ∧ c.coveredUntil = none
  | .handler locked => locked = true ∧ ∃ a, c.startedAt = some a ∧ a ≤ now ∧ now < a + cfg.lockTtl ∧
      c.coveredUntil = some (a + cfg.lockTtl) ∧ c.succeededAt = none
  | .setex _ => ∃ a s, c.startedAt = some a ∧ a ≤ s ∧ s ≤ now ∧ now < a + cfg.lockTtl ∧
      c.coveredUntil = some (a + cfg.lockTtl) ∧ c.succeededAt = some s
  | .ended answer =>
      (Spared answer ∧ c.startedAt = none ∧ c.succeededAt = none ∧ c.coveredUntil = none) ∨
        ∃ a e, c.startedAt = some a ∧ a ≤ now ∧ a < e ∧ c.coveredUntil = some e ∧
          ∀ s, c.succeededAt = some s → a ≤ s ∧ s + cfg.ttl ≤ e

/-- The times of every call are in order; as long as a call covers its key the store holds its
entry; and two covers of one key do not overlap. -/
structure Inv (S : State) : Prop where
  timed : ∀ (i : ℕ) (c : Call), S.calls[i]? = some c → Timed cfg S.now c
  owned : ∀ (i : ℕ) (c : Call) e, S.calls[i]? = some c → c.coveredUntil = some e → S.now < e →
    ∃ p, S.store c.cacheKey = some ⟨⟨p, i⟩, some e⟩
  apart : ∀ (i j : ℕ) (c d : Call) a b e f, S.calls[i]? = some c → S.calls[j]? = some d → i ≠ j →
    c.cacheKey = d.cacheKey → c.startedAt = some a → d.startedAt = some b →
    c.coveredUntil = some e → d.coveredUntil = some f → e ≤ b ∨ f ≤ a

variable {cfg} {S S' : State} {now : ℕ} {c d : Call} {i j : ℕ}

theorem Timed.started {a : ℕ} (h : Timed cfg now c) (ha : c.startedAt = some a) :
    ∃ e, c.coveredUntil = some e ∧ a < e ∧ a ≤ now := by
  unfold Timed at h
  split at h
  · rw [h.1] at ha
    cases ha
  · rw [h.1] at ha
    cases ha
  · obtain ⟨-, b, hb, hle, hlt, hc, -⟩ := h
    rw [hb] at ha
    cases ha
    exact ⟨_, hc, by omega, hle⟩
  · obtain ⟨b, s, hb, hbs, hs, hlt, hc, -⟩ := h
    rw [hb] at ha
    cases ha
    exact ⟨_, hc, by omega, by omega⟩
  · rcases h with ⟨-, hb, -⟩ | ⟨b, e, hb, hle, hlt, hc, -⟩
    · rw [hb] at ha
      cases ha
    · rw [hb] at ha
      cases ha
      exact ⟨e, hc, hlt, hle⟩

theorem Timed.covered {e : ℕ} (h : Timed cfg now c) (he : c.coveredUntil = some e) :
    ∃ a, c.startedAt = some a := by
  unfold Timed at h
  split at h
  · rw [h.2.2] at he
    cases he
  · rw [h.2.2] at he
    cases he
  · obtain ⟨-, b, hb, -⟩ := h
    exact ⟨b, hb⟩
  · obtain ⟨b, s, hb, -⟩ := h
    exact ⟨b, hb⟩
  · rcases h with ⟨-, -, -, hn⟩ | ⟨b, e, hb, -⟩
    · rw [hn] at he
      cases he
    · exact ⟨b, hb⟩

theorem Timed.succeeded {s : ℕ} (h : Timed cfg now c) (hs : c.succeededAt = some s) :
    ∃ a, c.startedAt = some a ∧ a ≤ s := by
  unfold Timed at h
  split at h
  · rw [h.2.1] at hs
    cases hs
  · rw [h.2.1] at hs
    cases hs
  · obtain ⟨-, b, -, -, -, -, hn⟩ := h
    rw [hn] at hs
    cases hs
  · obtain ⟨b, t, hb, hbt, -, -, -, ht⟩ := h
    rw [ht] at hs
    cases hs
    exact ⟨b, hb, hbt⟩
  · rcases h with ⟨-, -, hn, -⟩ | ⟨b, e, hb, -, -, -, hse⟩
    · rw [hn] at hs
      cases hs
    · exact ⟨b, hb, (hse s hs).1⟩

/-- Once its cover is over a call has ended, and so has the lifetime of its response. -/
theorem Timed.over {e : ℕ} (h : Timed cfg now c) (he : c.coveredUntil = some e) (hle : e ≤ now) :
    (∃ answer, c.stage = .ended answer) ∧ ∀ s, c.succeededAt = some s → s + cfg.ttl ≤ e := by
  unfold Timed at h
  split at h
  · rw [h.2.2] at he
    cases he
  · rw [h.2.2] at he
    cases he
  · obtain ⟨-, b, -, -, hlt, hc, -⟩ := h
    rw [hc] at he
    cases he
    omega
  · obtain ⟨b, s, -, -, -, hlt, hc, -⟩ := h
    rw [hc] at he
    cases he
    omega
  · next answer hst =>
    refine ⟨⟨answer, hst⟩, fun s hs ↦ ?_⟩
    rcases h with ⟨-, -, hn, -⟩ | ⟨b, f, -, -, -, hc, hse⟩
    · rw [hn] at hs
      cases hs
    · rw [hc] at he
      cases he
      exact (hse s hs).2

/-- The invariant gives the guarantee. -/
theorem Inv.atMostOnce (h : Inv cfg S) : AtMostOnce cfg S := by
  have hfollows : ∀ (i j : ℕ) (c d : Call) a b, S.calls[i]? = some c → S.calls[j]? = some d → i ≠ j →
      c.cacheKey = d.cacheKey → c.startedAt = some a → d.startedAt = some b →
      a ≠ b ∧ (a < b → (∃ answer, c.stage = .ended answer) ∧
        ∀ s, c.succeededAt = some s → s + cfg.ttl ≤ b) := by
    intro i j c d a b hc hd hij hkey ha hb
    obtain ⟨e, he, hae, -⟩ := (h.timed i c hc).started ha
    obtain ⟨f, hf, hbf, hbn⟩ := (h.timed j d hd).started hb
    have hapart := h.apart i j c d a b e f hc hd hij hkey ha hb he hf
    refine ⟨by omega, fun hab ↦ ?_⟩
    have heb : e ≤ b := by omega
    obtain ⟨hend, hs⟩ := (h.timed i c hc).over he (by omega)
    exact ⟨hend, fun s hss ↦ (hs s hss).trans heb⟩
  refine ⟨fun i j c d s t hc hd hij hkey hs ht ↦ ?_, hfollows, fun i c answer hc hst ↦ ?_⟩
  · obtain ⟨a, ha, has⟩ := (h.timed i c hc).succeeded hs
    obtain ⟨b, hb, hbt⟩ := (h.timed j d hd).succeeded ht
    obtain ⟨hne, hfwd⟩ := hfollows i j c d a b hc hd hij hkey ha hb
    obtain ⟨-, hbwd⟩ := hfollows j i d c b a hd hc hij.symm hkey.symm hb ha
    rcases Nat.lt_or_gt_of_ne hne with hab | hba
    · have hle := (hfwd hab).2 s hs
      exact .inl (hle.trans hbt)
    · have hle := (hbwd hba).2 t ht
      exact .inr (hle.trans has)
  · have ht := h.timed i c hc
    simp only [Timed, hst] at ht
    rcases ht with ⟨hs, -⟩ | ⟨a, e, ha, -⟩
    · exact .inl hs
    · rw [ha]
      exact .inr rfl

theorem inv_init : Inv cfg (.init now) where
  timed i c h := by cases h
  owned i c e h := by cases h
  apart i j c d a b e f h := by cases h

/-- A call moves on without touching the store or what it covers. -/
theorem Inv.quiet {c' : Call} (h : Inv cfg S) (hc : S.calls[i]? = some c) (hkey : c'.cacheKey = c.cacheKey)
    (hstart : c'.startedAt = c.startedAt) (hcover : c'.coveredUntil = c.coveredUntil)
    (ht : Timed cfg S.now c') : Inv cfg { S with calls := S.calls.set i c' } := by
  have hback : ∀ (k : ℕ) (e : Call), (S.calls.set i c')[k]? = some e → ∃ e₀, S.calls[k]? = some e₀ ∧
      e.cacheKey = e₀.cacheKey ∧ e.startedAt = e₀.startedAt ∧ e.coveredUntil = e₀.coveredUntil ∧
      Timed cfg S.now e := by
    intro k e he
    rcases getElem?_set hc he with ⟨rfl, rfl⟩ | ⟨-, he⟩
    · exact ⟨c, hc, hkey, hstart, hcover, ht⟩
    · exact ⟨e, he, rfl, rfl, rfl, h.timed k e he⟩
  refine ⟨fun k e he ↦ ?_, fun k e u he hu hlt ↦ ?_, fun k l e f a b u v he hf hkl hef ha hb hu hv ↦ ?_⟩
  · obtain ⟨-, -, -, -, -, ht⟩ := hback k e he
    exact ht
  · obtain ⟨e₀, he₀, hk, -, hcov, -⟩ := hback k e he
    rw [hk]
    exact h.owned k e₀ u he₀ (hcov.symm.trans hu) hlt
  · obtain ⟨e₀, he₀, hk, hst, hcov, -⟩ := hback k e he
    obtain ⟨f₀, hf₀, hk', hst', hcov', -⟩ := hback l f hf
    exact h.apart k l e₀ f₀ a b u v he₀ hf₀ hkl (hk.symm.trans (hef.trans hk')) (hst.symm.trans ha)
      (hst'.symm.trans hb) (hcov.symm.trans hu) (hcov'.symm.trans hv)

/-- A call takes its key, or extends its hold on it: all other covers of the key lie before its
start. -/
theorem Inv.cover {c' : Call} {p : Payload} {a e : ℕ} (h : Inv cfg S) (hc : S.calls[i]? = some c)
    (hkey : c'.cacheKey = c.cacheKey) (hstart : c'.startedAt = some a) (hcover : c'.coveredUntil = some e)
    (ht : Timed cfg S.now c') (hbefore : ∀ (j : ℕ) (d : Call) f, S.calls[j]? = some d → j ≠ i →
      d.cacheKey = c.cacheKey → d.coveredUntil = some f → f ≤ a) :
    Inv cfg { S with
      store := update S.store c.cacheKey (some ⟨⟨p, i⟩, some e⟩)
      calls := S.calls.set i c' } := by
  obtain ⟨-, -, -, han⟩ := ht.started hstart
  refine ⟨fun k x hx ↦ ?_, fun k x u hx hu hlt ↦ ?_, fun k l x y b b' u v hx hy hkl hxy hb hb' hu hv ↦ ?_⟩
  · rcases getElem?_set hc hx with ⟨rfl, rfl⟩ | ⟨-, hx⟩
    · exact ht
    · exact h.timed k x hx
  · rcases getElem?_set hc hx with ⟨rfl, rfl⟩ | ⟨hki, hx⟩
    · rw [hcover] at hu
      cases hu
      rw [hkey]
      exact ⟨p, update_self _ _ _⟩
    · by_cases hk : x.cacheKey = c.cacheKey
      · have hle := hbefore k x u hx hki hk hu
        have hlt' : S.now < u := hlt
        omega
      · obtain ⟨q, hq⟩ := h.owned k x u hx hu hlt
        exact ⟨q, (update_of_ne hk _ _).trans hq⟩
  · rcases getElem?_set hc hx with ⟨rfl, rfl⟩ | ⟨hki, hx'⟩
    · rcases getElem?_set hc hy with ⟨rfl, rfl⟩ | ⟨hli, hy'⟩
      · exact absurd rfl hkl
      · rw [hstart] at hb
        cases hb
        exact .inr (hbefore l y v hy' hli (hxy.symm.trans hkey) hv)
    · rcases getElem?_set hc hy with ⟨rfl, rfl⟩ | ⟨hli, hy'⟩
      · rw [hstart] at hb'
        cases hb'
        exact .inl (hbefore k x u hx' hki (hxy.trans hkey) hu)
      · exact h.apart k l x y b b' u v hx' hy' hkl hxy hb hb' hu hv

/-- Nobody covers a key that is not found. -/
theorem Inv.le_of_not_found {e : ℕ} (h : Inv cfg S) (hd : S.calls[j]? = some d)
    (hn : S.found d.cacheKey = none) (he : d.coveredUntil = some e) : e ≤ S.now := by
  by_contra hlt
  have hlt : S.now < e := not_le.1 hlt
  obtain ⟨p, hp⟩ := h.owned j d e hd he hlt
  have hf : S.found d.cacheKey = some ⟨p, j⟩ := by
    simp only [State.found, live, hp, Option.bind_some, Option.all_some, decide_eq_true hlt, if_true]
  rw [hf] at hn
  cases hn

theorem spared_resolve {existing : Option Payload} {hash : String} {answer : Answer}
    (h : _resolveConflict existing hash = some answer) : Spared answer := by
  cases existing with
  | none => cases h
  | some p =>
    cases p with
    | foreign =>
      cases h
      exact .inl rfl
    | inProgress hash' =>
      simp only [_resolveConflict] at h
      split at h
      · cases h
        exact .inr rfl
      · cases h
        exact .inl rfl
    | completed hash' response =>
      simp only [_resolveConflict] at h
      split at h
      · cases h
        exact .inr rfl
      · cases h
        trivial

theorem Inv.step {result : Handled} (h : Inv cfg S) (hc : S.calls[i]? = some c)
    (hfound : c.stage = .get → (S.found c.cacheKey).isSome) (hstored : running c → result ≠ .undecodable) :
    Inv cfg { S with
      store := (c.next cfg S i .answered result).1
      calls := S.calls.set i (c.next cfg S i .answered result).2 } := by
  have ht := h.timed i c hc
  have hkey := next_cacheKey cfg S i c .answered result
  cases hst : c.stage with
  | setNx =>
    simp only [Timed, hst] at ht
    obtain ⟨hs, hn, hu⟩ := ht
    simp only [Call.next, hst]
    split
    · exact h.quiet hc rfl rfl rfl ⟨hs, hn, hu⟩
    · next hf =>
      have hnone : S.found c.cacheKey = none := by simpa using hf
      have hpos := cfg.le_lockTtl
      refine h.cover hc rfl rfl rfl ⟨rfl, S.now, rfl, le_rfl, by omega, rfl, hn⟩ ?_
      intro j d f hd _ hk he
      exact h.le_of_not_found hd (hk ▸ hnone) he
  | get =>
    simp only [Timed, hst] at ht
    obtain ⟨hs, hn, hu⟩ := ht
    have hsome := hfound hst
    obtain ⟨⟨p, w⟩, hp⟩ := Option.isSome_iff_exists.1 hsome
    simp only [Call.next, hst, hp, Option.map_some]
    split
    · next response hr => exact h.quiet hc rfl rfl rfl (.inl ⟨trivial, hs, hn, hu⟩)
    · next answer _ hr => exact h.quiet hc rfl rfl rfl (.inl ⟨spared_resolve hr, hs, hn, hu⟩)
    · next hr =>
      cases p with
      | foreign => cases hr
      | inProgress hash =>
        simp only [_resolveConflict] at hr
        split at hr <;> cases hr
      | completed hash response =>
        simp only [_resolveConflict] at hr
        split at hr <;> cases hr
  | handler locked =>
    simp only [Timed, hst] at ht
    obtain ⟨-, a, ha, hle, hlt, hcov, hn⟩ := ht
    have hended : ∀ answer, Inv cfg { S with calls := S.calls.set i { c with stage := .ended answer } } := by
      intro answer
      refine h.quiet hc rfl rfl rfl (.inr ⟨a, _, ha, hle, by omega, hcov, fun s hs ↦ ?_⟩)
      have hs' : c.succeededAt = some s := hs
      rw [hn] at hs'
      cases hs'
    simp only [Call.next, hst]
    split
    · exact hended _
    · exact absurd rfl (hstored (by rw [running, hst]))
    · split
      · exact h.quiet hc rfl rfl rfl ⟨a, S.now, ha, hle, le_rfl, hlt, hcov, rfl⟩
      · exact hended _
  | setex response =>
    simp only [Timed, hst] at ht
    obtain ⟨a, s, ha, has, hs, hlt, hcov, hsucc⟩ := ht
    obtain ⟨p, hp⟩ := h.owned i c _ hc hcov hlt
    simp only [Call.next, hst]
    have hpos := cfg.le_ttl
    refine h.cover hc rfl ha rfl (.inr ⟨a, _, ha, by omega, by omega, rfl, fun t ht ↦ ?_⟩) ?_
    · have ht' : c.succeededAt = some t := ht
      rw [hsucc] at ht'
      cases ht'
      exact ⟨has, by omega⟩
    · intro j d f hd hj hk he
      obtain ⟨b, hb⟩ := (h.timed j d hd).covered he
      obtain ⟨f', hf', -, hbn⟩ := (h.timed j d hd).started hb
      have hfn : f ≤ S.now := by
        by_contra hgt
        obtain ⟨q, hq⟩ := h.owned j d f hd he (not_le.1 hgt)
        rw [hk, hp] at hq
        cases hq
        exact hj rfl
      rcases h.apart i j c d a b _ f hc hd hj.symm hk.symm ha hb hcov he with hle | hle
      · omega
      · exact hle
  | ended answer =>
    simp only [Call.next, hst]
    exact h.quiet hc rfl rfl rfl ht

theorem Inv.arrive {request : Request} {clientKey : String} (h : Inv cfg S) :
    Inv cfg { S with calls := S.calls ++ [{ request := request, clientKey := clientKey }] } := by
  have hcovered : ∀ (i : ℕ) (c : Call) e,
      (S.calls ++ [{ request := request, clientKey := clientKey }])[i]? = some c →
      c.coveredUntil = some e → S.calls[i]? = some c := by
    intro i c e hc he
    rcases getElem?_append_one hc with hc | ⟨-, rfl⟩
    · exact hc
    · cases he
  refine ⟨fun i c hc ↦ ?_, fun i c e hc he hlt ↦ h.owned i c e (hcovered i c e hc he) he hlt,
    fun i j c d a b e f hc hd hij hkey ha hb he hf ↦
      h.apart i j c d a b e f (hcovered i c e hc he) (hcovered j d f hd hf) hij hkey ha hb he hf⟩
  rcases getElem?_append_one hc with hc | ⟨-, rfl⟩
  · exact h.timed i c hc
  · exact ⟨rfl, rfl, rfl⟩

theorem Timed.tick {δ : ℕ} (h : Timed cfg now c)
    (hlt : running c ∨ storing c → ∀ e ∈ c.coveredUntil, now + δ < e) : Timed cfg (now + δ) c := by
  unfold Timed at h ⊢
  split at h
  · exact h
  · exact h
  · next locked hst =>
    obtain ⟨hl, a, ha, hle, -, hcov, hn⟩ := h
    have hrun : running c = true := by rw [running, hst]
    exact ⟨hl, a, ha, by omega, hlt (.inl hrun) _ hcov, hcov, hn⟩
  · next response hst =>
    obtain ⟨a, s, ha, has, hs, -, hcov, hsucc⟩ := h
    have hstore : storing c = true := by rw [storing, hst]
    exact ⟨a, s, ha, has, by omega, hlt (.inr hstore) _ hcov, hcov, hsucc⟩
  · rcases h with h | ⟨a, e, ha, hle, hae, hcov, hse⟩
    · exact .inl h
    · exact .inr ⟨a, e, ha, by omega, hae, hcov, hse⟩

theorem Inv.next {label : Label} (h : Inv cfg S) (hn : S.next cfg label = some S')
    (hr : Reliable cfg S label) (hc : Covering S label) : Inv cfg S' := by
  cases label with
  | arrive request =>
    simp only [State.next] at hn
    split at hn
    · cases hn
      exact h.arrive
    · cases hn
      exact h
  | step i reply result =>
    obtain ⟨c, hi, rfl⟩ := Option.map_eq_some_iff.1 hn
    have hreply : reply = .answered := hr
    subst hreply
    exact h.step hi (hc c hi).1 (hc c hi).2
  | lose key => exact hr.elim
  | intrude key ttl => exact hr.elim
  | tick d =>
    cases hn
    refine ⟨fun i c hi ↦ (h.timed i c hi).tick (hc c (List.mem_of_getElem? hi)), fun i c e hi he hlt ↦ ?_,
      h.apart⟩
    have hlt' : S.now + d < e := hlt
    exact h.owned i c e hi he (by omega)

/-- As long as no request finds its key gone after losing the race for it, and no lock ends before
the response of its holder is stored, there is at most one success. -/
theorem atMostOnce_of_reach (cfg : Config) (now : ℕ) (S : State)
    (h : Reach cfg (fun S a ↦ Reliable cfg S a ∧ Covering S a) now S) : AtMostOnce cfg S := by
  have hinv : Inv cfg S := by
    induction h with
    | init => exact inv_init
    | step label _ hn hP ih => exact ih.next hn hP.1 hP.2
  exact hinv.atMostOnce

instance (S : State) (a : Label) : Decidable (Reliable cfg S a) :=
  match a with
  | .arrive _ => .isTrue trivial
  | .step _ reply _ => inferInstanceAs (Decidable (reply = .answered))
  | .lose _ => .isFalse id
  | .intrude _ _ => .isFalse id
  | .tick _ => inferInstanceAs (Decidable (∀ c ∈ S.calls, _))

instance (S : State) (a : Label) : Decidable (Covering S a) :=
  match a with
  | .arrive _ => .isTrue trivial
  | .step i _ _ => inferInstanceAs (Decidable (∀ c ∈ S.calls[i]?, _))
  | .lose _ => .isTrue trivial
  | .intrude _ _ => .isTrue trivial
  | .tick _ => inferInstanceAs (Decidable (∀ c ∈ S.calls, _))

def sampleConfig : Config where
  ttl := 86400
  lockTtl := 30
  sha256 _ := ""
  le_ttl := by decide
  le_lockTtl := by decide
  lockTtl_le := by decide

def sampleRequest : Request where
  method := "POST"
  idempotentRoute := true
  idempotencyKey := some "k"
  subject := .anon
  path := ⟨"/orders", by decide⟩
  body := []

def created : Response := ⟨201, [], []⟩

def unavailable : Response := ⟨503, [], []⟩

/-- The first request takes the lock, the second finds it taken. The first ends without success, and
its lock expires before the second looks at it: the second runs its handler without a lock, beside
the third which has taken it anew. -/
def lostLock : List Label :=
  [.arrive sampleRequest, .arrive sampleRequest, .arrive sampleRequest, .step 0 .answered .raised,
    .step 1 .answered .raised, .step 0 .answered (.answered unavailable), .tick 30, .step 1 .answered .raised,
    .step 2 .answered .raised, .step 1 .answered (.answered created), .step 2 .answered (.answered created)]

/-- The body of the second response cannot be stored, so that the third request finds no more than a lock
that has expired. -/
def unstored : List Label :=
  [.arrive sampleRequest, .arrive sampleRequest, .arrive sampleRequest, .step 1 .answered .raised,
    .step 1 .answered .undecodable, .tick 30, .step 2 .answered .raised, .step 2 .answered (.answered created)]

/-- The second and the third request both succeed, with one key and within the lifetime of a response. -/
def twoSuccesses (S : State) : Bool :=
  match S.calls with
  | [_, c, d] => match c.succeededAt, d.succeededAt with
    | some s, some t => c.cacheKey == d.cacheKey && decide (s ≤ t ∧ t < s + sampleConfig.ttl)
    | _, _ => false
  | _ => false

theorem not_atMostOnce_of_twoSuccesses (h : twoSuccesses S = true) : ¬ AtMostOnce sampleConfig S := by
  obtain ⟨now, store, calls⟩ := S
  intro hone
  unfold twoSuccesses at h
  split at h
  · next b c d hcalls =>
    split at h
    · next s t hc hd =>
      rw [Bool.and_eq_true, beq_iff_eq, decide_eq_true_eq] at h
      obtain ⟨hkey, hle, hlt⟩ := h
      cases hcalls
      have honce := hone.once 1 2 c d s t rfl rfl (by decide) hkey hc hd
      have httl : sampleConfig.ttl = 86400 := rfl
      omega
    · cases h
  · cases h

/-- A handler runs without a lock when the lock of another request expires between the two looks at
the store. -/
theorem not_atMostOnce_lostLock :
    ¬ ∀ (cfg : Config) (now : ℕ) (S : State), Reach cfg (Reliable cfg) now S → AtMostOnce cfg S := by
  intro h
  obtain ⟨S, hS, htwo⟩ := exists_reach_of_follow (P := Reliable sampleConfig) (p := twoSuccesses)
    (fun S a ↦ decide (Reliable sampleConfig S a)) lostLock (fun S a ha ↦ of_decide_eq_true ha)
    (show ((State.init 0).follow sampleConfig _ lostLock).any twoSuccesses = true by decide +kernel)
  exact not_atMostOnce_of_twoSuccesses htwo (h sampleConfig 0 S hS)

theorem not_atMostOnce_unstored : ∃ S, Reach sampleConfig (Reliable sampleConfig) 0 S ∧
    (∀ c ∈ S.calls, c.stage ≠ .handler false) ∧ ¬ AtMostOnce sampleConfig S := by
  obtain ⟨S, hS, hp⟩ := exists_reach_of_follow (P := Reliable sampleConfig)
    (p := fun S ↦ decide (∀ c ∈ S.calls, c.stage ≠ .handler false) && twoSuccesses S)
    (fun S a ↦ decide (Reliable sampleConfig S a)) unstored (fun S a ha ↦ of_decide_eq_true ha)
    (show ((State.init 0).follow sampleConfig _ unstored).any _ = true by decide +kernel)
  obtain ⟨hlocked, htwo⟩ := Bool.and_eq_true_iff.1 hp
  exact ⟨S, hS, of_decide_eq_true hlocked, not_atMostOnce_of_twoSuccesses htwo⟩

/-- A request, a second one that finds the first in flight, and a third that is served its response. -/
def retried : List Label :=
  [.arrive sampleRequest, .arrive sampleRequest, .arrive sampleRequest, .step 0 .answered .raised,
    .step 1 .answered .raised, .step 1 .answered .raised, .tick 20, .step 0 .answered (.answered created),
    .step 0 .answered .raised, .tick 50000, .step 2 .answered .raised, .step 2 .answered .raised]

theorem atMostOnce_of_reach_retried :
    ∃ S, S.calls.map Call.stage = [.ended (.handled created), .ended (.problem inFlight),
      .ended (.replayed created)] ∧ AtMostOnce sampleConfig S := by
  obtain ⟨S, hS, hp⟩ := exists_reach_of_follow
    (P := fun S a ↦ Reliable sampleConfig S a ∧ Covering S a)
    (p := fun S ↦ decide (S.calls.map Call.stage = [.ended (.handled created),
      .ended (.problem inFlight), .ended (.replayed created)]))
    (fun S a ↦ decide (Reliable sampleConfig S a ∧ Covering S a)) retried
    (fun S a ha ↦ of_decide_eq_true ha)
    (show ((State.init 0).follow sampleConfig _ retried).any _ = true by decide +kernel)
  exact ⟨S, of_decide_eq_true hp, atMostOnce_of_reach sampleConfig 0 S hS⟩

end AdminPlatform.Idempotency.SingleExecution
