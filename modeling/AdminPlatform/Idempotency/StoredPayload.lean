import AdminPlatform.Foundation.JsonLoads
import AdminPlatform.Foundation.JsonText
import AdminPlatform.Idempotency.Responses

namespace AdminPlatform.Idempotency.StoredPayload

open Foundation.CodePoints Foundation.Dicts Foundation.Json Foundation.JsonNumbers Foundation.JsonRoundTrip
open Foundation.JsonLoads Foundation.JsonText Responses
open Middleware (inFlight keyReused isSuccess)

variable {F : Type} {rt : Runtime} {fl : Floats} {st : Style} {s t : Text} {bs : Bytes} {hash hash' : String}

theorem byte_ne_zero (h : Printed s) (he : encode s = some bs) {b : UInt8} (hb : b ∈ bs) : b ≠ 0 := by
  have hbs := encode_eq_some fun c hc ↦ (h c hc).2
  obtain rfl := Option.some.inj (he.symm.trans hbs)
  obtain ⟨c, hc, hb⟩ := List.mem_flatMap.1 hb
  obtain ⟨hspace, hscalar⟩ := h c hc
  have hrange := of_decide_eq_true hscalar
  rintro rfl
  exact toNat_of_mem_encodeCode hb (by omega) (by omega) rfl

theorem detectEncoding_eq_utf8 {b : UInt8} (hb : b.toNat < 0x80) (h : ∀ a ∈ b :: bs, a ≠ 0) :
    detectEncoding (b :: bs) = .utf8 := by
  have hne : ∀ a : UInt8, 0x80 ≤ a.toNat → (a == b) = false := by
    intro a ha
    rw [beq_eq_false_iff_ne]
    rintro rfl
    omega
  have hzero : ((0 : UInt8) == b) = false := beq_eq_false_iff_ne.2 (h b List.mem_cons_self).symm
  unfold detectEncoding
  simp only [List.isPrefixOf, hzero, hne 0xff (by decide), hne 0xfe (by decide), hne 0xef (by decide),
    Bool.false_and, Bool.or_false, Bool.false_eq_true, if_false]
  split
  · next he =>
    rw [he] at h
    rw [if_neg (h _ List.mem_cons_self), if_neg (h _ (List.mem_cons_of_mem _ List.mem_cons_self))]
  · next he =>
    rw [he] at h
    rw [if_neg (h _ List.mem_cons_self), if_neg (h _ (List.mem_cons_of_mem _ List.mem_cons_self))]
  · rfl

theorem encode_print {v : Value fl.F} (h : Everywhere ScalarNode v) (st : Style) :
    encode (print fl st v) = some ((print fl st v).flatMap encodeCode) :=
  encode_eq_some fun c hc ↦ (printed_print v h c hc).2

/-- What was written in UTF-8 is read as UTF-8. -/
theorem loadsBytes_encode {v : Value rt.floats.F} (h : Readable v) (he : encode (print rt.floats st v) = some bs) :
    bs ≠ [] ∧ loadsBytes rt bs = .ok v := by
  have hopens : Opens (print rt.floats st v) := opens_print v
  obtain ⟨c, u, hfront, hc, -⟩ := hopens
  have hbs := he.symm.trans (encode_print h.scalar st)
  rw [hfront, List.flatMap_cons, encodeCode, if_pos hc, List.singleton_append] at hbs
  obtain rfl := Option.some.inj hbs
  have hascii : (UInt8.ofNat c).toNat < 0x80 := by
    rw [toNat_byte (by omega)]
    exact hc
  have hutf8 := detectEncoding_eq_utf8 hascii fun b hb ↦ byte_ne_zero (printed_print v h.scalar) he hb
  refine ⟨List.cons_ne_nil _ _, ?_⟩
  unfold loadsBytes decodeBytes
  rw [hutf8]
  dsimp only
  rw [decode_of_encode he]
  exact loads_print h

theorem allFinite_of_items {x : Value F} {xs : List (Value F)} (h : itemsFinite xs = true) (hx : x ∈ xs) :
    allFinite x = true := by
  induction xs with
  | nil => cases hx
  | cons y ys ih =>
    obtain ⟨hy, hys⟩ := Bool.and_eq_true_iff.1 h
    rcases List.mem_cons.1 hx with rfl | hx
    · exact hy
    · exact ih hys hx

theorem allFinite_of_members {m : Text × Value F} {ms : List (Text × Value F)} (h : membersFinite ms = true)
    (hm : m ∈ ms) : allFinite m.2 = true := by
  induction ms with
  | nil => cases hm
  | cons p ps ih =>
    obtain ⟨k, x⟩ := p
    obtain ⟨hx, hps⟩ := Bool.and_eq_true_iff.1 h
    rcases List.mem_cons.1 hm with rfl | hm
    · exact hx
    · exact ih hps hm

theorem finite_of_allFinite {v : Value F} (h : allFinite v = true) : Everywhere FiniteNode v := by
  intro w hw
  induction hw with
  | self =>
    cases w with
    | float x =>
      cases x with
      | finite x => trivial
      | nan => cases h
      | infinity b => cases h
    | _ => trivial
  | item hx _ ih => exact ih (allFinite_of_items h hx)
  | member hm _ ih => exact ih (allFinite_of_members h hm)

theorem encode_of_render {v : Value fl.F} (h : render fl v = some bs) :
    allFinite v = true ∧ encode (print fl ⟨false, false⟩ v) = some bs := by
  unfold render at h
  split at h
  · next hf => exact ⟨hf, h⟩
  · cases h

theorem readable_of_render {v : Value fl.F} (hv : Everywhere LoadedNode v) (h : render fl v = some bs) :
    Readable v := by
  obtain ⟨hf, he⟩ := encode_of_render h
  exact ⟨hv, finite_of_allFinite hf, scalar_of_encode rfl he⟩

theorem loadsBytes_render {v : Value rt.floats.F} (hv : Everywhere LoadedNode v)
    (h : render rt.floats v = some bs) : bs ≠ [] ∧ loadsBytes rt bs = .ok v :=
  loadsBytes_encode (readable_of_render hv h) (encode_of_render h).2

theorem loaded_bodyObj {v : Value rt.floats.F} (h : bodyObj rt bs = some v) : Everywhere LoadedNode v := by
  unfold bodyObj at h
  split at h
  · obtain rfl := Option.some.inj h
    exact everywhere_leaf trivial trivial
  · split at h
    · next w hw =>
      obtain rfl := Option.some.inj h
      unfold loadsBytes at hw
      split at hw
      · cases hw
      · exact loaded_of_loads hw
    · obtain rfl := Option.some.inj h
      exact everywhere_leaf trivial trivial
    · cases h

theorem bodyObj_of_render {v : Value rt.floats.F} (hv : Everywhere LoadedNode v)
    (h : render rt.floats v = some bs) : bodyObj rt bs = some v := by
  obtain ⟨hne, hloads⟩ := loadsBytes_render hv h
  unfold bodyObj
  rw [if_neg hne, hloads]

theorem decodeLatin1_inj : Function.Injective decodeLatin1 :=
  List.map_injective_iff.2 fun _ _ h ↦ UInt8.toNat_inj.1 h

theorem lt_of_mem_decodeLatin1 {c : ℕ} (h : c ∈ decodeLatin1 bs) : c < 0x100 := by
  obtain ⟨b, -, rfl⟩ := List.mem_map.1 h
  exact b.toNat_lt

theorem encodeLatin1_decodeLatin1 (bs : Bytes) : encodeLatin1 (decodeLatin1 bs) = some bs := by
  have hall : ((decodeLatin1 bs).all fun c ↦ decide (c < 0x100)) = true :=
    List.all_eq_true.2 fun c hc ↦ decide_eq_true (lt_of_mem_decodeLatin1 hc)
  have hbytes : (decodeLatin1 bs).map UInt8.ofNat = bs := by
    rw [decodeLatin1, List.map_map]
    exact List.map_id'' (fun b ↦ UInt8.ofNat_toNat) bs
  rw [encodeLatin1, if_pos hall, hbytes]

theorem serialisableHeaders_eq (headers : List (Bytes × Bytes)) :
    _serialisableHeaders headers = (ofPairs headers).map fun m ↦ (decodeLatin1 m.1, decodeLatin1 m.2) :=
  ofPairs_map decodeLatin1_inj decodeLatin1 headers

def LowerCase (headers : List (Bytes × Bytes)) : Prop :=
  ∀ m ∈ headers, lower (decodeLatin1 m.1) = decodeLatin1 m.1

instance (headers : List (Bytes × Bytes)) : Decidable (LowerCase headers) :=
  inferInstanceAs (Decidable (∀ m ∈ headers, lower (decodeLatin1 m.1) = decodeLatin1 m.1))

theorem rawHeader_decodeLatin1 {m : Bytes × Bytes} (h : lower (decodeLatin1 m.1) = decodeLatin1 m.1) :
    rawHeader (decodeLatin1 m.1, decodeLatin1 m.2) = some m := by
  unfold rawHeader
  dsimp only
  rw [h, encodeLatin1_decodeLatin1, encodeLatin1_decodeLatin1]
  rfl

theorem rawHeaders_eq {headers : List (Bytes × Bytes)} (h : LowerCase headers) :
    (headers.map fun m ↦ (decodeLatin1 m.1, decodeLatin1 m.2)).mapM rawHeader = some headers := by
  induction headers with
  | nil => rfl
  | cons m ms ih =>
    rw [List.map_cons, List.mapM_cons, rawHeader_decodeLatin1 (h m List.mem_cons_self),
      ih fun n hn ↦ h n (List.mem_cons_of_mem m hn)]
    rfl

def marker : Bytes × Bytes := (latin1 "idempotent-replayed", latin1 "true")

theorem rawHeader_marker : rawHeader (REPLAY_HEADER, codes "true") = some marker := by decide

theorem lowerCase_ofPairs {headers : List (Bytes × Bytes)} (h : LowerCase headers) :
    LowerCase (ofPairs headers) := fun m hm ↦ h m (mem_of_mem_ofPairs hm)

theorem rawHeaders_serialisable {headers : List (Bytes × Bytes)} (h : LowerCase headers) :
    (_serialisableHeaders headers).mapM rawHeader = some (ofPairs headers) := by
  rw [serialisableHeaders_eq]
  exact rawHeaders_eq (lowerCase_ofPairs h)

/-- The name of the marker has capitals, so that it replaces none of the stored headers. -/
theorem rawHeaders_marked {headers : List (Bytes × Bytes)} (h : LowerCase headers) :
    (set REPLAY_HEADER (codes "true") (_serialisableHeaders headers)).mapM rawHeader =
      some (ofPairs headers ++ [marker]) := by
  have hlower := lowerCase_ofPairs h
  rw [serialisableHeaders_eq, set_of_not_mem, List.mapM_append, rawHeaders_eq hlower]
  · show (([(REPLAY_HEADER, codes "true")] : List (Text × Text)).mapM rawHeader >>= fun r ↦
      some (ofPairs headers ++ r)) = _
    rw [List.mapM_cons, rawHeader_marker]
    rfl
  · rw [List.map_map]
    intro hmem
    obtain ⟨m, hm, he⟩ := List.mem_map.1 hmem
    have hm := hlower m hm
    rw [show decodeLatin1 m.1 = REPLAY_HEADER from he] at hm
    exact absurd hm (by decide)

theorem isScalar_codes (w : String) : ∀ c ∈ codes w, isScalar c = true := by
  intro c hc
  obtain ⟨d, -, rfl⟩ := List.mem_map.1 hc
  refine decide_eq_true ?_
  rcases d.valid with h | ⟨h, h'⟩
  · exact .inl h
  · exact .inr ⟨h, h'⟩

theorem codes_inj {w w' : String} (h : codes w = codes w') : w = w' := by
  have hcode : Function.Injective code := fun c d he ↦ Char.toNat_inj.1 he
  exact String.toList_injective (List.map_injective_iff.2 hcode h)

theorem readable_str (h : ∀ c ∈ s, isScalar c = true) : Readable (.str s : Value F) :=
  ⟨everywhere_leaf trivial trivial, everywhere_leaf trivial trivial, everywhere_leaf trivial h⟩

theorem readable_obj {ms : List (Text × Value F)} (hkeys : (ms.map Prod.fst).Nodup)
    (hscalar : ∀ m ∈ ms, ∀ c ∈ m.1, isScalar c = true) (h : ∀ m ∈ ms, Readable m.2) : Readable (.obj ms) :=
  ⟨everywhere_obj hkeys fun m hm ↦ (h m hm).loaded, everywhere_obj trivial fun m hm ↦ (h m hm).finite,
    everywhere_obj hscalar fun m hm ↦ (h m hm).scalar⟩

theorem readable_statusCode {statusCode : ℕ} (h : isSuccess statusCode = true) :
    Readable (.int statusCode : Value F) := by
  refine ⟨everywhere_leaf trivial ?_, everywhere_leaf trivial trivial, everywhere_leaf trivial trivial⟩
  have hlt : statusCode < 10 ^ (2 + 1) := by
    have hrange := of_decide_eq_true h
    omega
  have hlen := length_digits hlt
  rw [LoadedNode, Int.natAbs_natCast, maxDigits]
  omega

structure Storable (headers : List (Text × Text)) : Prop where
  nodup : (headers.map Prod.fst).Nodup
  name : ∀ m ∈ headers, ∀ c ∈ m.1, isScalar c = true
  value : ∀ m ∈ headers, ∀ c ∈ m.2, isScalar c = true

theorem storable_serialisable (headers : List (Bytes × Bytes)) : Storable (_serialisableHeaders headers) := by
  have hscalar : ∀ {bs : Bytes}, ∀ c ∈ decodeLatin1 bs, isScalar c = true := fun c hc ↦
    isScalar_of_lt ((lt_of_mem_decodeLatin1 hc).trans (by decide))
  refine ⟨nodup_ofPairs _, fun m hm ↦ ?_, fun m hm ↦ ?_⟩
  all_goals
    rw [serialisableHeaders_eq] at hm
    obtain ⟨n, -, rfl⟩ := List.mem_map.1 hm
    exact hscalar

theorem readable_headersValue {headers : List (Text × Text)} (h : Storable headers) :
    Readable (headersValue rt headers) := by
  refine readable_obj ?_ ?_ ?_
  · rw [List.map_map]
    exact h.nodup
  · intro m hm
    obtain ⟨n, hn, rfl⟩ := List.mem_map.1 hm
    exact h.name n hn
  · intro m hm
    obtain ⟨n, hn, rfl⟩ := List.mem_map.1 hm
    exact readable_str (h.value n hn)

theorem storedHeaders_eq {ms : List (Text × Value rt.floats.F)} {headers : List (Text × Text)}
    (h : get "headers" ms = some (headersValue rt headers)) : storedHeaders ms = some headers := by
  have hall : ∀ hs : List (Text × Text),
      (hs.map fun m ↦ (m.1, (.str m.2 : Value rt.floats.F))).mapM toText = some hs := by
    intro hs
    induction hs with
    | nil => rfl
    | cons m hs ih =>
      rw [List.map_cons, List.mapM_cons, ih]
      rfl
  rw [storedHeaders, h]
  exact hall headers

theorem readable_lockPayload (hash : String) : Readable (lockPayload rt hash) := by
  refine readable_obj (show [codes "state", codes "body_hash"].Nodup by decide) ?_ ?_
  · intro m hm
    simp only [List.mem_cons, List.not_mem_nil, or_false] at hm
    rcases hm with rfl | rfl <;> exact isScalar_codes _
  · intro m hm
    simp only [List.mem_cons, List.not_mem_nil, or_false] at hm
    rcases hm with rfl | rfl <;> exact readable_str (isScalar_codes _)

theorem readable_completedPayload {statusCode : ℕ} {v : Value rt.floats.F} {headers : List (Text × Text)}
    (hs : isSuccess statusCode = true) (hv : Readable v) (hh : Storable headers) (hash : String) :
    Readable (completedPayload rt hash statusCode v headers) := by
  have hkeys : [codes "state", codes "body_hash", codes "status_code", codes "body", codes "headers"].Nodup := by
    decide
  refine readable_obj hkeys ?_ ?_
  · intro m hm
    simp only [List.mem_cons, List.not_mem_nil, or_false] at hm
    rcases hm with rfl | rfl | rfl | rfl | rfl <;> exact isScalar_codes _
  · intro m hm
    simp only [List.mem_cons, List.not_mem_nil, or_false] at hm
    rcases hm with rfl | rfl | rfl | rfl | rfl
    · exact readable_str (isScalar_codes _)
    · exact readable_str (isScalar_codes _)
    · exact readable_statusCode hs
    · exact hv
    · exact readable_headersValue hh

theorem isText_codes (w w' : String) : isText w' (some (.str (codes w) : Value F)) = decide (w = w') := by
  rw [isText, decide_eq_decide]
  exact ⟨codes_inj, congrArg codes⟩

theorem resolveConflict_other {stored : List (Text × Value rt.floats.F)} (h : loadsBytes rt bs = .ok (.obj stored))
    (hh : get "body_hash" stored = some (.str (codes hash))) (hne : hash ≠ hash') :
    _resolveConflict rt bs hash' = .problem keyReused := by
  rw [_resolveConflict, h]
  dsimp only
  rw [hh, isText_codes, if_pos (by rw [decide_eq_false hne]; rfl)]

theorem resolveConflict_same {stored : List (Text × Value rt.floats.F)} {w : String}
    (h : loadsBytes rt bs = .ok (.obj stored)) (hh : get "body_hash" stored = some (.str (codes hash)))
    (hw : get "state" stored = some (.str (codes w))) :
    (w ≠ "completed" → _resolveConflict rt bs hash = .problem inFlight) ∧
      ∀ r, w = "completed" → _replay rt stored = some r → _resolveConflict rt bs hash = .replayed r := by
  rw [_resolveConflict, h]
  dsimp only
  rw [hh, isText_codes, if_neg (by simp), hw, isText_codes]
  refine ⟨fun hne ↦ ?_, fun r he hr ↦ ?_⟩
  · rw [if_neg (by simpa using hne)]
  · rw [if_pos (decide_eq_true he), hr]

theorem resolveConflict_lock {payload : Bytes} (h : dumps rt (lockPayload rt hash) = some payload) :
    _resolveConflict rt payload hash = .problem inFlight :=
  (resolveConflict_same (loadsBytes_encode (readable_lockPayload hash) h).2 rfl rfl).1 (by decide)

theorem replay_completed {statusCode : ℕ} {v : Value rt.floats.F} {headers : List (Text × Text)} {r : Sent}
    (h : rt.jsonResponse statusCode v (set REPLAY_HEADER (codes "true") headers) = some r)
    {stored : List (Text × Value rt.floats.F)} (hs : completedPayload rt hash statusCode v headers = .obj stored) :
    _replay rt stored = some r := by
  obtain rfl := (Value.obj.inj hs).symm
  rw [_replay, storedHeaders_eq rfl]
  exact h

end AdminPlatform.Idempotency.StoredPayload
