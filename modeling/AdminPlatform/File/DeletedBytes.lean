import AdminPlatform.File.ObjectProtocol

namespace AdminPlatform.File.DeletedBytes

open Model.Schema Model.Service Foundation.Relational Foundation.Transaction
open Foundation.Interleaving Foundation.RelyGuarantee
open Service FileRepository ObjectProtocol

variable {α : Type} {w w' : Shared} {l l' : Private} {g : Statement} {i u : ℕ}
  {G : Guard Table Row LockName Storage Note} {E : Failure → Private → Shared → Prop}
  {settings : FileSettings}

theorem wp_act {a : α} {Q : α → Private → Shared → Prop}
    (h : ∀ w', Rely objectProtocol l w w' → G.stmt w' g →
      Moves objectProtocol (l.run g w'.next).held w' (w'.run g) ∧ Q a (l.run g w'.next) (w'.run g)) :
    wp objectProtocol G (.query fun _ ↦ .ok (g, a)) Q E l w := h

theorem wp_uuid4 {Q : ℕ → Private → Shared → Prop} (hQ : ∀ u l' w', Drawn u l' w' → Q u l' w') :
    wp objectProtocol G uuid4 Q E {} w := by
  refine wp_query fun w₁ hr _ ↦ ⟨rfl, hQ _ _ _ ⟨rfl, ?_, ⟨fun i f hf he ↦ ?_, fun hm ↦ ?_⟩, ?_⟩⟩
  · exact claims_run _ _ _ (by simp [Effect.claims])
  · have hlt := (hr.inv.drawn i f hf).1
    rw [he] at hlt
    exact Nat.lt_irrefl _ hlt
  · exact Nat.lt_irrefl _ (hr.inv.removed _ hm)
  · exact Nat.lt_succ_self _

theorem Drawn.act (h : Drawn u l w) (hw : g.writes = []) (hr : (g.ext w.ext).removed = w.ext.removed)
    (n : ℕ) : Drawn u (l.run g n) (w.run g) := by
  refine ⟨?_, held_run l g n h.own, h.unused.congr rfl ?_, Nat.lt_of_lt_of_le h.lt (Nat.le_add_right _ _)⟩
  · show l.redo ++ g.writes = []
    rw [h.redo, hw]
    rfl
  · show u ∉ (g.ext w.ext).removed
    rw [hr]
    exact h.unused.removed

theorem wp_writeStream {stream : Chunks} {Q : StoredStat → Private → Shared → Prop} (h : Drawn u l w)
    (hE : ∀ e l' w', E e l' w') (hQ : ∀ s l' w', Drawn u l' w' → Q s l' w') :
    wp objectProtocol G (writeStream settings u stream) Q E l w := by
  unfold writeStream
  cases received settings.maxBytes stream.raises [] stream.chunks with
  | error e => exact wp_query fun _ _ ↦ hE _ _ _
  | ok content =>
    refine wp_act fun w₁ hr _ ↦ ⟨moves_ext hr.inv _ fun k hk ↦ .inl hk, hQ _ _ _ ?_⟩
    exact Drawn.act (h.rely hr) rfl rfl _

theorem wp_deletePhysical {Q : Unit → Private → Shared → Prop} (h : Drawn u l w)
    (hQ : ∀ l' w', Q () l' w') : wp objectProtocol G (deletePhysical u) Q E l w := by
  refine wp_act fun w₁ hr _ ↦ ⟨moves_ext hr.inv _ fun k hk ↦ ?_, hQ _ _⟩
  have h₁ := h.rely hr
  rcases mem_unlink hk with rfl | hk
  · exact .inr ⟨h₁.lt, fun i f hf _ ↦ h₁.unused.rows i f hf, .inl (held_run l _ _ h₁.own)⟩
  · exact .inl hk

theorem wp_create {row : File} {Q : FileRead → Private → Shared → Prop} (h : Drawn u l w)
    (hu : row.objectKey = u) (hE : ∀ e l' w', Drawn u l' w' → E e l' w')
    (hQ : ∀ a l' w', Written l' w' → Q a l' w') :
    wp objectProtocol G (FileRepository.create row) Q E l w := by
  refine wp_query fun w₁ hr ↦ ?_
  have h₁ := h.rely hr
  split
  · next hq =>
    split at hq
    · cases hq
    · cases hq
      have hrow : w₁.db.rows .files w₁.next = none := by
        cases hf : w₁.db.rows .files w₁.next with
        | none => rfl
        | some f => exact absurd (hr.inv.drawn _ f hf).2 (Nat.lt_irrefl _)
      refine fun _ ↦ ⟨rfl, hQ _ _ _ (.insert w₁.next u row ?_ hu ?_ (held_run l _ _ h₁.own)
        (h₁.unused.congr rfl h₁.unused.removed) hrow ?_ (Nat.lt_succ_self _))⟩
      · simp only [Local.run, h₁.redo, List.nil_append]
        rfl
      · exact claims_run _ _ _ (by simp [Effect.claims])
      · exact Nat.lt_of_lt_of_le h₁.lt (Nat.le_succ _)
  · exact hE _ _ _ h₁

theorem safe_getSession {p : Call α}
    (h : wp objectProtocol G p (fun _ l w ↦ Written l w) (fun _ _ _ ↦ True) l w) :
    safe objectProtocol G (getSession p) l w := by
  refine wp_bind (wp_mono (fun a l' w' hw ↦ ?_) (fun _ _ _ _ ↦ trivial) h)
  exact wp_bind (wp_save fun w₁ hr _ ↦ ⟨moves_commit hr.inv (hw.rely hr), trivial⟩)

theorem wp_upload {filename contentType : String} {source : Chunks} {uploaderId : ℕ} :
    wp objectProtocol G (Service.upload settings filename contentType source uploaderId)
      (fun _ l w ↦ Written l w) (fun _ _ _ ↦ True) {} w := by
  unfold Service.upload
  dsimp only
  split
  · trivial
  · refine wp_bind (wp_uuid4 fun u l₁ w₁ h₁ ↦ ?_)
    refine wp_bind (wp_writeStream h₁ (fun _ _ _ ↦ trivial) fun s l₂ w₂ h₂ ↦ ?_)
    split
    · exact wp_bind (wp_deletePhysical h₂ fun _ _ ↦ trivial)
    · refine wp_tryCatch (wp_create h₂ rfl (fun e l₃ w₃ h₃ ↦ ?_) fun a l₃ w₃ h₃ ↦ h₃)
      exact wp_bind (wp_deletePhysical h₃ fun _ _ ↦ trivial)

theorem wp_get {title : String} :
    wp objectProtocol G (do
      match ← getActive i with
      | none => raise (fileNotFound title)
      | some f => pure (fileRead i f)) (fun _ l w ↦ Written l w) (fun _ _ _ ↦ True) {} w := by
  refine wp_bind (wp_read fun w₁ hr ↦ ?_)
  cases active (w₁.view {}).db i with
  | none => trivial
  | some f => exact Written.none rfl

theorem wp_prepareDownload :
    wp objectProtocol G (prepareDownload i) (fun _ l w ↦ Written l w) (fun _ _ _ ↦ True) {} w := by
  refine wp_bind (wp_read fun w₁ hr ↦ ?_)
  cases active (w₁.view {}).db i with
  | none => trivial
  | some f =>
    refine wp_bind (wp_read fun w₂ hr₂ ↦ ?_)
    split
    · trivial
    · exact Written.none rfl

def Settled (w : Shared) (g : Statement) : Prop :=
  ∀ i, Note.fileUnlinked i ∈ g.notes → ∀ f : File, w.db.rows .files i = some f → f.status = .deleted

def Keyed (i u : ℕ) (w : Shared) : Prop := ∃ f : File, w.db.rows .files i = some f ∧ f.objectKey = u

theorem Keyed.rely (h : Keyed i u w) (hr : Rely objectProtocol l w w') : Keyed i u w' := by
  obtain ⟨f, hf, hk⟩ := h
  obtain ⟨f', hf', hk', -⟩ := hr.guar i f hf
  exact ⟨f', hf', hk'.trans hk⟩

structure Marked (i u : ℕ) (l : Private) (w : Shared) : Prop where
  lock : (.row .files i, .exclusive) ∈ l.held
  rows : ∃ f f' : File, l.redo = [⟨.files, i, some f'⟩] ∧ w.db.rows .files i = some f ∧
    f.objectKey = u ∧ f'.objectKey = u ∧ f'.status = .deleted

theorem Marked.rely (h : Marked i u l w) (hr : Rely objectProtocol l w w') : Marked i u l w' := by
  obtain ⟨f, f', hn, hf, hk⟩ := h.rows
  exact ⟨h.lock, f, f', hn, (hr.row .files i .exclusive h.lock).trans hf, hk⟩

theorem Marked.written (h : Marked i u l w) : Written l w := by
  obtain ⟨f, f', hn, hf, hk, hk', hs⟩ := h.rows
  exact .mark i f f' hn hf h.lock (hk'.trans hk.symm) hs

theorem wp_delete {Q : ℕ → Private → Shared → Prop} (hE : ∀ e l' w', E e l' w')
    (hQ : ∀ u l' w', Marked i u l' w' → Q u l' w') :
    wp objectProtocol G (Service.delete i) Q E {} w := by
  refine wp_bind (wp_read fun w₁ hr₁ ↦ wp_bind (wp_bind (wp_read fun w₂ hr₂ ↦ ?_)))
  have hview : (w₂.view ({} : Private)).db.rows .files i = w₂.db.rows .files i :=
    apply_rows_of_none rfl
  cases hact : active (w₂.view {}).db i with
  | none => exact hE _ _ _
  | some f =>
    rw [active, Option.filter_eq_some_iff, hview] at hact
    have hkey : Keyed i f.objectKey w₂ := ⟨f, hact.1, rfl⟩
    refine wp_bind (wp_query fun w₃ hr₃ ↦ ?_)
    have hview₃ : (w₃.view ({} : Private)).db.rows .files i = w₃.db.rows .files i :=
      apply_rows_of_none rfl
    obtain ⟨f₃, hf₃, hk₃⟩ := hkey.rely hr₃
    rw [hview₃, hf₃]
    refine fun _ ↦ ⟨rfl, hQ _ _ _ ⟨?_, f₃, _, rfl, hf₃, hk₃, hk₃, rfl⟩⟩
    exact claims_run _ _ _ (by simp [Effect.claims])

section Calls

variable (hG : ∀ w g, G.stmt w g → Settled w g)

include hG

theorem wp_backgroundDelete {Q : Unit → Private → Shared → Prop} (h : Marked i u l w)
    (hQ : ∀ l' w', Marked i u l' w' → Q () l' w') :
    wp objectProtocol G (backgroundDelete i u) Q E l w := by
  refine wp_act fun w₁ hr hg ↦ ⟨moves_ext hr.inv _ fun k hm ↦ ?_, hQ _ _ ?_⟩
  · obtain ⟨f, -, -, hf, hfk, -⟩ := (h.rely hr).rows
    rcases mem_unlink hm with rfl | hm
    · have hd := hG _ _ hg i List.mem_cons_self f hf
      refine .inr ⟨hfk ▸ (hr.inv.drawn i f hf).1, fun j f' hf' ha he ↦ ?_, .inr fun hu ↦
        hu.rows i f hf hfk⟩
      obtain rfl := hr.inv.unique i j f f' hf hf' (hfk.trans he.symm)
      rw [hf] at hf'
      cases hf'
      rw [hd] at ha
      cases ha
    · exact .inl hm
  · have h₁ := h.rely hr
    obtain ⟨f, f', hn, hf, hk⟩ := h₁.rows
    exact ⟨held_run l _ _ h₁.lock, f, f', (List.append_nil _).trans hn, hf, hk⟩

theorem safe_call (op : FileOp) (w : Shared) : safe objectProtocol G (op.call settings) {} w := by
  cases op with
  | upload filename contentType source uploaderId =>
    exact safe_getSession (wp_bind (wp_mono (fun _ _ _ h ↦ h) (fun _ _ _ h ↦ h) wp_upload))
  | list page size =>
    refine safe_getSession (wp_bind (wp_bind (wp_read fun _ _ ↦ wp_bind (wp_read fun _ _ ↦ ?_))))
    exact Written.none rfl
  | get fileId => exact safe_getSession (wp_bind (wp_mono (fun _ _ _ h ↦ h) (fun _ _ _ h ↦ h) wp_get))
  | download fileId =>
    exact safe_getSession (wp_bind (wp_mono (fun _ _ _ h ↦ h) (fun _ _ _ h ↦ h) wp_prepareDownload))
  | delete fileId =>
    refine wp_bind (wp_bind (wp_delete (fun _ _ _ ↦ trivial) fun u l₁ w₁ h₁ ↦ ?_))
    refine wp_bind (wp_backgroundDelete hG h₁ fun l₂ w₂ h₂ ↦ ?_)
    exact wp_save fun w₃ hr _ ↦ ⟨moves_commit hr.inv (h₂.rely hr).written, trivial⟩

end Calls

def BytesKept (w : Shared) : Prop := ∀ i (f : File), w.db.rows .files i = some f →
  f.status = .active → f.objectKey ∉ w.ext.removed

def settledGuard : Guard Table Row LockName Storage Note := ⟨Settled, fun _ _ ↦ True⟩

theorem bytes_kept_of_reach (settings : FileSettings) (w : Shared)
    (S : State Table Row LockName Storage Note Failure Answer) (hw : ObjectInv w)
    (h : Reach (FileOp.call settings) .crash settledGuard w S) : BytesKept S.world :=
  (sound_of_reach (fun op w _ ↦ safe_call (fun _ _ h ↦ h) op w) hw h).inv.kept

/-- The checksum is the one of the bytes `hi`. -/
def textOnly : FileSettings where
  maxBytes := 1024
  allowedExtensions := ["txt"]
  storageBackendName := "local"
  sha256 _ := "8f434346648f6b96df89dda901c5176b10a6d83961dd3c1ac88b59b2dc327aa4"
  lower := id

def aliceOnly : Shared where
  now := 0
  next := 1
  ext := ⟨[], []⟩
  db := Store.empty.apply [⟨.users, 0, some ⟨"alice", ⟨"", 0⟩, "", .active, false, none⟩⟩]
  log := []

theorem objectInv_aliceOnly : ObjectInv aliceOnly := by
  have hno : ∀ i (f : File), aliceOnly.db.rows .files i ≠ some f := by
    intro i f hf
    cases aliceOnly.db.complete .files i f hf
  exact ⟨fun i f hf ↦ absurd hf (hno i f), fun i j f _ hf ↦ absurd hf (hno i f),
    fun i f hf ↦ absurd hf (hno i f), fun u hu ↦ by cases hu⟩

def uploadHi : FileOp := .upload "hi.txt" "text/plain" ⟨[[0x68], [0x69]], none⟩ 0

def settledAt (S : State Table Row LockName Storage Note Failure Answer) : Label FileOp → Bool
  | .step i => match S.sessions[i]? with
    | some ⟨.step effect _, l⟩ => (effect (S.world.view l)).notes.all fun n ↦ match n with
      | .fileUnlinked id => (S.world.db.rows .files id).all fun f : File ↦ decide (f.status = .deleted)
      | _ => true
    | _ => true
  | _ => true

theorem admits_of_settledAt (S : State Table Row LockName Storage Note Failure Answer)
    (a : Label FileOp) (h : settledAt S a = true) : settledGuard.admits S a := by
  cases a with
  | step i =>
    rintro ⟨p, l⟩ hi
    cases p with
    | step effect rest =>
      simp only [settledAt, hi] at h
      intro id hm f hf
      have hk := List.all_eq_true.1 h _ hm
      simp only [hf, Option.all_some, decide_eq_true_eq] at hk
      exact hk
    | commit rest => trivial
    | _ => trivial
  | _ => trivial

def diesEarly : List (Label FileOp) :=
  .start uploadHi :: List.replicate 4 (.step 0) ++
    .start (.delete 2) :: List.replicate 3 (.step 1) ++ [.abort 1]

def commitFails : List (Label FileOp) :=
  .start uploadHi :: List.replicate 4 (.step 0) ++
    .start (.delete 2) :: List.replicate 4 (.step 1) ++ [.abort 1]

theorem bytes_kept_of_reach_diesEarly :
    ∃ S, Reach (FileOp.call textOnly) .crash settledGuard aliceOnly S ∧
      (S.world.db.rows .files 2).map File.objectKey = some 1 ∧ S.world.ext = ⟨[1], []⟩ ∧
      BytesKept S.world := by
  have hrun : ∃ S, Reach (FileOp.call textOnly) .crash settledGuard aliceOnly S ∧
      decide ((S.world.db.rows .files 2).map File.objectKey = some 1 ∧ S.world.ext = ⟨[1], []⟩) = true :=
    exists_reach_of_walk settledAt diesEarly admits_of_settledAt (by decide +kernel)
  obtain ⟨S, hS, hp⟩ := hrun
  obtain ⟨hf, he⟩ := of_decide_eq_true hp
  exact ⟨S, hS, hf, he, bytes_kept_of_reach textOnly aliceOnly S objectInv_aliceOnly hS⟩

theorem not_bytes_kept_commitFails :
    ¬ ∀ settings w S, ObjectInv w → Reach (FileOp.call settings) .crash .free w S → BytesKept S.world := by
  intro h
  have hrun : ∃ S, Reach (FileOp.call textOnly) .crash .free aliceOnly S ∧
      decide ((S.world.db.rows .files 2).map (fun f : File ↦ (f.objectKey, f.status)) =
        some (1, .active) ∧ 1 ∈ S.world.ext.removed) = true :=
    exists_reach_of_follow (fun _ _ ↦ true) commitFails (fun _ _ ↦ trivial) (fun _ _ _ ↦ trivial)
      (by decide +kernel)
  obtain ⟨S, hS, hp⟩ := hrun
  obtain ⟨hf, hm⟩ := of_decide_eq_true hp
  obtain ⟨f, hf, he⟩ := Option.map_eq_some_iff.1 hf
  obtain ⟨hk, hs⟩ := Prod.mk.inj he
  exact h textOnly aliceOnly S objectInv_aliceOnly hS 2 f hf hs (hk ▸ hm)

end AdminPlatform.File.DeletedBytes
