import AdminPlatform.File.Service
import AdminPlatform.Foundation.Sequential

namespace AdminPlatform.File.ObjectProtocol

open Model.Schema Model.Service Foundation.Relational Foundation.Transaction
open Foundation.Interleaving Foundation.RelyGuarantee
open Service FileRepository

variable {α : Type} {w w' : Shared} {l l' : Private} {g : Statement} {i j u : ℕ}
  {G : Guard Table Row LockName Storage Note} {E : Failure → Private → Shared → Prop}

/-- No active file has lost its bytes, and keys are used once. -/
structure ObjectInv (w : Shared) : Prop where
  kept : ∀ i (f : File), w.db.rows .files i = some f → f.status = .active →
    f.objectKey ∉ w.ext.removed
  unique : ∀ i j (f f' : File), w.db.rows .files i = some f → w.db.rows .files j = some f' →
    f.objectKey = f'.objectKey → i = j
  drawn : ∀ i (f : File), w.db.rows .files i = some f → f.objectKey < w.next ∧ i < w.next
  removed : ∀ u ∈ w.ext.removed, u < w.next

def RowsKept (w w' : Shared) : Prop := ∀ i (f : File), w.db.rows .files i = some f →
  ∃ f' : File, w'.db.rows .files i = some f' ∧ f'.objectKey = f.objectKey ∧
    (f.status = .deleted → f'.status = .deleted)

/-- No row has the key, and its bytes have not been removed. -/
structure Unused (u : ℕ) (w : Shared) : Prop where
  rows : ∀ i (f : File), w.db.rows .files i = some f → f.objectKey ≠ u
  removed : u ∉ w.ext.removed

def objectProt : Resource Table LockName → Shared → Shared → Prop
  | .own u, w, w' => (Unused u w → Unused u w') ∧
    (w.db.rows .files u = none → w'.db.rows .files u = none)
  | _, _, _ => True

theorem RowsKept.refl (w : Shared) : RowsKept w w := fun _ f hf ↦ ⟨f, hf, rfl, id⟩

theorem RowsKept.trans {w'' : Shared} (h : RowsKept w w') (h' : RowsKept w' w'') : RowsKept w w'' := by
  intro i f hf
  obtain ⟨f', hf', hk, hs⟩ := h i f hf
  obtain ⟨f'', hf'', hk', hs'⟩ := h' i f' hf'
  exact ⟨f'', hf'', hk'.trans hk, fun hd ↦ hs' (hs hd)⟩

theorem objectProt_refl (r : Resource Table LockName) (w : Shared) : objectProt r w w := by
  cases r with
  | own u => exact ⟨id, id⟩
  | _ => trivial

theorem objectProt_trans (r : Resource Table LockName) (w w' w'' : Shared) (h : objectProt r w w')
    (h' : objectProt r w' w'') : objectProt r w w'' := by
  cases r with
  | own u => exact ⟨fun hu ↦ h'.1 (h.1 hu), fun hr ↦ h'.2 (h.2 hr)⟩
  | _ => trivial

theorem Unused.congr (h : Unused u w) (hdb : w'.db = w.db) (hr : u ∉ w'.ext.removed) : Unused u w' :=
  ⟨fun i f hf ↦ h.rows i f (by rw [← hdb]; exact hf), hr⟩

def objectProtocol : Protocol Table Row LockName Storage Note where
  inv := ObjectInv
  guar := RowsKept
  change _ _ := True
  prot := objectProt
  guar_refl := .refl
  guar_trans _ _ _ := .trans
  prot_refl := objectProt_refl
  prot_trans := objectProt_trans
  quiet w w' h hdb _ hext _ hn := by
    refine ⟨⟨?_, ?_, ?_, ?_⟩, ?_, trivial, fun r ↦ ?_⟩
    · rw [hdb, hext]
      exact h.kept
    · rw [hdb]
      exact h.unique
    · rw [hdb]
      exact fun i f hf ↦ ⟨Nat.lt_of_lt_of_le (h.drawn i f hf).1 hn,
        Nat.lt_of_lt_of_le (h.drawn i f hf).2 hn⟩
    · rw [hext]
      exact fun u hu ↦ Nat.lt_of_lt_of_le (h.removed u hu) hn
    · intro i f hf
      exact ⟨f, by rw [hdb]; exact hf, rfl, id⟩
    · cases r with
      | own u => exact ⟨fun hu ↦ hu.congr hdb (by rw [hext]; exact hu.removed), fun hr ↦ by rwa [hdb]⟩
      | _ => trivial

theorem mem_unlink {s : Storage} {k : ℕ} (h : k ∈ (Storage.unlink u s).removed) :
    k = u ∨ k ∈ s.removed := by
  unfold Storage.unlink at h
  split at h
  · exact List.mem_cons.1 h
  · exact .inr h

/-- A change of the object store alone, where `u` is all that is removed. -/
theorem moves_ext (hi : ObjectInv w) (held : List (Resource Table LockName × Mode))
    (hr : ∀ k ∈ (g.ext w.ext).removed, k ∈ w.ext.removed ∨
      k < w.next ∧ (∀ i (f : File), w.db.rows .files i = some f → f.status = .active → f.objectKey ≠ k) ∧
        ((.own k, .exclusive) ∈ held ∨ ¬ Unused k w)) :
    Moves objectProtocol held w (w.run g) := by
  refine ⟨⟨fun i f hf ha hm ↦ ?_, hi.unique, fun i f hf ↦ ?_, fun k hk ↦ ?_⟩, RowsKept.refl _, trivial,
    fun r hheld ↦ ?_⟩
  · rcases hr _ hm with hm | ⟨-, hn, -⟩
    · exact hi.kept i f hf ha hm
    · exact hn i f hf ha rfl
  · have h := hi.drawn i f hf
    exact ⟨Nat.lt_of_lt_of_le h.1 (Nat.le_add_right _ _), Nat.lt_of_lt_of_le h.2 (Nat.le_add_right _ _)⟩
  · rcases hr k hk with hk | ⟨hlt, -⟩
    · exact Nat.lt_of_lt_of_le (hi.removed k hk) (Nat.le_add_right _ _)
    · exact Nat.lt_of_lt_of_le hlt (Nat.le_add_right _ _)
  · cases r with
    | own k =>
      refine ⟨fun hu ↦ hu.congr rfl fun hk ↦ ?_, id⟩
      rcases hr k hk with hk | ⟨-, -, ho | hnot⟩
      · exact hu.removed hk
      · exact hheld _ ho
      · exact hnot hu
    | _ => trivial

/-- A session that has drawn a key for its upload and written no row. -/
structure Drawn (u : ℕ) (l : Private) (w : Shared) : Prop where
  redo : l.redo = []
  own : (.own u, .exclusive) ∈ l.held
  unused : Unused u w
  lt : u < w.next

theorem Drawn.rely (h : Drawn u l w) (hr : Rely objectProtocol l w w') : Drawn u l w' := by
  have hp : objectProt (.own u) w w' := hr.prot _ h.own
  exact ⟨h.redo, h.own, hp.1 h.unused, Nat.lt_of_lt_of_le h.lt hr.later.next⟩

/-- A session that may commit: it has inserted a row with a key of its own, marked a row as deleted,
or written nothing. -/
inductive Written (l : Private) (w : Shared) : Prop
  | none : l.redo = [] → Written l w
  | insert (i u : ℕ) (f : File) : l.redo = [⟨.files, i, some f⟩] → f.objectKey = u →
      (.own i, .exclusive) ∈ l.held → (.own u, .exclusive) ∈ l.held → Unused u w →
      w.db.rows .files i = none → u < w.next → i < w.next → Written l w
  | mark (i : ℕ) (f f' : File) : l.redo = [⟨.files, i, some f'⟩] → w.db.rows .files i = some f →
      (.row .files i, .exclusive) ∈ l.held → f'.objectKey = f.objectKey → f'.status = .deleted →
      Written l w

theorem Written.rely (h : Written l w) (hr : Rely objectProtocol l w w') : Written l w' := by
  cases h with
  | none hn => exact .none hn
  | insert i u f hn hk hi hu hf hrow hlt hlt' =>
    have hpu : objectProt (.own u) w w' := hr.prot _ hu
    have hpi : objectProt (.own i) w w' := hr.prot _ hi
    exact .insert i u f hn hk hi hu (hpu.1 hf) (hpi.2 hrow) (Nat.lt_of_lt_of_le hlt hr.later.next)
      (Nat.lt_of_lt_of_le hlt' hr.later.next)
  | mark i f f' hn hf hl hk hs =>
    exact .mark i f f' hn ((hr.row .files i .exclusive hl).trans hf) hl hk hs

theorem commit_rows {t : Table} {v : Option (Row t)} (h : l.redo = [⟨t, i, v⟩]) (k : ℕ) :
    (w.commit l).db.rows t k = if k = i then v else w.db.rows t k := by
  rw [commit_db, h]
  exact apply_one w.db t i v k

theorem moves_insert (hi : ObjectInv w) {f : File} (hn : l.redo = [⟨.files, i, some f⟩])
    (hki : (.own i, .exclusive) ∈ l.held) (hku : (.own f.objectKey, .exclusive) ∈ l.held)
    (hf : Unused f.objectKey w) (hrow : w.db.rows .files i = none) (hlt : f.objectKey < w.next)
    (hlt' : i < w.next) : Moves objectProtocol l.held w (w.commit l) := by
  have hrows : ∀ k (x : File), (w.commit l).db.rows .files k = some x →
      k = i ∧ x = f ∨ k ≠ i ∧ w.db.rows .files k = some x := by
    intro k x hx
    rw [commit_rows hn] at hx
    split at hx
    · next hk => exact .inl ⟨hk, (Option.some.inj hx).symm⟩
    · next hk => exact .inr ⟨hk, hx⟩
  refine ⟨⟨fun k x hx ha hm ↦ ?_, fun a b x y hx hy hk ↦ ?_, fun k x hx ↦ ?_, hi.removed⟩,
    fun k x hx ↦ ?_, trivial, fun r hheld ↦ ?_⟩
  · rcases hrows k x hx with ⟨-, rfl⟩ | ⟨-, hx⟩
    · exact hf.removed hm
    · exact hi.kept k x hx ha hm
  · rcases hrows a x hx with ⟨rfl, rfl⟩ | ⟨-, hx⟩
    · rcases hrows b y hy with ⟨rfl, -⟩ | ⟨-, hy⟩
      · rfl
      · exact absurd hk.symm (hf.rows b y hy)
    · rcases hrows b y hy with ⟨rfl, rfl⟩ | ⟨-, hy⟩
      · exact absurd hk (hf.rows a x hx)
      · exact hi.unique a b x y hx hy hk
  · rcases hrows k x hx with ⟨rfl, rfl⟩ | ⟨-, hx⟩
    · exact ⟨hlt, hlt'⟩
    · exact hi.drawn k x hx
  · have hne : k ≠ i := by
      rintro rfl
      rw [hrow] at hx
      cases hx
    exact ⟨x, by rw [commit_rows hn, if_neg hne, hx], rfl, id⟩
  · cases r with
    | own u =>
      refine ⟨fun hu ↦ ⟨fun k x hx ↦ ?_, hu.removed⟩, fun hr ↦ ?_⟩
      · rcases hrows k x hx with ⟨-, rfl⟩ | ⟨-, hx⟩
        · rintro rfl
          exact hheld _ hku
        · exact hu.rows k x hx
      · rw [commit_rows hn, if_neg, hr]
        rintro rfl
        exact hheld _ hki
    | _ => trivial

theorem moves_mark (hi : ObjectInv w) {f f' : File} (hn : l.redo = [⟨.files, i, some f'⟩])
    (hf : w.db.rows .files i = some f) (hk : f'.objectKey = f.objectKey) (hs : f'.status = .deleted) :
    Moves objectProtocol l.held w (w.commit l) := by
  have hrows : ∀ k (x : File), (w.commit l).db.rows .files k = some x →
      ∃ y : File, w.db.rows .files k = some y ∧ x.objectKey = y.objectKey ∧
        (x = y ∨ x.status = .deleted) := by
    intro k x hx
    rw [commit_rows hn] at hx
    split at hx
    · next he =>
      cases hx
      exact ⟨f, by rw [he]; exact hf, hk, .inr hs⟩
    · exact ⟨x, hx, rfl, .inl rfl⟩
  refine ⟨⟨fun k x hx ha ↦ ?_, fun a b x y hx hy he ↦ ?_, fun k x hx ↦ ?_, hi.removed⟩,
    fun k x hx ↦ ?_, trivial, fun r _ ↦ ?_⟩
  · obtain ⟨y, hy, -, rfl | hd⟩ := hrows k x hx
    · exact hi.kept k x hy ha
    · rw [ha] at hd
      cases hd
  · obtain ⟨x', hx', hkx, -⟩ := hrows a x hx
    obtain ⟨y', hy', hky, -⟩ := hrows b y hy
    exact hi.unique a b x' y' hx' hy' (by rw [← hkx, ← hky, he])
  · obtain ⟨y, hy, hky, -⟩ := hrows k x hx
    rw [hky]
    exact hi.drawn k y hy
  · by_cases hki : k = i
    · subst hki
      rw [hf] at hx
      cases hx
      exact ⟨f', by rw [commit_rows hn, if_pos rfl], hk, fun _ ↦ hs⟩
    · exact ⟨x, by rw [commit_rows hn, if_neg hki, hx], rfl, id⟩
  · cases r with
    | own u =>
      refine ⟨fun hu ↦ ⟨fun k x hx ↦ ?_, hu.removed⟩, fun hr ↦ ?_⟩
      · obtain ⟨y, hy, hky, -⟩ := hrows k x hx
        rw [hky]
        exact hu.rows k y hy
      · rw [commit_rows hn, if_neg, hr]
        rintro rfl
        rw [hf] at hr
        cases hr
    | _ => trivial

theorem moves_commit (hi : ObjectInv w) (h : Written l w) :
    Moves objectProtocol l.held w (w.commit l) := by
  cases h with
  | none hn =>
    have hdb : (w.commit l).db = w.db := by
      rw [commit_db, hn]
      exact Foundation.Sequential.apply_nil
    refine ⟨⟨?_, ?_, ?_, hi.removed⟩, fun k x hx ↦ ⟨x, by rw [hdb]; exact hx, rfl, id⟩, trivial,
      fun r _ ↦ ?_⟩
    · rw [hdb]
      exact hi.kept
    · rw [hdb]
      exact hi.unique
    · rw [hdb]
      exact hi.drawn
    · cases r with
      | own u => exact ⟨fun hu ↦ hu.congr hdb hu.removed, fun hr ↦ by rwa [hdb]⟩
      | _ => trivial
  | insert i u f hn hk hki hku hf hrow hlt hlt' =>
    subst hk
    exact moves_insert hi hn hki hku hf hrow hlt hlt'
  | mark i f f' hn hf _ hk hs => exact moves_mark hi hn hf hk hs

end AdminPlatform.File.ObjectProtocol
