import AdminPlatform.Dict.Service

namespace AdminPlatform.Dict.DefaultProtocol

open Model.Schema Model.Service Model.Scope Foundation.Relational Foundation.Transaction
open Foundation.Interleaving Foundation.RelyGuarantee
open Service

def rowDefault (r : Option DictData) : Option ℕ :=
  r.bind fun r ↦ if r.isDefault then some r.dictTypeId else none

def defaultOf (db : Db) (i : ℕ) : Option ℕ := rowDefault (db.rows .dictData i)

def ask (dictTypeId : ℕ) (entry : Option ℕ) : Note → Option ℕ
  | .defaultAsked t i _ => if t = dictTypeId then some i else entry
  | .defaultUnset i => if entry = some i then none else entry
  | .dictDataDeleted i => if entry = some i then none else entry
  | _ => entry

/-- The entry the last accepted request made the default of the type, unless a later one unset or
deleted it. -/
def asked (log : List Note) (dictTypeId : ℕ) : Option ℕ := log.foldl (ask dictTypeId) none

abbrev defaultKey (t : ℕ) : Resource Table LockName := .named (.dictData (.default t))

variable {w w' : Shared} {l l' : Private} {t i j : ℕ} {typ gone : Option ℕ} {calm : Prop}

theorem asked_append (log notes : List Note) (t : ℕ) :
    asked (log ++ notes) t = notes.foldl (ask t) (asked log t) := List.foldl_append

theorem defaultOf_eq_some {db : Db} : defaultOf db i = some t ↔
    ∃ r, db.rows .dictData i = some r ∧ r.isDefault = true ∧ r.dictTypeId = t := by
  simp only [defaultOf, rowDefault, Option.bind_eq_some_iff]
  constructor
  · rintro ⟨r, hr, h⟩
    split at h
    · next hd => exact ⟨r, hr, hd, Option.some.inj h⟩
    · cases h
  · rintro ⟨r, hr, hd, rfl⟩
    exact ⟨r, hr, if_pos hd⟩

theorem defaultOf_congr {db db' : Db} (h : db'.rows .dictData i = db.rows .dictData i) :
    defaultOf db' i = defaultOf db i := congrArg rowDefault h

def Unique (db : Db) : Prop := ∀ t i j, defaultOf db i = some t → defaultOf db j = some t → i = j

structure Fresh (i : ℕ) (w : Shared) : Prop where
  row : w.db.rows .dictData i = none
  deleted : Note.dictDataDeleted i ∉ w.log

/-- `calm` tells whether stale requests are left out. -/
structure DefaultInv (calm : Prop) (w : Shared) : Prop where
  unique : Unique w.db
  settled : calm → ∀ t i, asked w.log t = some i → defaultOf w.db i = some t
  below : ∀ i r, w.db.rows .dictData i = some r → i < w.next
  deleted : ∀ i, Note.dictDataDeleted i ∈ w.log → w.db.rows .dictData i = none ∧ i < w.next

/-- A row keeps its type for as long as it is there. -/
structure TypesKept (w w' : Shared) : Prop where
  log : w.log ⊆ w'.log
  rows : ∀ i r, w.db.rows .dictData i = some r → Note.dictDataDeleted i ∈ w'.log ∨
    ∃ r', w'.db.rows .dictData i = some r' ∧ r'.dictTypeId = r.dictTypeId

theorem TypesKept.refl (w : Shared) : TypesKept w w := ⟨fun _ h ↦ h, fun _ r hr ↦ .inr ⟨r, hr, rfl⟩⟩

theorem TypesKept.trans {w'' : Shared} (h : TypesKept w w') (h' : TypesKept w' w'') :
    TypesKept w w'' := by
  refine ⟨fun n hn ↦ h'.log (h.log hn), fun i r hr ↦ ?_⟩
  rcases h.rows i r hr with hd | ⟨r', hr', ht⟩
  · exact .inl (h'.log hd)
  · rcases h'.rows i r' hr' with hd | ⟨r'', hr'', ht'⟩
    · exact .inl hd
    · exact .inr ⟨r'', hr'', ht'.trans ht⟩

/-- Only the holder of a type's index record changes its default, only the session that drew an id
inserts the row. -/
def defaultProt : Resource Table LockName → Shared → Shared → Prop
  | .named (.dictData (.default t)), w, w' =>
    ∀ i, defaultOf w'.db i = some t ↔ defaultOf w.db i = some t
  | .own i, w, w' => Fresh i w → Fresh i w'
  | _, _, _ => True

theorem defaultProt_refl (r : Resource Table LockName) (w : Shared) : defaultProt r w w := by
  unfold defaultProt
  split
  · exact fun _ ↦ .rfl
  · exact fun h ↦ h
  · trivial

theorem defaultProt_trans (r : Resource Table LockName) (w w' w'' : Shared)
    (h : defaultProt r w w') (h' : defaultProt r w' w'') : defaultProt r w w'' := by
  unfold defaultProt at h h' ⊢
  split
  · exact fun i ↦ (h' i).trans (h i)
  · exact fun hf ↦ h' (h hf)
  · trivial

theorem defaultProt_of_eq (r : Resource Table LockName) (hdb : w'.db = w.db) (hlog : w'.log = w.log) :
    defaultProt r w w' := by
  unfold defaultProt
  split
  · intro i
    rw [hdb]
  · intro hf
    exact ⟨hdb ▸ hf.row, hlog ▸ hf.deleted⟩
  · trivial

def defaultProtocol (calm : Prop) : Protocol Table Row LockName Storage Note where
  inv := DefaultInv calm
  guar := TypesKept
  change _ _ := True
  prot := defaultProt
  guar_refl := .refl
  guar_trans _ _ _ := .trans
  prot_refl := defaultProt_refl
  prot_trans := defaultProt_trans
  quiet w w' h hdb hlog _ _ hn := by
    refine ⟨⟨hdb ▸ h.unique, ?_, fun i r hr ↦ ?_, fun i hi ↦ ?_⟩, ⟨?_, fun i r hr ↦ ?_⟩, trivial,
      fun r ↦ defaultProt_of_eq r hdb hlog⟩
    · rw [hdb, hlog]
      exact h.settled
    · rw [hdb] at hr
      exact Nat.lt_of_lt_of_le (h.below i r hr) hn
    · rw [hlog] at hi
      rw [hdb]
      exact ⟨(h.deleted i hi).1, Nat.lt_of_lt_of_le (h.deleted i hi).2 hn⟩
    · rw [hlog]
      exact fun _ h ↦ h
    · rw [hdb]
      exact .inr ⟨r, hr, rfl⟩

/-- Rows are inserted under fresh ids, keep their type, and are deleted with a note. -/
structure RowTx (l : Private) (w : Shared) : Prop where
  covered : Covered l
  rows : ∀ i v, pending l.redo .dictData i = some v →
    (∃ r, w.db.rows .dictData i = some r ∧ (v = none → Note.dictDataDeleted i ∈ l.notes) ∧
      ∀ r', v = some r' → r'.dictTypeId = r.dictTypeId) ∨
    ((.own i, .exclusive) ∈ l.held ∧ Fresh i w ∧ i < w.next ∧ v ≠ none)
  deleted : ∀ i, Note.dictDataDeleted i ∈ l.notes →
    pending l.redo .dictData i = some none ∧ ∃ r, w.db.rows .dictData i = some r

theorem RowTx.init : RowTx {} w :=
  ⟨fun _ hx ↦ (by cases hx), fun _ _ hp ↦ (by cases hp), fun _ hn ↦ (by cases hn)⟩

theorem row_of_rely (h : Covered l) (hr : Rely (defaultProtocol calm) l w w') {v : Option DictData}
    (hp : pending l.redo .dictData i = some v) :
    w'.db.rows .dictData i = w.db.rows .dictData i :=
  hr.row .dictData i .exclusive (h _ (pending_mem hp))

theorem RowTx.rely (h : RowTx l w) (hr : Rely (defaultProtocol calm) l w w') : RowTx l w' := by
  refine ⟨h.covered, fun i v hp ↦ ?_, fun i hn ↦ ?_⟩
  · have hrow := row_of_rely h.covered hr hp
    rcases h.rows i v hp with ⟨r, hr', hv⟩ | ⟨ho, hf, hlt, hv⟩
    · exact .inl ⟨r, hrow.trans hr', hv⟩
    · have hf' : Fresh i w' := hr.prot (.own i) ho hf
      exact .inr ⟨ho, hf', Nat.lt_of_lt_of_le hlt hr.later.next, hv⟩
  · obtain ⟨hp, r, hr'⟩ := h.deleted i hn
    exact ⟨hp, r, (row_of_rely h.covered hr hp).trans hr'⟩

theorem view_of_pending {v : Option DictData} (hp : pending l.redo .dictData i = some v) (w : Shared) :
    (w.view l).db.rows .dictData i = v := by
  rw [view_db]
  exact apply_rows_of_pending hp

theorem view_of_none (hp : pending l.redo .dictData i = none) (w : Shared) :
    (w.view l).db.rows .dictData i = w.db.rows .dictData i := by
  rw [view_db]
  exact apply_rows_of_none hp

/-- Either nothing has become of the row as the session sees it, or nothing of the row. -/
theorem rely_cases (h : Covered l) (hr : Rely (defaultProtocol calm) l w w') (i : ℕ) :
    (defaultOf (w.view l).db i = defaultOf w.db i ∧ defaultOf (w'.view l).db i = defaultOf w'.db i) ∨
      (defaultOf w'.db i = defaultOf w.db i ∧
        defaultOf (w'.view l).db i = defaultOf (w.view l).db i) := by
  cases hp : pending l.redo .dictData i with
  | none => exact .inl ⟨defaultOf_congr (view_of_none hp w), defaultOf_congr (view_of_none hp w')⟩
  | some v =>
    refine .inr ⟨defaultOf_congr (row_of_rely h hr hp), defaultOf_congr ?_⟩
    rw [view_of_pending hp, view_of_pending hp]

/-- What the session has done to the defaults: it clears those of the type `typ` and unsets or
deletes the entry `gone`. -/
structure DefaultTx (typ gone : Option ℕ) (l : Private) (w : Shared) : Prop where
  unique : Unique (w.view l).db
  kept : ∀ t, (defaultKey t, .exclusive) ∉ l.held → ∀ i,
    defaultOf (w.view l).db i = some t ↔ defaultOf w.db i = some t
  lost : ∀ t i, defaultOf w.db i = some t →
    defaultOf (w.view l).db i = some t ∨ gone = some i ∨ typ = some t

theorem DefaultTx.init (h : DefaultInv calm w) : DefaultTx typ gone {} w :=
  ⟨h.unique, fun _ _ _ ↦ .rfl, fun _ _ h ↦ .inl h⟩

theorem DefaultTx.rely (h : DefaultTx typ gone l w) (hc : Covered l)
    (hr : Rely (defaultProtocol calm) l w w') : DefaultTx typ gone l w' := by
  have hlocked : ∀ t, (defaultKey t, .exclusive) ∈ l.held → ∀ i,
      (defaultOf w'.db i = some t ↔ defaultOf w.db i = some t) ∧
      (defaultOf (w'.view l).db i = some t ↔ defaultOf (w.view l).db i = some t) := by
    intro t ht i
    have hp : defaultOf w'.db i = some t ↔ defaultOf w.db i = some t := hr.prot _ ht i
    rcases rely_cases hc hr i with ⟨h₁, h₂⟩ | ⟨h₁, h₂⟩
    · rw [h₁, h₂]
      exact ⟨hp, hp⟩
    · rw [h₂]
      exact ⟨hp, .rfl⟩
  have hfree : ∀ t, (defaultKey t, .exclusive) ∉ l.held → ∀ i,
      defaultOf (w'.view l).db i = some t ↔ defaultOf w'.db i = some t := by
    intro t ht i
    rcases rely_cases hc hr i with ⟨-, h₂⟩ | ⟨h₁, h₂⟩
    · rw [h₂]
    · rw [h₁, h₂]
      exact h.kept t ht i
  refine ⟨fun t i j hi hj ↦ ?_, hfree, fun t i hi ↦ ?_⟩
  · by_cases ht : (defaultKey t, .exclusive) ∈ l.held
    · exact h.unique t i j ((hlocked t ht i).2.1 hi) ((hlocked t ht j).2.1 hj)
    · exact hr.inv.unique t i j ((hfree t ht i).1 hi) ((hfree t ht j).1 hj)
  · by_cases ht : (defaultKey t, .exclusive) ∈ l.held
    · rcases h.lost t i ((hlocked t ht i).1.1 hi) with hv | hv
      · exact .inl ((hlocked t ht i).2.2 hv)
      · exact .inr hv
    · exact .inl ((hfree t ht i).2 hi)

end AdminPlatform.Dict.DefaultProtocol
