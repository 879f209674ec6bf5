import AdminPlatform.Post.Service
import AdminPlatform.Foundation.Ordering
import AdminPlatform.Foundation.Sequential

namespace AdminPlatform.Post.ImportedRows

open Model.Schema Model.Service Model.Coded Foundation.Relational Foundation.Transaction Foundation.Ordering
open Post.Service Prog

def inserts (n : ℕ) (payloads : List PostCreate) : List (Write Row) :=
  payloads.zipIdx.map fun x ↦ ⟨.posts, n + x.2, some x.1.row⟩

def bulkInsert (n : ℕ) (payloads : List PostCreate) : Statement where
  locks := (payloads.map PostCreate.code).map fun c ↦ (.named (.unique .posts c), .exclusive)
  fresh := payloads.length
  writes := inserts n payloads

variable {db : Db} {w : Shared} {n : ℕ} {payloads : List PostCreate} {r : Post}

/-- New ids get the payloads in order. -/
theorem rows_inserts (hfresh : ∀ i, n ≤ i → db.rows .posts i = none) {i : ℕ} :
    (db.apply (inserts n payloads)).rows .posts i = some r ↔
      db.rows .posts i = some r ∨ ∃ k p, payloads[k]? = some p ∧ i = n + k ∧ p.row = r := by
  constructor
  · intro h
    cases hp : pending (inserts n payloads) .posts i with
    | none =>
      rw [apply_rows_of_none hp] at h
      exact .inl h
    | some v =>
      rw [apply_rows_of_pending hp] at h
      obtain ⟨⟨p, k⟩, hk, he⟩ := List.mem_map.1 (pending_mem hp)
      cases he
      cases h
      exact .inr ⟨k, p, List.mem_zipIdx_iff_getElem?.1 hk, rfl, rfl⟩
  · rintro (h | ⟨k, p, hk, hi, hr⟩)
    · have hlt : i < n := by
        refine Nat.lt_of_not_le fun hle ↦ ?_
        rw [hfresh i hle] at h
        cases h
      have hnone : pending (inserts n payloads) .posts i = none := by
        cases hp : pending (inserts n payloads) .posts i with
        | none => rfl
        | some v =>
          obtain ⟨⟨p, k⟩, _, he⟩ := List.mem_map.1 (pending_mem hp)
          have hid : n + k = i := congrArg Write.id he
          omega
      rw [apply_rows_of_none hnone]
      exact h
    · subst hi hr
      have hmem : (⟨.posts, n + k, some p.row⟩ : Write Row) ∈ inserts n payloads :=
        List.mem_map.2 ⟨(p, k), List.mem_zipIdx_iff_getElem?.2 hk, rfl⟩
      have htouch : touches (inserts n payloads) .posts (n + k) := ⟨_, hmem, rfl, rfl⟩
      obtain ⟨v, hv⟩ := Option.isSome_iff_exists.1 (pending_isSome_of_touches htouch)
      obtain ⟨⟨q, j⟩, hj, he⟩ := List.mem_map.1 (pending_mem hv)
      have hjk : j = k := by
        have hid : n + j = n + k := congrArg Write.id he
        omega
      subst hjk
      rw [List.mem_zipIdx_iff_getElem?] at hj
      cases hj.symm.trans hk
      cases he
      exact apply_rows_of_pending hv

theorem rows_inserts_other {t : Table} (ht : t ≠ .posts) :
    (db.apply (inserts n payloads)).rows t = db.rows t := by
  funext i
  refine apply_rows_of_none ?_
  cases hp : pending (inserts n payloads) t i with
  | none => rfl
  | some v =>
    obtain ⟨⟨p, k⟩, _, he⟩ := List.mem_map.1 (pending_mem hp)
    exact absurd (congrArg Write.table he).symm ht

def placed (n : ℕ) (payloads : List PostCreate) : List (ℕ × Post) :=
  payloads.zipIdx.map fun x ↦ (n + x.2, x.1.row)

theorem placed_snd : (placed n payloads).map Prod.snd = payloads.map PostCreate.row := by
  have h : (placed n payloads).map Prod.snd = (payloads.zipIdx.map Prod.fst).map PostCreate.row := by
    rw [placed, List.map_map, List.map_map]
    rfl
  rw [h, List.zipIdx_map_fst]

theorem placed_nodup : (placed n payloads).Nodup := by
  have h : ((placed n payloads).map Prod.fst).Nodup := by
    have hmap : (placed n payloads).map Prod.fst = (payloads.zipIdx.map Prod.snd).map (n + ·) := by
      rw [placed, List.map_map, List.map_map]
      rfl
    rw [hmap, List.zipIdx_map_snd]
    exact List.Nodup.map (fun a b hab ↦ Nat.add_left_cancel hab) List.nodup_range'
  exact h.of_map _

theorem scan_perm (hempty : ∀ i, db.rows .posts i = none) :
    ((db.apply (inserts n payloads)).scan .posts).Perm (placed n payloads) := by
  refine (List.perm_ext_iff_of_nodup ((scan_keys_nodup _ _).of_map _) placed_nodup).2 fun x ↦ ?_
  obtain ⟨i, r⟩ := x
  rw [mem_scan, rows_inserts fun i _ ↦ hempty i, hempty, placed, List.mem_map]
  simp only [reduceCtorEq, false_or]
  constructor
  · intro ⟨k, p, hk, hi, hr⟩
    exact ⟨(p, k), List.mem_zipIdx_iff_getElem?.2 hk, by rw [hi, hr]⟩
  · intro ⟨⟨p, k⟩, hk, he⟩
    cases he
    exact ⟨k, p, List.mem_zipIdx_iff_getElem?.1 hk, rfl, rfl⟩

/-- By any order that the new rows are in already, and that has no ties, they are what was
imported. -/
theorem sort_inserts {e : SortExpr (ℕ × Post)} (hempty : ∀ i, db.rows .posts i = none)
    (he : ∀ a b, e.cmp a b = .eq → a.1 = b.1)
    (hsorted : ∀ i j p q, i ≤ j → payloads[i]? = some p → payloads[j]? = some q →
      (e.cmp (n + i, p.row) (n + j, q.row)).isLE = true) :
    (sort e ((db.apply (inserts n payloads)).scan .posts)).map Prod.snd = payloads.map PostCreate.row := by
  have hperm : ((db.apply (inserts n payloads)).scan .posts).Perm (placed n payloads) := scan_perm hempty
  have harr : Arranged e ((db.apply (inserts n payloads)).scan .posts) (placed n payloads) := by
    refine ⟨hperm.symm, List.pairwise_iff_getElem.2 fun i j hi hj hij ↦ ?_⟩
    have hget : ∀ k (hk : k < (placed n payloads).length), ∃ p, payloads[k]? = some p ∧
        (placed n payloads)[k] = (n + k, p.row) := by
      intro k hk
      have hk' : k < payloads.length := by simpa [placed] using hk
      exact ⟨payloads[k], List.getElem?_eq_getElem hk', by simp [placed]⟩
    obtain ⟨p, hp, hpi⟩ := hget i hi
    obtain ⟨q, hq, hqj⟩ := hget j hj
    rw [hpi, hqj]
    exact hsorted i j p q hij.le hp hq
  have hsep : Separates e ((db.apply (inserts n payloads)).scan .posts) := by
    intro a ha b hb hab
    exact List.inj_on_of_nodup_map (scan_keys_nodup _ _) ha hb (he a b hab)
  rw [(arranged_sort e _).unique hsep harr, placed_snd]

theorem duplicatesInFile_eq_nil {rows : List ParsedRow} {seen : List String} :
    duplicatesInFile rows seen = [] ↔
      (rows.map fun p ↦ p.data.code).Nodup ∧ ∀ p ∈ rows, p.data.code ∉ seen := by
  induction rows generalizing seen with
  | nil => simp [duplicatesInFile]
  | cons p rows ih =>
    by_cases hp : p.data.code ∈ seen
    · simp [duplicatesInFile, hp]
    · simp only [duplicatesInFile, hp, if_false, ih, List.map_cons, List.nodup_cons, List.mem_cons,
        not_or, List.mem_map, not_exists, not_and]
      constructor
      · intro ⟨hn, hrows⟩
        refine ⟨⟨fun q hq ↦ (hrows q hq).1, hn⟩, fun q hq ↦ ?_⟩
        rcases hq with rfl | hq
        · exact hp
        · exact (hrows q hq).2
      · intro ⟨⟨hne, hn⟩, hrows⟩
        exact ⟨hn, fun q hq ↦ ⟨hne q hq, hrows q (.inr hq)⟩⟩

def taken (db : Db) (code : String) : Bool := PostRepository.posts.codeTaken db none code

def importErrors (db : Db) (result : ImportResult) : List PostImportRowError :=
  result.errors ++ duplicatesInFile result.rows [] ++
    (result.rows.filter fun p ↦ taken db p.data.code).map dbDuplicate

def imported (result : ImportResult) : Call PostImportSummary := getSession (importPosts (some result))

variable {result : ImportResult} {code : String}

theorem taken_iff : taken db code = true ↔ ∃ i r, db.rows .posts i = some r ∧ Post.code r = code := by
  rw [taken, CodeTable.codeTaken, Bool.not_eq_true', ← Bool.not_eq_true, List.isEmpty_iff]
  constructor
  · intro h
    obtain ⟨x, hx⟩ := List.exists_mem_of_ne_nil _ h
    obtain ⟨hrow, hcode⟩ := mem_select.1 hx
    exact ⟨x.1, x.2, hrow, (of_decide_eq_true hcode).2⟩
  · intro ⟨i, r, hrow, hcode⟩
    refine List.ne_nil_of_mem (mem_select.2 ⟨hrow, decide_eq_true ⟨Option.some_ne_none i, hcode⟩⟩ : (i, r) ∈ _)

theorem importErrors_eq_nil : importErrors db result = [] ↔ result.errors = [] ∧
    (result.rows.map fun p ↦ p.data.code).Nodup ∧ ∀ p ∈ result.rows, taken db p.data.code = false := by
  rw [importErrors, List.append_eq_nil_iff, List.append_eq_nil_iff, List.map_eq_nil_iff, List.filter_eq_nil_iff,
    duplicatesInFile_eq_nil, and_assoc]
  refine and_congr_right fun _ ↦ and_congr (and_iff_left fun _ _ ↦ List.not_mem_nil) ?_
  simp only [Bool.not_eq_true]

theorem importErrors_empty (hempty : ∀ i, db.rows .posts i = none) :
    importErrors db result = result.errors ++ duplicatesInFile result.rows [] := by
  have hfree : ∀ p ∈ result.rows, ¬ taken db p.data.code = true := by
    intro p _ h
    obtain ⟨i, r, hr, _⟩ := taken_iff.1 h
    rw [hempty] at hr
    cases hr
  rw [importErrors, List.filter_eq_nil_iff.2 hfree, List.map_nil, List.append_nil]

theorem runs_existing (codes : List String) :
    (PostRepository.listExistingCodes codes).runs {} w = (.ok (codes.filter (taken w.db)), {}, w) := by
  refine (runs_read _ {} w).trans ?_
  have hview : (w.view ({} : Private)).db = w.db := Foundation.Sequential.apply_nil
  rw [hview]
  rfl

theorem runs_bulkCreate (hn : (payloads.map PostCreate.code).Nodup)
    (hfree : ∀ p ∈ payloads, taken w.db p.code = false) :
    (PostRepository.bulkCreate payloads).runs {} w =
      (.ok payloads.length, ({} : Private).run (bulkInsert w.next payloads) w.next,
        w.run (bulkInsert w.next payloads)) := by
  have hview : (w.view ({} : Private)).db = w.db := Foundation.Sequential.apply_nil
  have hany : ((payloads.map PostCreate.code).any fun c ↦
      PostRepository.posts.codeTaken (w.view ({} : Private)).db none c) = false := by
    rw [List.any_eq_false, hview]
    intro c hc
    obtain ⟨p, hp, rfl⟩ := List.mem_map.1 hc
    exact Bool.not_eq_true _ ▸ hfree p hp
  refine runs_query ?_
  dsimp only
  rw [hany, decide_eq_true hn]
  rfl

/-- The rows with a code that the database has are those that the query has found. -/
theorem filter_existing : (result.rows.filter fun p ↦
    decide (p.data.code ∈ (result.rows.map fun p ↦ p.data.code).filter (taken w.db))) =
      result.rows.filter fun p ↦ taken w.db p.data.code := by
  refine List.filter_congr fun p hp ↦ ?_
  rw [Bool.eq_iff_iff, decide_eq_true_eq, List.mem_filter]
  exact and_iff_right (List.mem_map.2 ⟨p, hp, rfl⟩)

theorem runs_importPosts : (importPosts (some result)).runs {} w =
    (if importErrors w.db result ≠ [] then pure ⟨0, importErrors w.db result⟩
      else do
        let imported ← PostRepository.bulkCreate (result.rows.map ParsedRow.data)
        pure { imported := imported } : Call PostImportSummary).runs {} w := by
  rw [importPosts, runs_bind (runs_existing _), filter_existing]
  rfl

theorem exec_imported_errors (h : importErrors w.db result ≠ []) :
    ((imported result).exec w).2 = .ok ⟨0, importErrors w.db result⟩ ∧ ((imported result).exec w).1.db = w.db := by
  have hrun : (importPosts (some result)).runs {} w = (.ok ⟨0, importErrors w.db result⟩, {}, w) := by
    rw [runs_importPosts, if_pos h]
    rfl
  rw [exec, imported, getSession, runs_bind hrun]
  exact ⟨rfl, Foundation.Sequential.apply_nil⟩

theorem exec_imported_ok (h : importErrors w.db result = []) :
    ((imported result).exec w).2 = .ok ⟨result.rows.length, []⟩ ∧
      ((imported result).exec w).1.db = w.db.apply (inserts w.next (result.rows.map ParsedRow.data)) := by
  obtain ⟨_, hn, hfree⟩ := importErrors_eq_nil.1 h
  have hcodes : (result.rows.map ParsedRow.data).map PostCreate.code = result.rows.map fun p ↦ p.data.code := by
    rw [List.map_map]
    rfl
  rw [← hcodes] at hn
  have hbulk := runs_bulkCreate (w := w) hn fun p hp ↦ by
    obtain ⟨q, hq, rfl⟩ := List.mem_map.1 hp
    exact hfree q hq
  rw [List.length_map] at hbulk
  have hrun : (importPosts (some result)).runs {} w = (.ok ⟨result.rows.length, []⟩,
      ({} : Private).run (bulkInsert w.next (result.rows.map ParsedRow.data)) w.next,
      w.run (bulkInsert w.next (result.rows.map ParsedRow.data))) := by
    rw [runs_importPosts, if_neg (not_not.2 h), runs_bind hbulk]
    rfl
  rw [exec, imported, getSession, runs_bind hrun]
  exact ⟨rfl, rfl⟩

end AdminPlatform.Post.ImportedRows
