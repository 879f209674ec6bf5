import AdminPlatform.Excel.RowPartition
import AdminPlatform.Post.ImportedRows
import AdminPlatform.Post.RoundTrip

namespace AdminPlatform.Post.ImportExact

open Model.Schema Model.Service Foundation.Relational Foundation.Transaction
open Excel.Reader Excel.RowPartition Post.Service Post.Excel SheetRows ImportedRows RoundTrip

variable (pydantic : Pydantic) (header : RawRow) (raws : List RawRow) (db db' : Db)

def validate (raw : RawRow) : Except (List ValidationError) PostCreate :=
  modelValidate pydantic ((importer pydantic).rowData (headerMap header) raw)

def HasHeaders : Prop := ∀ col ∈ POST_EXCEL_COLUMNS, ((headerMap header).lookup col.header).isSome

instance : Decidable (HasHeaders header) := inferInstanceAs (Decidable (∀ col ∈ POST_EXCEL_COLUMNS, _))

def Distinct : Prop := ∀ i j (a b : Post), db.rows .posts i = some a → db.rows .posts j = some b →
    a.code = b.code → i = j

def Contents (payloads : List PostCreate) : Prop :=
  (raws.filter fun raw ↦ !isBlank raw).map (validate pydantic header) = payloads.map .ok

/-- The posts of `db'` are those of `db` and the payloads, in the order of their ids from `n` on. -/
structure Added (n : ℕ) (payloads : List PostCreate) : Prop where
  posts : ∀ i r, db'.rows .posts i = some r ↔
    db.rows .posts i = some r ∨ ∃ k p, payloads[k]? = some p ∧ i = n + k ∧ p.row = r
  other : ∀ t, t ≠ .posts → db'.rows t = db.rows t

/-- Row `k` is invalid, or has the code of a valid row above it or of a post. -/
inductive Faulty (k : ℕ) (raw : RawRow) : Prop
  | invalid (errors : List ValidationError) : validate pydantic header raw = .error errors → Faulty k raw
  | repeated (payload payload' : PostCreate) (j : ℕ) (raw' : RawRow) : validate pydantic header raw = .ok payload →
      j < k → raws[j]? = some raw' → isBlank raw' = false → validate pydantic header raw' = .ok payload' →
      payload'.code = payload.code → Faulty k raw
  | present (payload : PostCreate) : validate pydantic header raw = .ok payload → taken db payload.code = true →
      Faulty k raw

variable {pydantic header raws db db'} {guard : Workbook → Bool} {w : Shared} {k n : ℕ} {raw : RawRow}
  {payloads : List PostCreate} {p q : Post.Service.ParsedRow} {rows : List Post.Service.ParsedRow}
  {seen : List String}

theorem error_of_seen (hp : p ∈ rows) (hs : p.data.code ∈ seen) :
    ∃ e ∈ duplicatesInFile rows seen, e.row = p.row := by
  induction rows generalizing seen with
  | nil => cases hp
  | cons q rows ih =>
    rw [duplicatesInFile]
    rcases List.mem_cons.1 hp with rfl | hp
    · rw [if_pos hs]
      exact ⟨_, List.mem_cons_self, rfl⟩
    · split
      · obtain ⟨e, he, hrow⟩ := ih hp hs
        exact ⟨e, List.mem_cons_of_mem _ he, hrow⟩
      · exact ih hp (List.mem_cons_of_mem _ hs)

/-- A row with the code of an earlier one is reported. -/
theorem error_of_repeated (hsorted : rows.Pairwise fun p q ↦ p.row < q.row) (hp : p ∈ rows) (hq : q ∈ rows)
    (hlt : q.row < p.row) (hcode : q.data.code = p.data.code) :
    ∃ e ∈ duplicatesInFile rows seen, e.row = p.row := by
  induction rows generalizing seen with
  | nil => cases hp
  | cons first rows ih =>
    rw [List.pairwise_cons] at hsorted
    rw [duplicatesInFile]
    rcases List.mem_cons.1 hp with hfirst | hp'
    · rcases List.mem_cons.1 hq with hfirst' | hq'
      · rw [hfirst, hfirst'] at hlt
        exact absurd hlt (Nat.lt_irrefl _)
      · have hlater := hsorted.1 q hq'
        rw [hfirst] at hlt
        omega
    · rcases List.mem_cons.1 hq with hfirst' | hq'
      · rw [hfirst'] at hcode
        split
        · rename_i hs
          rw [hcode] at hs
          obtain ⟨e, he, hrow⟩ := error_of_seen hp' hs
          exact ⟨e, List.mem_cons_of_mem _ he, hrow⟩
        · exact error_of_seen hp' (by rw [hcode]; exact List.mem_cons_self)
      · split
        · obtain ⟨e, he, hrow⟩ := @ih seen hsorted.2 hp' hq'
          exact ⟨e, List.mem_cons_of_mem _ he, hrow⟩
        · exact ih hsorted.2 hp' hq'

theorem error_of_taken (hp : p ∈ rows) (ht : taken db p.data.code = true) :
    ∃ e ∈ (rows.filter fun p ↦ taken db p.data.code).map dbDuplicate, e.row = p.row :=
  ⟨dbDuplicate p, List.mem_map_of_mem (List.mem_filter.2 ⟨hp, ht⟩), rfl⟩

def parsed (pydantic : Pydantic) (header : RawRow) (raws : List RawRow) : Post.Service.ImportResult :=
  importResult ((importer pydantic).parseRows (headerMap header) 2 raws)

theorem parse_sheet (hh : HasHeaders header) :
    importResult ((importer pydantic).parse (.sheet (header :: raws))) = parsed pydantic header raws := by
  have hmissing : ((POST_EXCEL_COLUMNS.map ExcelColumn.header).filter fun h ↦
      ((headerMap header).lookup h).isNone) = [] := by
    refine List.filter_eq_nil_iff.2 fun h hmem ↦ ?_
    obtain ⟨col, hcol, rfl⟩ := List.mem_map.1 hmem
    intro hnone
    have hsome := hh col hcol
    rw [Option.isNone_iff_eq_none.1 hnone] at hsome
    cases hsome
  have hcolumns : (importer pydantic).columns = POST_EXCEL_COLUMNS := rfl
  rw [ExcelImporter.parse, hcolumns, hmissing]
  rfl

theorem importRequest_sheet (hguard : guard (.sheet (header :: raws)) = false) (hh : HasHeaders header) :
    importRequest pydantic guard (.sheet (header :: raws)) = imported (parsed pydantic header raws) := by
  rw [importRequest, importWorkbook, hguard, if_neg Bool.false_ne_true, parse_sheet hh]
  rfl

theorem parsed_valid_iff : ((parsed pydantic header raws).errors = [] ∧
    (parsed pydantic header raws).rows.map Post.Service.ParsedRow.data = payloads) ↔
      raws.length ≤ _EXCEL_MAX_ROWS ∧ Contents pydantic header raws payloads := by
  have h := @parseRows_valid_iff _ (importer pydantic) (headerMap header) 2 raws modelValidate_ne
    (Nat.le_add_left 2 _) payloads
  have hmax : (importer pydantic).maxRows = _EXCEL_MAX_ROWS := rfl
  rw [hmax, Nat.add_comm 2, Nat.add_le_add_iff_right] at h
  rw [parsed, importResult, List.map_eq_nil_iff, List.map_map]
  exact h

theorem parsed_sorted : (parsed pydantic header raws).rows.Pairwise fun p q ↦ p.row < q.row := by
  rw [parsed, importResult, List.pairwise_map]
  exact rows_sorted (Nat.le_add_left 2 _)

/-- A valid row is parsed with its number, and an invalid one is reported with it. -/
theorem rowResult_parsed (hraw : raws[k]? = some raw) (hk : k < _EXCEL_MAX_ROWS) :
    (∀ x ∈ (rowResult (importer pydantic) (headerMap header) (k + 2) raw).rows,
        ⟨x.row, x.data⟩ ∈ (parsed pydantic header raws).rows) ∧
      ∀ e ∈ (rowResult (importer pydantic) (headerMap header) (k + 2) raw).errors,
        importError e ∈ (parsed pydantic header raws).errors := by
  have hmax : (importer pydantic).maxRows = _EXCEL_MAX_ROWS := rfl
  obtain ⟨hrows, herrors⟩ := @filter_parseRows _ (importer pydantic)
    (headerMap header) 2 k raw raws hraw (by omega)
  rw [Nat.add_comm k 2, ← hrows, ← herrors]
  constructor
  · intro x hx
    exact List.mem_map.2 ⟨x, (List.mem_filter.1 hx).1, rfl⟩
  · intro e he
    exact List.mem_map.2 ⟨e, (List.mem_filter.1 he).1, rfl⟩

theorem parsed_row {payload : PostCreate} (hraw : raws[k]? = some raw) (hk : k < _EXCEL_MAX_ROWS)
    (hb : isBlank raw = false) (hv : validate pydantic header raw = .ok payload) :
    ⟨k + 2, payload⟩ ∈ (parsed pydantic header raws).rows := by
  have hresult : rowResult (importer pydantic) (headerMap header) (k + 2) raw = ⟨[⟨k + 2, payload⟩], []⟩ := by
    unfold validate at hv
    rw [rowResult, hb, if_neg Bool.false_ne_true, importer_modelValidate, hv]
  have hrows := (@rowResult_parsed pydantic header raws k raw hraw hk).1
  rw [hresult] at hrows
  exact hrows _ List.mem_cons_self

theorem parsed_error {errors : List ValidationError} (hraw : raws[k]? = some raw) (hk : k < _EXCEL_MAX_ROWS)
    (hb : isBlank raw = false) (hv : validate pydantic header raw = .error errors) :
    ∃ e ∈ (parsed pydantic header raws).errors, e.row = k + 2 := by
  have hresult : rowResult (importer pydantic) (headerMap header) (k + 2) raw =
      ⟨[], (importer pydantic).rowErrors (k + 2) errors⟩ := by
    unfold validate at hv
    rw [rowResult, hb, if_neg Bool.false_ne_true, importer_modelValidate, hv]
  have herrors := (@rowResult_parsed pydantic header raws k raw hraw hk).2
  rw [hresult] at herrors
  cases errors with
  | nil => exact absurd hv (modelValidate_ne _)
  | cons error errors => exact ⟨_, herrors _ List.mem_cons_self, rfl⟩

/-- Every faulty row within the limit has an error with its number. -/
theorem error_of_faulty (hraw : raws[k]? = some raw) (hk : k < _EXCEL_MAX_ROWS) (hb : isBlank raw = false)
    (hf : Faulty pydantic header raws db k raw) :
    ∃ e ∈ importErrors db (parsed pydantic header raws), e.row = k + 2 := by
  unfold importErrors
  cases hf with
  | invalid errors hv =>
    obtain ⟨e, he, hrow⟩ := parsed_error hraw hk hb hv
    exact ⟨e, List.mem_append_left _ (List.mem_append_left _ he), hrow⟩
  | repeated payload payload' j raw' hv hj hraw' hb' hv' hcode =>
    have hp := parsed_row hraw hk hb hv
    have hq := parsed_row hraw' (Nat.lt_trans hj hk) hb' hv'
    obtain ⟨e, he, hrow⟩ : ∃ e ∈ duplicatesInFile (parsed pydantic header raws).rows [], e.row = k + 2 :=
      error_of_repeated parsed_sorted hp hq (Nat.add_lt_add_right hj 2) hcode
    exact ⟨e, List.mem_append_left _ (List.mem_append_right _ he), hrow⟩
  | present payload hv ht =>
    obtain ⟨e, he, hrow⟩ := error_of_taken (parsed_row hraw hk hb hv) ht
    exact ⟨e, List.mem_append_right _ he, hrow⟩

theorem importErrors_iff : importErrors db (parsed pydantic header raws) = [] ↔ raws.length ≤ _EXCEL_MAX_ROWS ∧
    ∃ payloads, Contents pydantic header raws payloads ∧ (payloads.map PostCreate.code).Nodup ∧
      ∀ p ∈ payloads, taken db p.code = false := by
  have hcodes : ((parsed pydantic header raws).rows.map Post.Service.ParsedRow.data).map PostCreate.code =
      (parsed pydantic header raws).rows.map fun p ↦ p.data.code := by
    rw [List.map_map]
    rfl
  rw [importErrors_eq_nil, ← hcodes]
  constructor
  · intro ⟨herr, hn, hfree⟩
    obtain ⟨hlen, hcontents⟩ := parsed_valid_iff.1 ⟨herr, rfl⟩
    refine ⟨hlen, _, hcontents, hn, fun p hp ↦ ?_⟩
    obtain ⟨q, hq, rfl⟩ := List.mem_map.1 hp
    exact hfree q hq
  · intro ⟨hlen, payloads, hcontents, hn, hfree⟩
    obtain ⟨herr, hdata⟩ := parsed_valid_iff.2 ⟨hlen, hcontents⟩
    rw [hdata]
    refine ⟨herr, hn, fun p hp ↦ hfree p.data ?_⟩
    rw [← hdata]
    exact List.mem_map_of_mem hp

theorem distinct_added (hd : Distinct db) (ha : Added db db' n payloads)
    (hn : (payloads.map PostCreate.code).Nodup)
    (hfree : ∀ p ∈ payloads, taken db p.code = false) : Distinct db' := by
  have hold : ∀ (i : ℕ) (r : Post) (k : ℕ) (p : PostCreate), db.rows .posts i = some r → payloads[k]? = some p →
      r.code ≠ p.row.code := by
    intro i r k p hr hp hcode
    have htaken : taken db p.code = true := taken_iff.2 ⟨i, r, hr, hcode⟩
    rw [hfree p (List.mem_of_getElem? hp)] at htaken
    cases htaken
  intro i j a b hi hj hab
  rcases (ha.posts i a).1 hi with hi | ⟨k, p, hk, rfl, rfl⟩
  · rcases (ha.posts j b).1 hj with hj | ⟨l, q, hl, rfl, rfl⟩
    · exact hd i j a b hi hj hab
    · exact absurd hab (hold i a l q hi hl)
  · rcases (ha.posts j b).1 hj with hj | ⟨l, q, hl, rfl, rfl⟩
    · exact absurd hab.symm (hold j b k p hj hk)
    · have hkl : k = l := by
        have hlt : k < (payloads.map PostCreate.code).length := by
          rw [List.length_map]
          exact (List.getElem?_eq_some_iff.1 hk).1
        refine (List.getElem?_inj hlt hn).1 ?_
        rw [List.getElem?_map, List.getElem?_map, hk, hl]
        exact congrArg some hab
      rw [hkl]

/-- An import adds all rows of the file or reports what is wrong with them. -/
theorem import_exact (hguard : guard (.sheet (header :: raws)) = false) (hheaders : HasHeaders header)
    (hfresh : ∀ i, w.next ≤ i → w.db.rows .posts i = none) (hdistinct : Distinct w.db) :
    ∃ summary, ((importRequest pydantic guard (.sheet (header :: raws))).exec w).2 = .ok summary ∧
      (summary.errors ≠ [] → summary.imported = 0 ∧
        ((importRequest pydantic guard (.sheet (header :: raws))).exec w).1.db = w.db) ∧
      (summary.errors = [] → ∃ payloads, Contents pydantic header raws payloads ∧
        summary.imported = payloads.length ∧
        Added w.db ((importRequest pydantic guard (.sheet (header :: raws))).exec w).1.db w.next payloads ∧
        Distinct ((importRequest pydantic guard (.sheet (header :: raws))).exec w).1.db) ∧
      (summary.errors = [] ↔ raws.length ≤ _EXCEL_MAX_ROWS ∧ ∃ payloads, Contents pydantic header raws payloads ∧
        (payloads.map PostCreate.code).Nodup ∧ ∀ p ∈ payloads, taken w.db p.code = false) ∧
      ∀ k raw, raws[k]? = some raw → k < _EXCEL_MAX_ROWS → isBlank raw = false →
        Faulty pydantic header raws w.db k raw → ∃ e ∈ summary.errors, e.row = k + 2 := by
  rw [importRequest_sheet hguard hheaders]
  by_cases herrors : importErrors w.db (parsed pydantic header raws) = []
  · obtain ⟨hresult, hdb⟩ := exec_imported_ok herrors
    obtain ⟨hlen, payloads, hcontents, hn, hfree⟩ := importErrors_iff.1 herrors
    have hdata := (parsed_valid_iff.2 ⟨hlen, hcontents⟩).2
    have hlength := congrArg List.length hdata
    rw [List.length_map] at hlength
    rw [hdata] at hdb
    have hadded : Added w.db ((imported (parsed pydantic header raws)).exec w).1.db w.next payloads := by
      rw [hdb]
      exact ⟨fun i r ↦ rows_inserts hfresh, fun t ht ↦ rows_inserts_other ht⟩
    refine ⟨_, hresult, fun h ↦ absurd rfl h, fun _ ↦ ?_, ?_, fun k raw hraw hk hb hf ↦ ?_⟩
    · exact ⟨payloads, hcontents, hlength, hadded, distinct_added hdistinct hadded hn hfree⟩
    · exact iff_of_true rfl ⟨hlen, payloads, hcontents, hn, hfree⟩
    · obtain ⟨e, he, _⟩ := error_of_faulty hraw hk hb hf
      rw [herrors] at he
      cases he
  · obtain ⟨hresult, hdb⟩ := exec_imported_errors herrors
    refine ⟨_, hresult, fun _ ↦ ⟨rfl, hdb⟩, fun h ↦ absurd h herrors, ?_, fun k raw hraw hk hb hf ↦ ?_⟩
    · exact importErrors_iff
    · exact error_of_faulty hraw hk hb hf

def cookRow : RawRow := [some (.text "cook"), some (.text "c1"), none, none]

def twoCooks : List RawRow := [[none], cookRow, [none], cookRow]

theorem validate_cookRow : validate decimal headerRow cookRow = .ok ⟨"cook", "c1", 0, .active⟩ := rfl

/-- The code of the third row of the sheet comes again in the fifth. -/
theorem import_exact_twoCooks : ∃ summary,
    ((importRequest decimal (fun _ ↦ false) (.sheet (headerRow :: twoCooks))).exec noPosts).2 = .ok summary ∧
      ∃ e ∈ summary.errors, e.row = 5 := by
  have hheaders : HasHeaders headerRow := by decide
  have hdistinct : Distinct noPosts.db := fun i j a b h ↦ nomatch h
  obtain ⟨summary, hresult, _, _, _, hfaulty⟩ :=
    @import_exact decimal headerRow twoCooks (fun _ ↦ false) noPosts rfl hheaders (fun _ _ ↦ rfl) hdistinct
  refine ⟨summary, hresult, hfaulty 3 cookRow rfl (by decide) rfl ?_⟩
  exact .repeated _ _ 1 cookRow validate_cookRow (by decide) rfl rfl validate_cookRow rfl

end AdminPlatform.Post.ImportExact
