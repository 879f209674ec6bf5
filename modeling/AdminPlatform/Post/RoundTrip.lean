import AdminPlatform.Excel.RowPartition
import AdminPlatform.Post.ImportedRows
import AdminPlatform.Post.SheetRows

namespace AdminPlatform.Post.RoundTrip

open Model.Schema Model.Service Foundation.Relational Foundation.Transaction Foundation.Ordering
open Excel.Reader Excel.Writer Excel.RowPartition Post.Service Post.Excel SheetRows ImportedRows

variable {pydantic : Pydantic} {guard : Workbook → Bool} {db : Db} {w : Shared} {r : Post}

def exported (db : Db) : List Post := (listForExport db).map Prod.snd

def created (db : Db) : List Post := (sort (asc Prod.fst) (db.scan .posts)).map Prod.snd

def importRequest (pydantic : Pydantic) (guard : Workbook → Bool) (workbook : Workbook) :
    Call PostImportSummary := getSession (importWorkbook pydantic guard workbook)

/-- The file that `db` exports gives all of its posts when it is imported into `w`. -/
def RoundTrips (pydantic : Pydantic) (guard : Workbook → Bool) (db : Db) (w : Shared) : Prop :=
  ∃ workbook, exportPosts db = .ok workbook ∧
    ((importRequest pydantic guard workbook).exec w).2 = .ok ⟨(exported db).length, []⟩ ∧
    created ((importRequest pydantic guard workbook).exec w).1.db = exported db ∧
    exported ((importRequest pydantic guard workbook).exec w).1.db = exported db

def exportedFile (db : Db) : Workbook := .sheet (headerRow :: (exported db).map cells)

def readFile (pydantic : Pydantic) (db : Db) : Excel.Reader.ImportResult PostCreate :=
  (importer pydantic).parseRows (headerMap headerRow) 2 ((exported db).map cells)

theorem exportPosts_eq (hlen : (db.scan .posts).length ≤ _EXCEL_MAX_ROWS) :
    exportPosts db = .ok (exportedFile db) := by
  have hle : (listForExport db).length ≤ _EXCEL_MAX_ROWS := by
    rw [listForExport, (arranged_sort _ _).perm.length_eq]
    exact hlen
  have htake : (listForExport db).take (_EXCEL_MAX_ROWS + 1) = listForExport db :=
    List.take_of_length_le (Nat.le_succ_of_le hle)
  rw [exportPosts, htake, if_neg (Nat.not_lt.2 hle), write, exportedFile, exported, List.map_map, List.map_map]
  rfl

theorem parse_exportedFile : (importer pydantic).parse (exportedFile db) = readFile pydantic db := by
  have hmissing : (((importer pydantic).columns.map ExcelColumn.header).filter fun h ↦
      ((headerMap headerRow).lookup h).isNone) = [] := by
    have hcolumns : (importer pydantic).columns = POST_EXCEL_COLUMNS := rfl
    rw [hcolumns]
    decide
  rw [exportedFile, ExcelImporter.parse]
  simp only [hmissing, ne_eq, not_true_eq_false, if_false]
  rfl

theorem mem_exported : r ∈ exported db ↔ ∃ i, db.rows .posts i = some r := by
  rw [exported, List.mem_map]
  constructor
  · rintro ⟨⟨i, r⟩, hx, rfl⟩
    exact ⟨i, mem_scan.1 ((arranged_sort _ _).mem_iff.1 hx)⟩
  · intro ⟨i, hi⟩
    exact ⟨(i, r), (arranged_sort _ _).mem_iff.2 (mem_scan.2 hi), rfl⟩

theorem exported_sorted : (exported db).Pairwise fun a b ↦ a.sortOrder ≤ b.sortOrder := by
  rw [exported, List.pairwise_map]
  exact (arranged_sort (lexicographic exportOrder) _).sorted_first.imp isLE_asc.1

def readPost (r : Post) : PostCreate := ⟨readBack r.name, readBack r.code, r.sortOrder, r.status⟩

theorem importer_modelValidate : (importer pydantic).modelValidate = modelValidate pydantic := rfl

section

variable (hlen : (db.scan .posts).length ≤ _EXCEL_MAX_ROWS)
  (hall : ∀ r ∈ exported db, Admitted r)
include hlen hall

theorem readFile_iff (xs : List PostCreate) :
    ((readFile pydantic db).errors = [] ∧ (readFile pydantic db).rows.map Excel.Reader.ParsedRow.data = xs) ↔
      (exported db).map (fun r ↦ modelValidate pydantic (rowFields (readBack r.name) (readBack r.code) r)) =
        xs.map .ok := by
  have hlength : (exported db).length = (db.scan .posts).length := by
    rw [exported, List.length_map, listForExport, (arranged_sort _ _).perm.length_eq]
  have hmap : ((exported db).map cells).map (fun raw ↦
      (importer pydantic).modelValidate ((importer pydantic).rowData (headerMap headerRow) raw)) =
        (exported db).map fun r ↦ modelValidate pydantic (rowFields (readBack r.name) (readBack r.code) r) := by
    rw [List.map_map]
    refine List.map_congr_left fun r hr ↦ ?_
    rw [Function.comp_apply, rowData_cells (hall r hr).sortOrder.1, importer_modelValidate]
  have hfilter : ((exported db).map cells).filter (fun raw ↦ !isBlank raw) = (exported db).map cells := by
    refine List.filter_eq_self.2 fun raw hraw ↦ ?_
    obtain ⟨r, _, rfl⟩ := List.mem_map.1 hraw
    rfl
  have hle : 2 + ((exported db).map cells).length ≤ (importer pydantic).maxRows + 2 := by
    have hmax : (importer pydantic).maxRows = _EXCEL_MAX_ROWS := rfl
    rw [List.length_map, hlength]
    omega
  rw [← hmap]
  refine (parseRows_valid_iff modelValidate_ne (Nat.le_add_left 2 _) xs).trans ?_
  rw [hfilter, and_iff_right hle]

end

theorem importRequest_eq (hguard : guard (exportedFile db) = false) :
    importRequest pydantic guard (exportedFile db) = imported (importResult (readFile pydantic db)) := by
  rw [importRequest, importWorkbook, hguard, if_neg Bool.false_ne_true, parse_exportedFile]
  rfl

section

variable (hempty : ∀ i, w.db.rows .posts i = none)
include hempty

theorem created_inserts (payloads : List PostCreate) :
    created (w.db.apply (inserts w.next payloads)) = payloads.map PostCreate.row := by
  refine sort_inserts hempty (fun a b hab ↦ cmp_asc.1 hab) fun i j p q hij _ _ ↦ ?_
  rw [isLE_asc]
  exact Nat.add_le_add_left hij _

theorem exported_inserts {payloads : List PostCreate}
    (h : payloads.Pairwise fun p q ↦ p.sortOrder ≤ q.sortOrder) :
    exported (w.db.apply (inserts w.next payloads)) = payloads.map PostCreate.row := by
  refine sort_inserts hempty (fun a b hab ↦ ?_) fun i j p q hij hp hq ↦ ?_
  · have hid : asc Prod.fst ∈ exportOrder := List.mem_cons_of_mem _ List.mem_cons_self
    exact cmp_asc.1 (cmp_eq_of_mem hid hab)
  · have hle : p.sortOrder ≤ q.sortOrder := by
      rcases Nat.lt_or_eq_of_le hij with hlt | heq
      · obtain ⟨hi, rfl⟩ := List.getElem?_eq_some_iff.1 hp
        obtain ⟨hj, rfl⟩ := List.getElem?_eq_some_iff.1 hq
        exact List.pairwise_iff_getElem.1 h i j hi hj hlt
      · rw [heq] at hp
        cases hp.symm.trans hq
        exact le_rfl
    refine isLE_pair.2 ⟨isLE_asc.2 hle, .inr (isLE_asc.2 ?_)⟩
    exact Nat.add_le_add_left hij _

end

theorem readPost_row : (readPost r).row = r ↔ readBack r.name = r.name ∧ readBack r.code = r.code := by
  cases r with
  | mk name code sortOrder status => simp only [readPost, PostCreate.row, Post.mk.injEq, and_true]

theorem readBack_iff (h : Admitted r) :
    (readBack r.name = r.name ∧ readBack r.code = r.code) ↔ Plain r.name ∧ Plain r.code :=
  and_congr (strip_escape_iff h.name.1) (strip_escape_iff h.code.1)

theorem codes_nodup (hcodes : ∀ i j a b, db.rows .posts i = some a → db.rows .posts j = some b →
    a.code = b.code → i = j) : ((exported db).map Post.code).Nodup := by
  rw [exported, List.map_map]
  have hperm : (listForExport db).Perm (db.scan .posts) := (arranged_sort _ _).perm
  refine List.Nodup.map_on ?_ (hperm.nodup_iff.2 ((scan_keys_nodup _ _).of_map _))
  intro x hx y hy hxy
  have hx' := mem_scan.1 (hperm.mem_iff.1 hx)
  have hy' := mem_scan.1 (hperm.mem_iff.1 hy)
  have hid : x.1 = y.1 := hcodes _ _ _ _ hx' hy' hxy
  exact List.inj_on_of_nodup_map (scan_keys_nodup _ _) (hperm.mem_iff.1 hx) (hperm.mem_iff.1 hy) hid

section

variable (hint : ∀ n : ℤ, 0 ≤ n → n ≤ 999999 → pydantic.int (toString n) = some n)
  (hlen : (db.scan .posts).length ≤ _EXCEL_MAX_ROWS) (hall : ∀ r ∈ exported db, Admitted r)
include hint hlen hall

/-- When all texts are plain, every row is valid. -/
theorem readFile_plain (h : ∀ r ∈ exported db, Plain r.name ∧ Plain r.code) :
    (readFile pydantic db).errors = [] ∧
      (readFile pydantic db).rows.map Excel.Reader.ParsedRow.data = (exported db).map readPost := by
  refine (readFile_iff hlen hall _).2 ?_
  rw [List.map_map]
  refine List.map_congr_left fun r hr ↦ ?_
  obtain ⟨hname, hcode⟩ := (readBack_iff (hall r hr)).2 (h r hr)
  have hsort := (hall r hr).sortOrder
  rw [Function.comp_apply, readPost, hname, hcode]
  exact modelValidate_ok (hint _ hsort.1 hsort.2) (hall r hr)

/-- Valid rows are read as the exported posts with their texts as they come back. -/
theorem readFile_valid (h : (readFile pydantic db).errors = []) :
    (readFile pydantic db).rows.map Excel.Reader.ParsedRow.data = (exported db).map readPost := by
  have hmap := (readFile_iff hlen hall _).1 ⟨h, rfl⟩
  have hlength := congrArg List.length hmap
  rw [List.length_map, List.length_map] at hlength
  refine List.ext_getElem (by rw [← hlength, List.length_map]) fun k hk hk' ↦ ?_
  rw [List.length_map] at hk'
  have hr : (exported db)[k] ∈ exported db := List.getElem_mem hk'
  have hsort := (hall _ hr).sortOrder
  have hget := List.getElem_of_eq hmap (i := k) (by rwa [List.length_map])
  rw [List.getElem_map, List.getElem_map] at hget
  rw [List.getElem_map _ (l := exported db), modelValidate_eq (hint _ hsort.1 hsort.2) hsort hget]
  rfl

end

theorem importResult_data : (importResult (readFile pydantic db)).rows.map Post.Service.ParsedRow.data =
    (readFile pydantic db).rows.map Excel.Reader.ParsedRow.data := by
  rw [importResult, List.map_map]
  rfl

theorem importResult_errors : (importResult (readFile pydantic db)).errors = [] ↔
    (readFile pydantic db).errors = [] := List.map_eq_nil_iff

theorem importResult_codes
    (h : (readFile pydantic db).rows.map Excel.Reader.ParsedRow.data = (exported db).map readPost) :
    (importResult (readFile pydantic db)).rows.map (fun p ↦ p.data.code) =
      (exported db).map fun r ↦ readBack r.code := by
  have hmap := congrArg (List.map PostCreate.code) h
  rw [← importResult_data, List.map_map, List.map_map] at hmap
  exact hmap

theorem map_eq_self_iff {α : Type} {f : α → α} {xs : List α} : xs.map f = xs ↔ ∀ a ∈ xs, f a = a := by
  have h : xs.map f = xs ↔ xs.map f = xs.map id := by rw [List.map_id]
  rw [h, List.map_inj_left]
  rfl

section

variable (hint : ∀ n : ℤ, 0 ≤ n → n ≤ 999999 → pydantic.int (toString n) = some n)
  (hlen : (db.scan .posts).length ≤ _EXCEL_MAX_ROWS) (hall : ∀ r ∈ exported db, Admitted r)
  (hguard : guard (exportedFile db) = false) (hempty : ∀ i, w.db.rows .posts i = none)
include hint hlen hall hguard hempty

theorem plain_of_roundTrips (h : RoundTrips pydantic guard db w) :
    ∀ r ∈ exported db, Plain r.name ∧ Plain r.code := by
  obtain ⟨workbook, hw, hsummary, hcreated, _⟩ := h
  cases (exportPosts_eq hlen).symm.trans hw
  rw [importRequest_eq hguard] at hsummary hcreated
  by_cases herrors : importErrors w.db (importResult (readFile pydantic db)) = []
  · have herr := (importErrors_eq_nil.1 herrors).1
    have hdata := readFile_valid hint hlen hall (importResult_errors.1 herr)
    rw [(exec_imported_ok herrors).2, created_inserts hempty, importResult_data, hdata,
      List.map_map] at hcreated
    intro r hr
    have hback : (readPost r).row = r := map_eq_self_iff.1 hcreated r hr
    exact (readBack_iff (hall r hr)).1 (readPost_row.1 hback)
  · rw [(exec_imported_errors herrors).1] at hsummary
    exact absurd (congrArg PostImportSummary.errors (Except.ok.inj hsummary)) herrors

theorem roundTrips_of_plain (hcodes : ((exported db).map Post.code).Nodup)
    (hplain : ∀ r ∈ exported db, Plain r.name ∧ Plain r.code) : RoundTrips pydantic guard db w := by
  have hback : ∀ r ∈ exported db, readBack r.name = r.name ∧ readBack r.code = r.code :=
    fun r hr ↦ (readBack_iff (hall r hr)).2 (hplain r hr)
  obtain ⟨herr, hdata⟩ := readFile_plain hint hlen hall hplain
  have hnodup : ((importResult (readFile pydantic db)).rows.map fun p ↦ p.data.code).Nodup := by
    rw [importResult_codes hdata, List.map_congr_left fun r hr ↦ (hback r hr).2]
    exact hcodes
  have herrors : importErrors w.db (importResult (readFile pydantic db)) = [] := by
    rw [importErrors_empty hempty, importResult_errors.2 herr, List.nil_append]
    exact duplicatesInFile_eq_nil.2 ⟨hnodup, fun p _ ↦ List.not_mem_nil⟩
  obtain ⟨hresult, hdb⟩ := exec_imported_ok herrors
  rw [importResult_data, hdata] at hdb
  have hrows : ((exported db).map readPost).map PostCreate.row = exported db := by
    rw [List.map_map]
    exact map_eq_self_iff.2 fun r hr ↦ readPost_row.2 (hback r hr)
  have hlength : (importResult (readFile pydantic db)).rows.length = (exported db).length := by
    have hl := congrArg List.length (importResult_data.trans hdata)
    rwa [List.length_map, List.length_map] at hl
  refine ⟨_, exportPosts_eq hlen, ?_, ?_, ?_⟩
  · rw [importRequest_eq hguard, hresult, hlength]
  · rw [importRequest_eq hguard, hdb, created_inserts hempty, hrows]
  · rw [importRequest_eq hguard, hdb, exported_inserts hempty (List.pairwise_map.2 exported_sorted), hrows]

end

/-- Within the limits, exactly the posts whose texts are plain survive the round trip. -/
theorem roundTrips_iff (hint : ∀ n : ℤ, 0 ≤ n → n ≤ 999999 → pydantic.int (toString n) = some n)
    (hlen : (db.scan .posts).length ≤ _EXCEL_MAX_ROWS)
    (hall : ∀ i r, db.rows .posts i = some r → Admitted r)
    (hcodes : ∀ i j a b, db.rows .posts i = some a → db.rows .posts j = some b → a.code = b.code → i = j)
    (hguard : guard (exportedFile db) = false) (hempty : ∀ i, w.db.rows .posts i = none) :
    RoundTrips pydantic guard db w ↔ ∀ i r, db.rows .posts i = some r → Plain r.name ∧ Plain r.code := by
  have hadmitted : ∀ r ∈ exported db, Admitted r := by
    intro r hr
    obtain ⟨i, hi⟩ := mem_exported.1 hr
    exact hall i r hi
  constructor
  · intro h i r hi
    exact plain_of_roundTrips hint hlen hadmitted hguard hempty h r (mem_exported.2 ⟨i, hi⟩)
  · intro h
    refine roundTrips_of_plain hint hlen hadmitted hguard hempty (codes_nodup hcodes) fun r hr ↦ ?_
    obtain ⟨i, hi⟩ := mem_exported.1 hr
    exact h i r hi

/-- A reader of decimal digits. -/
def decimal : Pydantic where
  int s := if s.toList.all Char.isDigit then some (Nat.ofDigitChars 10 s.toList 0) else none
  missing := "Field required"
  tooShort := "String should have at least 1 character"
  tooLong := "String should have at most 64 characters"
  valueError msg := "Value error, " ++ msg
  intParsing := "Input should be a valid integer, unable to parse string as an integer"
  tooSmall := "Input should be greater than or equal to 0"
  tooLarge := "Input should be less than or equal to 999999"
  literal := "Input should be 'active' or 'disabled'"

theorem decimal_int (n : ℤ) (h : 0 ≤ n) : decimal.int (toString n) = some n := by
  have hdigits : (toString n).toList.all Char.isDigit = true := List.all_eq_true.2 (digits_of_nonneg h)
  dsimp only [decimal]
  rw [if_pos hdigits]
  obtain ⟨m, rfl⟩ := Int.eq_ofNat_of_zero_le h
  rw [toList_toString, Nat.ofDigitChars_ten_toDigits]

def noPosts : Shared where
  now := 0
  next := 1
  ext := ⟨[], []⟩
  db := Store.empty
  log := []

def twoPosts : Db := Store.empty.apply
  [⟨.posts, 1, some ⟨"cook", "c1", 2, .active⟩⟩, ⟨.posts, 2, some ⟨"head of it", "007", 1, .disabled⟩⟩]

theorem rows_twoPosts {i : ℕ} {r : Post} (h : twoPosts.rows .posts i = some r) :
    (i = 1 ∧ r = ⟨"cook", "c1", 2, .active⟩) ∨ (i = 2 ∧ r = ⟨"head of it", "007", 1, .disabled⟩) := by
  have hk : i ∈ [1, 2] := twoPosts.complete .posts i r h
  simp only [List.mem_cons, List.not_mem_nil, or_false] at hk
  rcases hk with rfl | rfl
  · exact .inl ⟨rfl, (Option.some.inj h).symm⟩
  · exact .inr ⟨rfl, (Option.some.inj h).symm⟩

theorem roundTrips_iff_twoPosts : RoundTrips decimal (fun _ ↦ false) twoPosts noPosts := by
  refine (roundTrips_iff (fun n h _ ↦ decimal_int n h) (by decide) ?_ ?_ rfl fun _ ↦ rfl).2 ?_
  · intro i r h
    rcases rows_twoPosts h with ⟨rfl, rfl⟩ | ⟨rfl, rfl⟩
    · exact ⟨⟨by simp [isIllegal], by decide⟩, ⟨by simp [isIllegal], by decide⟩, by decide⟩
    · exact ⟨⟨by simp [isIllegal], by decide⟩, ⟨by simp [isIllegal], by decide⟩, by decide⟩
  · intro i j a b ha hb hab
    rcases rows_twoPosts ha with ⟨rfl, rfl⟩ | ⟨rfl, rfl⟩ <;> rcases rows_twoPosts hb with ⟨rfl, rfl⟩ | ⟨rfl, rfl⟩
    · rfl
    · exact absurd hab (by decide)
    · exact absurd hab (by decide)
    · rfl
  · intro i r h
    rcases rows_twoPosts h with ⟨rfl, rfl⟩ | ⟨rfl, rfl⟩
    · exact ⟨⟨by decide, by simp [isFormulaTrigger]⟩, by decide, by simp [isFormulaTrigger]⟩
    · exact ⟨⟨by decide, by simp [isFormulaTrigger]⟩, by decide, by simp [isFormulaTrigger]⟩

def formulaPost : Db := Store.empty.apply [⟨.posts, 1, some ⟨"=x", "c1", 0, .active⟩⟩]

theorem rows_formulaPost {i : ℕ} {r : Post} (h : formulaPost.rows .posts i = some r) :
    r = ⟨"=x", "c1", 0, .active⟩ := by
  have hk : i ∈ [1] := formulaPost.complete .posts i r h
  cases List.mem_singleton.1 hk
  exact (Option.some.inj h).symm

/-- The name that comes back has the quotation mark. -/
theorem not_roundTrips_formulaPost : (∀ i r, formulaPost.rows .posts i = some r → Admitted r) ∧
    ¬ RoundTrips decimal (fun _ ↦ false) formulaPost noPosts := by
  have hall : ∀ i r, formulaPost.rows .posts i = some r → Admitted r := by
    intro i r h
    cases rows_formulaPost h
    exact ⟨⟨by simp [isIllegal], by decide⟩, ⟨by simp [isIllegal], by decide⟩, by decide⟩
  refine ⟨hall, fun h ↦ ?_⟩
  have hplain := plain_of_roundTrips (fun n hn _ ↦ decimal_int n hn) (by decide) (fun r hr ↦ ?_) rfl
    (fun _ ↦ rfl) h ⟨"=x", "c1", 0, .active⟩ (mem_exported.2 ⟨1, rfl⟩)
  · have htrigger := hplain.1.2 '=' rfl
    exact absurd htrigger (by decide)
  · obtain ⟨i, hi⟩ := mem_exported.1 hr
    exact hall i r hi

end AdminPlatform.Post.RoundTrip
