import AdminPlatform.Post.Excel

namespace AdminPlatform.Post.SheetRows

open Model.Schema Excel.Reader Excel.Writer Post.Service Post.Excel

/-- What `PostCreate` admits. -/
structure Admitted (r : Post) : Prop where
  name : (∀ c ∈ r.name.toList, isIllegal c = false) ∧ 1 ≤ r.name.toList.length ∧ r.name.toList.length ≤ 64
  code : (∀ c ∈ r.code.toList, isIllegal c = false) ∧ 1 ≤ r.code.toList.length ∧ r.code.toList.length ≤ 64
  sortOrder : 0 ≤ r.sortOrder ∧ r.sortOrder ≤ 999999

def readBack (s : String) : String :=
  Excel.Reader.canonical (some (.text (Excel.Writer.canonical (some (.text s)))))

theorem stripChars_of_forall {cs : List Char} (h : ∀ c ∈ cs, isSpace c = false) : stripChars cs = cs := by
  have hdrop : ∀ ds : List Char, (∀ c ∈ ds, isSpace c = false) → ds.dropWhile isSpace = ds := by
    intro ds hds
    cases ds with
    | nil => rfl
    | cons d ds => exact List.dropWhile_cons_of_neg (by simp [hds d List.mem_cons_self])
  unfold stripChars
  rw [hdrop cs h, hdrop cs.reverse (fun c hc ↦ h c (List.mem_reverse.1 hc)), List.reverse_reverse]

theorem isDigit_plain {c : Char} (h : c.isDigit = true) :
    isSpace c = false ∧ isFormulaTrigger c = false ∧ isIllegal c = false := by
  have hc : 48 ≤ c.toNat ∧ c.toNat ≤ 57 := by
    simp only [Char.isDigit, Bool.and_eq_true, decide_eq_true_eq, ge_iff_le, UInt32.le_iff_toNat_le] at h
    exact h
  have hof : c = Char.ofNat c.toNat := (Char.ofNat_toNat c).symm
  obtain ⟨hl, hu⟩ := hc
  generalize c.toNat = n at hl hu hof
  subst hof
  have hn : n = 48 ∨ n = 49 ∨ n = 50 ∨ n = 51 ∨ n = 52 ∨ n = 53 ∨ n = 54 ∨ n = 55 ∨ n = 56 ∨ n = 57 := by
    omega
  rcases hn with rfl | rfl | rfl | rfl | rfl | rfl | rfl | rfl | rfl | rfl <;> decide

theorem toList_toString (m : ℕ) : (toString (m : ℤ)).toList = Nat.toDigits 10 m := Nat.toList_repr

theorem digits_of_nonneg {n : ℤ} (h : 0 ≤ n) : ∀ c ∈ (toString n).toList, c.isDigit = true := by
  obtain ⟨m, rfl⟩ := Int.eq_ofNat_of_zero_le h
  intro c hc
  rw [toList_toString] at hc
  exact Nat.isDigit_of_mem_toDigits (by decide) (by decide) hc

theorem plain_of_digits {s : String} (h : ∀ c ∈ s.toList, c.isDigit = true) : Plain s := by
  refine ⟨stripChars_of_forall fun c hc ↦ (isDigit_plain (h c hc)).1, fun c hc ↦ ?_⟩
  exact (isDigit_plain (h c (List.mem_of_mem_head? hc))).2.1

theorem readBack_sortOrder {n : ℤ} (h : 0 ≤ n) : readBack (toString n) = toString n :=
  (strip_escape_iff fun c hc ↦ (isDigit_plain (digits_of_nonneg h c hc)).2.2).2
    (plain_of_digits (digits_of_nonneg h))

theorem readBack_status (s : Status) : readBack (statusText s) = statusText s := by
  refine (strip_escape_iff ?_).2 ⟨?_, ?_⟩
  · cases s <;> simp [statusText, isIllegal]
  · cases s <;> decide
  · cases s <;> simp [statusText, isFormulaTrigger]

variable {pydantic : Pydantic} {r : Post}

def headerRow : RawRow := POST_EXCEL_COLUMNS.map fun col ↦ some (.text col.header)

def cells (r : Post) : RawRow :=
  POST_EXCEL_COLUMNS.map fun col ↦ some (.text (Excel.Writer.canonical ((exportRow r).lookup col.field)))

theorem positions_headerRow : headerMap headerRow = [("状态", 3), ("显示顺序", 2), ("岗位编码", 1), ("岗位名称", 0)] := by
  decide

def found (r : Post) (col : ExcelColumn) : String :=
  Excel.Reader.canonical (((headerMap headerRow).lookup col.header).bind fun i ↦ ((cells r)[i]?).join)

theorem found_eq (r : Post) :
    found r ⟨"name", "岗位名称", true⟩ = readBack r.name ∧ found r ⟨"code", "岗位编码", true⟩ = readBack r.code ∧
      found r ⟨"sort_order", "显示顺序", false⟩ = readBack (toString r.sortOrder) ∧
      found r ⟨"status", "状态", false⟩ = readBack (statusText r.status) := by
  unfold found
  rw [positions_headerRow]
  exact ⟨rfl, rfl, rfl, rfl⟩

def rowFields (name code : String) (r : Post) : List (String × String) :=
  [("name", name), ("code", code), ("sort_order", toString r.sortOrder), ("status", statusText r.status)]

theorem rowData_cells (h : 0 ≤ r.sortOrder) : (importer pydantic).rowData (headerMap headerRow) (cells r) =
    rowFields (readBack r.name) (readBack r.code) r := by
  obtain ⟨hname, hcode, hsort, hstatus⟩ := found_eq r
  rw [readBack_sortOrder h] at hsort
  rw [readBack_status] at hstatus
  have hne : toString r.sortOrder ≠ "" := by
    obtain ⟨m, hm⟩ := Int.eq_ofNat_of_zero_le h
    rw [hm]
    exact Nat.repr_ne_empty
  have hne' : statusText r.status ≠ "" := by cases r.status <;> decide
  have hdata : (importer pydantic).rowData (headerMap headerRow) (cells r) =
      POST_EXCEL_COLUMNS.filterMap fun col ↦
        if found r col = "" ∧ col.required = false then none else some (col.field, found r col) := rfl
  rw [hdata, POST_EXCEL_COLUMNS]
  simp only [List.filterMap_cons, List.filterMap_nil, hname, hcode, hsort, hstatus, hne, hne', false_and,
    if_false, Bool.true_eq_false, and_false, rowFields]

theorem modelValidate_ne (data : List (String × String)) : modelValidate pydantic data ≠ .error [] := by
  unfold modelValidate
  split
  · exact fun h ↦ nomatch h
  · rename_i hno
    intro h
    have h' := Except.error.inj h
    simp only [List.append_eq_nil_iff] at h'
    obtain ⟨⟨⟨hname, hcode⟩, hsort⟩, hstatus⟩ := h'
    have hok : ∀ {α : Type} (x : Except ValidationError α), errorOf x = [] → ∃ a, x = .ok a := by
      intro α x hx
      cases x with
      | error e => cases hx
      | ok a => exact ⟨a, rfl⟩
    obtain ⟨a, ha⟩ := hok _ hname
    obtain ⟨b, hb⟩ := hok _ hcode
    obtain ⟨c, hc⟩ := hok _ hsort
    obtain ⟨d, hd⟩ := hok _ hstatus
    exact hno a b c d ha hb hc hd

section Fields

variable {data : List (String × String)} {field x y : String} {n : ℤ} {s : Status}

theorem validateText_eq (hx : data.lookup field = some x) (hy : validateText pydantic data field = .ok y) :
    y = x := by
  rw [validateText, hx] at hy
  dsimp only at hy
  split at hy
  · cases hy
  · split at hy
    · cases hy
    · split at hy
      · cases hy
      · cases hy
        rfl

theorem validateText_ok (hx : data.lookup field = some x)
    (h : (∀ c ∈ x.toList, isIllegal c = false) ∧ 1 ≤ x.toList.length ∧ x.toList.length ≤ 64) :
    validateText pydantic data field = .ok x := by
  obtain ⟨hill, hlo, hhi⟩ := h
  have hany : _rejectControlChars x = false := by
    rw [_rejectControlChars, List.any_eq_false]
    intro c hc
    rw [hill c hc]
    exact Bool.false_ne_true
  rw [validateText, hx]
  dsimp only
  rw [hany, if_neg Bool.false_ne_true, if_neg (by omega), if_neg (by omega)]

theorem validateSortOrder_ok (hx : data.lookup "sort_order" = some (toString n))
    (hint : pydantic.int (toString n) = some n) (h : 0 ≤ n ∧ n ≤ 999999) :
    validateSortOrder pydantic data = .ok n := by
  rw [validateSortOrder, hx]
  dsimp only
  rw [hint]
  dsimp only
  rw [if_neg (by omega), if_neg (by omega)]

theorem validateStatus_ok (hx : data.lookup "status" = some (statusText s)) :
    validateStatus pydantic data = .ok s := by
  rw [validateStatus, hx]
  cases s with
  | active => rfl
  | disabled =>
    dsimp only
    rw [if_neg (by decide), if_pos rfl]

end Fields

theorem modelValidate_eq (hint : pydantic.int (toString r.sortOrder) = some r.sortOrder)
    (hs : 0 ≤ r.sortOrder ∧ r.sortOrder ≤ 999999) {name code : String} {payload : PostCreate}
    (h : modelValidate pydantic (rowFields name code r) = .ok payload) :
    payload = ⟨name, code, r.sortOrder, r.status⟩ := by
  have hsort : validateSortOrder pydantic (rowFields name code r) = .ok r.sortOrder :=
    validateSortOrder_ok rfl hint hs
  have hstatus : validateStatus pydantic (rowFields name code r) = .ok r.status := validateStatus_ok rfl
  rw [modelValidate, hsort, hstatus] at h
  split at h
  · rename_i ha hb hc hd
    cases h
    cases hc
    cases hd
    rw [validateText_eq rfl ha, validateText_eq rfl hb]
  · cases h

theorem modelValidate_ok (hint : pydantic.int (toString r.sortOrder) = some r.sortOrder)
    (h : Admitted r) : modelValidate pydantic (rowFields r.name r.code r) =
      .ok ⟨r.name, r.code, r.sortOrder, r.status⟩ := by
  have hname : validateText pydantic (rowFields r.name r.code r) "name" = .ok r.name :=
    validateText_ok rfl h.name
  have hcode : validateText pydantic (rowFields r.name r.code r) "code" = .ok r.code :=
    validateText_ok rfl h.code
  have hsort : validateSortOrder pydantic (rowFields r.name r.code r) = .ok r.sortOrder :=
    validateSortOrder_ok rfl hint h.sortOrder
  have hstatus : validateStatus pydantic (rowFields r.name r.code r) = .ok r.status := validateStatus_ok rfl
  rw [modelValidate, hname, hcode, hsort, hstatus]

end AdminPlatform.Post.SheetRows
