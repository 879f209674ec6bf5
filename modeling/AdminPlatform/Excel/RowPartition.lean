import AdminPlatform.Excel.Reader
import Mathlib.Data.List.Basic

namespace AdminPlatform.Excel.RowPartition

open Reader ExcelImporter

variable {α : Type} (importer : ExcelImporter α) (positions : List (String × ℕ))

def isBlank (raw : RawRow) : Bool := raw.all Option.isNone

def rowResult (rowIdx : ℕ) (raw : RawRow) : ImportResult α :=
  if isBlank raw then ⟨[], []⟩
  else match importer.modelValidate (importer.rowData positions raw) with
    | .error errors => ⟨[], importer.rowErrors rowIdx errors⟩
    | .ok data => ⟨[⟨rowIdx, data⟩], []⟩

/-- The rows from the second row of the sheet on are parsed or reported, each by itself and in order;
blank ones are neither. What lies beyond the limit gives one more error. -/
structure Partition (raws : List RawRow) (result : ImportResult α) : Prop where
  row : ∀ k raw, raws[k]? = some raw → k < importer.maxRows → isBlank raw = false →
    ((∃ data, (result.rows.filter fun p ↦ p.row = k + 2) = [⟨k + 2, data⟩]) ∧
        (result.errors.filter fun e ↦ e.row = k + 2) = []) ∨
      ((result.rows.filter fun p ↦ p.row = k + 2) = [] ∧ (result.errors.filter fun e ↦ e.row = k + 2) ≠ [])
  blank : ∀ k raw, raws[k]? = some raw → k < importer.maxRows → isBlank raw = true →
    (result.rows.filter fun p ↦ p.row = k + 2) = [] ∧ (result.errors.filter fun e ↦ e.row = k + 2) = []
  rows : ∀ p ∈ result.rows, ∃ k < importer.maxRows, p.row = k + 2 ∧ k < raws.length
  errors : ∀ e ∈ result.errors, (∃ k < importer.maxRows, e.row = k + 2 ∧ k < raws.length) ∨
    (e = importer.tooManyRows (importer.maxRows + 2) ∧ importer.maxRows < raws.length)
  rows_sorted : result.rows.Pairwise fun p q ↦ p.row < q.row
  errors_sorted : result.errors.Pairwise fun e e' ↦ e.row ≤ e'.row

variable {importer positions} {rowIdx k : ℕ} {raw : RawRow} {raws blanks : List RawRow}

theorem parseRows_cons (hle : rowIdx ≤ importer.maxRows + 1) :
    importer.parseRows positions rowIdx (raw :: raws) =
      ⟨(rowResult importer positions rowIdx raw).rows ++ (importer.parseRows positions (rowIdx + 1) raws).rows,
        (rowResult importer positions rowIdx raw).errors ++
          (importer.parseRows positions (rowIdx + 1) raws).errors⟩ := by
  have hnot : ¬ importer.maxRows < rowIdx - 1 := by omega
  rw [parseRows, if_neg hnot]
  unfold rowResult isBlank
  split
  · rfl
  · cases importer.modelValidate (importer.rowData positions raw) <;> rfl

theorem parseRows_beyond (hlt : importer.maxRows + 1 < rowIdx) :
    importer.parseRows positions rowIdx (raw :: raws) = ⟨[], [importer.tooManyRows rowIdx]⟩ := by
  rw [parseRows, if_pos (by omega)]

theorem row_of_rowResult {p : ParsedRow α} (h : p ∈ (rowResult importer positions rowIdx raw).rows) :
    p.row = rowIdx := by
  unfold rowResult at h
  split at h
  · cases h
  · split at h
    · cases h
    · rw [List.mem_singleton.1 h]

theorem row_of_rowErrors {e : RowError} {errors : List ValidationError}
    (h : e ∈ importer.rowErrors rowIdx errors) : e.row = rowIdx := by
  obtain ⟨_, _, rfl⟩ := List.mem_map.1 h
  rfl

theorem error_of_rowResult {e : RowError} (h : e ∈ (rowResult importer positions rowIdx raw).errors) :
    e.row = rowIdx := by
  unfold rowResult at h
  split at h
  · cases h
  · split at h
    · exact row_of_rowErrors h
    · cases h

theorem rows_parseRows (h : rowIdx ≤ importer.maxRows + 2) :
    ∀ p ∈ (importer.parseRows positions rowIdx raws).rows,
      ∃ k, rowIdx + k ≤ importer.maxRows + 1 ∧ p.row = rowIdx + k ∧ k < raws.length := by
  induction raws generalizing rowIdx with
  | nil => exact fun p hp ↦ absurd hp List.not_mem_nil
  | cons raw raws ih =>
    intro p hp
    by_cases hle : rowIdx ≤ importer.maxRows + 1
    · rw [parseRows_cons hle] at hp
      rcases List.mem_append.1 hp with hp | hp
      · exact ⟨0, hle, row_of_rowResult hp, Nat.succ_pos _⟩
      · obtain ⟨k, hk, hrow, hlen⟩ := ih (by omega) p hp
        exact ⟨k + 1, by omega, by omega, Nat.succ_lt_succ hlen⟩
    · rw [parseRows_beyond (by omega)] at hp
      exact absurd hp List.not_mem_nil

theorem errors_parseRows (h : rowIdx ≤ importer.maxRows + 2) :
    ∀ e ∈ (importer.parseRows positions rowIdx raws).errors,
      (∃ k, rowIdx + k ≤ importer.maxRows + 1 ∧ e.row = rowIdx + k ∧ k < raws.length) ∨
        (e = importer.tooManyRows (importer.maxRows + 2) ∧ importer.maxRows + 2 < rowIdx + raws.length) := by
  induction raws generalizing rowIdx with
  | nil => exact fun e he ↦ absurd he List.not_mem_nil
  | cons raw raws ih =>
    intro e he
    rw [List.length_cons]
    by_cases hle : rowIdx ≤ importer.maxRows + 1
    · rw [parseRows_cons hle] at he
      rcases List.mem_append.1 he with he | he
      · exact .inl ⟨0, hle, error_of_rowResult he, Nat.succ_pos _⟩
      · rcases ih (by omega) e he with ⟨k, hk, hrow, hlen⟩ | ⟨he, hlen⟩
        · exact .inl ⟨k + 1, by omega, by omega, Nat.succ_lt_succ hlen⟩
        · exact .inr ⟨he, by omega⟩
    · have hrow : rowIdx = importer.maxRows + 2 := by omega
      rw [parseRows_beyond (by omega)] at he
      rw [List.mem_singleton.1 he, hrow]
      exact .inr ⟨rfl, by omega⟩

theorem tooManyRows_row (n : ℕ) : (importer.tooManyRows n).row = n := rfl

/-- What a later row comes to has other numbers. -/
theorem later_ne (hle : rowIdx ≤ importer.maxRows + 1) :
    ((importer.parseRows positions (rowIdx + 1) raws).rows.filter fun p ↦ p.row = rowIdx) = [] ∧
      ((importer.parseRows positions (rowIdx + 1) raws).errors.filter fun e ↦ e.row = rowIdx) = [] := by
  refine ⟨List.filter_eq_nil_iff.2 fun p hp ↦ ?_, List.filter_eq_nil_iff.2 fun e he ↦ ?_⟩
  · obtain ⟨k, _, hrow, _⟩ := rows_parseRows (Nat.succ_le_succ hle) p hp
    rw [decide_eq_true_eq, hrow]
    omega
  · rcases errors_parseRows (Nat.succ_le_succ hle) e he with ⟨k, _, hrow, _⟩ | ⟨rfl, _⟩
    · rw [decide_eq_true_eq, hrow]
      omega
    · rw [decide_eq_true_eq, tooManyRows_row]
      omega

theorem rows_filter_self : ((rowResult importer positions rowIdx raw).rows.filter fun p ↦ p.row = rowIdx) =
    (rowResult importer positions rowIdx raw).rows :=
  List.filter_eq_self.2 fun _ hp ↦ decide_eq_true (row_of_rowResult hp)

theorem errors_filter_self : ((rowResult importer positions rowIdx raw).errors.filter fun e ↦ e.row = rowIdx) =
    (rowResult importer positions rowIdx raw).errors :=
  List.filter_eq_self.2 fun _ he ↦ decide_eq_true (error_of_rowResult he)

theorem rows_filter_ne {n : ℕ} (hn : rowIdx ≠ n) :
    ((rowResult importer positions rowIdx raw).rows.filter fun p ↦ p.row = n) = [] := by
  refine List.filter_eq_nil_iff.2 fun p hp ↦ ?_
  rw [decide_eq_true_eq, row_of_rowResult hp]
  exact hn

theorem errors_filter_ne {n : ℕ} (hn : rowIdx ≠ n) :
    ((rowResult importer positions rowIdx raw).errors.filter fun e ↦ e.row = n) = [] := by
  refine List.filter_eq_nil_iff.2 fun e he ↦ ?_
  rw [decide_eq_true_eq, error_of_rowResult he]
  exact hn

/-- Of what is parsed and reported, a row within the limit has its own part. -/
theorem filter_parseRows (hraw : raws[k]? = some raw) (hk : rowIdx + k ≤ importer.maxRows + 1) :
    ((importer.parseRows positions rowIdx raws).rows.filter fun p ↦ p.row = rowIdx + k) =
        (rowResult importer positions (rowIdx + k) raw).rows ∧
      ((importer.parseRows positions rowIdx raws).errors.filter fun e ↦ e.row = rowIdx + k) =
        (rowResult importer positions (rowIdx + k) raw).errors := by
  induction raws generalizing rowIdx k with
  | nil => simp at hraw
  | cons first raws ih =>
    have hle : rowIdx ≤ importer.maxRows + 1 := by omega
    rw [parseRows_cons hle, List.filter_append, List.filter_append]
    cases k with
    | zero =>
      obtain rfl : first = raw := by simpa using hraw
      rw [Nat.add_zero, (later_ne hle).1, (later_ne hle).2, rows_filter_self, errors_filter_self,
        List.append_nil, List.append_nil]
      exact ⟨rfl, rfl⟩
    | succ k =>
      have hnumber : rowIdx + (k + 1) = rowIdx + 1 + k := by omega
      have hne : rowIdx ≠ rowIdx + 1 + k := by omega
      rw [List.getElem?_cons_succ] at hraw
      rw [hnumber, rows_filter_ne hne, errors_filter_ne hne, List.nil_append, List.nil_append]
      exact ih hraw (by omega)

theorem rows_sorted (h : rowIdx ≤ importer.maxRows + 2) :
    (importer.parseRows positions rowIdx raws).rows.Pairwise fun p q ↦ p.row < q.row := by
  induction raws generalizing rowIdx with
  | nil => exact .nil
  | cons raw raws ih =>
    by_cases hle : rowIdx ≤ importer.maxRows + 1
    · rw [parseRows_cons hle]
      refine List.pairwise_append.2 ⟨?_, ih (by omega), fun p hp q hq ↦ ?_⟩
      · unfold rowResult
        split
        · exact .nil
        · split
          · exact .nil
          · exact List.pairwise_singleton _ _
      · obtain ⟨k, _, hrow, _⟩ := rows_parseRows (by omega) q hq
        rw [row_of_rowResult hp, hrow]
        omega
    · rw [parseRows_beyond (by omega)]
      exact .nil

theorem errors_sorted (h : rowIdx ≤ importer.maxRows + 2) :
    (importer.parseRows positions rowIdx raws).errors.Pairwise fun e e' ↦ e.row ≤ e'.row := by
  induction raws generalizing rowIdx with
  | nil => exact .nil
  | cons raw raws ih =>
    by_cases hle : rowIdx ≤ importer.maxRows + 1
    · rw [parseRows_cons hle]
      refine List.pairwise_append.2 ⟨?_, ih (by omega), fun e he e' he' ↦ ?_⟩
      · refine List.pairwise_of_forall_mem_list fun e he e' he' ↦ ?_
        exact Nat.le_of_eq ((error_of_rowResult he).trans (error_of_rowResult he').symm)
      · rw [error_of_rowResult he]
        rcases errors_parseRows (by omega) e' he' with ⟨k, _, hrow, _⟩ | ⟨rfl, _⟩
        · rw [hrow]
          omega
        · rw [tooManyRows_row]
          omega
    · rw [parseRows_beyond (by omega)]
      exact List.pairwise_singleton _ _

theorem rowResult_blank (hb : isBlank raw = true) : rowResult importer positions rowIdx raw = ⟨[], []⟩ := by
  rw [rowResult, if_pos hb]

theorem partition_parseRows (hne : ∀ data, importer.modelValidate data ≠ .error []) :
    Partition importer raws (importer.parseRows positions 2 raws) where
  row k raw hraw hk hb := by
    obtain ⟨hrows, herrors⟩ := @filter_parseRows _ importer positions 2 k raw raws hraw (by omega)
    rw [Nat.add_comm k 2, hrows, herrors]
    unfold rowResult
    rw [hb, if_neg Bool.false_ne_true]
    cases hv : importer.modelValidate (importer.rowData positions raw) with
    | error errors =>
      refine .inr ⟨rfl, fun h ↦ ?_⟩
      rw [List.map_eq_nil_iff.1 h] at hv
      exact hne _ hv
    | ok data => exact .inl ⟨⟨data, rfl⟩, rfl⟩
  blank k raw hraw hk hb := by
    obtain ⟨hrows, herrors⟩ := @filter_parseRows _ importer positions 2 k raw raws hraw (by omega)
    rw [Nat.add_comm k 2, hrows, herrors, rowResult_blank hb]
    exact ⟨rfl, rfl⟩
  rows p hp := by
    obtain ⟨k, hk, hrow, hlen⟩ := rows_parseRows (Nat.le_add_left 2 _) p hp
    exact ⟨k, by omega, by omega, hlen⟩
  errors e he := by
    rcases errors_parseRows (Nat.le_add_left 2 _) e he with ⟨k, hk, hrow, hlen⟩ | ⟨he, hlen⟩
    · exact .inl ⟨k, by omega, by omega, hlen⟩
    · exact .inr ⟨he, by omega⟩
  rows_sorted := rows_sorted (Nat.le_add_left 2 _)
  errors_sorted := errors_sorted (Nat.le_add_left 2 _)

/-- No error is reported just when the sheet stays within the limit and every row that is not blank
is valid. Then all of these are parsed. -/
theorem parseRows_valid_iff (hne : ∀ data, importer.modelValidate data ≠ .error [])
    (h : rowIdx ≤ importer.maxRows + 2) (xs : List α) :
    ((importer.parseRows positions rowIdx raws).errors = [] ∧
        (importer.parseRows positions rowIdx raws).rows.map ParsedRow.data = xs) ↔
      rowIdx + raws.length ≤ importer.maxRows + 2 ∧
        (raws.filter fun raw ↦ !isBlank raw).map (fun raw ↦
        importer.modelValidate (importer.rowData positions raw)) =
          xs.map .ok := by
  induction raws generalizing rowIdx xs with
  | nil => cases xs <;> simp [parseRows, h]
  | cons raw raws ih =>
    rw [List.length_cons]
    by_cases hle : rowIdx ≤ importer.maxRows + 1
    · have hlen : rowIdx + (raws.length + 1) = rowIdx + 1 + raws.length := by omega
      have hrest := @ih (rowIdx + 1) (by omega)
      rw [parseRows_cons hle, hlen]
      unfold rowResult
      cases hb : isBlank raw with
      | true =>
        rw [if_pos rfl, List.filter_cons_of_neg (by simp [hb])]
        exact hrest xs
      | false =>
        rw [if_neg Bool.false_ne_true, List.filter_cons_of_pos (by simp [hb]), List.map_cons]
        cases hv : importer.modelValidate (importer.rowData positions raw) with
        | error errors =>
          refine iff_of_false (fun h ↦ ?_) fun h ↦ ?_
          · have he := (List.append_eq_nil_iff.1 h.1).1
            rw [List.map_eq_nil_iff.1 he] at hv
            exact hne _ hv
          · cases xs with
            | nil => cases h.2
            | cons x xs => cases (List.cons.inj h.2).1
        | ok data =>
          cases xs with
          | nil => simp
          | cons x xs =>
            have hx := hrest xs
            rw [List.map_cons, List.cons.injEq, Except.ok.injEq]
            constructor
            · intro ⟨he, hd⟩
              obtain ⟨hd, hr⟩ := List.cons.inj hd
              obtain ⟨hl, hm⟩ := hx.1 ⟨he, hr⟩
              exact ⟨hl, hd, hm⟩
            · intro ⟨hl, hd, hm⟩
              obtain ⟨he, hr⟩ := hx.2 ⟨hl, hm⟩
              refine ⟨he, ?_⟩
              rw [← hd, ← hr]
              rfl
    · rw [parseRows_beyond (by omega)]
      refine iff_of_false (fun h ↦ by simp at h) fun h ↦ by omega

theorem parseRows_blank (hb : ∀ raw ∈ blanks, isBlank raw = true)
    (hlen : rowIdx + blanks.length ≤ importer.maxRows + 2) :
    importer.parseRows positions rowIdx blanks = ⟨[], []⟩ := by
  induction blanks generalizing rowIdx with
  | nil => rfl
  | cons raw blanks ih =>
    rw [List.forall_mem_cons] at hb
    rw [List.length_cons] at hlen
    rw [parseRows_cons (by omega), rowResult_blank hb.1, ih hb.2 (by omega)]
    rfl

/-- The first blank row beyond the limit is reported. -/
theorem parseRows_blank_beyond (hb : ∀ raw ∈ blanks, isBlank raw = true) (h : rowIdx ≤ importer.maxRows + 2)
    (hlen : importer.maxRows + 2 < rowIdx + blanks.length) :
    importer.parseRows positions rowIdx blanks = ⟨[], [importer.tooManyRows (importer.maxRows + 2)]⟩ := by
  induction blanks generalizing rowIdx with
  | nil => exact absurd hlen (Nat.not_lt.2 h)
  | cons raw blanks ih =>
    rw [List.forall_mem_cons] at hb
    rw [List.length_cons] at hlen
    by_cases hle : rowIdx ≤ importer.maxRows + 1
    · rw [parseRows_cons hle, rowResult_blank hb.1, ih hb.2 (by omega) (by omega)]
      rfl
    · have hrow : rowIdx = importer.maxRows + 2 := by omega
      rw [parseRows_beyond (by omega), hrow]

theorem parseRows_append {rest : List RawRow} (h : rowIdx + raws.length ≤ importer.maxRows + 2) :
    importer.parseRows positions rowIdx (raws ++ rest) =
      ⟨(importer.parseRows positions rowIdx raws).rows ++
          (importer.parseRows positions (rowIdx + raws.length) rest).rows,
        (importer.parseRows positions rowIdx raws).errors ++
          (importer.parseRows positions (rowIdx + raws.length) rest).errors⟩ := by
  induction raws generalizing rowIdx with
  | nil => rfl
  | cons raw raws ih =>
    rw [List.length_cons] at h
    have hnumber : rowIdx + (raws.length + 1) = rowIdx + 1 + raws.length := by omega
    rw [List.cons_append, parseRows_cons (by omega), parseRows_cons (by omega), ih (by omega), List.length_cons,
      hnumber, List.append_assoc, List.append_assoc]

theorem parseRows_append_beyond {rest : List RawRow} (h : rowIdx ≤ importer.maxRows + 2)
    (hlen : importer.maxRows + 2 < rowIdx + raws.length) :
    importer.parseRows positions rowIdx (raws ++ rest) = importer.parseRows positions rowIdx raws := by
  induction raws generalizing rowIdx with
  | nil => exact absurd hlen (Nat.not_lt.2 h)
  | cons raw raws ih =>
    rw [List.length_cons] at hlen
    by_cases hle : rowIdx ≤ importer.maxRows + 1
    · rw [List.cons_append, parseRows_cons hle, parseRows_cons hle, ih (by omega) (by omega)]
    · rw [List.cons_append, parseRows_beyond (by omega), parseRows_beyond (by omega)]

/-- Rows that all are blank change nothing, unless they are the first to pass the limit. -/
theorem parseRows_append_blank (hb : ∀ raw ∈ blanks, isBlank raw = true) :
    importer.parseRows positions 2 (raws ++ blanks) = importer.parseRows positions 2 raws ↔
      blanks = [] ∨ raws.length + blanks.length ≤ importer.maxRows ∨ importer.maxRows < raws.length := by
  rcases Nat.lt_or_ge importer.maxRows raws.length with hlt | hge
  · exact iff_of_true (parseRows_append_beyond (Nat.le_add_left 2 _) (by omega)) (.inr (.inr hlt))
  · rw [parseRows_append (by omega)]
    by_cases hlen : raws.length + blanks.length ≤ importer.maxRows
    · refine iff_of_true ?_ (.inr (.inl hlen))
      rw [parseRows_blank hb (by omega), List.append_nil, List.append_nil]
    · by_cases hnil : blanks = []
      · subst hnil
        simp [parseRows]
      · refine iff_of_false (fun h ↦ ?_) (by simp [hnil, hlen, hge])
        rw [parseRows_blank_beyond hb (by omega) (by omega)] at h
        have herrors := congrArg ImportResult.errors h
        simp at herrors

/-- The rows of a sheet are taken apart one by one. Blank rows at its end change nothing as long as
they do not pass the limit. -/
theorem parseRows_partition (hne : ∀ data, importer.modelValidate data ≠ .error []) (raws : List RawRow) :
    Partition importer raws (importer.parseRows positions 2 raws) ∧
      ∀ blanks, (∀ raw ∈ blanks, isBlank raw = true) →
        (importer.parseRows positions 2 (raws ++ blanks) = importer.parseRows positions 2 raws ↔
          blanks = [] ∨ raws.length + blanks.length ≤ importer.maxRows ∨ importer.maxRows < raws.length) :=
  ⟨partition_parseRows hne, fun _ hb ↦ parseRows_append_blank hb⟩

def names : ExcelImporter String where
  columns := [⟨"name", "Name", true⟩]
  maxRows := 3
  modelValidate data := match data.lookup "name" with
    | some name => if name.length < 2 then .error [⟨some "name", "too short"⟩] else .ok name
    | none => .error [⟨some "name", "missing"⟩]

def threeRows : List RawRow := [[some (.text "ann")], [none], [some (.text "b")]]

theorem parseRows_partition_threeRows :
    names.parseRows [("Name", 0)] 2 threeRows =
        ⟨[⟨2, "ann"⟩], names.rowErrors 4 [⟨some "name", "too short"⟩]⟩ ∧
      Partition names threeRows (names.parseRows [("Name", 0)] 2 threeRows) ∧
      names.parseRows [("Name", 0)] 2 (threeRows ++ [[none]]) ≠ names.parseRows [("Name", 0)] 2 threeRows := by
  have hne : ∀ data, names.modelValidate data ≠ .error [] := by
    intro data
    simp only [names]
    split
    · split <;> simp
    · simp
  obtain ⟨hpart, happend⟩ := @parseRows_partition _ names [("Name", 0)] hne threeRows
  refine ⟨by decide, hpart, fun h ↦ ?_⟩
  have hfits := (happend [[none]] (by decide)).1 h
  exact absurd hfits (by decide)

/-- A blank row beyond the limit is reported. -/
theorem blank_row_reported : ¬ ∀ (importer : ExcelImporter String) positions raws n,
    importer.parseRows positions 2 (raws ++ List.replicate n [none]) = importer.parseRows positions 2 raws := by
  intro h
  have hone := h names [("Name", 0)] [[some (.text "ann")]] 3
  exact absurd hone (by decide)

end AdminPlatform.Excel.RowPartition
