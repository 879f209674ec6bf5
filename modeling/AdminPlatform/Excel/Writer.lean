import AdminPlatform.Excel.Reader

namespace AdminPlatform.Excel.Writer

open Reader

/-- What `ILLEGAL_CHARACTERS_RE` matches, and the two non-characters. -/
def isIllegal (c : Char) : Bool :=
  c.toNat ≤ 0x08 || (0x0b ≤ c.toNat && c.toNat ≤ 0x0c) || (0x0e ≤ c.toNat && c.toNat ≤ 0x1f) ||
    c.toNat == 0xfffe || c.toNat == 0xffff

def isFormulaTrigger (c : Char) : Bool := ['=', '+', '-', '@', '\t', '\r', '\n'].contains c

def escape (text : List Char) : List Char :=
  match text with
  | c :: _ => if isFormulaTrigger c then '\'' :: text else text
  | [] => text

def canonical (value : Option Cell) : String :=
  match value with
  | none => ""
  | some cell => String.ofList (escape (cell.str.toList.filter fun c ↦ !isIllegal c))

def write (columns : List ExcelColumn) (rows : List (List (String × Cell))) : Workbook :=
  .sheet ((columns.map fun col ↦ some (.text col.header)) ::
    rows.map fun row ↦ columns.map fun col ↦ some (.text (canonical (row.lookup col.field))))

def Plain (s : String) : Prop :=
  stripChars s.toList = s.toList ∧ ∀ c, s.toList.head? = some c → isFormulaTrigger c = false

variable {s : String} {text : List Char} {c : Char}

theorem not_space_quote : isSpace '\'' = false := by decide

theorem stripChars_cons (h : isSpace c = false) (cs : List Char) :
    ∃ ds, stripChars (c :: cs) = c :: ds := by
  unfold stripChars
  rw [List.dropWhile_cons_of_neg (by simp [h]), List.reverse_cons]
  have hlast : ∀ xs : List Char, ∃ ds, ((xs ++ [c]).dropWhile isSpace).reverse = c :: ds := by
    intro xs
    induction xs with
    | nil => exact ⟨[], by simp [h]⟩
    | cons x xs ih =>
      cases hx : isSpace x with
      | true =>
        rw [List.cons_append, List.dropWhile_cons_of_pos hx]
        exact ih
      | false =>
        rw [List.cons_append, List.dropWhile_cons_of_neg (by simp [hx])]
        exact ⟨xs.reverse ++ [x], by simp⟩
  exact hlast cs.reverse

/-- What is written and read again is the text itself only if it is neither escaped nor stripped. -/
theorem strip_escape_iff (hs : ∀ c ∈ s.toList, isIllegal c = false) :
    Reader.canonical (some (.text (canonical (some (.text s))))) = s ↔ Plain s := by
  have hfilter : (s.toList.filter fun c ↦ !isIllegal c) = s.toList := by
    rw [List.filter_eq_self]
    intro c hc
    rw [hs c hc]
    rfl
  have hcanon : Reader.canonical (some (.text (canonical (some (.text s))))) =
      String.ofList (stripChars (escape s.toList)) := by
    simp only [Reader.canonical, canonical, Cell.str, hfilter, strip, String.toList_ofList]
  have hlist : String.ofList (stripChars (escape s.toList)) = s ↔ stripChars (escape s.toList) = s.toList := by
    rw [← String.ofList_inj, String.ofList_toList]
  rw [hcanon, hlist]
  cases ht : s.toList with
  | nil => simp [Plain, ht, escape]
  | cons c cs =>
    cases hc : isFormulaTrigger c with
    | true =>
      refine iff_of_false ?_ ?_
      · rw [escape, if_pos hc]
        obtain ⟨ds, hds⟩ := stripChars_cons not_space_quote (c :: cs)
        rw [hds]
        intro he
        cases he
        exact absurd hc (by decide)
      · intro hp
        have hf := hp.2 c (by rw [ht]; rfl)
        rw [hc] at hf
        cases hf
    | false =>
      rw [escape, if_neg (by simp [hc])]
      simp [Plain, ht, hc]

end AdminPlatform.Excel.Writer
