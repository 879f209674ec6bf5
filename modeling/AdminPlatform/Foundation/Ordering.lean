import AdminPlatform.Foundation.Query

namespace AdminPlatform.Foundation.Ordering

open Query Std

variable {α κ : Type}

/-- One expression of an `ORDER BY`. -/
structure SortExpr (α : Type) where
  cmp : α → α → Ordering
  trans : TransCmp cmp

def asc [Ord κ] [TransOrd κ] (column : α → κ) : SortExpr α := ⟨compareOn column, inferInstance⟩

def desc [Ord κ] [TransOrd κ] (column : α → κ) : SortExpr α where
  cmp a b := compareOn column b a
  trans := inferInstance

def lexicographic : List (SortExpr α) → SortExpr α
  | [] => ⟨fun _ _ ↦ .eq, { eq_swap := rfl, isLE_trans := fun _ _ ↦ rfl }⟩
  | e :: es =>
    have := e.trans
    have := (lexicographic es).trans
    ⟨compareLex e.cmp (lexicographic es).cmp, inferInstance⟩

/-- The rows in an order that the expression allows. -/
structure Arranged (e : SortExpr α) (rows ys : List α) : Prop where
  perm : ys.Perm rows
  sorted : ys.Pairwise fun a b ↦ (e.cmp a b).isLE = true

def Answers (e : SortExpr α) (rows : List α) (n size : ℕ) (ys : List α) : Prop :=
  ∃ zs, Arranged e rows zs ∧ ys = page n size zs

def sort (e : SortExpr α) (rows : List α) : List α := rows.mergeSort fun a b ↦ (e.cmp a b).isLE

def Separates (e : SortExpr α) (rows : List α) : Prop :=
  ∀ a ∈ rows, ∀ b ∈ rows, e.cmp a b = .eq → a = b

variable {e : SortExpr α} {es : List (SortExpr α)} {rows ys zs : List α} {a b : α} {column : α → κ}

theorem arranged_sort (e : SortExpr α) (rows : List α) : Arranged e rows (sort e rows) := by
  have := e.trans
  refine ⟨List.mergeSort_perm _ _, List.pairwise_mergeSort (fun a b c ↦ ?_) (fun a b ↦ ?_) _⟩
  · exact TransCmp.isLE_trans
  · have hswap : e.cmp b a = (e.cmp a b).swap := OrientedCmp.eq_swap
    rw [hswap]
    cases e.cmp a b <;> rfl

theorem sort_of_pairwise (h : rows.Pairwise fun a b ↦ (e.cmp a b).isLE = true) : sort e rows = rows :=
  List.mergeSort_of_pairwise h

theorem Arranged.mem_iff (h : Arranged e rows ys) : a ∈ ys ↔ a ∈ rows := h.perm.mem_iff

theorem Arranged.unique (he : Separates e rows) (h : Arranged e rows ys) (h' : Arranged e rows zs) :
    ys = zs := by
  have := e.trans
  refine (h.perm.trans h'.perm.symm).eq_of_pairwise (fun a b ha hb hab hba ↦ ?_) h.sorted h'.sorted
  refine he a (h.mem_iff.1 ha) b (h'.mem_iff.1 hb) ?_
  exact OrientedCmp.isLE_antisymm hab hba

theorem answers_iff {n size : ℕ} (he : Separates e rows) :
    Answers e rows n size ys ↔ ys = page n size (sort e rows) := by
  constructor
  · rintro ⟨zs, hz, rfl⟩
    rw [hz.unique he (arranged_sort e rows)]
  · intro h
    exact ⟨_, arranged_sort e rows, h⟩

theorem cmp_asc [Ord κ] [TransOrd κ] [LawfulEqOrd κ] :
    (asc column).cmp a b = .eq ↔ column a = column b := compare_eq_iff_eq

theorem cmp_desc [Ord κ] [TransOrd κ] [LawfulEqOrd κ] :
    (desc column).cmp a b = .eq ↔ column a = column b := compare_eq_iff_eq.trans eq_comm

theorem cmp_eq_of_mem (h : e ∈ es) (hab : (lexicographic es).cmp a b = .eq) : e.cmp a b = .eq := by
  induction es with
  | nil => cases h
  | cons d es ih =>
    obtain ⟨hd, hes⟩ := Ordering.then_eq_eq.1 hab
    rcases List.mem_cons.1 h with rfl | h
    · exact hd
    · exact ih h hes

theorem separates_of_mem (he : e ∈ es)
    (hcol : ∀ a ∈ rows, ∀ b ∈ rows, e.cmp a b = .eq → a = b) : Separates (lexicographic es) rows :=
  fun a ha b hb hab ↦ hcol a ha b hb (cmp_eq_of_mem he hab)

theorem isLE_lexicographic (h : ((lexicographic (e :: es)).cmp a b).isLE = true) :
    (e.cmp a b).isLE = true := (Ordering.isLE_then_iff_and.1 h).1

theorem Arranged.sorted_first (h : Arranged (lexicographic (e :: es)) rows ys) :
    ys.Pairwise fun a b ↦ (e.cmp a b).isLE = true :=
  h.sorted.imp isLE_lexicographic

section LE

variable [Ord κ] [TransOrd κ] [LE κ] [LawfulOrderOrd κ] {d : SortExpr α}

@[simp] theorem isLE_asc : ((asc column).cmp a b).isLE = true ↔ column a ≤ column b := isLE_compare

@[simp] theorem isLE_desc : ((desc column).cmp a b).isLE = true ↔ column b ≤ column a := isLE_compare

theorem isLE_pair : ((lexicographic [d, e]).cmp a b).isLE = true ↔
    (d.cmp a b).isLE = true ∧ (d.cmp a b = .lt ∨ (e.cmp a b).isLE = true) := by
  have h : (lexicographic [d, e]).cmp a b = (d.cmp a b).then ((e.cmp a b).then .eq) := rfl
  rw [h, Ordering.isLE_then_iff_and, Ordering.then_eq]

end LE

end AdminPlatform.Foundation.Ordering
