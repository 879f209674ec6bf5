import AdminPlatform.Foundation.LikePatterns
import AdminPlatform.Foundation.Ordering
import AdminPlatform.Model.Service

namespace AdminPlatform.Core.Pagination

open Foundation.Query Foundation.Ordering Foundation.LikePatterns Model.Service Std

variable {α κ : Type}

inductive OrderValue
  | asc
  | desc
  deriving DecidableEq, Repr

structure SortColumn (α : Type) where
  name : String
  asc : SortExpr α
  desc : SortExpr α

def SortColumn.of [Ord κ] [TransOrd κ] (name : String) (column : α → κ) : SortColumn α where
  name := name
  asc := Foundation.Ordering.asc column
  desc := Foundation.Ordering.desc column

/-- The `repr` of a list of texts. -/
def reprList (repr : String → String) (xs : List String) : String :=
  "[" ++ ", ".intercalate (xs.map repr) ++ "]"

def sortFieldInvalid (repr : String → String) (orderBy : String) (allowed : List String) : AppError where
  code := "framework.SORT_FIELD_INVALID"
  title := "Invalid sort field"
  detail := some ("order_by=" ++ repr orderBy ++ " 不在允许的排序字段内: " ++
    reprList repr (allowed.mergeSort fun a b ↦ decide (a ≤ b)))
  statusCode := 422

def resolveSort (repr : String → String) (orderBy : Option String) (order : OrderValue)
    (allowed : List (String × SortColumn α)) (default : List (SortExpr α))
    (tieBreak : Option (SortColumn α)) : Except AppError (List (SortExpr α)) :=
  match orderBy with
  | none => .ok default
  | some field => match allowed.lookup field with
    | none => .error (sortFieldInvalid repr field (allowed.map Prod.fst))
    | some column =>
      let primary := match order with
        | .asc => column.asc
        | .desc => column.desc
      match tieBreak with
      | none => .ok [primary]
      | some tie => if tie.name = column.name then .ok [primary] else .ok [primary, tie.asc]

def direction (orderBy : Option String) (order : OrderValue) (allowed : List (String × SortColumn α)) :
    Option (SortExpr α) :=
  (orderBy.bind fun field ↦ allowed.lookup field).map fun column ↦ match order with
    | .asc => column.asc
    | .desc => column.desc

/-- `str.replace` of one character. -/
def replaceChar (c : Char) (by_ : List Char) (s : List Char) : List Char :=
  s.flatMap fun d ↦ if d = c then by_ else [d]

def likeContains (keyword : String) : String :=
  let escaped := replaceChar '_' ['\\', '_']
    (replaceChar '%' ['\\', '%'] (replaceChar '\\' ['\\', '\\'] keyword.toList))
  "%" ++ String.ofList escaped ++ "%"

def escaped (c : Char) : List Char := if c = '\\' ∨ c = '%' ∨ c = '_' then ['\\', c] else [c]

/-- No replacement meets a backslash that an earlier one has put in. -/
theorem replaceChar_eq_flatMap (s : List Char) :
    replaceChar '_' ['\\', '_'] (replaceChar '%' ['\\', '%'] (replaceChar '\\' ['\\', '\\'] s)) =
      s.flatMap escaped := by
  simp only [replaceChar, List.flatMap_assoc]
  refine List.flatMap_congr fun c _ ↦ ?_
  by_cases hb : c = '\\'
  · subst hb
    decide
  · by_cases hs : c = '%'
    · subst hs
      decide
    · by_cases ho : c = '_' <;> simp [escaped, hb, hs, ho]

theorem toList_likeContains (keyword : String) :
    (likeContains keyword).toList = '%' :: (keyword.toList.flatMap escaped ++ ['%']) := by
  simp only [likeContains, replaceChar_eq_flatMap, String.toList_append, String.toList_ofList]
  rfl

/-- An escaped keyword asks for its own characters, whatever they are. -/
theorem tokens_escaped_append (k p : List Char) :
    tokens '\\' (k.flatMap escaped ++ p) = (tokens '\\' p).map (k.map .char ++ ·) := by
  induction k with
  | nil => simp
  | cons c k ih =>
    have hc : tokens '\\' (escaped c ++ (k.flatMap escaped ++ p)) =
        (tokens '\\' (k.flatMap escaped ++ p)).map (.char c :: ·) := by
      by_cases h : c = '\\' ∨ c = '%' ∨ c = '_'
      · rw [escaped, if_pos h]
        exact tokens_escaped c _
      · rw [escaped, if_neg h]
        simp only [not_or] at h
        rw [← bare_of_ne h.2.1 h.2.2]
        exact tokens_bare h.1 _
    rw [List.flatMap_cons, List.append_assoc, hc, ih, Option.map_map]
    rfl

/-- A search finds the values in which its keyword stands as it was written. -/
theorem like_likeContains (keyword v : String) :
    like '\\' (likeContains keyword).toList v.toList ≠ none ∧
      (like '\\' (likeContains keyword).toList v.toList = some true ↔
        keyword.toList <:+: v.toList) := by
  have htokens : tokens '\\' (likeContains keyword).toList =
      some (.anyString :: (keyword.toList.map .char ++ [.anyString])) := by
    rw [toList_likeContains, tokens_bare (by decide), tokens_escaped_append]
    rfl
  rw [like, htokens]
  exact ⟨nofun, by rw [Option.map_some, Option.some.injEq, matches_contains]⟩

def computeTotalPages (total size : ℕ) : ℕ := if 0 < size then (total + size - 1) / size else 0

structure Page (α : Type) where
  items : List α
  page : ℕ
  size : ℕ
  total : ℕ
  totalPages : ℕ

/-- The two queries of a list: the rows and the order of the one, the answer of the other. -/
structure Listing (α : Type) where
  rows : List α
  order : List (SortExpr α)
  total : ℕ

/-- What may be answered to the request of a page. -/
structure Listing.Responds (l : Listing α) (n size : ℕ) (p : Page α) : Prop where
  items : Answers (lexicographic l.order) l.rows n size p.items
  totalPages : p.totalPages = computeTotalPages l.total size
  total : p.total = l.total
  page : p.page = n
  size : p.size = size

/-- Whatever is answered, the pages up to the last are the rows in their order, and no row comes
after them. -/
structure Listing.Partitions (l : Listing α) (size : ℕ) (sorted : List α) : Prop where
  arranged : Arranged (lexicographic l.order) l.rows sorted
  pages : ∀ p : ℕ → Page α, (∀ n, l.Responds n size (p n)) →
    ((List.range (computeTotalPages l.total size)).flatMap fun n ↦ (p (n + 1)).items) = sorted
  beyond : ∀ n p, l.Responds n size p → computeTotalPages l.total size < n → p.items = []
  total : l.total = l.rows.length
  fits : l.rows.length ≤ computeTotalPages l.total size * size
  least : ∀ k, l.rows.length ≤ k * size → computeTotalPages l.total size ≤ k

variable {l : Listing α} {total size n k : ℕ}

theorem le_computeTotalPages (hs : 0 < size) : total ≤ computeTotalPages total size * size := by
  rw [computeTotalPages, if_pos hs]
  have h := Nat.div_add_mod (total + size - 1) size
  have h' := Nat.mod_lt (total + size - 1) hs
  rw [Nat.mul_comm] at h
  omega

theorem computeTotalPages_le (hs : 0 < size) (h : total ≤ k * size) :
    computeTotalPages total size ≤ k := by
  rw [computeTotalPages, if_pos hs, ← Nat.lt_succ_iff, Nat.div_lt_iff_lt_mul hs, Nat.succ_mul]
  omega

/-- The pages of a list partition it when its order leaves no ties and the two queries agree. -/
theorem Listing.partitions (hs : 0 < size) (he : Separates (lexicographic l.order) l.rows)
    (ht : l.total = l.rows.length) :
    l.Partitions size (sort (lexicographic l.order) l.rows) := by
  have hlen : (sort (lexicographic l.order) l.rows).length = l.total := by
    rw [ht]
    exact (arranged_sort _ _).perm.length_eq
  have hfits : l.total ≤ computeTotalPages l.total size * size := le_computeTotalPages hs
  refine ⟨arranged_sort _ _, fun p hp ↦ ?_, fun n p hp hn ↦ ?_, ht, ht ▸ hfits, fun k hk ↦ ?_⟩
  · have hpage : ∀ n, (p n).items = page n size (sort (lexicographic l.order) l.rows) :=
      fun n ↦ (answers_iff he).1 (hp n).items
    simp only [hpage]
    exact flatMap_pages (hlen ▸ hfits)
  · rw [(answers_iff he).1 hp.items, page, List.drop_eq_nil_of_le, List.take_nil]
    have hle := Nat.mul_le_mul_right size (Nat.le_sub_one_of_lt hn)
    omega
  · exact computeTotalPages_le hs (ht ▸ hk)

variable {repr : String → String} {orderBy : Option String} {order : OrderValue}
  {allowed : List (String × SortColumn α)} {default es : List (SortExpr α)} {tie : SortColumn α}

/-- With a tie break, every order that is returned is the default or goes by the tie break. -/
theorem mem_of_resolveSort
    (hid : ∀ x ∈ allowed, x.2.name = tie.name → x.2 = tie)
    (h : resolveSort repr orderBy order allowed default (some tie) = .ok es) :
    es = default ∨ tie.asc ∈ es ∨ tie.desc ∈ es := by
  cases orderBy with
  | none =>
    cases h
    exact .inl rfl
  | some field =>
    refine .inr ?_
    simp only [resolveSort] at h
    split at h
    · cases h
    · rename_i column hc
      split at h
      · rename_i hname
        have hmem := List.lookup_eq_some_iff.1 hc
        obtain ⟨l₁, l₂, rfl, -⟩ := hmem
        have heq := hid (field, column) (by simp) hname.symm
        dsimp only at heq
        subst heq
        cases h
        cases order with
        | asc => exact .inl (by simp)
        | desc => exact .inr (by simp)
      · cases h
        exact .inl (by simp)

/-- The order goes by the column that was asked for, in the direction that was asked for. -/
theorem head_of_resolveSort {tie : Option (SortColumn α)} {e : SortExpr α}
    (h : resolveSort repr orderBy order allowed default tie = .ok es)
    (he : direction orderBy order allowed = some e) : ∃ es', es = e :: es' := by
  cases orderBy with
  | none => cases he
  | some field =>
    simp only [resolveSort] at h
    simp only [direction, Option.bind_some, Option.map_eq_some_iff] at he
    obtain ⟨column, hc, rfl⟩ := he
    rw [hc] at h
    dsimp only at h
    split at h
    · cases h
      exact ⟨[], rfl⟩
    · split at h
      · cases h
        exact ⟨[], rfl⟩
      · cases h
        exact ⟨_, rfl⟩

end AdminPlatform.Core.Pagination
