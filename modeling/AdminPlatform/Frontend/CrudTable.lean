import Mathlib.Data.List.Basic

namespace AdminPlatform.Frontend.CrudTable

structure ApiError where
  code : String
  status : ℕ
  message : String
  deriving DecidableEq, Repr

/-- What a rejected promise holds. -/
inductive Thrown
  | sessionExpired
  | abort
  | error (message : String)
  | api (e : ApiError)
  | other (text : String)
  deriving DecidableEq, Repr

def normalizeApiError : Thrown → Option ApiError
  | .sessionExpired => none
  | .abort => some ⟨"TIMEOUT", 0, "请求超时"⟩
  | .error message => some ⟨"NETWORK", 0, message⟩
  | .api e => some e
  | .other text => some ⟨"UNKNOWN", 0, text⟩

def toApiError (err : Thrown) : ApiError := (normalizeApiError err).getD ⟨"SESSION_EXPIRED", 401, "登录已失效"⟩

inductive Message
  | success (text : String)
  | error (text : String)
  deriving DecidableEq, Repr

/-- A value under a key of the object that `fetchPage` gets. -/
inductive Field (V : Type)
  | number (n : ℕ)
  | value (v : V)

abbrev Query (V : Type) := String → Option V

abbrev FetchPageParams (V : Type) := String → Option (Field V)

variable {V Row : Type}

def params (page size : ℕ) (query : Query V) : FetchPageParams V := fun key ↦
  match query key with
  | some v => some (.value v)
  | none => if key = "page" then some (.number page) else if key = "size" then some (.number size) else none

structure PageResult (Row : Type) where
  items : List Row
  total : ℕ
  deriving DecidableEq, Repr

structure Fetch (V : Type) where
  id : ℕ
  params : FetchPageParams V

/-- The refs of a table, the promises that it awaits, and what the settled fetches came to. -/
structure Table (V Row : Type) where
  rows : List Row
  loading : Bool
  total : ℕ
  page : ℕ
  size : ℕ
  query : Query V
  removable : Bool
  issued : ℕ
  pending : List (Fetch V)
  confirming : List ℕ
  removing : List ℕ
  messages : List Message
  settled : List (Fetch V × Except Thrown (PageResult Row))

def useCrudTable (removable : Bool) (defaultSize : Option ℕ) : Table V Row where
  rows := []
  loading := false
  total := 0
  page := 1
  size := defaultSize.getD 20
  query _ := none
  removable := removable
  issued := 0
  pending := []
  confirming := []
  removing := []
  messages := []
  settled := []

namespace Table

def asked (t : Table V Row) : FetchPageParams V := CrudTable.params t.page t.size t.query

/-- Up to the answer to `fetchPage`. -/
def refresh (t : Table V Row) : Table V Row :=
  { t with loading := true, issued := t.issued + 1, pending := t.pending ++ [⟨t.issued, t.asked⟩] }

def handlePageChange (t : Table V Row) (nextPage : ℕ) : Table V Row := { t with page := nextPage }.refresh

def search (t : Table V Row) : Table V Row := { t with page := 1 }.refresh

def reset (t : Table V Row) : Table V Row := { t with query := fun _ ↦ none, page := 1 }.refresh

def remove (t : Table V Row) (id : ℕ) : Table V Row :=
  if t.removable then { t with confirming := t.confirming ++ [id] } else t

def settle (t : Table V Row) (fetch : Fetch V) (result : Except Thrown (PageResult Row)) : Table V Row :=
  let t := { t with
    pending := t.pending.filter fun f ↦ f.id ≠ fetch.id
    settled := t.settled ++ [(fetch, result)] }
  match result with
  | .ok page => { t with rows := page.items, total := page.total, loading := false }
  | .error err => { t with messages := t.messages ++ [.error (toApiError err).message], loading := false }

def confirmed (t : Table V Row) (id : ℕ) : Table V Row :=
  { t with confirming := t.confirming.erase id, removing := t.removing ++ [id] }

def cancelled (t : Table V Row) (id : ℕ) : Table V Row := { t with confirming := t.confirming.erase id }

def removed (t : Table V Row) (id : ℕ) : Table V Row :=
  let t := { t with removing := t.removing.erase id, messages := t.messages ++ [Message.success "删除成功"] }
  t.refresh

def notRemoved (t : Table V Row) (id : ℕ) (err : Thrown) : Table V Row :=
  let apiError := toApiError err
  let message := if apiError.status = 409 then "存在关联，无法删除" else apiError.message
  { t with removing := t.removing.erase id, messages := t.messages ++ [.error message] }

end Table

inductive Call
  | refresh
  | handlePageChange (nextPage : ℕ)
  | search
  | reset
  deriving DecidableEq, Repr

/-- What the bound inputs hold when a page is asked for. -/
structure Inputs (V : Type) where
  page : ℕ
  size : ℕ
  query : Query V

inductive Event (V Row : Type)
  | call (inputs : Inputs V) (c : Call)
  | remove (id : ℕ)
  | confirm (id : ℕ)
  | cancel (id : ℕ)
  | removed (inputs : Inputs V) (id : ℕ)
  | notRemoved (id : ℕ) (err : Thrown)
  | respond (id : ℕ) (result : Except Thrown (PageResult Row))

namespace Table

def set (t : Table V Row) (inputs : Inputs V) : Table V Row :=
  { t with page := inputs.page, size := inputs.size, query := inputs.query }

def call (t : Table V Row) : Call → Table V Row
  | .refresh => t.refresh
  | .handlePageChange nextPage => t.handlePageChange nextPage
  | .search => t.search
  | .reset => t.reset

def next (t : Table V Row) : Event V Row → Option (Table V Row)
  | .call inputs c => some ((t.set inputs).call c)
  | .remove id => some (t.remove id)
  | .confirm id => if id ∈ t.confirming then some (t.confirmed id) else none
  | .cancel id => if id ∈ t.confirming then some (t.cancelled id) else none
  | .removed inputs id => if id ∈ t.removing then some ((t.set inputs).removed id) else none
  | .notRemoved id err => if id ∈ t.removing then some (t.notRemoved id err) else none
  | .respond id result => (t.pending.find? fun f ↦ decide (f.id = id)).map fun f ↦ t.settle f result

/-- The rows are those of a page that was fetched as it would be now, or the last fetch has failed. -/
def ShowsLast (t : Table V Row) : Prop :=
  (∃ f page, (f, .ok page) ∈ t.settled ∧ f.params = t.asked ∧ t.rows = page.items ∧ t.total = page.total) ∨
    ∃ f err, (f, .error err) ∈ t.settled ∧ f.id + 1 = t.issued

structure Right (t : Table V Row) : Prop where
  loading : t.loading = true ↔ t.pending ≠ []
  shows : t.pending = [] → 0 < t.issued → t.ShowsLast

def AlwaysRight (t : Table V Row) : List (Event V Row) → Prop
  | [] => t.Right
  | e :: es => t.Right ∧ ∀ t', t.next e = some t' → AlwaysRight t' es

def Alone (t : Table V Row) : Event V Row → Prop
  | .respond id _ => ∀ f ∈ t.pending, f.id = id
  | _ => True

def AlwaysAlone (t : Table V Row) : List (Event V Row) → Prop
  | [] => True
  | e :: es => ∀ t', t.next e = some t' → t.Alone e ∧ AlwaysAlone t' es

variable {t t' : Table V Row} {e : Event V Row} {es : List (Event V Row)} {f : Fetch V} {id : ℕ}
  {result : Except Thrown (PageResult Row)}

/-- While a fetch is pending, the one issued last asks for the page that the table stands on. -/
structure Inv (t : Table V Row) : Prop extends Right t where
  lt : ∀ f ∈ t.pending, f.id < t.issued
  last : t.pending ≠ [] → ∃ f ∈ t.pending, f.id + 1 = t.issued
  params : ∀ f ∈ t.pending, f.id + 1 = t.issued → f.params = t.asked

/-- A table on which nothing is being fetched or shown differently. -/
structure Same (t t' : Table V Row) : Prop where
  rows : t'.rows = t.rows
  total : t'.total = t.total
  loading : t'.loading = t.loading
  asked : t'.asked = t.asked
  issued : t'.issued = t.issued
  pending : t'.pending = t.pending
  settled : t'.settled = t.settled

theorem Inv.same (h : t.Inv) (hs : Same t t') : t'.Inv where
  loading := by
    rw [hs.loading, hs.pending]
    exact h.loading
  shows hp hi := by
    rw [hs.pending] at hp
    rw [hs.issued] at hi
    unfold ShowsLast
    rw [hs.settled, hs.asked, hs.rows, hs.total, hs.issued]
    exact h.shows hp hi
  lt := by
    rw [hs.pending, hs.issued]
    exact h.lt
  last := by
    rw [hs.pending, hs.issued]
    exact h.last
  params := by
    rw [hs.pending, hs.issued, hs.asked]
    exact h.params

theorem inv_refresh (h : ∀ f ∈ t.pending, f.id < t.issued) : t.refresh.Inv where
  loading := by simp [refresh]
  shows hp _ := by simp [refresh] at hp
  lt f hf := by
    rcases List.mem_append.1 hf with hf | hf
    · exact Nat.lt_succ_of_lt (h f hf)
    · rw [List.mem_singleton.1 hf]
      exact Nat.lt_succ_self _
  last _ := ⟨⟨t.issued, t.asked⟩, List.mem_append_right _ List.mem_cons_self, rfl⟩
  params f hf hid := by
    rcases List.mem_append.1 hf with hf | hf
    · exact absurd (h f hf) (by rw [Nat.succ.inj hid]; exact Nat.lt_irrefl _)
    · rw [List.mem_singleton.1 hf]
      rfl

theorem inv_useCrudTable (removable : Bool) (defaultSize : Option ℕ) :
    (useCrudTable removable defaultSize : Table V Row).Inv where
  loading := by simp [useCrudTable]
  shows _ hi := by simp [useCrudTable] at hi
  lt f hf := by simp [useCrudTable] at hf
  last hp := by simp [useCrudTable] at hp
  params f hf := by simp [useCrudTable] at hf

theorem settle_loading : (t.settle f result).loading = false := by
  cases result <;> rfl

theorem settle_pending : (t.settle f result).pending = t.pending.filter fun g ↦ g.id ≠ f.id := by
  cases result <;> rfl

theorem settle_settled : (t.settle f result).settled = t.settled ++ [(f, result)] := by
  cases result <;> rfl

/-- The answer to the only pending fetch. -/
theorem Inv.settle (h : t.Inv) (hf : f ∈ t.pending) (halone : ∀ g ∈ t.pending, g.id = f.id) :
    (t.settle f result).Inv := by
  have hpending : (t.settle f result).pending = [] := by
    rw [settle_pending, List.filter_eq_nil_iff]
    intro g hg
    simp [halone g hg]
  obtain ⟨g, hg, hlast⟩ := h.last (List.ne_nil_of_mem hf)
  rw [halone g hg] at hlast
  refine ⟨⟨?_, fun _ _ ↦ ?_⟩, ?_, ?_, ?_⟩
  · simp [settle_loading, hpending]
  · cases result with
    | ok page => exact .inl ⟨f, page, by simp [settle_settled], h.params f hf hlast, rfl, rfl⟩
    | error err => exact .inr ⟨f, err, by simp [settle_settled], hlast⟩
  · simp [hpending]
  · simp [hpending]
  · simp [hpending]

theorem of_respond (hn : t.next (.respond id result) = some t') :
    ∃ f ∈ t.pending, f.id = id ∧ t' = t.settle f result := by
  obtain ⟨f, hf, rfl⟩ := Option.map_eq_some_iff.1 hn
  exact ⟨f, List.mem_of_find?_eq_some hf, by simpa using List.find?_some hf, rfl⟩

theorem inv_call (h : t.Inv) (inputs : Inputs V) (c : Call) : ((t.set inputs).call c).Inv := by
  cases c with
  | refresh => exact inv_refresh h.lt
  | handlePageChange nextPage => exact inv_refresh (t := { t.set inputs with page := nextPage }) h.lt
  | search => exact inv_refresh (t := { t.set inputs with page := 1 }) h.lt
  | reset => exact inv_refresh (t := { t.set inputs with query := fun _ ↦ none, page := 1 }) h.lt

theorem inv_next (h : t.Inv) (hn : t.next e = some t') (halone : t.Alone e) : t'.Inv := by
  cases e with
  | call inputs c =>
    cases hn
    exact inv_call h inputs c
  | remove id =>
    cases hn
    unfold remove
    split
    · exact h.same ⟨rfl, rfl, rfl, rfl, rfl, rfl, rfl⟩
    · exact h
  | confirm id =>
    obtain ⟨_, ⟨⟩⟩ := Option.ite_none_right_eq_some.1 hn
    exact h.same ⟨rfl, rfl, rfl, rfl, rfl, rfl, rfl⟩
  | cancel id =>
    obtain ⟨_, ⟨⟩⟩ := Option.ite_none_right_eq_some.1 hn
    exact h.same ⟨rfl, rfl, rfl, rfl, rfl, rfl, rfl⟩
  | removed inputs id =>
    obtain ⟨_, ⟨⟩⟩ := Option.ite_none_right_eq_some.1 hn
    exact inv_refresh h.lt
  | notRemoved id err =>
    obtain ⟨_, ⟨⟩⟩ := Option.ite_none_right_eq_some.1 hn
    exact h.same ⟨rfl, rfl, rfl, rfl, rfl, rfl, rfl⟩
  | respond id result =>
    obtain ⟨f, hf, rfl, rfl⟩ := of_respond hn
    exact h.settle hf halone

/-- An answer that comes while another fetch is pending ends the loading. -/
theorem alone_of_right (hn : t.next e = some t') (hr : t'.Right) : t.Alone e := by
  cases e with
  | respond id result =>
    obtain ⟨f, _, rfl, rfl⟩ := of_respond hn
    intro g hg
    by_contra hne
    have hpending : (t.settle f result).pending ≠ [] := by
      rw [settle_pending]
      exact List.ne_nil_of_mem (List.mem_filter.2 ⟨hg, decide_eq_true hne⟩)
    have hloading := hr.loading.2 hpending
    rw [settle_loading] at hloading
    cases hloading
  | _ => trivial

theorem AlwaysRight.right (h : t.AlwaysRight es) : t.Right := by
  cases es with
  | nil => exact h
  | cons e es => exact h.1

theorem alwaysRight_iff (h : t.Inv) : t.AlwaysRight es ↔ t.AlwaysAlone es := by
  induction es generalizing t with
  | nil => exact iff_of_true h.toRight trivial
  | cons e es ih =>
    constructor
    · intro ⟨_, hr⟩ t' hn
      have halone := alone_of_right hn (AlwaysRight.right (hr t' hn))
      exact ⟨halone, (ih (inv_next h hn halone)).1 (hr t' hn)⟩
    · intro ha
      exact ⟨h.toRight, fun t' hn ↦ (ih (inv_next h hn (ha t' hn).1)).2 (ha t' hn).2⟩

end Table

/-- A table is right all the time in exactly the runs without an answer that comes while another
fetch is pending. -/
theorem useCrudTable_right_iff (removable : Bool) (defaultSize : Option ℕ) (es : List (Event V Row)) :
    (useCrudTable removable defaultSize : Table V Row).AlwaysRight es ↔
      (useCrudTable removable defaultSize : Table V Row).AlwaysAlone es :=
  Table.alwaysRight_iff (Table.inv_useCrudTable removable defaultSize)

/-- The second page is asked for before the first has come, and the answers come in the other order. -/
def overtaken : List (Event Unit ℕ) :=
  [.call ⟨1, 20, fun _ ↦ none⟩ .refresh, .call ⟨1, 20, fun _ ↦ none⟩ (.handlePageChange 2),
    .respond 1 (.ok ⟨[21], 40⟩), .respond 0 (.ok ⟨[1], 40⟩)]

theorem overtaken_not_right : ¬ ∀ es : List (Event Unit ℕ),
    (useCrudTable false none : Table Unit ℕ).AlwaysRight es := by
  intro h
  obtain ⟨_, h⟩ := h overtaken
  obtain ⟨_, h⟩ := h _ rfl
  obtain ⟨_, h⟩ := h _ rfl
  obtain ⟨h, _⟩ := h _ rfl
  have hloading := h.loading.2 (List.cons_ne_nil _ _)
  exact absurd hloading Bool.false_ne_true

end AdminPlatform.Frontend.CrudTable
