import Mathlib.Data.List.Infix
import Mathlib.Data.Nat.Notation

namespace AdminPlatform.Audit.Metadata

/-- A metadata value. A dict holds each of its keys once, in the order of insertion. -/
inductive Value (σ : Type)
  | scalar (s : σ)
  | dict (entries : List (String × Value σ))
  | list (items : List (Value σ))

abbrev Dict (σ : Type) := List (String × Value σ)

def _DENY_KEYS : List String :=
  ["authorization", "password", "passwd", "token", "cookie", "secret", "api_key", "apikey", "credential"]

variable {σ : Type}

section

variable (other : Char → List Char)

/-- `str.lower`, given what it does to the characters outside ASCII. -/
def lower (s : List Char) : List Char := s.flatMap fun c ↦ if c.toNat < 128 then [c.toLower] else other c

def isDenied (key : String) : Bool := _DENY_KEYS.any fun bad ↦ decide (bad.toList <:+: lower other key.toList)

mutual

def _redactValue : Value σ → Value σ × Bool
  | .scalar s => (.scalar s, false)
  | .dict data => (.dict (_redactDict data).1, (_redactDict data).2)
  | .list items => (.list (_redactList items).1, (_redactList items).2)

def _redactDict : List (String × Value σ) → List (String × Value σ) × Bool
  | [] => ([], false)
  | (key, value) :: data =>
    if isDenied other key then ((_redactDict data).1, true)
    else ((key, (_redactValue value).1) :: (_redactDict data).1, (_redactValue value).2 || (_redactDict data).2)

def _redactList : List (Value σ) → List (Value σ) × Bool
  | [] => ([], false)
  | item :: items => ((_redactValue item).1 :: (_redactList items).1,
    (_redactValue item).2 || (_redactList items).2)

end

def redactMetadata : Option (Dict σ) → Dict σ × Bool
  | none => ([], false)
  | some [] => ([], false)
  | some raw => _redactDict other raw

end

inductive Step
  | key (k : String)
  | index (i : ℕ)
  deriving DecidableEq, Repr

/-- What a position holds, without what hangs below it. -/
inductive Node (σ : Type)
  | scalar (s : σ)
  | dict (keys : List String)
  | list (length : ℕ)
  deriving DecidableEq, Repr

namespace Value

def child : Value σ → Step → Option (Value σ)
  | .dict entries, .key k => entries.lookup k
  | .list items, .index i => items[i]?
  | _, _ => none

def reach (v : Value σ) : List Step → Option (Value σ)
  | [] => some v
  | s :: path => (v.child s).bind fun w ↦ w.reach path

def node : Value σ → Node σ
  | .scalar s => .scalar s
  | .dict entries => .dict (entries.map Prod.fst)
  | .list items => .list items.length

/-- What holds of a value when it holds of its members holds of every value. -/
@[induction_eliminator]
theorem induct {P : Value σ → Prop} (scalar : ∀ s, P (.scalar s))
    (dict : ∀ entries, (∀ e ∈ entries, P e.2) → P (.dict entries))
    (list : ∀ items, (∀ v ∈ items, P v) → P (.list items)) (v : Value σ) : P v := by
  refine Value.rec (motive_1 := P) (motive_2 := fun entries ↦ ∀ e ∈ entries, P e.2)
    (motive_3 := fun items ↦ ∀ v ∈ items, P v) (motive_4 := fun e ↦ P e.2) scalar (fun entries h ↦ dict entries h)
    (fun items h ↦ list items h) ?_ ?_ ?_ ?_ ?_ v
  · exact fun _ h ↦ nomatch h
  · exact fun e entries he h ↦ List.forall_mem_cons.2 ⟨he, h⟩
  · exact fun _ h ↦ nomatch h
  · exact fun v items hv h ↦ List.forall_mem_cons.2 ⟨hv, h⟩
  · exact fun _ _ h ↦ h

end Value

section

variable (other : Char → List Char)

def Step.denied : Step → Bool
  | .key k => isDenied other k
  | .index _ => false

def Node.clean : Node σ → Node σ
  | .dict keys => .dict (keys.filter fun k ↦ !isDenied other k)
  | n => n

end

variable {other : Char → List Char} {entries : Dict σ} {items : List (Value σ)} {v : Value σ} {key : String}

theorem redactDict_fst : (_redactDict other entries).1 =
    (entries.filter fun e ↦ !isDenied other e.1).map fun e ↦ (e.1, (_redactValue other e.2).1) := by
  induction entries with
  | nil => rfl
  | cons e entries ih =>
    obtain ⟨key, value⟩ := e
    cases hd : isDenied other key with
    | true => simp [_redactDict, hd, ih]
    | false => simp [_redactDict, hd, ih]

theorem redactDict_snd : (_redactDict other entries).2 =
    entries.any fun e ↦ isDenied other e.1 || (_redactValue other e.2).2 := by
  induction entries with
  | nil => rfl
  | cons e entries ih =>
    obtain ⟨key, value⟩ := e
    cases hd : isDenied other key with
    | true => simp [_redactDict, hd]
    | false => simp [_redactDict, hd, ih]

theorem redactList_fst : (_redactList other items).1 = items.map fun v ↦ (_redactValue other v).1 := by
  induction items with
  | nil => rfl
  | cons v items ih => rw [_redactList, ih, List.map_cons]

theorem redactList_snd : (_redactList other items).2 = items.any fun v ↦ (_redactValue other v).2 := by
  induction items with
  | nil => rfl
  | cons v items ih => rw [_redactList, ih, List.any_cons]

theorem redactMetadata_some : redactMetadata other (some entries) = _redactDict other entries := by
  cases entries with
  | nil => rfl
  | cons e entries => rfl

theorem lookup_redactDict : (_redactDict other entries).1.lookup key =
    if isDenied other key then none else (entries.lookup key).map fun v ↦ (_redactValue other v).1 := by
  induction entries with
  | nil => simp [_redactDict]
  | cons e entries ih =>
    obtain ⟨k, value⟩ := e
    by_cases hk : key = k
    · subst hk
      cases hd : isDenied other key with
      | true => simpa [_redactDict, hd] using ih
      | false => simp [_redactDict, hd]
    · have hne : (key == k) = false := by simpa using hk
      cases hd : isDenied other k with
      | true => simpa [_redactDict, hd, List.lookup_cons, hne] using ih
      | false => simpa [_redactDict, hd, List.lookup_cons, hne] using ih

theorem child_redactValue (s : Step) : (_redactValue other v).1.child s =
    if s.denied other then none else (v.child s).map fun w ↦ (_redactValue other w).1 := by
  cases v with
  | scalar x =>
    cases s with
    | key k => simp [_redactValue, Value.child]
    | index i => simp [_redactValue, Value.child]
  | dict entries =>
    cases s with
    | key k => exact lookup_redactDict
    | index i => simp [_redactValue, Value.child]
  | list items =>
    cases s with
    | key k => simp [_redactValue, Value.child]
    | index i => simp [_redactValue, Value.child, redactList_fst, Step.denied]

theorem node_redactValue : (_redactValue other v).1.node = v.node.clean other := by
  cases v with
  | scalar x => rfl
  | dict entries =>
    rw [_redactValue, Value.node, Value.node, Node.clean, redactDict_fst, List.map_map, List.filter_map]
    rfl
  | list items => simp [_redactValue, Value.node, Node.clean, redactList_fst]

/-- A position is kept, without the denied keys, unless a denied key leads to it. -/
theorem node_reach (path : List Step) : (((_redactValue other v).1.reach path).map Value.node) =
    if path.any (Step.denied other) then none else (v.reach path).map fun w ↦ w.node.clean other := by
  induction path generalizing v with
  | nil => simp [Value.reach, node_redactValue]
  | cons s path ih =>
    rw [Value.reach, Value.reach, child_redactValue]
    cases hd : s.denied other with
    | true => simp [hd]
    | false =>
      cases hc : v.child s with
      | none => simp
      | some w => simp [hd, ih]

/-- Nothing is removed just when the value stays as it is. -/
theorem flag_eq_false : (_redactValue other v).2 = false ↔ (_redactValue other v).1 = v := by
  induction v with
  | scalar x => simp [_redactValue]
  | dict entries ih =>
    rw [_redactValue, Value.dict.injEq, redactDict_snd, redactDict_fst, List.any_eq_false]
    constructor
    · intro h
      have hkeep : ∀ e ∈ entries, isDenied other e.1 = false ∧ (_redactValue other e.2).2 = false := by
        simpa using h
      have hfilter : (entries.filter fun e ↦ !isDenied other e.1) = entries :=
        List.filter_eq_self.2 fun e he ↦ by simp [hkeep e he]
      rw [hfilter]
      refine (List.map_congr_left fun e he ↦ ?_).trans (List.map_id entries)
      exact Prod.ext rfl ((ih e he).1 (hkeep e he).2)
    · intro h e he
      have hlen := congrArg List.length h
      rw [List.length_map, List.length_filter_eq_length_iff] at hlen
      rw [List.filter_eq_self.2 hlen] at h
      have hfix := List.map_inj_left.1 (h.trans (List.map_id entries).symm) e he
      have hflag := (ih e he).2 (congrArg Prod.snd hfix)
      simpa [hflag] using hlen e he
  | list items ih =>
    rw [_redactValue, Value.list.injEq, redactList_snd, redactList_fst, List.any_eq_false]
    constructor
    · intro h
      refine (List.map_congr_left fun v hv ↦ ?_).trans (List.map_id items)
      exact (ih v hv).1 (by simpa using h v hv)
    · intro h v hv
      have hfix := List.map_inj_left.1 (h.trans (List.map_id items).symm) v hv
      rw [(ih v hv).2 hfix]
      exact Bool.false_ne_true

theorem redact_idempotent : _redactValue other (_redactValue other v).1 = ((_redactValue other v).1, false) := by
  have hflag : (_redactValue other (_redactValue other v).1).2 = false := by
    induction v with
    | scalar x => rfl
    | dict entries ih =>
      rw [_redactValue, _redactValue, redactDict_snd, redactDict_fst, List.any_map, List.any_eq_false]
      intro e he
      obtain ⟨hmem, hkeep⟩ := List.mem_filter.1 he
      have hdenied : isDenied other e.1 = false := by simpa using hkeep
      simp [hdenied, ih e hmem]
    | list items ih =>
      rw [_redactValue, _redactValue, redactList_snd, redactList_fst, List.any_map, List.any_eq_false]
      intro v hv
      simp [ih v hv]
  exact Prod.ext (flag_eq_false.1 hflag) hflag

theorem isDenied_eq_false : isDenied other key = false ↔
    ∀ bad ∈ _DENY_KEYS, ¬ bad.toList <:+: lower other key.toList := by
  simp [isDenied]

theorem lower_ne_of_kept (h : isDenied other key = false) {part : List Char} (hp : part <:+: key.toList) :
    ∀ bad ∈ _DENY_KEYS, lower other part ≠ bad.toList := by
  intro bad hbad he
  obtain ⟨before, after, hkey⟩ := hp
  refine isDenied_eq_false.1 h bad hbad ⟨lower other before, lower other after, ?_⟩
  rw [← he, ← hkey]
  simp only [lower, List.flatMap_append]

/-- What `redactMetadata` makes of a dict, and whether it says that something was removed. -/
structure Exact (other : Char → List Char) (raw out : Dict σ) (flag : Bool) : Prop where
  clean : ∀ path keys, ((Value.dict out).reach path).map Value.node = some (.dict keys) → ∀ key ∈ keys,
    isDenied other key = false ∧ ∀ part, part <:+: key.toList → ∀ bad ∈ _DENY_KEYS, lower other part ≠ bad.toList
  kept : ∀ path, ((Value.dict out).reach path).map Value.node =
    if path.any (Step.denied other) then none else ((Value.dict raw).reach path).map fun v ↦ v.node.clean other
  flag : flag = true ↔ out ≠ raw
  idempotent : redactMetadata other (some out) = (out, false)

theorem redactMetadata_exact (other : Char → List Char) (raw : Option (Dict σ)) :
    Exact other (raw.getD []) (redactMetadata other raw).1 (redactMetadata other raw).2 := by
  have hsome : redactMetadata other raw = _redactDict other (raw.getD []) := by
    cases raw with
    | none => rfl
    | some raw => exact redactMetadata_some
  rw [hsome]
  generalize raw.getD [] = data
  have hdict : _redactValue other (.dict data) =
      (.dict (_redactDict other data).1, (_redactDict other data).2) := by
    rw [_redactValue]
  have hkept : ∀ path, ((Value.dict (_redactDict other data).1).reach path).map Value.node =
      if path.any (Step.denied other) then none
      else ((Value.dict data).reach path).map fun v ↦ v.node.clean other := by
    intro path
    rw [← node_reach, hdict]
  have hflag : (_redactDict other data).2 = false ↔ (_redactDict other data).1 = data := by
    have h := @flag_eq_false _ other (.dict data)
    rwa [hdict, Value.dict.injEq] at h
  have hidem : _redactDict other (_redactDict other data).1 = ((_redactDict other data).1, false) := by
    have h := @redact_idempotent _ other (.dict data)
    rw [hdict, _redactValue, Prod.mk.injEq, Value.dict.injEq] at h
    exact Prod.ext h.1 h.2
  refine ⟨fun path keys hkeys key hkey ↦ ?_, hkept, ?_, redactMetadata_some.trans hidem⟩
  · have hdenied : isDenied other key = false := by
      rw [hkept path] at hkeys
      split at hkeys
      · cases hkeys
      · obtain ⟨v, _, hv⟩ := Option.map_eq_some_iff.1 hkeys
        cases hn : v.node with
        | scalar x =>
          rw [hn] at hv
          cases hv
        | list n =>
          rw [hn] at hv
          cases hv
        | dict ks =>
          rw [hn] at hv
          cases hv
          simpa using (List.mem_filter.1 hkey).2
    exact ⟨hdenied, fun part hp ↦ lower_ne_of_kept hdenied hp⟩
  · rw [ne_eq, ← hflag, Bool.not_eq_false]

end AdminPlatform.Audit.Metadata
