import AdminPlatform.Menu.Service

namespace AdminPlatform.Menu.TreeInvariant

open Model.Schema Model.Service Foundation.Relational Foundation.Transaction
open Foundation.Interleaving Foundation.RelyGuarantee Foundation.Forest
open Service MenuRepository

variable {n₀ : ℕ} {w w' w'' : Shared} {i p : ℕ}

def Born (n₀ : ℕ) (w : Shared) (i : ℕ) : Prop := i < n₀ ∨ Note.menuCreated i ∈ w.log

def Reparented (log : List Note) (i : ℕ) : Prop := ∃ a, Note.menuSeeded i a .reparented ∈ log

/-- The menus form a forest. -/
structure MenuInv (n₀ : ℕ) (w : Shared) : Prop where
  born : ∀ i (m : Menu), w.db.rows .menus i = some m → Born n₀ w i
  below : ∀ i, Born n₀ w i → i < w.next
  parent : ∀ i p, parentOf w.db i = some p → (w.db.rows .menus p).isSome
  rooted : ∀ i, Rooted (parentOf w.db) i

/-- What the holder of the tree lock keeps to itself, but for the seeding runs: menus get no
other parent. -/
def LinksKept (n₀ : ℕ) (w w' : Shared) : Prop := w.log ⊆ w'.log ∧ ∀ i, Born n₀ w i →
  parentOf w'.db i = parentOf w.db i ∨ parentOf w'.db i = none ∨ Reparented w'.log i

def NoChildAdded (p : ℕ) (w w' : Shared) : Prop := ∀ k, parentOf w'.db k = some p →
  parentOf w.db k = some p

def menuProt (n₀ : ℕ) : Resource Table LockName → Shared → Shared → Prop
  | .own u, w, w' => ¬ Born n₀ w u → ¬ Born n₀ w' u
  | .named .menuTree, w, w' => LinksKept n₀ w w'
  | .row .menus p, w, w' => NoChildAdded p w w'
  | _, _, _ => True

theorem Born.mono (h : Born n₀ w i) (hl : w.log ⊆ w'.log) : Born n₀ w' i := h.imp_right fun hm ↦ hl hm

theorem Reparented.mono {log log' : List Note} (h : Reparented log i) (hl : log ⊆ log') :
    Reparented log' i := by
  obtain ⟨a, ha⟩ := h
  exact ⟨a, hl ha⟩

theorem LinksKept.refl (w : Shared) : LinksKept n₀ w w := ⟨fun _ h ↦ h, fun _ _ ↦ .inl rfl⟩

theorem LinksKept.trans (h : LinksKept n₀ w w') (h' : LinksKept n₀ w' w'') : LinksKept n₀ w w'' := by
  refine ⟨fun _ hx ↦ h'.1 (h.1 hx), fun i hi ↦ ?_⟩
  rcases h'.2 i (hi.mono h.1) with he' | hn' | hr'
  · rcases h.2 i hi with he | hn | hr
    · exact .inl (he'.trans he)
    · exact .inr (.inl (he'.trans hn))
    · exact .inr (.inr (hr.mono h'.1))
  · exact .inr (.inl hn')
  · exact .inr (.inr hr')

theorem MenuInv.congr (h : MenuInv n₀ w) (hd : w'.db = w.db) (hl : w'.log = w.log)
    (hn : w.next ≤ w'.next) : MenuInv n₀ w' where
  born i m hi := by
    have hb := h.born i m (hd ▸ hi)
    rw [Born, hl]
    exact hb
  below i hi := by
    rw [Born, hl] at hi
    exact Nat.lt_of_lt_of_le (h.below i hi) hn
  parent := by rw [hd]; exact h.parent
  rooted := by rw [hd]; exact h.rooted

/-- The agreement between the calls that change menus. -/
def menuProtocol (n₀ : ℕ) : Protocol Table Row LockName Storage Note where
  inv := MenuInv n₀
  guar _ _ := True
  change _ _ := True
  prot := menuProt n₀
  guar_refl _ := trivial
  guar_trans _ _ _ _ _ := trivial
  prot_refl r w := by
    unfold menuProt
    split
    · exact id
    · exact .refl w
    · exact fun _ hk ↦ hk
    · trivial
  prot_trans r w w' w'' h h' := by
    unfold menuProt at *
    split at h
    · exact fun hn ↦ h' (h hn)
    · exact h.trans h'
    · exact fun k hk ↦ h k (h' k hk)
    · trivial
  quiet w w' h hd hl _ _ hn := by
    refine ⟨h.congr hd hl hn, trivial, trivial, fun r ↦ ?_⟩
    unfold menuProt
    split
    · intro hb
      rw [Born, hl]
      exact hb
    · exact ⟨fun x hx ↦ hl ▸ hx, fun i _ ↦ .inl (by rw [hd])⟩
    · exact fun k hk ↦ hd ▸ hk
    · trivial

theorem parentOf_eq_some {db : Db} : parentOf db i = some p ↔
    ∃ m : Menu, db.rows .menus i = some m ∧ m.parentId = some p := Option.bind_eq_some_iff

theorem MenuInv.born_of_isSome (h : MenuInv n₀ w) (hi : (w.db.rows .menus i).isSome) :
    Born n₀ w i := by
  obtain ⟨m, hm⟩ := Option.isSome_iff_exists.1 hi
  exact h.born i m hm

theorem MenuInv.not_born_next (h : MenuInv n₀ w) : ¬ Born n₀ w w.next :=
  fun hb ↦ Nat.lt_irrefl _ (h.below _ hb)

theorem mem_childIds {db : Db} {a x : ℕ} : x ∈ childIds db a ↔ parentOf db x = some a := by
  simp only [childIds, List.mem_map, Prod.exists, exists_and_right, exists_eq_right, mem_select,
    decide_eq_true_eq, parentOf, Option.bind_eq_some_iff]

theorem mem_descendantMenuIds {db : Db} {x : ℕ} : x ∈ descendantMenuIds db i ↔
    (db.rows .menus i).isSome ∧ ∃ k ≤ _MAX_MENU_DEPTH, climb (parentOf db) k x = some i := by
  unfold descendantMenuIds
  split
  · next h => simp [mem_levels mem_childIds, h]
  · next h => simp [h]

def Shallow (w : Shared) : Prop := ∀ i n r, climb (parentOf w.db) n i = some r →
  parentOf w.db r = none → n ≤ _MAX_MENU_DEPTH

theorem climb_of_shallow (hi : MenuInv n₀ w) (h : Shallow w) :
    climb (parentOf w.db) (_MAX_MENU_DEPTH + 1) i = none := by
  obtain ⟨n, r, hn, hr⟩ := (hi.rooted i).climb
  have hle := h i n r hn hr
  obtain ⟨k, hk⟩ : ∃ k, _MAX_MENU_DEPTH + 1 = n + (k + 1) := ⟨_MAX_MENU_DEPTH - n, by omega⟩
  rw [hk, climb_add, hn, Option.bind_some, climb_succ, hr]
  rfl

end AdminPlatform.Menu.TreeInvariant
