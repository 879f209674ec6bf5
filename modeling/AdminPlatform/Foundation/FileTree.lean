import Mathlib.Data.List.Infix
import Mathlib.Logic.Function.Basic

namespace AdminPlatform.Foundation.FileTree

inductive Node (β : Type*)
  | directory
  | file (content : β)
  deriving DecidableEq

inductive OSError
  | fileNotFound
  | fileExists
  | notADirectory
  | isADirectory
  deriving DecidableEq, Repr

/-- A tree without links. A path has its innermost name first, and the empty path is a directory whatever
the tree has there. -/
abbrev Tree (ν β : Type*) := List ν → Option (Node β)

variable {ν β : Type*}

namespace Tree

def entry : Option (Node β) → Except OSError (Node β)
  | none => .error .fileNotFound
  | some node => .ok node

def walk (t : Tree ν β) : List ν → Except OSError (Node β)
  | [] => .ok .directory
  | name :: path => match t.walk path with
    | .error e => .error e
    | .ok (.file _) => .error .notADirectory
    | .ok .directory => entry (t (name :: path))

def openError (t : Tree ν β) : List ν → Option OSError
  | [] => some .isADirectory
  | name :: path => match t.walk path with
    | .error e => some e
    | .ok (.file _) => some .notADirectory
    | .ok .directory => if t (name :: path) matches some .directory then some .isADirectory else none

variable [DecidableEq ν]

def set (path : List ν) (node : Option (Node β)) (t : Tree ν β) : Tree ν β := Function.update t path node

def mkdir (t : Tree ν β) : List ν → Except OSError (Tree ν β)
  | [] => .ok t
  | name :: path => match t.walk (name :: path) with
    | .ok .directory => .ok t
    | .ok (.file _) => .error .fileExists
    | .error .fileNotFound => (t.mkdir path).map (set (name :: path) (some .directory))
    | .error e => .error e

def unlink (t : Tree ν β) (path : List ν) : Except OSError (Tree ν β) :=
  match t.walk path with
  | .error e => .error e
  | .ok .directory => .error .isADirectory
  | .ok (.file _) => .ok (t.set path none)

end Tree

open Tree

variable {t t' u : Tree ν β} {name : ν} {path root q : List ν} {node : Option (Node β)}

theorem walk_cons (h : t.walk path = .ok .directory) : t.walk (name :: path) = entry (t (name :: path)) := by
  rw [walk, h]

theorem walk_cons_directory (h : t.walk path = .ok .directory) (hn : t (name :: path) = some .directory) :
    t.walk (name :: path) = .ok .directory := by
  rw [walk_cons h, hn]
  rfl

theorem walk_congr (h : ∀ p, p <:+ path → p ≠ [] → t p = u p) : t.walk path = u.walk path := by
  induction path with
  | nil => rfl
  | cons name path ih =>
    have hpath := ih fun p hp ↦ h p (hp.trans (List.suffix_cons name path))
    have hlast := h (name :: path) (List.suffix_refl _) (List.cons_ne_nil _ _)
    rw [walk, walk, hpath, hlast]

theorem walk_of_walk_cons (h : t.walk (name :: path) = .ok .directory) :
    t.walk path = .ok .directory ∧ t (name :: path) = some .directory := by
  cases hw : t.walk path with
  | error e =>
    rw [walk, hw] at h
    cases h
  | ok node => cases node with
    | file c =>
      rw [walk, hw] at h
      cases h
    | directory =>
      rw [walk_cons hw] at h
      cases hn : t (name :: path) with
      | none =>
        rw [hn] at h
        cases h
      | some node =>
        rw [hn] at h
        exact ⟨rfl, congrArg some (Except.ok.inj h)⟩

/-- A directory is found where there are only directories on the way. -/
theorem walk_iff : t.walk path = .ok .directory ↔ ∀ q, q <:+ path → q ≠ [] → t q = some .directory := by
  induction path with
  | nil => exact ⟨fun _ q hq hne ↦ absurd (List.suffix_nil.1 hq) hne, fun _ ↦ rfl⟩
  | cons name path ih =>
    refine ⟨fun h q hq hne ↦ ?_, fun h ↦ ?_⟩
    · obtain ⟨hpath, hhere⟩ := walk_of_walk_cons h
      rcases List.suffix_cons_iff.1 hq with rfl | hq
      · exact hhere
      · exact ih.1 hpath q hq hne
    · have hpath := ih.2 fun q hq ↦ h q (hq.trans (List.suffix_cons name path))
      exact walk_cons_directory hpath (h _ (List.suffix_refl _) (List.cons_ne_nil _ _))

theorem walk_of_suffix (h : t.walk path = .ok .directory) (hq : q <:+ path) : t.walk q = .ok .directory :=
  walk_iff.2 fun p hp ↦ walk_iff.1 h p (hp.trans hq)

/-- Where no file stands in the way, a walk arrives at a directory or finds nothing. -/
theorem walk_of_no_file (h : ∀ q, q <:+ path → q ≠ [] → ∀ c, t q ≠ some (.file c)) :
    t.walk path = .ok .directory ∨ t.walk path = .error .fileNotFound := by
  induction path with
  | nil => exact .inl rfl
  | cons name path ih =>
    have hlast := h (name :: path) (List.suffix_refl _) (List.cons_ne_nil _ _)
    rcases ih fun q hq ↦ h q (hq.trans (List.suffix_cons name path)) with hpath | hpath
    · rw [walk_cons hpath]
      cases hn : t (name :: path) with
      | none => exact .inr rfl
      | some node => cases node with
        | directory => exact .inl rfl
        | file c => exact absurd hn (hlast c)
    · rw [walk, hpath]
      exact .inr rfl

variable [DecidableEq ν]

@[simp] theorem set_self : t.set path node path = node := Function.update_self ..

theorem set_of_ne (h : q ≠ path) : t.set path node q = t q := Function.update_of_ne h ..

theorem walk_set_below (s : List ν) (h : s ≠ []) : (t.set (s ++ path) node).walk path = t.walk path := by
  refine walk_congr fun p hp _ ↦ set_of_ne ?_
  rintro rfl
  have hle := hp.length_le
  rw [List.length_append] at hle
  exact h (List.length_eq_zero_iff.1 (by omega))

theorem mkdir_of_walk (h : t.walk path = .ok .directory) : t.mkdir path = .ok t := by
  cases path with
  | nil => rfl
  | cons name path => rw [mkdir, h]

/-- Making directories puts directories on the way and nothing else anywhere. -/
theorem mkdir_frame (h : t.mkdir path = .ok t') (q : List ν) :
    t' q = t q ∨ (q <:+ path ∧ q ≠ [] ∧ t' q = some .directory) := by
  induction path generalizing t' with
  | nil =>
    cases h
    exact .inl rfl
  | cons name path ih =>
    unfold mkdir at h
    split at h
    · cases h
      exact .inl rfl
    · cases h
    · obtain ⟨made, hmade, rfl⟩ : ∃ made, t.mkdir path = .ok made ∧ made.set (name :: path)
        (some .directory) = t' := by
        cases hm : t.mkdir path with
        | error e =>
          rw [hm] at h
          cases h
        | ok made =>
          rw [hm] at h
          cases h
          exact ⟨made, rfl, rfl⟩
      by_cases hq : q = name :: path
      · subst hq
        exact .inr ⟨List.suffix_refl _, List.cons_ne_nil _ _, set_self⟩
      · rw [set_of_ne hq]
        exact (ih hmade).imp_right fun hr ↦ ⟨hr.1.trans (List.suffix_cons name path), hr.2⟩
    · cases h

/-- Where no file stands in the way, the directories are made. -/
theorem exists_mkdir (h : ∀ q, q <:+ path → q ≠ [] → ∀ c, t q ≠ some (.file c)) :
    ∃ t', t.mkdir path = .ok t' ∧ t'.walk path = .ok .directory := by
  induction path with
  | nil => exact ⟨t, rfl, rfl⟩
  | cons name path ih =>
    obtain ⟨made, hmade, hwalk⟩ := ih fun q hq ↦ h q (hq.trans (List.suffix_cons name path))
    rcases walk_of_no_file h with hgood | hgood
    · exact ⟨t, by rw [mkdir, hgood], hgood⟩
    · refine ⟨made.set (name :: path) (some .directory), by rw [mkdir, hgood, hmade]; rfl, ?_⟩
      have hkeep : (made.set (name :: path) (some .directory)).walk path = made.walk path :=
        walk_set_below [name] (List.cons_ne_nil _ _)
      exact walk_cons_directory (hkeep.trans hwalk) set_self

def Confined (root : List ν) (t t' : Tree ν β) : Prop := ∀ q, (∀ s, s ≠ [] → q ≠ s ++ root) → t' q = t q

namespace Confined

omit [DecidableEq ν] in
theorem refl (root : List ν) (t : Tree ν β) : Confined root t t := fun _ _ ↦ rfl

omit [DecidableEq ν] in
theorem trans (h : Confined root t t') (h' : Confined root t' u) : Confined root t u :=
  fun q hq ↦ (h' q hq).trans (h q hq)

omit [DecidableEq ν] in
theorem walk (h : Confined root t t') : t'.walk root = t.walk root := by
  refine walk_congr fun q hq _ ↦ h q fun s hs he ↦ hs ?_
  have hlen := hq.length_le
  rw [he, List.length_append] at hlen
  exact List.length_eq_zero_iff.1 (by omega)

theorem set (s : List ν) (hs : s ≠ []) : Confined root t (t.set (s ++ root) node) :=
  fun _ hq ↦ set_of_ne (hq s hs)

theorem unlink (s : List ν) (hs : s ≠ []) (h : t.unlink (s ++ root) = .ok t') : Confined root t t' := by
  unfold Tree.unlink at h
  split at h
  · cases h
  · cases h
  · cases h
    exact .set s hs

/-- Making a directory on the way to what lies below the path. -/
theorem mkdir (s : List ν) (hroot : t.walk root = .ok .directory) (hp : path <:+ s ++ root)
    (h : t.mkdir path = .ok t') : Confined root t t' := by
  intro q hq
  rcases mkdir_frame h q with hsame | ⟨hsuf, hne, hdir⟩
  · exact hsame
  · have habove : q <:+ root := by
      rcases List.suffix_or_suffix_of_suffix (hsuf.trans hp) (List.suffix_append s root) with habove | ⟨s', rfl⟩
      · exact habove
      · by_cases hs' : s' = []
        · rw [hs', List.nil_append]
        · exact absurd rfl (hq s' hs')
    rw [hdir, walk_iff.1 hroot q habove hne]

end Confined

/-- Both have a directory at the path and the same below it. -/
structure Agree (root : List ν) (t u : Tree ν β) : Prop where
  left : t.walk root = .ok .directory
  right : u.walk root = .ok .directory
  below : ∀ s, s ≠ [] → t (s ++ root) = u (s ++ root)

namespace Agree

variable (h : Agree root t u)
include h

omit [DecidableEq ν] in
theorem walk (s : List ν) : t.walk (s ++ root) = u.walk (s ++ root) := by
  induction s with
  | nil => exact h.left.trans h.right.symm
  | cons name s ih =>
    have hhere := h.below (name :: s) (List.cons_ne_nil _ _)
    rw [List.cons_append] at hhere ⊢
    rw [Tree.walk, Tree.walk, ih, hhere]

theorem set (s : List ν) (hs : s ≠ []) (node : Option (Node β)) :
    Agree root (t.set (s ++ root) node) (u.set (s ++ root) node) where
  left := (walk_set_below s hs).trans h.left
  right := (walk_set_below s hs).trans h.right
  below s' hs' := by
    by_cases he : s' ++ root = s ++ root
    · rw [he, set_self, set_self]
    · rw [set_of_ne he, set_of_ne he, h.below s' hs']

omit [DecidableEq ν] in
theorem openError (name : ν) (s : List ν) :
    t.openError (name :: s ++ root) = u.openError (name :: s ++ root) := by
  have hhere := h.below (name :: s) (List.cons_ne_nil _ _)
  rw [List.cons_append] at hhere ⊢
  rw [Tree.openError, Tree.openError, h.walk, hhere]

/-- The same error, or trees that agree. -/
theorem mkdir (s : List ν) (hp : path <:+ s ++ root) :
    (∃ e, t.mkdir path = .error e ∧ u.mkdir path = .error e) ∨
      ∃ t' u', t.mkdir path = .ok t' ∧ u.mkdir path = .ok u' ∧ Agree root t' u' := by
  have habove : path <:+ root → t.mkdir path = .ok t ∧ u.mkdir path = .ok u :=
    fun hp ↦ ⟨mkdir_of_walk (walk_of_suffix h.left hp), mkdir_of_walk (walk_of_suffix h.right hp)⟩
  rcases List.suffix_or_suffix_of_suffix hp (List.suffix_append s root) with hp' | ⟨s', rfl⟩
  · exact .inr ⟨t, u, (habove hp').1, (habove hp').2, h⟩
  · clear hp
    induction s' with
    | nil => exact .inr ⟨t, u, (habove (List.suffix_refl _)).1, (habove (List.suffix_refl _)).2, h⟩
    | cons name s' ih =>
      have hwalk := h.walk (name :: s')
      rw [List.cons_append] at hwalk ⊢
      rw [Tree.mkdir, Tree.mkdir, ← hwalk]
      cases hw : t.walk (name :: (s' ++ root)) with
      | ok node => cases node with
        | directory => exact .inr ⟨t, u, rfl, rfl, h⟩
        | file c => exact .inl ⟨_, rfl, rfl⟩
      | error e => cases e with
        | fileNotFound =>
          rcases ih fun hs ↦ ⟨mkdir_of_walk (walk_of_suffix h.left hs), mkdir_of_walk (walk_of_suffix h.right hs)⟩
            with ⟨e, ht, hu⟩ | ⟨t', u', ht, hu, hagree⟩
          · exact .inl ⟨e, by simp only [ht]; rfl, by simp only [hu]; rfl⟩
          · refine .inr ⟨_, _, by simp only [ht]; rfl, by simp only [hu]; rfl, ?_⟩
            exact hagree.set (name :: s') (List.cons_ne_nil _ _) _
        | fileExists => exact .inl ⟨_, rfl, rfl⟩
        | notADirectory => exact .inl ⟨_, rfl, rfl⟩
        | isADirectory => exact .inl ⟨_, rfl, rfl⟩

theorem unlink (s : List ν) (hs : s ≠ []) :
    (∃ e, t.unlink (s ++ root) = .error e ∧ u.unlink (s ++ root) = .error e) ∨
      ∃ t' u', t.unlink (s ++ root) = .ok t' ∧ u.unlink (s ++ root) = .ok u' ∧ Agree root t' u' := by
  unfold Tree.unlink
  rw [← h.walk s]
  cases t.walk (s ++ root) with
  | error e => exact .inl ⟨e, rfl, rfl⟩
  | ok node => cases node with
    | directory => exact .inl ⟨_, rfl, rfl⟩
    | file c => exact .inr ⟨_, _, rfl, rfl, h.set s hs none⟩

end Agree

end AdminPlatform.Foundation.FileTree
