import AdminPlatform.File.UploadSteps
import AdminPlatform.Foundation.FileTree

namespace AdminPlatform.File.LocalStorage

open Foundation.FileTree
open Service (Bytes FileSettings StoredStat Stream)
open UploadSteps hiding writeStream

abbrev FileTree := Tree String Bytes

def isKeyChar (c : Char) : Bool := c.isDigit || decide ('a' ≤ c ∧ c ≤ 'f')

/-- `_OBJECT_KEY_RE.match`; the `$` also matches before a newline at the end. -/
def objectKeyMatches (objectKey : String) : Bool :=
  let s := objectKey.toList
  decide ((s.take 32).length = 32) && (s.take 32).all isKeyChar && decide (s.drop 32 = [] ∨ s.drop 32 = ['\n'])

def names (segment : List Char) : List String :=
  ((segment.splitOn '/').filter fun s ↦ decide (s ≠ [] ∧ s ≠ ['.'])).map .ofList

def joinpath (path : List String) (segment : List Char) : List String :=
  (names segment).reverse ++ if segment.head? = some '/' then [] else path

/-- There is no link and no `..` on the way down a path. -/
structure Real (destination : List String → Option (List String)) (path : List String) : Prop where
  up : ".." ∉ path
  link : ∀ s, s <:+ path → s ≠ [] → destination s = none

/-- The symbolic links of a file system, none of which lead in a circle: where each of them leads to in
the end. -/
structure Links where
  destination : List String → Option (List String)
  real : ∀ p q, destination p = some q → Real destination q

/-- `Path.resolve`; a link takes the place of the path that leads to it. -/
def resolve (links : Links) : List String → List String
  | [] => []
  | name :: path =>
    if name = ".." then (resolve links path).tail
    else (links.destination (name :: resolve links path)).getD (name :: resolve links path)

theorem real_tail {links : Links} {path : List String} (h : Real links.destination path) :
    Real links.destination path.tail :=
  ⟨fun hm ↦ h.up (List.mem_of_mem_tail hm), fun s hs ↦ h.link s (hs.trans (List.tail_suffix path))⟩

theorem real_resolve {links : Links} {path : List String} : Real links.destination (resolve links path) := by
  induction path with
  | nil => exact ⟨List.not_mem_nil, fun s hs hne ↦ absurd (List.suffix_nil.1 hs) hne⟩
  | cons name path ih =>
    unfold resolve
    split
    · exact real_tail ih
    · rename_i hname
      cases hd : links.destination (name :: resolve links path) with
      | some q => exact links.real _ q hd
      | none =>
        refine ⟨fun hm ↦ ?_, fun s hs hne ↦ ?_⟩
        · exact (List.mem_cons.1 hm).elim (fun he ↦ hname he.symm) ih.up
        · rcases List.suffix_cons_iff.1 hs with rfl | hs
          · exact hd
          · exact ih.link s hs hne

theorem resolve_of_real {links : Links} {path : List String} (h : Real links.destination path) :
    resolve links path = path := by
  induction path with
  | nil => rfl
  | cons name path ih =>
    have hname : name ≠ ".." := fun he ↦ h.up (he ▸ List.mem_cons_self)
    rw [resolve, if_neg hname, ih (real_tail h), h.link _ (List.suffix_refl _) (List.cons_ne_nil _ _)]
    rfl

structure LocalFileStorage (links : Links) where
  root : List String
  resolved : Real links.destination root

namespace LocalFileStorage

def init (links : Links) (root : List String) : LocalFileStorage links := ⟨resolve links root, real_resolve⟩

/-- `none` is the `StoragePathError`. -/
def _resolve {links : Links} (storage : LocalFileStorage links) (objectKey : String) : Option (List String) :=
  let k := objectKey.toList
  if objectKeyMatches objectKey then
    let candidate := resolve links (joinpath (joinpath (joinpath storage.root (k.take 2)) ((k.take 4).drop 2)) k)
    if storage.root.isSuffixOf candidate then some candidate else none
  else none

end LocalFileStorage

/-- `made` is the number of directories that a `mkdir` which fails leaves unmade. -/
inductive StorageOp (κ : Type)
  | writeStream (key : κ) (stream : Stream Thrown) (faults : Faults) (made : ℕ)
  | aiterChunks (key : κ) (chunkSize : ℕ)
  | delete (key : κ)
  | stat (key : κ)

/-- What an operation returns or raises; `none` is a file that is not there. -/
inductive Answer
  | written (result : Except WriteError StoredStat)
  | chunks (result : Option (List Bytes))
  | deleted (result : Bool)
  | size (result : Option ℕ)
  | storagePathError
  | osError (e : OSError)
  deriving DecidableEq

def readChunks (chunkSize : ℕ) : ℕ → Bytes → List Bytes
  | 0, _ => []
  | fuel + 1, content =>
    let chunk := content.take chunkSize
    if chunk.isEmpty then [] else chunk :: readChunks chunkSize fuel (content.drop chunkSize)

def aiterChunks (chunkSize : ℕ) (content : Bytes) : List Bytes := readChunks chunkSize (content.length + 1) content

namespace LocalFileStorage

def _safeUnlink (path : List String) (answer : Answer) (t : FileTree) : Answer × FileTree :=
  match t.unlink path with
  | .ok t => (answer, t)
  | .error .fileNotFound => (answer, t)
  | .error e => (.osError e, t)

/-- The body of `write_stream` once the directories are there. -/
def writeFile (settings : FileSettings) (faults : Faults) (stream : Stream Thrown) (path : List String)
    (t : FileTree) : Answer × FileTree :=
  match t.openError path with
  | some e => _safeUnlink path (.osError e) t
  | none => match faults.openFile with
    | some (created, e) =>
      _safeUnlink path (.written (.error (.thrown e))) (if created then t.set path (some (.file [])) else t)
    | none =>
      let (p, stopped) := writeChunks faults settings.maxBytes stream.raises 0 {} stream.chunks
      match closed faults stopped with
      | some e => _safeUnlink path (.written (.error e)) (t.set path (some (.file p.content)))
      | none => (.written (.ok ⟨p.size, settings.sha256 p.hashed⟩), t.set path (some (.file p.content)))

def writeStream (settings : FileSettings) (faults : Faults) (made : ℕ) (stream : Stream Thrown)
    (path : List String) (t : FileTree) : Answer × FileTree :=
  match faults.mkdir with
  | some e => match t.mkdir (path.tail.drop made) with
    | .ok t => (.written (.error (.thrown e)), t)
    | .error _ => (.written (.error (.thrown e)), t)
  | none => match t.mkdir path.tail with
    | .error e => (.osError e, t)
    | .ok t => writeFile settings faults stream path t

def delete (path : List String) (t : FileTree) : Answer × FileTree :=
  match t.unlink path with
  | .ok t => (.deleted true, t)
  | .error .fileNotFound => (.deleted false, t)
  | .error e => (.osError e, t)

/-- `directorySize` is what the system says of a directory. -/
def stat (directorySize : ℕ) (path : List String) (t : FileTree) : Answer :=
  match t.walk path with
  | .ok .directory => .size (some directorySize)
  | .ok (.file content) => .size (some content.length)
  | .error .fileNotFound => .size none
  | .error e => .osError e

def read (chunkSize : ℕ) (path : List String) (t : FileTree) : Answer :=
  match t.walk path with
  | .ok .directory => .osError .isADirectory
  | .ok (.file content) => .chunks (some (aiterChunks chunkSize content))
  | .error .fileNotFound => .chunks none
  | .error e => .osError e

variable {links : Links} (settings : FileSettings) (directorySize : ℕ) (storage : LocalFileStorage links)

def step (op : StorageOp String) (t : FileTree) : Answer × FileTree :=
  match op with
  | .writeStream key stream faults made => match storage._resolve key with
    | none => (.storagePathError, t)
    | some path => writeStream settings faults made stream path t
  | .aiterChunks key chunkSize => match storage._resolve key with
    | none => (.storagePathError, t)
    | some path => (read chunkSize path t, t)
  | .delete key => match storage._resolve key with
    | none => (.storagePathError, t)
    | some path => delete path t
  | .stat key => match storage._resolve key with
    | none => (.storagePathError, t)
    | some path => (stat directorySize path t, t)

def run : List (StorageOp String) → FileTree → List Answer × FileTree
  | [], t => ([], t)
  | op :: ops, t =>
    let (answer, t) := step settings directorySize storage op t
    let (answers, t) := run ops t
    (answer :: answers, t)

end LocalFileStorage

variable {links links' : Links} {settings : FileSettings} {directorySize : ℕ} {storage : LocalFileStorage links}
  {storage' : LocalFileStorage links'} {key : String} {segment : List Char} {path root : List String}
  {t u : FileTree} {op : StorageOp String}

def keyPath (root : List String) (objectKey : String) : List String :=
  let k := objectKey.toList
  [objectKey, .ofList ((k.take 4).drop 2), .ofList (k.take 2)] ++ root

structure Plain (segment : List Char) : Prop where
  ne : segment ≠ []
  slash : '/' ∉ segment
  dot : '.' ∉ segment

theorem names_of_plain (h : Plain segment) : names segment = [.ofList segment] := by
  have hsplit : segment.splitOn '/' = [segment] := List.splitOnP_eq_singleton fun c hc ↦ by
    simpa using fun he : c = '/' ↦ h.slash (he ▸ hc)
  have hdot : segment ≠ ['.'] := by
    rintro rfl
    exact h.dot (List.mem_singleton.2 rfl)
  simp [names, hsplit, h.ne, hdot]

theorem joinpath_of_plain (h : Plain segment) : joinpath path segment = .ofList segment :: path := by
  have hhead : segment.head? ≠ some '/' := fun he ↦ h.slash (List.mem_of_head? he)
  rw [joinpath, names_of_plain h, if_neg hhead]
  rfl

theorem up_of_plain (h : Plain segment) : String.ofList segment ≠ ".." := by
  intro he
  have hchars := congrArg String.toList he
  rw [String.toList_ofList] at hchars
  refine h.dot ?_
  rw [hchars]
  decide

/-- What the key is made of. -/
theorem chars_of_matches (h : objectKeyMatches key = true) :
    32 ≤ key.toList.length ∧ ∀ c ∈ key.toList, c ≠ '/' ∧ c ≠ '.' := by
  simp only [objectKeyMatches, Bool.and_eq_true, decide_eq_true_eq, List.all_eq_true] at h
  obtain ⟨⟨hlen, hhex⟩, hrest⟩ := h
  refine ⟨by simp only [List.length_take] at hlen; omega, fun c hc ↦ ?_⟩
  rw [← List.take_append_drop 32 key.toList, List.mem_append] at hc
  rcases hc with hc | hc
  · have hchar := hhex c hc
    refine ⟨?_, ?_⟩
    · rintro rfl
      exact absurd hchar (by decide)
    · rintro rfl
      exact absurd hchar (by decide)
  · rcases hrest with hrest | hrest
    · rw [hrest] at hc
      cases hc
    · rw [hrest, List.mem_singleton] at hc
      subst hc
      decide

/-- The path of a key that has the form, before its links are followed. -/
theorem joinpath_key (root : List String) (h : objectKeyMatches key = true) :
    joinpath (joinpath (joinpath root (key.toList.take 2)) ((key.toList.take 4).drop 2)) key.toList =
      keyPath root key ∧ ".." ∉ (keyPath root key).take 3 := by
  obtain ⟨hlen, hchars⟩ := chars_of_matches h
  have hplain : ∀ s : List Char, s ≠ [] → s ⊆ key.toList → Plain s := fun s hne hs ↦
    ⟨hne, fun hc ↦ (hchars _ (hs hc)).1 rfl, fun hc ↦ (hchars _ (hs hc)).2 rfl⟩
  have hlong : ∀ s : List Char, 0 < s.length → s ≠ [] := fun s hs ↦ List.ne_nil_of_length_pos hs
  have hfirst : Plain (key.toList.take 2) :=
    hplain _ (hlong _ (by rw [List.length_take]; omega)) (List.take_subset _ _)
  have hsecond : Plain ((key.toList.take 4).drop 2) :=
    hplain _ (hlong _ (by rw [List.length_drop, List.length_take]; omega))
      (List.Subset.trans (List.drop_subset _ _) (List.take_subset _ _))
  have hwhole : Plain key.toList := hplain _ (hlong _ (by omega)) (List.Subset.refl _)
  refine ⟨?_, fun hm ↦ ?_⟩
  · rw [joinpath_of_plain hwhole, joinpath_of_plain hsecond, joinpath_of_plain hfirst, String.ofList_toList]
    rfl
  · have hup := up_of_plain hwhole
    rw [String.ofList_toList] at hup
    simp only [keyPath, List.cons_append, List.nil_append, List.take_succ_cons, List.take_zero, List.mem_cons,
      List.not_mem_nil, or_false] at hm
    rcases hm with hm | hm | hm
    · exact hup hm.symm
    · exact up_of_plain hsecond hm.symm
    · exact up_of_plain hfirst hm.symm

theorem _resolve_eq_some : storage._resolve key = some path ↔ objectKeyMatches key = true ∧
    resolve links (keyPath storage.root key) = path ∧ ∃ s, path = s ++ storage.root := by
  unfold LocalFileStorage._resolve
  by_cases h : objectKeyMatches key = true
  · simp only [h, if_true, (joinpath_key storage.root h).1, true_and, Option.ite_none_right_eq_some,
      Option.some.injEq, List.isSuffixOf_iff_suffix]
    constructor
    · rintro ⟨⟨s, hs⟩, rfl⟩
      exact ⟨rfl, s, hs.symm⟩
    · rintro ⟨rfl, s, hs⟩
      exact ⟨⟨s, hs.symm⟩, rfl⟩
  · simp [h]

def Unlinked (storage : LocalFileStorage links) : Prop :=
  ∀ s, s ≠ [] → links.destination (s ++ storage.root) = none

/-- Where no link stands below the root, a key that has the form never leaves it. -/
theorem _resolve_eq (hl : Unlinked storage) (key : String) :
    storage._resolve key = if objectKeyMatches key then some (keyPath storage.root key) else none := by
  have hresolve : ∀ names : List String, ".." ∉ names →
    resolve links (names ++ storage.root) = names ++ storage.root := by
    intro names hnames
    induction names with
    | nil => exact resolve_of_real storage.resolved
    | cons name names ih =>
      rw [List.mem_cons, not_or] at hnames
      rw [List.cons_append, resolve, if_neg (Ne.symm hnames.1), ih hnames.2, ← List.cons_append,
        hl _ (List.cons_ne_nil _ _)]
      rfl
  by_cases h : objectKeyMatches key = true
  · rw [if_pos h, _resolve_eq_some]
    exact ⟨h, hresolve _ (joinpath_key storage.root h).2, _, rfl⟩
  · rw [if_neg h, Option.eq_none_iff_forall_not_mem]
    intro path hpath
    exact h (_resolve_eq_some.1 hpath).1

open LocalFileStorage

variable {faults : Faults} {stream : Stream Thrown} {made : ℕ} {name : String} {s : List String}
  {answer : Answer} {ops : List (StorageOp String)}

theorem _safeUnlink_confined (hs : s ≠ []) : Confined root t (_safeUnlink (s ++ root) answer t).2 := by
  unfold _safeUnlink
  cases hu : t.unlink (s ++ root) with
  | ok t' => exact .unlink s hs hu
  | error e => cases e <;> exact .refl root t

theorem writeFile_confined (hs : s ≠ []) : Confined root t (writeFile settings faults stream (s ++ root) t).2 := by
  have hset : ∀ node, Confined root t (t.set (s ++ root) node) := fun node ↦ .set s hs
  unfold writeFile
  cases t.openError (s ++ root) with
  | some e => exact _safeUnlink_confined hs
  | none => cases faults.openFile with
    | some x =>
      obtain ⟨created, e⟩ := x
      refine Confined.trans ?_ (_safeUnlink_confined hs)
      cases created with
      | true => exact hset _
      | false => exact .refl root t
    | none =>
      dsimp only
      split
      · exact (hset _).trans (_safeUnlink_confined hs)
      · exact hset _

theorem writeStream_confined (hroot : t.walk root = .ok .directory) :
    Confined root t (writeStream settings faults made stream (name :: s ++ root) t).2 := by
  unfold writeStream
  cases faults.mkdir with
  | some e =>
    dsimp only
    cases hm : t.mkdir ((name :: s ++ root).tail.drop made) with
    | error e => exact .refl root t
    | ok t' => exact .mkdir s hroot (List.drop_suffix made _) hm
  | none =>
    dsimp only
    cases hm : t.mkdir (name :: s ++ root).tail with
    | error e => exact .refl root t
    | ok t' =>
      have hmkdir := Confined.mkdir s hroot (List.suffix_refl _) hm
      exact hmkdir.trans (writeFile_confined (List.cons_ne_nil _ _))

theorem delete_confined (hs : s ≠ []) : Confined root t (delete (s ++ root) t).2 := by
  unfold delete
  cases hu : t.unlink (s ++ root) with
  | ok t' => exact .unlink s hs hu
  | error e => cases e <;> exact .refl root t

theorem drop_walk (hroot : t.walk root = .ok .directory) (n : ℕ) : t.mkdir (root.tail.drop n) = .ok t :=
  mkdir_of_walk (walk_of_suffix hroot ((List.drop_suffix n _).trans (List.tail_suffix root)))

theorem openError_root (hroot : t.walk root = .ok .directory) : t.openError root = some .isADirectory := by
  cases root with
  | nil => rfl
  | cons name path =>
    obtain ⟨hpath, hhere⟩ := walk_of_walk_cons hroot
    simp [Tree.openError, hpath, hhere]

theorem _safeUnlink_root (hroot : t.walk root = .ok .directory) :
    _safeUnlink root answer t = (.osError .isADirectory, t) := by
  simp [_safeUnlink, Tree.unlink, hroot]

theorem delete_root (hroot : t.walk root = .ok .directory) : delete root t = (.osError .isADirectory, t) := by
  simp [delete, Tree.unlink, hroot]

theorem writeStream_root (hroot : t.walk root = .ok .directory) : writeStream settings faults made stream root t =
    (faults.mkdir.elim (.osError .isADirectory) fun e ↦ .written (.error (.thrown e)), t) := by
  have hparent : t.mkdir root.tail = .ok t := drop_walk hroot 0
  unfold writeStream
  cases faults.mkdir with
  | some e => simp only [drop_walk hroot, Option.elim_some]
  | none => simp only [hparent, writeFile, openError_root hroot, _safeUnlink_root hroot, Option.elim_none]

theorem step_confined (hroot : t.walk storage.root = .ok .directory) :
    Confined storage.root t (step settings directorySize storage op t).2 := by
  have hrefl := Confined.refl storage.root t
  cases op with
  | writeStream key stream faults made =>
    simp only [step]
    split
    · exact hrefl
    · rename_i path hpath
      obtain ⟨-, -, s, rfl⟩ := _resolve_eq_some.1 hpath
      cases s with
      | nil =>
        rw [List.nil_append, writeStream_root hroot]
        exact hrefl
      | cons name s => exact writeStream_confined hroot
  | delete key =>
    simp only [step]
    split
    · exact hrefl
    · rename_i path hpath
      obtain ⟨-, -, s, rfl⟩ := _resolve_eq_some.1 hpath
      cases s with
      | nil =>
        rw [List.nil_append, delete_root hroot]
        exact hrefl
      | cons name s => exact delete_confined (List.cons_ne_nil _ _)
  | aiterChunks key chunkSize =>
    simp only [step]
    split <;> exact hrefl
  | stat key =>
    simp only [step]
    split <;> exact hrefl

theorem run_confined (hroot : t.walk storage.root = .ok .directory) :
    Confined storage.root t (run settings directorySize storage ops t).2 := by
  induction ops generalizing t with
  | nil => exact .refl storage.root t
  | cons op ops ih =>
    have hstep : Confined storage.root t (step settings directorySize storage op t).2 := step_confined hroot
    exact hstep.trans (ih (hstep.walk.trans hroot))

/-- The same answer, and trees that agree below the root. -/
structure Same (root : List String) (x y : Answer × FileTree) : Prop where
  answer : x.1 = y.1
  agree : Agree root x.2 y.2

section Same

variable (h : Agree root t u)
include h

theorem _safeUnlink_same (hs : s ≠ []) :
    Same root (_safeUnlink (s ++ root) answer t) (_safeUnlink (s ++ root) answer u) := by
  unfold _safeUnlink
  rcases h.unlink s hs with ⟨e, ht, hu⟩ | ⟨t', u', ht, hu, hagree⟩
  · rw [ht, hu]
    cases e <;> exact ⟨rfl, h⟩
  · rw [ht, hu]
    exact ⟨rfl, hagree⟩

theorem writeFile_same : Same root (writeFile settings faults stream (name :: s ++ root) t)
    (writeFile settings faults stream (name :: s ++ root) u) := by
  have hs : name :: s ≠ [] := List.cons_ne_nil _ _
  have hset : ∀ node, Agree root (t.set (name :: s ++ root) node) (u.set (name :: s ++ root) node) := h.set _ hs
  unfold writeFile
  rw [← h.openError name s]
  cases t.openError (name :: s ++ root) with
  | some e => exact _safeUnlink_same h hs
  | none => cases faults.openFile with
    | some x =>
      obtain ⟨created, e⟩ := x
      refine _safeUnlink_same ?_ hs
      cases created with
      | true => exact hset _
      | false => exact h
    | none =>
      dsimp only
      split
      · exact _safeUnlink_same (hset _) hs
      · exact ⟨rfl, hset _⟩

theorem writeStream_same : Same root (writeStream settings faults made stream (name :: s ++ root) t)
    (writeStream settings faults made stream (name :: s ++ root) u) := by
  unfold writeStream
  cases faults.mkdir with
  | some e =>
    dsimp only
    rcases h.mkdir s (List.drop_suffix made (s ++ root)) with ⟨e', ht, hu⟩ | ⟨t', u', ht, hu, hagree⟩
    · simp only [List.cons_append, List.tail_cons, ht, hu]
      exact ⟨rfl, h⟩
    · simp only [List.cons_append, List.tail_cons, ht, hu]
      exact ⟨rfl, hagree⟩
  | none =>
    dsimp only
    rcases h.mkdir s (List.suffix_refl (s ++ root)) with ⟨e', ht, hu⟩ | ⟨t', u', ht, hu, hagree⟩
    · simp only [List.cons_append, List.tail_cons, ht, hu]
      exact ⟨rfl, h⟩
    · simp only [List.cons_append, List.tail_cons, ht, hu]
      exact writeFile_same hagree

theorem delete_same (hs : s ≠ []) : Same root (delete (s ++ root) t) (delete (s ++ root) u) := by
  unfold delete
  rcases h.unlink s hs with ⟨e, ht, hu⟩ | ⟨t', u', ht, hu, hagree⟩
  · rw [ht, hu]
    cases e <;> exact ⟨rfl, h⟩
  · rw [ht, hu]
    exact ⟨rfl, hagree⟩

end Same

/-- Two file systems have the same links below the root, and none of them leads out of it. -/
structure SameLinks (links links' : Links) (root : List String) : Prop where
  same : ∀ s, s ≠ [] → links.destination (s ++ root) = links'.destination (s ++ root)
  inward : ∀ s q, s ≠ [] → links.destination (s ++ root) = some q → root <:+ q

/-- Through links that stay below the root a path below it leads to the same place. -/
theorem SameLinks.resolve (h : SameLinks links links' root) (hr : Real links.destination root)
    (hr' : Real links'.destination root) {names : List String} (hn : ".." ∉ names) :
    resolve links (names ++ root) = LocalStorage.resolve links' (names ++ root) ∧
      root <:+ LocalStorage.resolve links (names ++ root) := by
  induction names with
  | nil =>
    rw [List.nil_append, resolve_of_real hr, resolve_of_real hr']
    exact ⟨rfl, List.suffix_refl _⟩
  | cons name names ih =>
    rw [List.mem_cons, not_or] at hn
    obtain ⟨hsame, s, hs⟩ := ih hn.2
    have hne : name :: s ≠ [] := List.cons_ne_nil _ _
    have hdest := h.same (name :: s) hne
    rw [List.cons_append, LocalStorage.resolve, LocalStorage.resolve, if_neg (Ne.symm hn.1), if_neg (Ne.symm hn.1),
      ← hsame, ← hs, ← List.cons_append, ← hdest]
    refine ⟨rfl, ?_⟩
    cases hd : links.destination (name :: s ++ root) with
    | none => exact List.suffix_append _ _
    | some q => exact h.inward _ q hne hd

theorem _resolve_same (hl : SameLinks links links' storage.root) (hroot : storage'.root = storage.root)
    (key : String) :
    storage'._resolve key = storage._resolve key := by
  unfold LocalFileStorage._resolve
  by_cases h : objectKeyMatches key = true
  · have hpath := joinpath_key storage.root h
    have hsame := hl.resolve storage.resolved (hroot ▸ storage'.resolved) hpath.2
    have hkey : (keyPath storage.root key).take 3 ++ storage.root = keyPath storage.root key := rfl
    rw [hkey] at hsame
    simp only [h, if_true, hroot, hpath.1, hsame.1]
  · simp only [if_neg h]

theorem step_same (hl : SameLinks links links' storage.root) (hroot : storage'.root = storage.root)
    (h : Agree storage.root t u) :
    Same storage.root (step settings directorySize storage op t) (step settings directorySize storage' op u) := by
  have hwalk : ∀ {key path}, storage._resolve key = some path → t.walk path = u.walk path := by
    intro key path hpath
    obtain ⟨-, -, s, rfl⟩ := _resolve_eq_some.1 hpath
    exact h.walk s
  cases op with
  | writeStream key stream faults made =>
    simp only [step, _resolve_same hl hroot]
    split
    · exact ⟨rfl, h⟩
    · rename_i path hpath
      obtain ⟨-, -, s, rfl⟩ := _resolve_eq_some.1 hpath
      cases s with
      | nil =>
        rw [List.nil_append, writeStream_root h.left, writeStream_root h.right]
        exact ⟨rfl, h⟩
      | cons name s => exact writeStream_same h
  | delete key =>
    simp only [step, _resolve_same hl hroot]
    split
    · exact ⟨rfl, h⟩
    · rename_i path hpath
      obtain ⟨-, -, s, rfl⟩ := _resolve_eq_some.1 hpath
      cases s with
      | nil =>
        rw [List.nil_append, delete_root h.left, delete_root h.right]
        exact ⟨rfl, h⟩
      | cons name s => exact delete_same h (List.cons_ne_nil _ _)
  | aiterChunks key chunkSize =>
    simp only [step, _resolve_same hl hroot]
    split
    · exact ⟨rfl, h⟩
    · rename_i path hpath
      exact ⟨by simp only [LocalFileStorage.read, hwalk hpath], h⟩
  | stat key =>
    simp only [step, _resolve_same hl hroot]
    split
    · exact ⟨rfl, h⟩
    · rename_i path hpath
      exact ⟨by simp only [LocalFileStorage.stat, hwalk hpath], h⟩

theorem run_same (hl : SameLinks links links' storage.root) (hroot : storage'.root = storage.root)
    (h : Agree storage.root t u) :
    (run settings directorySize storage ops t).1 = (run settings directorySize storage' ops u).1 ∧
      Agree storage.root (run settings directorySize storage ops t).2
      (run settings directorySize storage' ops u).2 := by
  induction ops generalizing t u with
  | nil => exact ⟨rfl, h⟩
  | cons op ops ih =>
    have hstep : Same storage.root (step settings directorySize storage op t)
        (step settings directorySize storage' op u) := step_same hl hroot h
    obtain ⟨hanswers, hagree⟩ := ih hstep.agree
    exact ⟨congrArg₂ List.cons hstep.answer hanswers, hagree⟩

/-- Whatever the keys and the links are, a run writes nothing outside the root; and where no link leads out
of the root, what it answers and does depends on nothing outside the root. -/
theorem storage_confined (settings : FileSettings) (directorySize : ℕ) (links : Links)
    (storage : LocalFileStorage links)
    (ops : List (StorageOp String)) (t : FileTree) (ht : t.walk storage.root = .ok .directory) :
    (∀ q, (∀ s, s ≠ [] → q ≠ s ++ storage.root) → (run settings directorySize storage ops t).2 q = t q) ∧
      ∀ (links' : Links) (storage' : LocalFileStorage links') (u : FileTree), storage'.root = storage.root →
        SameLinks links links' storage.root → u.walk storage.root = .ok .directory →
        (∀ s, s ≠ [] → t (s ++ storage.root) = u (s ++ storage.root)) →
        (run settings directorySize storage ops t).1 = (run settings directorySize storage' ops u).1 ∧
          ∀ s, s ≠ [] → (run settings directorySize storage ops t).2 (s ++ storage.root) =
            (run settings directorySize storage' ops u).2 (s ++ storage.root) := by
  refine ⟨run_confined ht, fun links' storage' u hroot hl hu hbelow ↦ ?_⟩
  obtain ⟨hanswers, hagree⟩ := run_same hl hroot ⟨ht, hu, hbelow⟩
  exact ⟨hanswers, hagree.below⟩

def escape : Links where
  destination p := if p = ["ab", "uploads"] then some ["etc"] else none
  real p q h := by
    rw [Option.ite_none_right_eq_some, Option.some.injEq] at h
    rw [← h.2]
    refine ⟨by decide, fun s hs _ ↦ if_neg fun he ↦ ?_⟩
    rw [he] at hs
    exact absurd hs.length_le (by decide)

def escaping : LocalFileStorage escape := .init escape ["uploads"]

def host : FileTree
  | ["uploads"] => some .directory
  | ["etc"] => some .directory
  | ["passwd", "etc"] => some (.file [0x72, 0x6F, 0x6F, 0x74])
  | _ => none

def textOnly : FileSettings where
  maxBytes := 16
  allowedExtensions := ["txt"]
  storageBackendName := "local"
  sha256 := fun _ ↦ ""
  lower := id

def traversal : List (StorageOp String) :=
  [.delete "../../etc/passwd", .writeStream "abcd0000000000000000000000000000" ⟨[], none⟩ {} 0]

theorem storage_confined_traversal :
    (run textOnly 4096 escaping traversal host).1 = [.storagePathError, .storagePathError] ∧
      (run textOnly 4096 escaping traversal host).2 ["passwd", "etc"] = host ["passwd", "etc"] := by
  refine ⟨by decide, (storage_confined textOnly 4096 escape escaping traversal host rfl).1 _ ?_⟩
  intro s hs he
  have hlast := congrArg List.getLast? he
  have hroot : escaping.root = ["uploads"] := by decide
  rw [hroot, List.getLast?_append] at hlast
  have hetc : "etc" = "uploads" := Option.some.inj hlast
  exact absurd hetc (by decide)

end AdminPlatform.File.LocalStorage
