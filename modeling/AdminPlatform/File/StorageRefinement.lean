import AdminPlatform.File.LocalStorage
import AdminPlatform.File.UploadAtomicity
import Mathlib.Algebra.GroupWithZero.Nat

namespace AdminPlatform.File.StorageRefinement

open Foundation.FileTree LocalStorage LocalFileStorage
open Service (Bytes FileSettings StoredStat Stream)
open UploadSteps hiding writeStream

variable {settings : FileSettings} {directorySize : ℕ} {links : Links} {storage : LocalFileStorage links}
  {faults : Faults}
  {stream : Stream Thrown} {made chunkSize : ℕ} {root : List String} {t : FileTree}

/-- `n` hexadecimal digits of a number. -/
def hexDigits : ℕ → ℕ → List Char
  | 0, _ => []
  | n + 1, key => hexDigits n (key / 16) ++ [Nat.digitChar (key % 16)]

/-- `UUID.hex` -/
def hex (key : ℕ) : String := .ofList (hexDigits 32 key)

variable {key n : ℕ} {disk : Disk} {content : Bytes} {c : Bytes}

@[simp] theorem length_hexDigits : (hexDigits n key).length = n := by
  induction n generalizing key with
  | zero => rfl
  | succ n ih => rw [hexDigits, List.length_append, ih, List.length_singleton]

theorem isKeyChar_digitChar (h : n < 16) : isKeyChar (Nat.digitChar n) = true := by
  have hall : ∀ n < 16, isKeyChar (Nat.digitChar n) = true := by decide
  exact hall n h

theorem isKeyChar_of_mem {d : Char} (h : d ∈ hexDigits n key) : isKeyChar d = true := by
  induction n generalizing key with
  | zero => cases h
  | succ n ih =>
    rcases List.mem_append.1 h with h | h
    · exact ih h
    · rw [List.mem_singleton.1 h]
      exact isKeyChar_digitChar (Nat.mod_lt _ (by decide))

theorem digitChar_inj {m : ℕ} (hn : n < 16) (hm : m < 16) (h : Nat.digitChar n = Nat.digitChar m) : n = m := by
  have hall : ∀ n < 16, ∀ m < 16, Nat.digitChar n = Nat.digitChar m → n = m := by decide
  exact hall n hn m hm h

theorem hexDigits_inj {key' : ℕ} (hk : key < 16 ^ n) (hk' : key' < 16 ^ n)
    (h : hexDigits n key = hexDigits n key') : key = key' := by
  induction n generalizing key key' with
  | zero => omega
  | succ n ih =>
    rw [Nat.pow_succ] at hk hk'
    obtain ⟨hhigh, hlow⟩ := List.append_inj' h rfl
    have hdiv := ih (by omega) (by omega) hhigh
    have hmod := digitChar_inj (Nat.mod_lt _ (by decide)) (Nat.mod_lt _ (by decide)) (List.singleton_inj.1 hlow)
    omega

theorem hex_inj {key' : ℕ} (hk : key < 16 ^ 32) (hk' : key' < 16 ^ 32) (h : hex key = hex key') : key = key' :=
  hexDigits_inj hk hk' (by simpa [hex] using congrArg String.toList h)

theorem objectKeyMatches_hex (key : ℕ) : objectKeyMatches (hex key) = true := by
  have hlen : (hexDigits 32 key).length = 32 := length_hexDigits
  have htake : (hexDigits 32 key).take 32 = hexDigits 32 key := List.take_of_length_le (Nat.le_of_eq hlen)
  have hdrop : (hexDigits 32 key).drop 32 = [] := List.drop_eq_nil_of_le (Nat.le_of_eq hlen)
  simp only [objectKeyMatches, hex, String.toList_ofList, htake, hdrop, hlen, decide_true, Bool.true_and,
    true_or, Bool.and_true, List.all_eq_true]
  exact fun d hd ↦ isKeyChar_of_mem hd

def path (root : List String) (key : ℕ) : List String := keyPath root (hex key)

def buckets (root : List String) (key : ℕ) : List String := (path root key).tail

theorem length_path : (path root key).length = root.length + 3 := by
  rw [path, keyPath, List.length_append]
  exact Nat.add_comm _ _

theorem length_buckets : (buckets root key).length = root.length + 2 := by
  rw [buckets, List.length_tail, length_path]
  rfl

theorem path_inj {key' : ℕ} (hk : key < 16 ^ 32) (hk' : key' < 16 ^ 32) (h : path root key = path root key') :
    key = key' := hex_inj hk hk' (List.cons.inj h).1

/-- The tree has the directory of the storage, in it the objects at the paths of their keys, and no other
file. -/
structure Represents (root : List String) (t : FileTree) (disk : Disk) : Prop where
  directory : t.walk root = .ok .directory
  object : ∀ key < 16 ^ 32, t (path root key) = (disk key).map .file
  reached : ∀ key < 16 ^ 32, disk key ≠ none → t.walk (buckets root key) = .ok .directory
  file : ∀ s c, s ≠ [] → t (s ++ root) = some (.file c) → ∃ key < 16 ^ 32, s ++ root = path root key

namespace Represents

variable (h : Represents root t disk)
include h

theorem not_file {q : List String} (hq : q <:+ buckets root key) (hne : q ≠ []) (c : Bytes) :
    t q ≠ some (.file c) := by
  intro hfile
  have hlen := hq.length_le
  rw [length_buckets] at hlen
  rcases List.suffix_or_suffix_of_suffix hq (List.suffix_append _ root) with hq | ⟨s, rfl⟩
  · rw [walk_iff.1 h.directory q hq hne] at hfile
    cases hfile
  · by_cases hs : s = []
    · subst hs
      rw [List.nil_append] at hfile hne
      rw [walk_iff.1 h.directory root (List.suffix_refl _) hne] at hfile
      cases hfile
    · obtain ⟨key', -, he⟩ := h.file s c hs hfile
      have hpath : (path root key').length = root.length + 3 := length_path
      rw [← he] at hpath
      omega

/-- What a walk to the path of a key finds. -/
theorem walk_path (hk : key < 16 ^ 32) : t.walk (path root key) = Tree.entry ((disk key).map .file) := by
  have hobject := h.object key hk
  have hcons : path root key = hex key :: buckets root key := rfl
  rw [hcons] at hobject ⊢
  rcases walk_of_no_file fun q (hq : q <:+ buckets root key) hne ↦ h.not_file hq hne with hwalk | hwalk
  · rw [walk_cons hwalk, hobject]
  · cases hd : disk key with
    | none =>
      rw [Tree.walk, hwalk]
      rfl
    | some c =>
      have hreached := h.reached key hk (by simp [hd])
      rw [hreached] at hwalk
      cases hwalk

/-- Directories may be made on the way to a key. -/
theorem mkdir {q : List String} (hq : q <:+ buckets root key) :
    ∃ t', t.mkdir q = .ok t' ∧ t'.walk q = .ok .directory ∧ Represents root t' disk := by
  obtain ⟨t', hmkdir, hwalk⟩ := exists_mkdir fun p hp hne ↦ h.not_file (hp.trans hq) hne
  have hkeep : ∀ p, t p = some .directory → t' p = some .directory := fun p hp ↦ by
    rcases mkdir_frame hmkdir p with he | ⟨-, -, he⟩
    · exact he.trans hp
    · exact he
  have hmono : ∀ {p}, t.walk p = .ok .directory → t'.walk p = .ok .directory :=
    fun hp ↦ walk_iff.2 fun p' hp' hne ↦ hkeep p' (walk_iff.1 hp p' hp' hne)
  refine ⟨t', hmkdir, hwalk, hmono h.directory, fun key' hk ↦ ?_,
    fun key' hk hd ↦ hmono (h.reached key' hk hd), ?_⟩
  · rcases mkdir_frame hmkdir (path root key') with he | ⟨hsuf, -, -⟩
    · exact he.trans (h.object key' hk)
    · have hlen := (hsuf.trans hq).length_le
      rw [length_path, length_buckets] at hlen
      omega
  · intro s c hs hfile
    rcases mkdir_frame hmkdir (s ++ root) with he | ⟨-, -, he⟩
    · exact h.file s c hs (he.symm.trans hfile)
    · rw [he] at hfile
      cases hfile

/-- What is written at the path of a key. -/
theorem update (hk : key < 16 ^ 32) (content : Option Bytes)
    (hwalk : content ≠ none → t.walk (buckets root key) = .ok .directory) :
    Represents root (t.set (path root key) (content.map .file)) (Function.update disk key content) := by
  have hconfined : Confined root t (t.set (path root key) (content.map .file)) :=
    .set _ (List.cons_ne_nil _ _)
  have hbucket : ∀ key', (t.set (path root key) (content.map .file)).walk (buckets root key') =
      t.walk (buckets root key') := fun key' ↦ walk_congr fun q hq _ ↦ by
    refine set_of_ne fun he ↦ ?_
    have hlen := hq.length_le
    rw [he, length_path, length_buckets] at hlen
    omega
  refine ⟨hconfined.walk.trans h.directory, fun key' hk' ↦ ?_, fun key' hk' hd ↦ ?_, fun s c hs hfile ↦ ?_⟩
  · by_cases he : key' = key
    · rw [he, set_self, Function.update_self]
    · rw [set_of_ne fun hp ↦ he (path_inj hk' hk hp), Function.update_of_ne he, h.object key' hk']
  · rw [hbucket]
    by_cases he : key' = key
    · subst he
      rw [Function.update_self] at hd
      exact hwalk hd
    · rw [Function.update_of_ne he] at hd
      exact h.reached key' hk' hd
  · by_cases he : s ++ root = path root key
    · exact ⟨key, hk, he⟩
    · rw [set_of_ne he] at hfile
      exact h.file s c hs hfile

theorem store (hk : key < 16 ^ 32) (content : Bytes) (hwalk : t.walk (buckets root key) = .ok .directory) :
    Represents root (t.set (path root key) (some (.file content))) (disk.store key content) :=
  h.update hk (some content) fun _ ↦ hwalk

/-- Unlinking leaves the disk without the object, whether or not it was there. -/
theorem unlink (hk : key < 16 ^ 32) :
    (disk key = none ∧ t.unlink (path root key) = .error .fileNotFound ∧ disk.unlink key = disk) ∨
      ∃ t', disk key ≠ none ∧ t.unlink (path root key) = .ok t' ∧ Represents root t' (disk.unlink key) := by
  have hpath := h.walk_path hk
  cases hd : disk key with
  | none =>
    rw [hd] at hpath
    refine .inl ⟨rfl, by rw [Tree.unlink, hpath]; rfl, ?_⟩
    rw [Disk.unlink, ← hd, Function.update_eq_self]
  | some c =>
    rw [hd] at hpath
    exact .inr ⟨_, by simp, by rw [Tree.unlink, hpath]; rfl, h.update hk none fun hn ↦ absurd rfl hn⟩

theorem safeUnlink (hk : key < 16 ^ 32) (answer : Answer) :
    ∃ t', _safeUnlink (path root key) answer t = (answer, t') ∧ Represents root t' (disk.unlink key) := by
  unfold _safeUnlink
  rcases h.unlink hk with ⟨-, hu, he⟩ | ⟨t', -, hu, ht'⟩
  · rw [hu, he]
    exact ⟨t, rfl, h⟩
  · rw [hu]
    exact ⟨t', rfl, ht'⟩

end Represents

section Refinement

variable (settings : FileSettings)

def onDisk (disk : Disk) : StorageOp ℕ → Answer × Disk
  | .writeStream key stream faults _ =>
    let (result, disk) := UploadSteps.writeStream settings faults key stream disk
    (.written result, disk)
  | .aiterChunks key chunkSize => (.chunks ((disk key).map (aiterChunks chunkSize)), disk)
  | .delete key => (.deleted (disk key).isSome, disk.unlink key)
  | .stat key => (.size ((disk key).map List.length), disk)

def runOnDisk : List (StorageOp ℕ) → Disk → List Answer × Disk
  | [], disk => ([], disk)
  | op :: ops, disk =>
    let (answer, disk) := onDisk settings disk op
    let (answers, disk) := runOnDisk ops disk
    (answer :: answers, disk)

end Refinement

/-- The operation with the key that `uuid4().hex` gives. -/
def withHex : StorageOp ℕ → StorageOp String
  | .writeStream key stream faults made => .writeStream (hex key) stream faults made
  | .aiterChunks key chunkSize => .aiterChunks (hex key) chunkSize
  | .delete key => .delete (hex key)
  | .stat key => .stat (hex key)

def keyOf : StorageOp ℕ → ℕ
  | .writeStream key .. => key
  | .aiterChunks key _ => key
  | .delete key => key
  | .stat key => key

theorem _resolve_hex (hl : Unlinked storage) (key : ℕ) :
    storage._resolve (hex key) = some (path storage.root key) := by
  rw [_resolve_eq hl, if_pos (objectKeyMatches_hex key), path]

def Simulates (root : List String) (x : Answer × FileTree) (y : Answer × Disk) : Prop :=
  x.1 = y.1 ∧ Represents root x.2 y.2

section Simulation

variable (h : Represents root t disk) (hk : key < 16 ^ 32)
include h hk

theorem writeFile_simulates (hwalk : t.walk (buckets root key) = .ok .directory) (hm : faults.mkdir = none) :
    Simulates root (writeFile settings faults stream (path root key) t)
      (onDisk settings disk (.writeStream key stream faults made)) := by
  have hopen : t.openError (path root key) = none := by
    have hobject := h.object key hk
    have hcons : path root key = hex key :: buckets root key := rfl
    rw [hcons] at hobject ⊢
    rw [Tree.openError, hwalk, hobject]
    cases disk key <;> rfl
  unfold writeFile onDisk UploadSteps.writeStream
  dsimp only
  rw [hopen, hm]
  dsimp only
  cases faults.openFile with
  | some x =>
    obtain ⟨created, e⟩ := x
    cases created with
    | true =>
      obtain ⟨t', he, ht'⟩ := (h.store hk [] hwalk).safeUnlink hk (.written (.error (.thrown e)))
      exact ⟨congrArg Prod.fst he, (congrArg Prod.snd he).symm ▸ ht'⟩
    | false =>
      obtain ⟨t', he, ht'⟩ := h.safeUnlink hk (.written (.error (.thrown e)))
      exact ⟨congrArg Prod.fst he, (congrArg Prod.snd he).symm ▸ ht'⟩
  | none =>
    dsimp only
    cases hc : closed faults (writeChunks faults settings.maxBytes stream.raises 0 {} stream.chunks).2 with
    | none => exact ⟨rfl, h.store hk _ hwalk⟩
    | some e =>
      obtain ⟨t', he, ht'⟩ := (h.store hk (writeChunks faults settings.maxBytes stream.raises 0 {}
        stream.chunks).1.content hwalk).safeUnlink hk (.written (.error e))
      exact ⟨congrArg Prod.fst he, (congrArg Prod.snd he).symm ▸ ht'⟩

theorem writeStream_simulates : Simulates root
    (LocalFileStorage.writeStream settings faults made stream (path root key) t)
    (onDisk settings disk (.writeStream key stream faults made)) := by
  unfold LocalFileStorage.writeStream
  cases hm : faults.mkdir with
  | some e =>
    have hsuffix : (path root key).tail.drop made <:+ buckets root key := List.drop_suffix made _
    obtain ⟨t', hmade, -, ht'⟩ := h.mkdir hsuffix
    have hdisk : onDisk settings disk (.writeStream key stream faults made) =
        (.written (.error (.thrown e)), disk) := by
      unfold onDisk UploadSteps.writeStream
      dsimp only
      rw [hm]
    dsimp only
    rw [hmade, hdisk]
    exact ⟨rfl, ht'⟩
  | none =>
    have hsuffix : (path root key).tail <:+ buckets root key := List.suffix_refl _
    obtain ⟨t', hmade, hwalk, ht'⟩ := h.mkdir hsuffix
    dsimp only
    rw [hmade]
    exact writeFile_simulates ht' hk hwalk hm

theorem delete_simulates : Simulates root (LocalFileStorage.delete (path root key) t)
    (onDisk settings disk (.delete key)) := by
  unfold LocalFileStorage.delete
  rcases h.unlink hk with ⟨hd, hu, he⟩ | ⟨t', hd, hu, ht'⟩
  · rw [hu]
    refine ⟨?_, ?_⟩
    · rw [onDisk, hd]
      rfl
    · rw [onDisk, he]
      exact h
  · rw [hu]
    refine ⟨?_, ht'⟩
    rw [onDisk, Option.isSome_iff_ne_none.2 hd]

theorem read_simulates : Simulates root (LocalFileStorage.read chunkSize (path root key) t, t)
    (onDisk settings disk (.aiterChunks key chunkSize)) := by
  refine ⟨?_, h⟩
  rw [LocalFileStorage.read, h.walk_path hk, onDisk]
  cases disk key <;> rfl

theorem stat_simulates : Simulates root (LocalFileStorage.stat directorySize (path root key) t, t)
    (onDisk settings disk (.stat key)) := by
  refine ⟨?_, h⟩
  rw [LocalFileStorage.stat, h.walk_path hk, onDisk]
  cases disk key <;> rfl

end Simulation

theorem step_simulates (hl : Unlinked storage) {op : StorageOp ℕ} (h : Represents storage.root t disk)
    (hk : keyOf op < 16 ^ 32) :
    Simulates storage.root (step settings directorySize storage (withHex op) t) (onDisk settings disk op) := by
  cases op with
  | writeStream key stream faults made =>
    simp only [withHex, step, _resolve_hex hl]
    exact writeStream_simulates h hk
  | aiterChunks key chunkSize =>
    simp only [withHex, step, _resolve_hex hl]
    exact read_simulates h hk
  | delete key =>
    simp only [withHex, step, _resolve_hex hl]
    exact delete_simulates h hk
  | stat key =>
    simp only [withHex, step, _resolve_hex hl]
    exact stat_simulates h hk

theorem run_simulates (hl : Unlinked storage) {ops : List (StorageOp ℕ)} (h : Represents storage.root t disk)
    (hk : ∀ op ∈ ops, keyOf op < 16 ^ 32) :
    (run settings directorySize storage (ops.map withHex) t).1 = (runOnDisk settings ops disk).1 ∧
      Represents storage.root (run settings directorySize storage (ops.map withHex) t).2
        (runOnDisk settings ops disk).2 := by
  induction ops generalizing t disk with
  | nil => exact ⟨rfl, h⟩
  | cons op ops ih =>
    have hstep : Simulates storage.root (step settings directorySize storage (withHex op) t)
        (onDisk settings disk op) := step_simulates hl h (hk op List.mem_cons_self)
    obtain ⟨hanswers, hrep⟩ := ih hstep.2 fun op hop ↦ hk op (List.mem_cons_of_mem _ hop)
    exact ⟨congrArg₂ List.cons hstep.1 hanswers, hrep⟩

/-- Every run of the storage on keys that `uuid4` gives answers as the disk of objects does, and leaves those
objects at their paths and no other file below the root, where no link stands below it. -/
theorem local_storage_refines (settings : FileSettings) (directorySize : ℕ) (links : Links)
    (storage : LocalFileStorage links) (hl : Unlinked storage) (ops : List (StorageOp ℕ)) (t : FileTree)
    (disk : Disk) (h : Represents storage.root t disk)
    (hk : ∀ op ∈ ops, keyOf op < 16 ^ 32) :
    (run settings directorySize storage (ops.map withHex) t).1 = (runOnDisk settings ops disk).1 ∧
      Represents storage.root (run settings directorySize storage (ops.map withHex) t).2
        (runOnDisk settings ops disk).2 ∧
      ∀ q, (∀ s, s ≠ [] → q ≠ s ++ storage.root) →
        (run settings directorySize storage (ops.map withHex) t).2 q = t q := by
  obtain ⟨hanswers, hrep⟩ := run_simulates hl h hk
  exact ⟨hanswers, hrep, run_confined h.directory⟩

theorem represents_empty (hroot : t.walk root = .ok .directory) (h : ∀ s, s ≠ [] → t (s ++ root) = none) :
    Represents root t fun _ ↦ none where
  directory := hroot
  object _ _ := h _ (List.cons_ne_nil _ _)
  reached _ _ hd := absurd rfl hd
  file s c hs hfile := by
    rw [h s hs] at hfile
    cases hfile

def noLinks : Links := ⟨fun _ ↦ none, fun _ _ h ↦ by cases h⟩

def uploads : LocalFileStorage noLinks := .init noLinks ["uploads"]

theorem unlinked_uploads : Unlinked uploads := fun _ _ ↦ rfl

def emptyRoot : FileTree := Tree.set ["uploads"] (some .directory) fun _ ↦ none

theorem represents_emptyRoot : Represents uploads.root emptyRoot fun _ ↦ none :=
  represents_empty (by decide) fun _ hs ↦ set_of_ne fun he ↦ hs (List.append_left_eq_self.1 he)

theorem local_storage_refines_twice :
    (run textOnly 4096 uploads ([.delete 0xCAFE, .writeStream 0xCAFE ⟨[[0x68]], none⟩ {} 0, .delete 0xCAFE,
      .stat 0xCAFE].map withHex) emptyRoot).1 =
      [.deleted false, .written (.ok ⟨1, ""⟩), .deleted true, .size none] :=
  (local_storage_refines textOnly 4096 noLinks uploads unlinked_uploads _ _ _ represents_emptyRoot (by decide)).1

section Download

open WriteStream
open UploadAtomicity (flatten_verified)

/-- The reads give the content in order, in pieces of the chunk size at most, none of them empty. -/
theorem readChunks_spec {fuel : ℕ} (hn : 0 < n) (hfuel : content.length < fuel) :
    (readChunks n fuel content).flatten = content ∧
      ∀ chunk ∈ readChunks n fuel content, chunk ≠ [] ∧ chunk.length ≤ n := by
  induction fuel generalizing content with
  | zero => exact absurd hfuel (Nat.not_lt_zero _)
  | succ fuel ih =>
    unfold readChunks
    by_cases hempty : content = []
    · subst hempty
      simp
    · have hpos : 0 < content.length := List.length_pos_of_ne_nil hempty
      have htake : content.take n ≠ [] := fun h ↦ by
        have hlen := congrArg List.length h
        rw [List.length_take, List.length_nil] at hlen
        omega
      obtain ⟨hflat, hall⟩ := @ih (content.drop n) (by rw [List.length_drop]; omega)
      simp only [List.isEmpty_iff, if_neg htake]
      refine ⟨by rw [List.flatten_cons, hflat, List.take_append_drop], fun chunk hchunk ↦ ?_⟩
      rcases List.mem_cons.1 hchunk with rfl | hchunk
      · exact ⟨htake, List.length_take_le n content⟩
      · exact hall chunk hchunk

def leaves (key : ℕ) : StorageOp ℕ → Bool
  | .writeStream key' .. => decide (key' ≠ key)
  | .delete key' => decide (key' ≠ key)
  | .aiterChunks .. => true
  | .stat _ => true

theorem onDisk_of_leaves {op : StorageOp ℕ} (h : leaves key op = true) :
    (onDisk settings disk op).2 key = disk key := by
  cases op with
  | writeStream key' stream faults made => exact writeStream_of_ne (Ne.symm (of_decide_eq_true h))
  | delete key' => exact unlink_of_ne (Ne.symm (of_decide_eq_true h))
  | aiterChunks key' chunkSize => rfl
  | stat key' => rfl

theorem runOnDisk_of_leaves {ops : List (StorageOp ℕ)} (h : ∀ op ∈ ops, leaves key op = true) :
    (runOnDisk settings ops disk).2 key = disk key := by
  induction ops generalizing disk with
  | nil => rfl
  | cons op ops ih =>
    have hstep : (onDisk settings disk op).2 key = disk key := onDisk_of_leaves (h op List.mem_cons_self)
    exact (ih fun op hop ↦ h op (List.mem_cons_of_mem _ hop)).trans hstep

/-- What a write answers does not depend on the objects that are there. -/
theorem writeStream_result (key : ℕ) (disk disk' : Disk) :
    (UploadSteps.writeStream settings faults key stream disk).1 =
    (UploadSteps.writeStream settings faults key stream disk').1 := by
  unfold UploadSteps.writeStream
  split
  · rfl
  · split
    · rfl
    · dsimp only
      split <;> rfl

theorem storeFailure_of_ok {stat : StoredStat}
    (h : (UploadSteps.writeStream settings faults key stream disk).1 = .ok stat) :
    storeFailure settings faults stream = none := by
  rw [writeStream_result key disk fun _ ↦ none] at h
  cases hf : storeFailure settings faults stream with
  | none => rfl
  | some e =>
    obtain ⟨x, disk', hwrite, -, -⟩ := @writeStream_failed settings faults stream (fun _ ↦ none) key e hf rfl
    rw [hwrite] at h
    cases h

/-- The bytes of an upload that is accepted come back, whatever happens to other objects in between. -/
theorem bytes_come_back (settings : FileSettings) (directorySize : ℕ) (links : Links)
    (storage : LocalFileStorage links) (hl : Unlinked storage) (t t' : FileTree) (disk : Disk)
    (h : Represents storage.root t disk) (ext : String) (source : Stream Thrown) (faults : Faults)
    (key made chunkSize : ℕ) (stat : StoredStat) (hk : key < 16 ^ 32)
    (hw : step settings directorySize storage (withHex (.writeStream key (verified ext source) faults made)) t =
      (.written (.ok stat), t'))
    (ops : List (StorageOp ℕ)) (hops : ∀ op ∈ ops, keyOf op < 16 ^ 32 ∧ leaves key op = true)
    (hn : 0 < chunkSize) :
    ∃ chunks, (step settings directorySize storage (withHex (.aiterChunks key chunkSize))
        (run settings directorySize storage (ops.map withHex) t').2).1 = .chunks (some chunks) ∧
      chunks.flatten = source.chunks.flatten ∧ (∀ chunk ∈ chunks, chunk ≠ [] ∧ chunk.length ≤ chunkSize) ∧
      stat = ⟨source.chunks.flatten.length, settings.sha256 source.chunks.flatten⟩ ∧
      stat.sizeBytes ≤ settings.maxBytes := by
  have hstep : Simulates storage.root
      (step settings directorySize storage (withHex (.writeStream key (verified ext source) faults made)) t)
      (onDisk settings disk (.writeStream key (verified ext source) faults made)) := step_simulates hl h hk
  rw [hw] at hstep
  obtain ⟨hanswer, hrep⟩ := hstep
  have hresult : (UploadSteps.writeStream settings faults key (verified ext source) disk).1 = .ok stat :=
    (Answer.written.inj hanswer).symm
  obtain ⟨hraises, hsize, hwrite⟩ := writeStream_stored (storeFailure_of_ok hresult) key disk
  have hflat := (flatten_verified hraises).2
  rw [hflat] at hsize hwrite
  have hstat : stat = ⟨source.chunks.flatten.length, settings.sha256 source.chunks.flatten⟩ := by
    rw [hwrite] at hresult
    exact (Except.ok.inj hresult).symm
  have hrun : Represents storage.root (run settings directorySize storage (ops.map withHex) t').2
      (runOnDisk settings ops (onDisk settings disk (.writeStream key (verified ext source) faults made)).2).2 :=
    (run_simulates hl hrep fun op hop ↦ (hops op hop).1).2
  have hread : Simulates storage.root (step settings directorySize storage (withHex (.aiterChunks key chunkSize))
      (run settings directorySize storage (ops.map withHex) t').2)
      (onDisk settings _ (.aiterChunks key chunkSize)) :=
    step_simulates hl hrun hk
  have hkept : (runOnDisk settings ops (onDisk settings disk
      (.writeStream key (verified ext source) faults made)).2).2 key = some source.chunks.flatten := by
    rw [runOnDisk_of_leaves fun op hop ↦ (hops op hop).2]
    show (UploadSteps.writeStream settings faults key (verified ext source) disk).2 key = _
    rw [hwrite]
    exact store_self
  obtain ⟨hjoin, hpieces⟩ := readChunks_spec hn (Nat.lt_succ_self source.chunks.flatten.length)
  refine ⟨aiterChunks chunkSize source.chunks.flatten, ?_, hjoin, hpieces, hstat, ?_⟩
  · rw [hread.1]
    exact congrArg (fun content : Option Bytes ↦ Answer.chunks (content.map (aiterChunks chunkSize))) hkept
  · rw [hstat]
    exact hsize

def uploadHi : StorageOp ℕ := .writeStream 0xCAFE (verified "txt" ⟨[[0x68], [], [0x69]], none⟩) {} 0

theorem bytes_come_back_hi :
    ∃ chunks, (step textOnly 4096 uploads (withHex (.aiterChunks 0xCAFE 1))
        (run textOnly 4096 uploads ([.delete 0xBEEF].map withHex)
          (step textOnly 4096 uploads (withHex uploadHi) emptyRoot).2).2).1 = .chunks (some chunks) ∧
      chunks.flatten = [0x68, 0x69] := by
  obtain ⟨chunks, hread, hjoin, -⟩ := bytes_come_back textOnly 4096 noLinks uploads unlinked_uploads emptyRoot _ _
    represents_emptyRoot "txt" ⟨[[0x68], [], [0x69]], none⟩ {} 0xCAFE 0 1 ⟨2, ""⟩ (by decide)
    (Prod.ext (by decide) rfl)
    [.delete 0xBEEF] (by decide) (by decide)
  exact ⟨chunks, hread, hjoin⟩

end Download

end AdminPlatform.File.StorageRefinement
