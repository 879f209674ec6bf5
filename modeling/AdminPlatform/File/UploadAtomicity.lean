import AdminPlatform.File.WriteStream

namespace AdminPlatform.File.UploadAtomicity

open Model.Schema Model.Service UploadChecks UploadSteps WriteStream
open Service hiding writeStream upload

variable {settings : FileSettings} {stream : Stream Thrown} {u : Upload} {w : World} {e : Thrown}
  {content : Bytes}

def failureBefore (settings : FileSettings) (u : Upload) : Option Thrown :=
  if !allowed settings (extractExt settings u.filename) then
    some (appError (extensionNotAllowed (extractExt settings u.filename)))
  else (storeFailure settings u.faults (verified (extractExt settings u.filename) u.stream)).or
    (if u.stream.chunks.flatten = [] then some (appError emptyFile) else none)

def failure (settings : FileSettings) (u : Upload) : Option Thrown := (failureBefore settings u).or u.flush

/-- A verified stream that ends has passed on what the source gave. -/
theorem flatten_verified {ext : String} (h : (verified ext stream).raises = none) :
    stream.raises = none ∧ (verified ext stream).chunks.flatten = stream.chunks.flatten := by
  unfold verified at h ⊢
  rcases rechain_cases (appError (contentTypeMismatch ext)) ext stream.raises [] stream.chunks with
    ⟨hr, ⟨hflat, -⟩ | ⟨-, hsome⟩⟩ | ⟨-, hm⟩
  · exact ⟨hr.symm.trans h, hflat⟩
  · rw [← hr, h] at hsome
    cases hsome
  · rw [hm] at h
    cases h

theorem upload_failed (h : failureBefore settings u = some e) (hkey : w.disk u.key = none) :
    ∃ disk', upload settings u w = (.error e, { w with disk := disk' }) ∧ disk' u.key = none := by
  unfold failureBefore at h
  unfold upload
  by_cases hext : allowed settings (extractExt settings u.filename) = true
  · simp only [hext, Bool.not_true, Bool.false_eq_true, if_false] at h ⊢
    rcases Option.or_eq_some_iff.1 h with h | ⟨hstore, h⟩
    · obtain ⟨x, disk', hwrite, rfl, hnone⟩ := writeStream_failed h hkey
      rw [hwrite]
      exact ⟨disk', rfl, hnone⟩
    · obtain ⟨hraises, -, hwrite⟩ := writeStream_stored hstore u.key w.disk
      split at h
      · next hempty =>
        have hlen := congrArg List.length ((flatten_verified hraises).2.trans hempty)
        simp only [hwrite, hlen]
        exact ⟨_, Prod.ext (congrArg Except.error (Option.some.inj h)) rfl, unlink_self⟩
      · cases h
  · rw [Bool.not_eq_true] at hext
    simp only [hext, Bool.not_false, if_true] at h ⊢
    exact ⟨w.disk, Prod.ext (congrArg Except.error (Option.some.inj h)) rfl, hkey⟩

/-- An upload that comes to the flush has stored its stream. -/
theorem upload_reached (h : failureBefore settings u = none) (hc : u.stream.chunks.flatten = content) :
    1 ≤ content.length ∧ content.length ≤ settings.maxBytes ∧ upload settings u w =
      match u.flush with
      | some e => (.error e, { w with
          disk := if e.isException then (w.disk.store u.key content).unlink u.key
            else w.disk.store u.key content })
      | none => (.ok (fileRead u.rowId (row settings u ⟨content.length, settings.sha256 content⟩)),
          ⟨w.disk.store u.key content,
            Function.update w.rows u.rowId
              (some (row settings u ⟨content.length, settings.sha256 content⟩))⟩) := by
  subst hc
  unfold failureBefore at h
  unfold upload
  by_cases hext : allowed settings (extractExt settings u.filename) = true
  · simp only [hext, Bool.not_true, Bool.false_eq_true, if_false] at h ⊢
    obtain ⟨hstore, hne⟩ := Option.or_eq_none_iff.1 h
    obtain ⟨hraises, hle, hwrite⟩ := writeStream_stored hstore u.key w.disk
    rw [(flatten_verified hraises).2] at hle hwrite
    have hlen : 0 < u.stream.chunks.flatten.length := by
      rw [List.length_pos_iff]
      intro hempty
      rw [if_pos hempty] at hne
      cases hne
    refine ⟨hlen, hle, ?_⟩
    cases u.flush with
    | none => simp only [hwrite, Nat.ne_of_gt hlen, if_false]
    | some e => simp only [hwrite, Nat.ne_of_gt hlen, if_false]
  · rw [Bool.not_eq_true] at hext
    simp [hext] at h

/-- A failed upload leaves no object and no row and raises the error of its failure; a successful one has
stored its stream, with the length and the digest of its row. -/
def Atomic (settings : FileSettings) (u : Upload) (w : World) : Prop :=
  match upload settings u w with
  | (.error e, w') => failure settings u = some e ∧ w'.disk u.key = none ∧ w'.rows = w.rows
  | (.ok r, w') => failure settings u = none ∧ ∃ content file, w'.disk u.key = some content ∧
      content = u.stream.chunks.flatten ∧ 1 ≤ content.length ∧ content.length ≤ settings.maxBytes ∧
      w'.rows u.rowId = some file ∧ file.objectKey = u.key ∧ file.sizeBytes = content.length ∧
      file.sha256 = settings.sha256 content ∧ r = fileRead u.rowId file

/-- Everything before the flush goes well, and the flush raises what is no `Exception`. -/
def FlushInterrupted (settings : FileSettings) (u : Upload) : Prop :=
  failureBefore settings u = none ∧ ∃ e, u.flush = some e ∧ e.isException = false

/-- Uploads are atomic, apart from those whose flush is interrupted. -/
theorem atomic_iff (settings : FileSettings) (u : Upload) (w : World) (hkey : w.disk u.key = none) :
    Atomic settings u w ↔ ¬ FlushInterrupted settings u := by
  unfold Atomic FlushInterrupted failure
  cases hf : failureBefore settings u with
  | some e =>
    obtain ⟨disk', hupload, hnone⟩ := upload_failed hf hkey
    rw [hupload]
    simp [hnone]
  | none =>
    obtain ⟨hpos, hle, hupload⟩ := upload_reached (w := w) hf rfl
    rw [hupload]
    cases hflush : u.flush with
    | some e =>
      cases hexc : e.isException with
      | true => simp [hexc]
      | false => simp [hexc]
    | none =>
      simp only [Option.or_none, reduceCtorEq, false_and, exists_false, and_false, not_false_eq_true, iff_true,
        true_and]
      exact ⟨_, _, store_self, rfl, hpos, hle, Function.update_self .., rfl, rfl, rfl, rfl⟩

section Example

def textOnly : FileSettings where
  maxBytes := 100
  allowedExtensions := ["txt"]
  storageBackendName := "local"
  sha256 content := toString content.length
  lower := id

def note (flush : Option Thrown) : Upload where
  filename := "a.txt"
  contentType := "text/plain"
  stream := ⟨[[104], [], [105]], none⟩
  uploaderId := 1
  key := 7
  flush := flush
  rowId := 0

def emptyWorld : World := ⟨fun _ ↦ none, fun _ ↦ none⟩

theorem atomic_note : Atomic textOnly (note none) emptyWorld := by
  refine (atomic_iff textOnly (note none) emptyWorld rfl).2 ?_
  rintro ⟨-, e, he, -⟩
  cases he

/-- The request is cancelled while the row is flushed: its object stays. -/
theorem not_atomic_cancelled : ¬ Atomic textOnly (note (some (.baseException "CancelledError"))) emptyWorld ∧
    (upload textOnly (note (some (.baseException "CancelledError"))) emptyWorld).2.disk 7 = some [104, 105] := by
  have hdisk : (upload textOnly (note (some (.baseException "CancelledError"))) emptyWorld).2.disk 7 =
      some [104, 105] := by decide
  have herror : (upload textOnly (note (some (.baseException "CancelledError"))) emptyWorld).1 =
      .error (.baseException "CancelledError") := rfl
  refine ⟨fun h ↦ ?_, hdisk⟩
  unfold Atomic at h
  split at h
  · next e w' hu =>
    rw [hu] at hdisk
    cases hdisk.symm.trans h.2.1
  · next r w' hu =>
    rw [hu] at herror
    cases herror

end Example

end AdminPlatform.File.UploadAtomicity
