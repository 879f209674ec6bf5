import AdminPlatform.File.UploadSteps

namespace AdminPlatform.File.WriteStream

open Model.Schema Model.Service UploadSteps
open Service hiding writeStream upload

variable {settings : FileSettings} {faults : Faults} {raises : Option Thrown} {stream : Stream Thrown}
  {chunks : List Bytes} {p : Progress} {disk : Disk} {key n : ℕ} {e : Thrown}

def filled (chunks : List Bytes) : List Bytes := chunks.filter fun chunk ↦ !chunk.isEmpty

/-- Why the `n`-th of the chunks cannot be stored. -/
def chunkFailure (settings : FileSettings) (faults : Faults) (chunks : List Bytes) (n : ℕ) : Option Thrown :=
  if settings.maxBytes < (chunks.take (n + 1)).flatten.length then
    some (appError (sizeExceeded settings.maxBytes))
  else (faults.write n).map Prod.snd

def streamFailure (settings : FileSettings) (faults : Faults) (stream : Stream Thrown) : Option Thrown :=
  ((List.range (filled stream.chunks).length).findSome?
    (chunkFailure settings faults (filled stream.chunks))).or stream.raises

/-- The failure of a whole write; closing the file is its last step, whether or not another has failed. -/
def storeFailure (settings : FileSettings) (faults : Faults) (stream : Stream Thrown) : Option Thrown :=
  (faults.mkdir.or (faults.openFile.map Prod.snd)).or (faults.close.or (streamFailure settings faults stream))

/-- What is counted and hashed is what the file holds. -/
structure Sound (p : Progress) : Prop where
  size : p.size = p.content.length
  hashed : p.hashed = p.content

theorem Sound.write (h : Sound p) (chunk : Bytes) :
    Sound ⟨p.size + chunk.length, p.hashed ++ chunk, p.content ++ chunk⟩ where
  size := by rw [h.size, List.length_append]
  hashed := by rw [h.hashed]

/-- A loop that runs to its end has stored what it was given, within the limit. -/
theorem sound_of_writeChunks (h : Sound p) (hp : p.size ≤ settings.maxBytes)
    (hstop : (writeChunks faults settings.maxBytes raises n p chunks).2 = none) :
    Sound (writeChunks faults settings.maxBytes raises n p chunks).1 ∧
      (writeChunks faults settings.maxBytes raises n p chunks).1.content = p.content ++ chunks.flatten ∧
      (writeChunks faults settings.maxBytes raises n p chunks).1.size ≤ settings.maxBytes := by
  induction chunks generalizing n p with
  | nil => exact ⟨h, (List.append_nil _).symm, hp⟩
  | cons chunk chunks ih =>
    unfold writeChunks at hstop ⊢
    by_cases hempty : chunk.isEmpty = true
    · rw [if_pos hempty] at hstop ⊢
      obtain rfl : chunk = [] := List.isEmpty_iff.1 hempty
      exact ih h hp hstop
    · rw [if_neg hempty] at hstop ⊢
      by_cases hlimit : settings.maxBytes < p.size + chunk.length
      · rw [if_pos hlimit] at hstop
        cases hstop
      · rw [if_neg hlimit] at hstop ⊢
        cases hw : faults.write n with
        | some x =>
          rw [hw] at hstop
          cases hstop
        | none =>
          rw [hw] at hstop
          obtain ⟨hsound, hcontent, hsize⟩ := ih (h.write chunk) (Nat.le_of_not_lt hlimit) hstop
          refine ⟨hsound, ?_, hsize⟩
          rw [hcontent, List.flatten_cons, List.append_assoc]

/-- The loop stops where something goes wrong first. -/
theorem stopped_eq (done : List Bytes) (hn : done.length = n) (hp : p.size = done.flatten.length) :
    (writeChunks faults settings.maxBytes raises n p chunks).2.map (surfaced settings) =
      ((List.range' n (filled chunks).length).findSome?
        (chunkFailure settings faults (done ++ filled chunks))).or raises := by
  induction chunks generalizing n p done with
  | nil => cases raises <;> rfl
  | cons chunk chunks ih =>
    unfold writeChunks
    by_cases hempty : chunk.isEmpty = true
    · have hfilled : filled (chunk :: chunks) = filled chunks := List.filter_cons_of_neg (by simp [hempty])
      rw [if_pos hempty, hfilled]
      exact ih done hn hp
    · have hfilled : filled (chunk :: chunks) = chunk :: filled chunks :=
        List.filter_cons_of_pos (by simp [hempty])
      have htaken :
          ((done ++ chunk :: filled chunks).take (n + 1)).flatten.length = p.size + chunk.length := by
        rw [← hn, List.take_length_add_append]
        simp [hp]
      rw [if_neg hempty, hfilled, List.length_cons, List.range'_succ, List.findSome?_cons, chunkFailure,
        htaken]
      by_cases hlimit : settings.maxBytes < p.size + chunk.length
      · rw [if_pos hlimit, if_pos hlimit]
        rfl
      · rw [if_neg hlimit, if_neg hlimit]
        cases hw : faults.write n with
        | some x => rfl
        | none =>
          have hnext := ih (n := n + 1) (p := ⟨p.size + chunk.length, p.hashed ++ chunk, p.content ++ chunk⟩)
            (done ++ [chunk]) (by simp [hn]) (by simp [hp])
          rw [List.append_assoc] at hnext
          exact hnext

theorem closed_eq (stopped : Option WriteError) :
    (closed faults stopped).map (surfaced settings) = faults.close.or (stopped.map (surfaced settings)) := by
  unfold closed
  cases faults.close <;> rfl

/-- What `async with` raises is the failure of the stream, unless the file cannot be closed. -/
theorem closed_writeChunks (settings : FileSettings) (faults : Faults) (stream : Stream Thrown) :
    (closed faults (writeChunks faults settings.maxBytes stream.raises 0 {} stream.chunks).2).map
      (surfaced settings) = faults.close.or (streamFailure settings faults stream) := by
  rw [closed_eq, stopped_eq (n := 0) (p := {}) [] rfl rfl, ← List.range_eq_range']
  rfl

theorem writeStream_failed (h : storeFailure settings faults stream = some e) (hkey : disk key = none) :
    ∃ x disk', writeStream settings faults key stream disk = (.error x, disk') ∧
      surfaced settings x = e ∧ disk' key = none := by
  unfold writeStream
  unfold storeFailure at h
  cases hm : faults.mkdir with
  | some d =>
    rw [hm] at h
    exact ⟨.thrown d, disk, rfl, Option.some.inj h, hkey⟩
  | none =>
    cases ho : faults.openFile with
    | some x =>
      rw [hm, ho] at h
      exact ⟨.thrown x.2, _, rfl, Option.some.inj h, unlink_self⟩
    | none =>
      rw [hm, ho] at h
      have hclosed := closed_writeChunks settings faults stream
      simp only [Option.map_none, Option.or_none, Option.none_or] at h
      rw [h] at hclosed
      obtain ⟨x, hx, he⟩ := Option.map_eq_some_iff.1 hclosed
      simp only [hx]
      exact ⟨x, _, rfl, he, unlink_self⟩

theorem writeStream_stored (h : storeFailure settings faults stream = none) (key : ℕ) (disk : Disk) :
    stream.raises = none ∧ stream.chunks.flatten.length ≤ settings.maxBytes ∧
      writeStream settings faults key stream disk =
        (.ok ⟨stream.chunks.flatten.length, settings.sha256 stream.chunks.flatten⟩,
          disk.store key stream.chunks.flatten) := by
  simp only [storeFailure, Option.or_eq_none_iff, Option.map_eq_none_iff] at h
  obtain ⟨⟨hm, ho⟩, hc, hs⟩ := h
  have hclosed := closed_writeChunks settings faults stream
  rw [hc, Option.none_or, hs, Option.map_eq_none_iff] at hclosed
  have hstop : (writeChunks faults settings.maxBytes stream.raises 0 {} stream.chunks).2 = none := by
    rw [closed, hc] at hclosed
    exact hclosed
  obtain ⟨hsound, hcontent, hsize⟩ :=
    @sound_of_writeChunks settings _ _ _ _ _ ⟨rfl, rfl⟩ (Nat.zero_le _) hstop
  have hcontent' : (writeChunks faults settings.maxBytes stream.raises 0 {} stream.chunks).1.content =
      stream.chunks.flatten := hcontent
  refine ⟨(Option.or_eq_none_iff.1 hs).2, ?_, ?_⟩
  · rw [← hcontent', ← hsound.size]
    exact hsize
  · unfold writeStream
    simp only [hm, ho, hclosed, hsound.size, hsound.hashed, hcontent']

theorem writeStream_of_ne {k : ℕ} (h : k ≠ key) :
    (writeStream settings faults key stream disk).2 k = disk k := by
  unfold writeStream
  split
  · rfl
  · split
    · next created e _ =>
      refine (unlink_of_ne h).trans ?_
      cases created with
      | false => rfl
      | true => exact store_of_ne h
    · dsimp only
      split
      · exact (unlink_of_ne h).trans (store_of_ne h)
      · exact store_of_ne h

end AdminPlatform.File.WriteStream
