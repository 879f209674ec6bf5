import AdminPlatform.File.Service

namespace AdminPlatform.File.UploadChecks

open Model.Service Service

variable {ε : Type} {mismatch : ε} {ext : String} {raises : Option ε} {head rest : Bytes}
  {chunks : List Bytes}

theorem length_le_of_signature {signatures : List Bytes} {sig : Bytes}
    (h : _MAGIC_SIGNATURES.lookup ext = some signatures) (hs : sig ∈ signatures) :
    sig.length ≤ _MAGIC_PEEK := by
  have hshort : ∀ entry ∈ _MAGIC_SIGNATURES, ∀ sig ∈ entry.2, sig.length ≤ _MAGIC_PEEK := by decide
  obtain ⟨front, back, hsplit, -⟩ := List.lookup_eq_some_iff.1 h
  have hmem : (ext, signatures) ∈ _MAGIC_SIGNATURES := by
    rw [hsplit]
    simp
  exact hshort _ hmem sig hs

/-- What comes behind the peeked bytes does not matter to the check. -/
theorem verifyMagic_append (h : _MAGIC_PEEK ≤ head.length) :
    verifyMagic ext (head ++ rest) = verifyMagic ext head := by
  have hne : head ≠ [] := by
    rintro rfl
    exact absurd h (by decide)
  have hempty : (head ++ rest).isEmpty = head.isEmpty := by
    cases head with
    | nil => exact absurd rfl hne
    | cons => rfl
  unfold verifyMagic
  rw [hempty]
  cases hl : _MAGIC_SIGNATURES.lookup ext with
  | none => rfl
  | some signatures =>
    congr 1
    rw [Bool.eq_iff_iff]
    simp only [List.any_eq_true, List.isPrefixOf_iff_prefix]
    refine exists_congr fun sig ↦ and_congr_right fun hs ↦ ?_
    have hlen : sig.length ≤ head.length := Nat.le_trans (length_le_of_signature hl hs) h
    exact ⟨fun hp ↦ List.prefix_of_prefix_length_le hp (List.prefix_append head rest) hlen,
      fun hp ↦ hp.trans (List.prefix_append head rest)⟩

/-- The bytes that pass are those of the source, and one that raises early passes none on. -/
theorem rechain_cases (mismatch : ε) (ext : String) (raises : Option ε) (head : Bytes)
    (chunks : List Bytes) :
    ((rechain mismatch ext raises head chunks).raises = raises ∧
      ((rechain mismatch ext raises head chunks).chunks.flatten = head ++ chunks.flatten ∧
          verifyMagic ext (head ++ chunks.flatten) = true ∨
        (rechain mismatch ext raises head chunks).chunks = [] ∧ raises.isSome)) ∨
      verifyMagic ext (head ++ chunks.flatten) = false ∧
        rechain mismatch ext raises head chunks = ⟨[], some mismatch⟩ := by
  induction chunks generalizing head with
  | nil =>
    rw [List.flatten_nil, List.append_nil]
    unfold rechain
    split
    · next hr => exact .inl ⟨rfl, .inr ⟨rfl, hr⟩⟩
    · next hr =>
      rw [Option.not_isSome_iff_eq_none] at hr
      split
      · next hv =>
        refine .inl ⟨hr.symm, .inl ⟨?_, hv⟩⟩
        cases head <;> simp
      · next hv => exact .inr ⟨Bool.eq_false_iff.2 hv, rfl⟩
  | cons chunk chunks ih =>
    rw [List.flatten_cons, ← List.append_assoc]
    unfold rechain
    split
    · next hlen =>
      rw [verifyMagic_append hlen]
      split
      · next hv => exact .inl ⟨rfl, .inl ⟨by simp, hv⟩⟩
      · next hv => exact .inr ⟨Bool.eq_false_iff.2 hv, rfl⟩
    · exact ih (head ++ chunk)

/-- However a stream is split, it passes as it is or is refused before anything is yielded, and its bytes and
the extension decide which. -/
theorem verifyAndRechain_of_flatten (ext : String) (chunks : List Bytes) :
    (verifyMagic ext chunks.flatten = true ∧ (verifyAndRechain ext ⟨chunks, none⟩).raises = none ∧
      (verifyAndRechain ext ⟨chunks, none⟩).chunks.flatten = chunks.flatten) ∨
      verifyMagic ext chunks.flatten = false ∧
        verifyAndRechain ext ⟨chunks, none⟩ = ⟨[], some (.app (contentTypeMismatch ext))⟩ := by
  rw [verifyAndRechain]
  rcases rechain_cases (Failure.app (contentTypeMismatch ext)) ext none [] chunks with ⟨hr, h⟩ | ⟨hv, h⟩
  · rcases h with ⟨hflat, hv⟩ | ⟨-, hnone⟩
    · exact .inl ⟨hv, hr, hflat⟩
    · cases hnone
  · rw [h]
    exact .inr ⟨hv, rfl⟩

end AdminPlatform.File.UploadChecks
