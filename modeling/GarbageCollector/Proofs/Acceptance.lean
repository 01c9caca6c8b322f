import GarbageCollector.Proofs.AnyHeap
import GarbageCollector.Proofs.Progress
import GarbageCollector.Proofs.Tokens

/-! # Which layouts are accepted

Everything that `h_alloc_struct` asks of a layout before it looks at the heap is a condition on the tokens
of the trimmed string, with their counts as `int`s. A fresh heap returns an object for exactly the layouts
that meet it; no heap returns one for another.
-/

namespace GarbageCollector.Proofs

open Model

/-- The conditions on a layout, whatever the heap. -/
structure Accepted (text : List Char) : Prop where
  nonempty : text ≠ []
  admitted : Admitted (trimWhitespace text)
  served : mallocSucceeds (requestedSize (trimWhitespace text)) = true
  fits : (writtenText (trimWhitespace text)).length + 1 ≤ (requestedSize (trimWhitespace text)).toNat
  enough : requiredBits (writtenText (trimWhitespace text)) ≤ maxLayoutBits

section Accepted

variable {text : List Char}

/-- What a parsed layout says about its tokens. -/
theorem createFormatStr_some {format : List Char} (created : createFormatStr text = .ok (some format)) :
    format = writtenText (trimWhitespace text) ∧ Admitted (trimWhitespace text) ∧
      mallocSucceeds (requestedSize (trimWhitespace text)) = true ∧
      (writtenText (trimWhitespace text)).length + 1 ≤ (requestedSize (trimWhitespace text)).toNat := by
  rw [createFormatStr, interpretedFormatStr_eq] at created
  split at created
  · next parsed =>
    split at created
    · next fits =>
      cases created
      exact ⟨rfl, parsed.1, parsed.2, fits⟩
    · cases created
  · cases created

theorem createFormatStr_of_accepted (accepted : Accepted text) :
    createFormatStr text = .ok (some (writtenText (trimWhitespace text))) := by
  rw [createFormatStr, interpretedFormatStr_eq, if_pos ⟨accepted.admitted, accepted.served⟩,
    if_pos accepted.fits]

/-- An object is returned for an accepted layout only, and its data is what the second pass wrote. -/
theorem accepted_of_returned {h h' : Heap} {p : ℕ} (ok : h.hAllocStruct (some text) = .ok (some p, h')) :
    Accepted text ∧ ∃ word, Placed h h' (p - headerSizeBytes)
      (formatStrBytes (writtenText (trimWhitespace text))) word := by
  obtain ⟨size, header, index, space, word, rfl, found⟩ := hAllocStruct_found ok
  obtain ⟨_, format, same, created, encoded, rfl, _, nonempty⟩ := structRequest_some found.request
  cases same
  obtain ⟨rfl, admitted, served, fits⟩ := createFormatStr_some created
  exact ⟨⟨nonempty, admitted, served, fits, requiredBits_le_of_toBitVector encoded⟩, word, found.placed⟩

/-- A fresh heap returns an object for every accepted layout. -/
theorem returned_of_accepted {h : Heap} (fresh : Fresh h) (accepted : Accepted text) :
    ∃ p h', h.hAllocStruct (some text) = .ok (some p, h') := by
  have steady := fresh.steady
  have front := fresh.front
  have large := steady.shaped.large
  have available : h.hAvail = h.size := by
    simp [Heap.hAvail, Heap.hUsed, fresh.used]
  have enough := accepted.enough
  simp only [maxLayoutBits] at enough
  obtain ⟨word, request⟩ := structRequest_of_format (createFormatStr_of_accepted accepted)
    (decide_eq_true accepted.enough) accepted.nonempty (h := h) (by
      rw [available, formatStrBytes_eq]
      omega)
  obtain ⟨⟨returned, h'⟩, ran⟩ := hAllocStruct_exists steady (by omega) request
  cases returned with
  | none =>
    cases request.symm.trans (structRequest_of_null fresh ran)
  | some p => exact ⟨p, h', ran⟩

/-- The data size of a placed block is determined by the heap that it leaves. -/
theorem Placed.size_unique {h h' : Heap} {header size other : ℕ} {word otherWord : Word}
    (placed : Placed h h' header size word) (again : Placed h h' header other otherWord) : size = other := by
  have front := placed.front
  rw [again.front] at front
  omega

end Accepted

end GarbageCollector.Proofs
