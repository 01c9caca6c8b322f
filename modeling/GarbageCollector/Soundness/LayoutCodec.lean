import GarbageCollector.Proofs.Layout

/-! # The layout codec

Encoding a layout into a header word and decoding it again: the word says the size and the type of
the object, decoding gives the layout with each letter replaced by its units, the decoder stays in
its buffer, and the decoded layout encodes to the same word.
-/

namespace GarbageCollector.Soundness

open Model Proofs

/-- Decoding an accepted layout gives its decoded form, which keeps its size and its pointers. -/
theorem toBitVector_roundTrip {format : List Char} (letters : Expanded format)
    (nonempty : format ≠ []) (accepted : enoughBitsForLayout format = true) :
    ∃ bits, toBitVector format = some bits ∧
      (getSizeBitsField bits).toNat = formatStrBytes format ∧
      getHeaderType bits = .bitVector ∧
      bitVectorToFormatString bits = .ok (some (decodedLayout format)) ∧
      (∀ i < (layoutWrites bits).length, i < (getSizeBitsField bits).toNat / 4) ∧
      toBitVector (decodedLayout format) = some bits ∧
      formatStrBytes (decodedLayout format) = formatStrBytes format ∧
      pointerOffsets 0 (decodedLayout format) = pointerOffsets 0 format := by
  obtain ⟨bits, encoded⟩ : ∃ bits, toBitVector format = some bits := ⟨_, if_pos accepted⟩
  refine ⟨bits, encoded, toNat_getSizeBitsField_toBitVector encoded,
    getHeaderType_toBitVector encoded, bitVectorToFormatString_of_toBitVector letters nonempty encoded,
    ?_, toBitVector_decodedLayout letters encoded, formatStrBytes_decodedLayout format,
    pointerOffsets_decodedLayout 0 format⟩
  intro i inside
  exact inside.trans_le (length_layoutWrites_le letters nonempty encoded)

/-- The round trip of a layout with a long, a pointer and a character. -/
theorem toBitVector_roundTrip_long_pointer_char :
    ∃ bits, toBitVector "l*c".toList = some bits ∧
      (getSizeBitsField bits).toNat = formatStrBytes "l*c".toList ∧
      getHeaderType bits = .bitVector ∧
      bitVectorToFormatString bits = .ok (some (decodedLayout "l*c".toList)) ∧
      (∀ i < (layoutWrites bits).length, i < (getSizeBitsField bits).toNat / 4) ∧
      toBitVector (decodedLayout "l*c".toList) = some bits ∧
      formatStrBytes (decodedLayout "l*c".toList) = formatStrBytes "l*c".toList ∧
      pointerOffsets 0 (decodedLayout "l*c".toList) = pointerOffsets 0 "l*c".toList :=
  toBitVector_roundTrip (by decide) (by decide) (by decide)

end GarbageCollector.Soundness
