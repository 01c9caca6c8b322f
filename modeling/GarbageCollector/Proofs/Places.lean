import GarbageCollector.Proofs.Copying

/-! # Where a struct is placed

`Places` says when a struct gets a place, and `placeOf` which one. Both are read off the bump pointer, the
counter and the bounds of the heap. The layout that the decoder makes of a header word, if it writes inside
its buffer, is never `NULL` and is requested as it is.
-/

namespace GarbageCollector.Proofs

open Model

open Heap (RootCase)

variable {h h' : Heap} {size : ℕ}

/-- The offset of the bump pointer in its space. -/
def spaceOffset (h : Heap) : ℕ := (h.allocFront - h.heapStart) % 2048

/-- A struct of `size` bytes gets a place: it has a header word, the counter admits it, the bump pointer
is in an active space, and the struct with its footer fits behind the pointer or, without it, does not. -/
structure Places (h : Heap) (size : ℕ) : Prop where
  encodable : size ≤ 216
  available : h.usedBytes + size + 8 ≤ h.size
  early : h.allocFront < h.heapStart + h.numberOfSpaces / 2 * 2048
  fits : spaceOffset h + size + 16 ≤ 2048 ∨ 2048 < spaceOffset h + size + 8

instance (h : Heap) (size : ℕ) : Decidable (Places h size) :=
  decidable_of_iff (size ≤ 216 ∧ h.usedBytes + size + 8 ≤ h.size ∧
      h.allocFront < h.heapStart + h.numberOfSpaces / 2 * 2048 ∧
      (spaceOffset h + size + 16 ≤ 2048 ∨ 2048 < spaceOffset h + size + 8))
    ⟨fun ⟨encodable, available, early, fits⟩ => ⟨encodable, available, early, fits⟩,
      fun places => ⟨places.encodable, places.available, places.early, places.fits⟩⟩

/-- The header that the struct gets: the bump pointer or the start of its space. -/
def placeOf (h : Heap) (size : ℕ) : ℕ :=
  if spaceOffset h + size + 8 ≤ 2048 then h.allocFront else h.allocFront - spaceOffset h

theorem le_hAvail_iff : size + 8 ≤ h.hAvail ↔ h.usedBytes + size + 8 ≤ h.size := by
  unfold Heap.hAvail Heap.hUsed
  split <;> omega

theorem toBitVector_eq_none {format : List Char} (large : 216 < formatStrBytes format) :
    toBitVector format = none := by
  have many : ¬ enoughBitsForLayout format = true := by
    rw [formatStrBytes_eq] at large
    simp only [enoughBitsForLayout, decide_eq_true_eq, maxLayoutBits]
    omega
  rw [toBitVector, if_neg many]

theorem toBitVector_eq_some {format : List Char} (small : formatStrBytes format ≤ 216) :
    ∃ word, toBitVector format = some word := by
  have enough : enoughBitsForLayout format = true := by
    rw [formatStrBytes_eq] at small
    simp only [enoughBitsForLayout, decide_eq_true_eq, maxLayoutBits]
    omega
  exact ⟨_, if_pos enough⟩

/-- A struct that was placed had a place. -/
theorem StructPlaced.places {layout : Option (List Char)} {header index space : ℕ} {word : Word}
    (steady : Steady h) (within : h.allocFront ≤ h.heapStart + h.numberOfSpaces / 2 * 2048)
    (placed : StructPlaced h h' layout size header index space word) :
    Places h size ∧ header = placeOf h size := by
  obtain ⟨_, _, _, _, _, _, available, _⟩ := structRequest_some placed.request
  obtain ⟨small, _⟩ := structRequest_size placed.request
  obtain ⟨early, start, le⟩ := placed.current.bounds steady.shaped steady.half steady.front
  have index_eq := placed.current.index_eq steady.shaped steady.front (front_le_of_firstHalf within)
  have header_eq := placed.header_eq
  have fits := placed.fits
  have front := steady.front
  have left := spaceLeft_eq le (show h.allocFront ≤ space + 2048 by omega)
  have offset : space + spaceOffset h = h.allocFront := by
    unfold spaceOffset
    omega
  rw [left] at header_eq
  split at header_eq
  · next room =>
    rw [spaceLeft_eq (by omega) (by omega)] at fits
    exact ⟨⟨small, le_hAvail_iff.mp available, by omega, .inl (by omega)⟩,
      by rw [placeOf, if_pos (by omega), header_eq]⟩
  · next full =>
    exact ⟨⟨small, le_hAvail_iff.mp available, by omega, .inr (by omega)⟩,
      by rw [placeOf, if_neg (by omega)]; omega⟩

/-- A struct that has a place is placed. -/
theorem hAllocStruct_of_places {layout : Option (List Char)} {word : Word} (steady : Steady h)
    (places : Places h size) (request : h.structRequest layout = .ok (some (size, word))) :
    ∃ h', h.hAllocStruct layout = .ok (some (placeOf h size + 8), h') := by
  have early := places.early
  have front := steady.front
  have fits := places.fits
  have current := steady.currentSpace early
  have inHeap := steady.shaped.spacesFit
  have inside : spaceOffset h < 2048 := Nat.mod_lt _ (by omega)
  simp only [spaceSize] at inHeap
  generalize start : h.heapStart + (h.allocFront - h.heapStart) / 2048 * 2048 = space at current
  have offset : space + spaceOffset h = h.allocFront := by
    unfold spaceOffset
    omega
  have header_eq : placeOf h size =
      if size + 8 ≤ spaceLeft h.allocFront space then h.allocFront else space := by
    rw [spaceLeft_eq (by omega) (by omega), placeOf]
    split
    · rw [if_pos (by omega)]
    · rw [if_neg (by omega)]
      omega
  have place : space ≤ placeOf h size ∧ placeOf h size + size + 16 ≤ space + 2048 := by
    have small := places.encodable
    unfold placeOf
    split <;> omega
  have room : size + 8 ≤ spaceLeft (placeOf h size + 8) space := by
    rw [spaceLeft_eq (by omega) (by omega)]
    omega
  have moved : Shaped (h.setFront (placeOf h size)) := (SameShape.setFront h _).shaped steady.shaped
  have bound : (h.allocFront - h.heapStart) / 2048 < h.numberOfSpaces := by omega
  have started : h.allocFront ≤ h.heapStart + h.size := by omega
  obtain ⟨h', written⟩ := placeStruct_exists moved word bound start.symm place.1 place.2 started
  refine ⟨h', ?_⟩
  rw [hAllocStruct_of_current request current header_eq, if_pos room]
  exact written

/-- The decoder returns a layout with a letter, or writes over its terminator. -/
theorem bitVectorToFormatString_cases (bits : Word) :
    bitVectorToFormatString bits = .error .outOfBounds ∨
      ∃ layout, bitVectorToFormatString bits = .ok (some layout) ∧ layout ≠ [] := by
  obtain ⟨plain, short⟩ := bufferWrites_plain (getLayoutBitsField bits) (getSizeBitsField bits).toNat
    0 0 54
  rw [← layoutWrites] at plain short
  have nonempty : layoutWrites bits ≠ [] := by
    rw [layoutWrites, bufferWrites]
    split_ifs <;> simp
  unfold bitVectorToFormatString
  dsimp only
  split
  · exact .inr ⟨_, createFormatStr_of_expanded plain.expanded (by omega), nonempty⟩
  · exact .inl rfl

/-- What the allocator answers to the layout of a header. -/
theorem hAllocStruct_decoded {bits : Word} {layout : List Char} (steady : Steady h)
    (within : h.allocFront ≤ h.heapStart + h.numberOfSpaces / 2 * 2048)
    (decoded : bitVectorToFormatString bits = .ok (some layout)) (nonempty : layout ≠ []) :
    (Places h (formatStrBytes layout) ∧
      ∃ h', h.hAllocStruct (some layout) = .ok (some (placeOf h (formatStrBytes layout) + 8), h')) ∨
    (¬ Places h (formatStrBytes layout) ∧ ∃ h', h.hAllocStruct (some layout) = .ok (none, h')) := by
  obtain ⟨_, _, created, _⟩ := bitVectorToFormatString_ok decoded
  rcases Nat.lt_or_ge 216 (formatStrBytes layout) with large | small
  · refine .inr ⟨fun places => ?_, h, ?_⟩
    · have encodable := places.encodable
      omega
    · have refused : h.structRequest (some layout) = .ok none := by
        refine bind_ok_iff.mpr ⟨_, created, ?_⟩
        dsimp only
        rw [toBitVector_eq_none large]
      exact bind_ok_iff.mpr ⟨none, refused, rfl⟩
  · obtain ⟨word, encoded⟩ := toBitVector_eq_some small
    by_cases available : formatStrBytes layout + 8 ≤ h.hAvail
    · have request : h.structRequest (some layout) = .ok (some (formatStrBytes layout, word)) := by
        refine bind_ok_iff.mpr ⟨_, created, ?_⟩
        dsimp only [headerSizeBytes, spaceSize]
        rw [encoded]
        dsimp only
        rw [if_neg (by omega), if_neg (by omega), if_neg nonempty]
      by_cases places : Places h (formatStrBytes layout)
      · exact .inl ⟨places, hAllocStruct_of_places steady places request⟩
      · obtain ⟨⟨result, h'⟩, allocated⟩ := hAllocStruct_exists steady within request
        rcases hAllocStruct_ok steady.shaped steady.half allocated with ⟨rfl, _⟩ | placement
        · exact .inr ⟨places, h', allocated⟩
        · obtain ⟨size, header, index, space, bits', rfl, placed⟩ := placement
          cases request.symm.trans placed.request
          exact (places (placed.places steady within).1).elim
    · refine .inr ⟨fun places => available (le_hAvail_iff.mpr places.available), h, ?_⟩
      have refused : h.structRequest (some layout) = .ok none := by
        refine bind_ok_iff.mpr ⟨_, created, ?_⟩
        dsimp only [headerSizeBytes]
        rw [encoded]
        dsimp only
        rw [if_pos (by omega)]
      exact bind_ok_iff.mpr ⟨none, refused, rfl⟩

end GarbageCollector.Proofs
