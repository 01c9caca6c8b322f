import GarbageCollector.Proofs.AnyHeap
import GarbageCollector.Proofs.Session

/-! # A `NULL` leaves everything as it was

Both allocators answer `NULL` without a trace, whatever the heap and whatever the argument.
`h_alloc_struct` tests for room once more after it may have moved `alloc_front`, and answers `NULL`
there too; but a pointer that has moved stands at the start of a space, and what the layout bound lets
through always fits there.
-/

namespace GarbageCollector.Soundness

open Model Proofs

variable {h h' : Heap} {layout : Option (List Char)} {bytes : ℕ}

/-- The second test for room never fails once the bump pointer has moved. -/
theorem fits_of_moved {size index header space : ℕ} {word : Word}
    (request : h.structRequest layout = .ok (some (size, word)))
    (search : h.findSpace size = .ok (some (index, header))) (starts : h.spaces[index]? = some space)
    (moved : header ≠ h.allocFront) : size + headerSizeBytes ≤ spaceLeft (header + headerSizeBytes) space := by
  obtain ⟨small, _⟩ := structRequest_size request
  obtain ⟨here, first, _, _, _, chosen⟩ := findSpace_some search
  rcases chosen with ⟨_, stays, _⟩ | startsThere
  · exact (moved stays).elim
  · obtain rfl := Option.some.inj (starts.symm.trans startsThere)
    rw [spaceLeft_next]
    simp only [headerSizeBytes]
    omega

theorem hAllocStruct_unchanged (null : h.hAllocStruct layout = .ok (none, h')) : h' = h := by
  obtain ⟨requested, request, null⟩ := bind_ok_iff.mp null
  cases requested with
  | none =>
    cases null
    rfl
  | some wanted =>
    obtain ⟨size, word⟩ := wanted
    obtain ⟨found, search, null⟩ := bind_ok_iff.mp null
    cases found with
    | none =>
      cases null
      rfl
    | some place =>
      obtain ⟨index, header⟩ := place
      obtain ⟨space, read, null⟩ := bind_ok_iff.mp null
      obtain ⟨_, starts⟩ := readArray_eq_ok_iff.mp read
      dsimp only at null
      split at null
      · obtain ⟨returned, _⟩ := placeStruct_placed null
        cases returned
      · next tooFull =>
        cases null
        by_cases stays : header = h.allocFront
        · rw [stays]
          rfl
        · exact (tooFull (fits_of_moved request search starts stays)).elim

theorem hAllocRaw_unchanged (null : h.hAllocRaw bytes = .ok (none, h')) : h' = h := by
  rcases hAllocRaw_placed null with ⟨_, same, _⟩ | ⟨returned, _⟩
  · exact same
  · cases returned

/-- No call that returns `NULL` changes the bump pointer, the counter, the flags, the map or a byte. -/
theorem unchanged_of_null (null : (∃ layout, h.hAllocStruct layout = .ok (none, h')) ∨
    ∃ bytes, h.hAllocRaw bytes = .ok (none, h')) : h' = h := by
  rcases null with ⟨_, null⟩ | ⟨_, null⟩
  · exact hAllocStruct_unchanged null
  · exact hAllocRaw_unchanged null

/-- With 20 bytes left in the first space, `2i` passes the first test for room and fails the second. -/
theorem unchanged_of_null_late : ∃ h',
    (smallHeap.setFront 67564).hAllocStruct (some "2i".toList) = .ok (none, h') ∧
      h' = smallHeap.setFront 67564 := by
  obtain ⟨⟨p, h'⟩, ran, rfl⟩ := exists_of_toOption
    ((smallHeap.setFront 67564).hAllocStruct (some "2i".toList)) (fun result => result.1) none
    (by decide +kernel)
  exact ⟨h', ran, unchanged_of_null (.inl ⟨_, ran⟩)⟩

end GarbageCollector.Soundness
