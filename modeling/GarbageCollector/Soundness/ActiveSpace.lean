import GarbageCollector.Proofs.AnyHeap
import GarbageCollector.Proofs.Session

/-! # Structs stay inside one active space

Whatever the flags, the counter and the position of the bump pointer inside the spaces, a struct that
`h_alloc_struct` returns lies in one space whose flag is set. Both computations of `space_left` are exact:
the first because the bump pointer is in the space that is read, the second because the struct either
passed the first test or starts a space.
-/

namespace GarbageCollector.Soundness

open Model Proofs

/-- The `uint16_t` `space_left` is the difference that it is computed from. -/
def ExactLeft (front space : ℕ) : Prop :=
  (spaceLeft front space : ℤ) = (spaceSize : ℤ) - ((front : ℤ) - space)

theorem exactLeft_of_le {front space : ℕ} (after : space ≤ front) (before : front ≤ space + 2048) :
    ExactLeft front space := by
  rw [ExactLeft, spaceLeft_eq after before]
  simp only [spaceSize]
  omega

/-- What a call that returns `p` for a struct of `size` bytes leaves behind. -/
structure InsideActiveSpace (h h' : Heap) (p size : ℕ) : Prop where
  block : ∃ word, Placed h h' (p - headerSizeBytes) size word
  space : ∃ index space : ℕ, h.spaces[index]? = some space ∧ h.spaceIsActive[index]? = some true ∧
    space + headerSizeBytes ≤ p ∧ p + size + headerSizeBytes ≤ space + spaceSize
  firstLeft : ∃ (index : ℤ) (space : ℕ), h.spaceIndex = .ok index ∧ readArray h.spaces index = .ok space ∧
    ExactLeft h.allocFront space
  secondLeft : ∃ index start space : ℕ, h.findSpace size = .ok (some (index, start)) ∧
    readArray h.spaces (index : ℕ) = .ok space ∧ ExactLeft (start + headerSizeBytes) space

/-- Every struct returned lies in one active space, and `space_left` never wraps. -/
theorem hAllocStruct_insideActiveSpace {h h' : Heap} {layout : Option (List Char)} {p : ℕ}
    (tiled : Proofs.Tiled h) (after : h.heapStart ≤ h.allocFront)
    (before : h.allocFront < h.heapStart + h.numberOfSpaces * spaceSize)
    (ok : h.hAllocStruct layout = .ok (some p, h')) :
    InsideActiveSpace h h' p (layoutBytes layout) := by
  obtain ⟨size, header, index, space, word, rfl, request, search, starts, fits, placed⟩ :=
    hAllocStruct_found ok
  obtain ⟨here, first, indexed, firstAt, active, chosen⟩ := findSpace_some search
  obtain ⟨small, _⟩ := structRequest_size request
  have sameIndex := indexed.symm.trans (tiled.spaceIndex_eq after before)
  rw [Except.ok.injEq, Int.natCast_inj] at sameIndex
  obtain ⟨_, first_eq⟩ := tiled.space_eq firstAt
  simp only [spaceSize] at before first_eq
  have lower : first ≤ h.allocFront := by omega
  have upper : h.allocFront < first + 2048 := by omega
  have place : space ≤ header ∧ header + size + 16 ≤ space + 2048 := by
    rcases chosen with ⟨rfl, rfl, room⟩ | moved
    · obtain rfl := Option.some.inj (firstAt.symm.trans starts)
      rw [spaceLeft_eq lower upper.le] at room
      rw [spaceLeft_eq (by omega) (by omega)] at fits
      omega
    · obtain rfl := Option.some.inj (starts.symm.trans moved)
      omega
  rw [layoutBytes_of_structRequest request]
  refine ⟨⟨word, placed⟩, ⟨index, space, starts, active, ?_, ?_⟩,
    ⟨here, first, indexed, readArray_natCast firstAt, exactLeft_of_le lower upper.le⟩,
    index, header, space, search, readArray_natCast starts, exactLeft_of_le ?_ ?_⟩
  all_goals simp only [headerSizeBytes, spaceSize]
  all_goals omega

/-- The fresh heap with its flags inverted: the struct goes to the third space, the first active one. -/
theorem insideActiveSpace_flipped : ∃ h',
    (smallHeap.flipSpaces).hAllocStruct (some "4i".toList) = .ok (some 69640, h') ∧
      InsideActiveSpace smallHeap.flipSpaces h' 69640 16 := by
  obtain ⟨⟨p, h'⟩, ran, rfl⟩ := exists_of_toOption
    (smallHeap.flipSpaces.hAllocStruct (some "4i".toList)) (fun result => result.1) (some 69640)
    (by decide +kernel)
  have tiled : Proofs.Tiled smallHeap.flipSpaces := ⟨by decide, by decide, by decide⟩
  have inside := hAllocStruct_insideActiveSpace tiled (by decide) (by decide) ran
  rw [show layoutBytes (some "4i".toList) = 16 by decide +kernel] at inside
  exact ⟨h', ran, inside⟩

end GarbageCollector.Soundness
