import GarbageCollector.Proofs.Boot
import GarbageCollector.Proofs.Alloc

/-! # Values that `validate_ptr` looks up

The scan of the stack hands every word to `validate_ptr`, whose range test lets the address right behind
the heap through. The segment of that address has no bit in the map, so the lookup reads the word behind
the last one. Every other value is looked up inside the map or not at all.
-/

namespace GarbageCollector.Soundness

open Model Proofs

/-- The value is looked up inside the map, if at all, and accepted only when it is in the heap. -/
structure SafeLookup (h : Heap) (ptr : ℕ) : Prop where
  words : h.allocMap.length = h.size / 1024
  reads : h.validatePtr ptr ≠ .error .outOfBounds
  accepts : h.validatePtr ptr = .ok true → h.heapStart ≤ ptr ∧ ptr < h.heapStart + h.size

section Shaped

variable {h : Heap} {ptr : ℕ}

/-- Every value but the end of the heap is looked up inside the map. -/
theorem safeLookup_of_ne (shaped : Shaped h)
    (notEnd : ptr = h.heapStart + h.size → h.numberOfSpaces * spaceSize < h.size) : SafeLookup h ptr := by
  have spacesFit := shaped.spacesFit
  have mapLength := shaped.mapLength
  have pages := shaped.wholePages
  simp only [spaceSize] at notEnd spacesFit pages
  refine ⟨mapLength, ?_, fun accepted => ?_⟩
  · rw [shaped.validatePtr_eq]
    split
    · simp
    · next inRange =>
      simp only [spaceSize] at inRange
      have word : (ptr - h.heapStart) / 16 / 64 < h.allocMap.length := by omega
      rw [readArray_natCast (List.getElem?_eq_getElem word)]
      intro failed
      cases failed
  · obtain ⟨after, before, _⟩ := (shaped.validatePtr_iff ptr).mp accepted
    simp only [spaceSize] at before
    omega

/-- The end of the heap passes the range test, and its segment is behind the map. -/
theorem validatePtr_heapEnd (shaped : Shaped h) (whole : h.numberOfSpaces * spaceSize = h.size) :
    h.validatePtr (h.heapStart + h.size) = .error .outOfBounds := by
  have mapLength := shaped.mapLength
  rw [shaped.validatePtr_eq, whole, if_neg (by omega), Nat.add_sub_cancel_left]
  have behind : readArray h.allocMap (h.size / 16 / 64 : ℕ) = .error .outOfBounds := by
    rw [readArray, if_neg (by omega), Int.toNat_natCast, List.getElem?_eq_none (by omega)]
  rw [behind]
  rfl

end Shaped

/-- A value is looked up safely exactly when it is not the address at which the last space and the heap
both end. -/
theorem safeLookup_iff {h₀ h : Heap} (booted : Booted h₀) (same : SameShape h₀ h) (ptr : ℕ) :
    SafeLookup h ptr ↔ (ptr = h.heapStart + h.size → h.numberOfSpaces * spaceSize < h.size) := by
  have shaped := same.shaped (fresh_of_booted booted).shaped
  constructor
  · rintro safe rfl
    by_contra whole
    have spacesFit := shaped.spacesFit
    exact safe.reads (validatePtr_heapEnd shaped (by omega))
  · exact safeLookup_of_ne shaped

/-- The first address of the smallest heap. -/
theorem safeLookup_iff_start : SafeLookup smallHeap 65536 ↔
    (65536 = smallHeap.heapStart + smallHeap.size → smallHeap.numberOfSpaces * spaceSize < smallHeap.size) :=
  safeLookup_iff booted_smallHeap (SameShape.refl smallHeap) 65536

/-- In the smallest heap the word 73728 makes `validate_ptr` read the ninth of eight map words. -/
theorem not_safeLookup_heapEnd : Booted smallHeap ∧
    smallHeap.validatePtr 73728 = .error .outOfBounds ∧ ¬ SafeLookup smallHeap 73728 := by
  have behind : smallHeap.validatePtr 73728 = .error .outOfBounds := rfl
  exact ⟨booted_smallHeap, behind, fun safe => safe.reads behind⟩

end GarbageCollector.Soundness
