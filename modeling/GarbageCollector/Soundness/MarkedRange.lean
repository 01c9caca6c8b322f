import GarbageCollector.Proofs.Boot
import GarbageCollector.Proofs.Alloc

/-! # The segments that `set_alloc_map` marks

`set_alloc_map` writes and `validate_ptr` reads the same bits, so afterwards exactly the segments of the range
are accepted besides those that were. `validate_ptr` accepts nothing behind the last space; where the
number of spaces was cut down to an `int`, a range that reaches behind that space is marked in vain.
-/

namespace GarbageCollector.Soundness

open Model Proofs

/-- The segment of an address. -/
def segmentOf (h : Heap) (address : ℕ) : ℕ := (address - h.heapStart) / 16

/-- Exactly the addresses in the segments of the range are accepted besides those that were, and only the map
is written. -/
def MarksRange (h : Heap) (startAddress endAddress : ℕ) : Prop :=
  ∃ map, h.setAllocMap startAddress endAddress = .ok (h.setMap map) ∧
    ∀ address, h.heapStart ≤ address → address < h.heapStart + h.size →
      ((h.setMap map).validatePtr address = .ok true ↔ h.validatePtr address = .ok true ∨
        segmentOf h startAddress ≤ segmentOf h address ∧ segmentOf h address < segmentOf h endAddress)

section Shaped

variable {h : Heap} {map : List Word} {startAddress endAddress : ℕ}

/-- `set_alloc_map` of a range in the heap marks the segments of the range. -/
theorem setAllocMap_ok (shaped : Shaped h) (inside : endAddress ≤ h.heapStart + h.size)
    (ordered : segmentOf h startAddress ≤ segmentOf h endAddress) :
    ∃ map, h.setAllocMap startAddress endAddress = .ok (h.setMap map) ∧ Shaped (h.setMap map) ∧
      ∀ i, Marked map i ↔ (segmentOf h startAddress ≤ i ∧ i < segmentOf h endAddress) ∨ Marked h.allocMap i := by
  have pages := shaped.wholePages
  simp only [spaceSize] at pages
  have room : segmentOf h startAddress + (segmentOf h endAddress - segmentOf h startAddress) ≤
      64 * h.allocMap.length := by
    rw [Nat.add_sub_cancel' ordered, shaped.mapLength, segmentOf]
    omega
  obtain ⟨map, ran⟩ := markSegments_exists room
  have same : SameShape h (h.setMap map) := ⟨rfl, rfl, rfl, rfl, rfl, length_markSegments ran⟩
  refine ⟨map, ?_, same.shaped shaped, fun i => ?_⟩
  · rw [Heap.setAllocMap, shaped.firstSpace]
    refine bind_ok_iff.mpr ⟨h.heapStart, rfl, ?_⟩
    exact bind_ok_iff.mpr ⟨map, ran, rfl⟩
  · rw [marked_markSegments ran, Nat.add_sub_cancel' ordered]

/-- A range that does not reach behind the last space is marked. -/
theorem marksRange_of_covered (shaped : Shaped h) (inside : endAddress ≤ h.heapStart + h.size)
    (ordered : startAddress ≤ endAddress)
    (covered : segmentOf h startAddress = segmentOf h endAddress ∨
      16 * segmentOf h endAddress ≤ h.numberOfSpaces * spaceSize) : MarksRange h startAddress endAddress := by
  have segments : segmentOf h startAddress ≤ segmentOf h endAddress := by
    simp only [segmentOf]
    omega
  obtain ⟨map, ran, shaped', marked⟩ := setAllocMap_ok shaped inside segments
  refine ⟨map, ran, fun address above below => ?_⟩
  rw [shaped'.validatePtr_iff, shaped.validatePtr_iff, Heap.setMap_heapStart, Heap.setMap_numberOfSpaces,
    Heap.setMap_allocMap, marked, ← segmentOf]
  constructor
  · rintro ⟨_, upTo, here | before⟩
    · exact .inr here
    · exact .inl ⟨above, upTo, before⟩
  · rintro (⟨_, upTo, before⟩ | here)
    · exact ⟨above, upTo, .inr before⟩
    · refine ⟨above, ?_, .inl here⟩
      simp only [segmentOf] at here covered
      omega

/-- The last byte of a range that reaches behind the last space is not accepted. -/
theorem covered_of_marksRange (shaped : Shaped h) (inside : endAddress ≤ h.heapStart + h.size)
    (after : h.heapStart ≤ startAddress) (ordered : startAddress ≤ endAddress)
    (marks : MarksRange h startAddress endAddress) :
    segmentOf h startAddress = segmentOf h endAddress ∨
      16 * segmentOf h endAddress ≤ h.numberOfSpaces * spaceSize := by
  by_contra uncovered
  obtain ⟨some, behind⟩ := not_or.mp uncovered
  obtain ⟨map, ran, exact_range⟩ := marks
  have segments : segmentOf h startAddress < segmentOf h endAddress := by
    simp only [segmentOf] at some ⊢
    omega
  obtain ⟨map', ran', shaped', _⟩ := setAllocMap_ok shaped inside segments.le
  cases ran.symm.trans ran'
  have lastSegment : segmentOf h (h.heapStart + (16 * segmentOf h endAddress - 1)) =
      segmentOf h endAddress - 1 := by
    rw [segmentOf, Nat.add_sub_cancel_left]
    omega
  have accepted := (exact_range (h.heapStart + (16 * segmentOf h endAddress - 1)) (by omega) (by
    simp only [segmentOf] at segments ⊢
    omega)).mpr (.inr (by omega))
  obtain ⟨_, upTo, _⟩ := (shaped'.validatePtr_iff _).mp accepted
  rw [Heap.setMap_heapStart, Heap.setMap_numberOfSpaces] at upTo
  simp only [spaceSize] at upTo behind
  omega

end Shaped

/-- A range is marked exactly when it is empty or does not reach behind the last space. -/
theorem marksRange_iff {h₀ h : Heap} (booted : Booted h₀) (same : SameShape h₀ h) {startAddress endAddress : ℕ}
    (after : h.heapStart ≤ startAddress) (ordered : startAddress ≤ endAddress)
    (inside : endAddress ≤ h.heapStart + h.size) : MarksRange h startAddress endAddress ↔
      segmentOf h startAddress = segmentOf h endAddress ∨
        16 * segmentOf h endAddress ≤ h.numberOfSpaces * spaceSize := by
  have shaped := same.shaped (fresh_of_booted booted).shaped
  exact ⟨covered_of_marksRange shaped inside after ordered, marksRange_of_covered shaped inside ordered⟩

/-- The whole of the smallest heap. -/
theorem marksRange_iff_small : MarksRange smallHeap 65536 73728 ↔
    segmentOf smallHeap 65536 = segmentOf smallHeap 73728 ∨
      16 * segmentOf smallHeap 73728 ≤ smallHeap.numberOfSpaces * spaceSize :=
  marksRange_iff booted_smallHeap (SameShape.refl smallHeap) (by decide) (by decide) (by decide)

/-- A heap of 2⁴³ + 8192 bytes, whose number of spaces is 4 as an `int`. -/
def cutHeap : Heap := { smallHeap with
  size := 2 ^ 43 + 8192
  allocMap := List.replicate ((2 ^ 43 + 8192) / (16 * 8) / 8) 0 }

theorem booted_cutHeap : Booted cutHeap :=
  ⟨2 ^ 43 + 8192, false, .finite 1, ⟨65536, by decide, by decide, by decide, by decide⟩, rfl⟩

/-- The segment behind the four spaces is in the heap, is marked, and is not accepted. -/
theorem not_marksRange_cut : Booted cutHeap ∧ cutHeap.heapStart + 8192 + 16 ≤ cutHeap.heapStart + cutHeap.size ∧
    ¬ MarksRange cutHeap (cutHeap.heapStart + 8192) (cutHeap.heapStart + 8192 + 16) := by
  have inside : cutHeap.heapStart + 8192 + 16 ≤ cutHeap.heapStart + cutHeap.size := by decide
  refine ⟨booted_cutHeap, inside, fun marks => ?_⟩
  have covered := covered_of_marksRange (fresh_of_booted booted_cutHeap).shaped inside (by decide) (by decide) marks
  exact absurd covered (by decide)

end GarbageCollector.Soundness
