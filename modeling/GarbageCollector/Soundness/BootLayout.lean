import GarbageCollector.Proofs.Boot

/-! # The layout of a new heap

`h_init` numbers the spaces with an `int` and multiplies that number by the size of a space in `int`
arithmetic. Up to 2³¹ bytes this is exact, and the table partitions the heap. An accepted size beyond
that either overflows the product or loses spaces in the conversion.
-/

namespace GarbageCollector.Soundness

open Model Proofs

/-- The spaces tile the bytes of the heap, the first half of them is active, the map has a bit for each
segment, and the bump pointer starts an active space. -/
structure SpacesLaidOut (h : Heap) (heapStart bytes : ℕ) : Prop where
  starts : ∀ i < bytes / spaceSize, h.spaces[i]? = some (heapStart + spaceSize * i)
  count : h.spaces.length = bytes / spaceSize
  partition : ∀ address, heapStart ≤ address → address < heapStart + bytes →
    ∃! i : ℕ, ∃ space, h.spaces[i]? = some space ∧ space ≤ address ∧ address < space + spaceSize
  half : ∀ i < bytes / spaceSize, h.spaceIsActive[i]? = some (decide (i < bytes / spaceSize / 2))
  bits : 64 * h.allocMap.length = bytes / minObjSize
  front : ∃ i : ℕ, h.spaceIsActive[i]? = some true ∧ h.spaces[i]? = some h.allocFront

section Accepted

variable {bytes : ℕ} {unsafeStack : Bool} {gcThreshold : CFloat} {block : CallocBlock bytes}

/-- The arguments to which `h_init` does not answer `NULL`. -/
theorem hInit_not_null_iff : hInit bytes unsafeStack gcThreshold block ≠ .ok none ↔
    bytes % 4096 = 0 ∧ 8192 ≤ bytes ∧ (gcThreshold.gt 1 || gcThreshold.le 0) = false := by
  constructor
  · intro accepted
    unfold hInit at accepted
    split at accepted
    · exact (accepted rfl).elim
    split at accepted
    · exact (accepted rfl).elim
    split at accepted
    · exact (accepted rfl).elim
    split at accepted
    · exact (accepted rfl).elim
    rename_i pages _ threshold large
    simp only [spaceSize] at pages
    exact ⟨by omega, by omega, by simpa using threshold⟩
  · rintro ⟨pages, large, threshold⟩ null
    unfold hInit at null
    rw [if_neg (by simp only [spaceSize]; omega), if_neg (by omega), if_neg (by simpa using threshold),
      if_neg (by omega)] at null
    dsimp only at null
    split at null
    · cases null
    · obtain ⟨table, _, null⟩ := bind_ok_iff.mp null
      obtain ⟨front, _, null⟩ := bind_ok_iff.mp null
      cases null

theorem spaceTable_exists {heapStart i count : ℕ} (small : ∀ j < count, (i + j) * spaceSize < 2 ^ 31) :
    ∃ table, spaceTable heapStart i count = .ok table := by
  induction count generalizing i with
  | zero => exact ⟨[], rfl⟩
  | succ count ih =>
    obtain ⟨rest, tail⟩ := ih (i := i + 1) fun j bound => by
      have later := small (j + 1) (by omega)
      rwa [Nat.add_assoc, Nat.add_comm 1]
    have here := small 0 (by omega)
    rw [Nat.add_zero] at here
    refine ⟨(heapStart + i * spaceSize) :: rest, ?_⟩
    rw [spaceTable, if_pos here, tail]
    rfl

/-- Up to 2³¹ bytes an accepted call returns a heap with all its spaces. -/
theorem hInit_exists (accepted : hInit bytes unsafeStack gcThreshold block ≠ .ok none)
    (small : bytes ≤ 2 ^ 31) : ∃ h, hInit bytes unsafeStack gcThreshold block = .ok (some h) ∧
      h.heapStart = block.address ∧ h.size = bytes ∧ h.numberOfSpaces = bytes / spaceSize := by
  obtain ⟨pages, large, threshold⟩ := hInit_not_null_iff.mp accepted
  have count : toInt32 (bytes / spaceSize) = (bytes / 2048 : ℕ) := by
    rw [← toInt32_of_lt (show bytes / 2048 < 2 ^ 31 by omega)]
    rfl
  obtain ⟨table, spaces⟩ : ∃ table, spaceTable block.address 0 (bytes / 2048) = .ok table := by
    apply spaceTable_exists
    intro j bound
    simp only [spaceSize]
    omega
  obtain ⟨_, table_eq⟩ := spaceTable_ok spaces
  have first : readArray table 0 = .ok block.address := by
    have zeroth : table[0]? = some block.address := by
      rw [table_eq, List.getElem?_map, List.getElem?_range (by omega)]
      simp
    simpa using readArray_natCast zeroth
  unfold hInit
  rw [if_neg (by simp only [spaceSize]; omega), if_neg (by omega), if_neg (by simpa using threshold),
    if_neg (by omega)]
  simp only [count]
  rw [if_neg (by omega), Int.toNat_natCast, spaces]
  simp only [bind, Except.bind, first]
  exact ⟨_, rfl, rfl, rfl, rfl⟩

/-- The spaces of a heap that has as many as its size holds. -/
theorem laidOut_of_fresh {h : Heap} (fresh : Fresh h)
    (all : h.numberOfSpaces = h.size / spaceSize) : SpacesLaidOut h h.heapStart h.size := by
  have shaped := fresh.shaped
  have pages := shaped.wholePages
  simp only [spaceSize] at pages
  have spaces_length : h.spaces.length = h.numberOfSpaces := by
    rw [shaped.spaces, List.length_map, List.length_range]
  refine ⟨fun i bound => ?_, spaces_length.trans all, fun address after before => ?_, fun i bound => ?_, ?_,
    0, ?_, ?_⟩
  · rw [shaped.space (all ▸ bound), Nat.mul_comm]
  · simp only [spaceSize] at all
    refine ⟨(address - h.heapStart) / 2048, ⟨_, shaped.space (by omega), ?_, ?_⟩, ?_⟩
    · simp only [spaceSize]
      omega
    · simp only [spaceSize]
      omega
    · rintro i ⟨space, found, lower, upper⟩
      obtain ⟨_, rfl⟩ := shaped.space_eq found
      simp only [spaceSize] at lower upper
      omega
  · rw [fresh.half i (all ▸ bound), all]
  · rw [shaped.mapLength]
    simp only [minObjSize]
    omega
  · have two := shaped.someSpaces
    rw [fresh.half 0 (by omega), decide_eq_true (by omega)]
  · have two := shaped.someSpaces
    rw [shaped.space (by omega), fresh.front, Nat.zero_mul, Nat.add_zero]

/-- A heap laid out in whole has at most 2³¹ bytes, since no `int` product overflowed. -/
theorem bytes_le_of_laidOut {h : Heap} (made : hInit bytes unsafeStack gcThreshold block = .ok (some h))
    (laidOut : SpacesLaidOut h block.address bytes) : bytes ≤ 2 ^ 31 := by
  have accepted : hInit bytes unsafeStack gcThreshold block ≠ .ok none := by
    rw [made]
    simp
  obtain ⟨pages, _, _⟩ := hInit_not_null_iff.mp accepted
  have shaped := (fresh_of_booted ⟨_, _, _, _, made⟩).shaped
  have few := shaped.fewSpaces
  have count := laidOut.count
  rw [shaped.spaces, List.length_map, List.length_range] at count
  simp only [spaceSize] at count
  omega

/-- An accepted call lays its heap out in whole exactly when the size is at most 2³¹. -/
theorem laidOut_iff (accepted : hInit bytes unsafeStack gcThreshold block ≠ .ok none) :
    (∃ h, hInit bytes unsafeStack gcThreshold block = .ok (some h) ∧ SpacesLaidOut h block.address bytes) ↔
      bytes ≤ 2 ^ 31 := by
  constructor
  · rintro ⟨h, made, laidOut⟩
    exact bytes_le_of_laidOut made laidOut
  · intro small
    obtain ⟨h, made, start, size, count⟩ := hInit_exists accepted small
    have fresh := fresh_of_booted ⟨_, _, _, _, made⟩
    have laidOut := laidOut_of_fresh fresh (count.trans (congrArg (· / spaceSize) size.symm))
    rw [start, size] at laidOut
    exact ⟨h, made, laidOut⟩

end Accepted

/-- The smallest heap. -/
theorem laidOut_iff_small :
    (∃ h, hInit 8192 false (.finite 1) smallBlock = .ok (some h) ∧ SpacesLaidOut h smallBlock.address 8192) ↔
      8192 ≤ 2 ^ 31 :=
  laidOut_iff (by
    change Except.ok (some smallHeap) ≠ _
    simp)

/-- The first accepted size above 2³¹ is accepted, and no heap laid out in whole is returned. -/
theorem exists_not_laidOut : ∃ block : CallocBlock (2 ^ 31 + 4096),
    hInit (2 ^ 31 + 4096) false (.finite 1) block ≠ .ok none ∧
      ¬ ∃ h, hInit (2 ^ 31 + 4096) false (.finite 1) block = .ok (some h) ∧
        SpacesLaidOut h block.address (2 ^ 31 + 4096) := by
  refine ⟨⟨65536, by decide, by decide, by decide, by decide⟩, ?_, ?_⟩
  · exact hInit_not_null_iff.mpr ⟨by decide, by decide, by decide +kernel⟩
  · rintro ⟨h, made, laidOut⟩
    have small := bytes_le_of_laidOut made laidOut
    omega

end GarbageCollector.Soundness
