import GarbageCollector.Proofs.Alloc

/-! # Allocation in any heap

The inversion of `h_alloc_struct` without assumptions on the activity of the spaces, the counter or the
bump pointer: a successful call placed one block where its search led. In a tiled table of
spaces a bump pointer inside the spaces lies in the space that the search reads.
-/

namespace GarbageCollector.Proofs

open Model

variable {h h' : Heap} {layout : Option (List Char)} {size index start : ℕ}

theorem confirmTag_createFooter (size : BitVec 8) : confirmTag (createFooter size) = true := by
  revert size
  decide +kernel

theorem getSizeBitsField_createFooter (size : BitVec 8) :
    getSizeBitsField (createFooter size) = size.setWidth 64 := by
  revert size
  decide +kernel

/-- A footer gives the low eight bits of the size that it was made from. -/
theorem toNat_getSizeBitsField_createFooter (size : ℕ) :
    (getSizeBitsField (createFooter (BitVec.ofNat 8 size))).toNat = size % 256 := by
  rw [getSizeBitsField_createFooter, BitVec.toNat_setWidth, BitVec.toNat_ofNat]
  omega

/-- A placed block keeps its header word. -/
theorem Placed.load64_header {header : ℕ} {word : Word} (placed : Placed h h' header size word) :
    h'.mem.load64 header = word := by
  have first : (h.mem.store64 header word).load64 header = word := ByteMemory.load64_store64
  rw [placed.mem, ← first]
  apply ByteMemory.load64_congr
  intro offset bound
  rw [ByteMemory.store64_of_outside (by omega), first]

/-- A placed block ends in its footer. -/
theorem Placed.load64_footer {header : ℕ} {word : Word} (placed : Placed h h' header size word) :
    h'.mem.load64 (header + 8 + size) = createFooter (BitVec.ofNat 8 size) := by
  rw [placed.mem, ByteMemory.load64_store64]

/-- The walk stops at an active space after the one it starts from. -/
theorem walkToActive_some {i found : ℕ} (ok : h.walkToActive i = .ok (some found)) :
    i < found ∧ h.spaceIsActive[found]? = some true := by
  fun_induction Heap.walkToActive h i with
  | case1 i done => cases ok
  | case2 i more outside => cases ok
  | case3 i more active =>
    cases ok
    exact ⟨Nat.lt_succ_self i, active⟩
  | case4 i more inactive ih =>
    obtain ⟨later, active⟩ := ih ok
    exact ⟨by omega, active⟩

/-- A search reads the space of the bump pointer, and leads to the bump pointer or to the start of an
active space. -/
theorem findSpace_some (ok : h.findSpace size = .ok (some (index, start))) :
    ∃ here space, h.spaceIndex = .ok (here : ℕ) ∧ h.spaces[here]? = some space ∧
      h.spaceIsActive[index]? = some true ∧
      ((here = index ∧ start = h.allocFront ∧ size + 8 ≤ spaceLeft h.allocFront space) ∨
        h.spaces[index]? = some start) := by
  obtain ⟨here, indexed, ok⟩ := bind_ok_iff.mp ok
  obtain ⟨active, readActive, ok⟩ := bind_ok_iff.mp ok
  obtain ⟨space, readSpace, ok⟩ := bind_ok_iff.mp ok
  obtain ⟨nonnegative, activeAt⟩ := readArray_eq_ok_iff.mp readActive
  obtain ⟨_, spaceAt⟩ := readArray_eq_ok_iff.mp readSpace
  lift here to ℕ using nonnegative
  rw [Int.toNat_natCast] at activeAt spaceAt ok
  dsimp only at ok
  refine ⟨here, space, indexed, spaceAt, ?_⟩
  split at ok
  · next both =>
    cases ok
    rw [both.1] at activeAt
    exact ⟨activeAt, .inl ⟨rfl, rfl, both.2⟩⟩
  · obtain ⟨found, walked, ok⟩ := bind_ok_iff.mp ok
    cases found with
    | none => cases ok
    | some other =>
      obtain ⟨first, read, ok⟩ := bind_ok_iff.mp ok
      cases ok
      obtain ⟨_, startAt⟩ := readArray_eq_ok_iff.mp read
      refine ⟨?_, .inr startAt⟩
      split at walked
      · next stays =>
        cases walked
        rwa [stays] at activeAt
      · exact (walkToActive_some walked).2

/-- One struct block in any heap: what was requested, the space that the search found, and the block. -/
structure StructFound (h h' : Heap) (layout : Option (List Char)) (size header index space : ℕ)
    (word : Word) : Prop where
  request : h.structRequest layout = .ok (some (size, word))
  search : h.findSpace size = .ok (some (index, header))
  starts : h.spaces[index]? = some space
  fits : size + 8 ≤ spaceLeft (header + 8) space
  placed : Placed h h' header size word

/-- A call that returns a pointer placed one block. -/
theorem hAllocStruct_found {p : ℕ} (ok : h.hAllocStruct layout = .ok (some p, h')) :
    ∃ size header index space word, p = header + 8 ∧
      StructFound h h' layout size header index space word := by
  obtain ⟨requested, request, ok⟩ := bind_ok_iff.mp ok
  cases requested with
  | none => cases ok
  | some wanted =>
    obtain ⟨size, word⟩ := wanted
    obtain ⟨found, search, ok⟩ := bind_ok_iff.mp ok
    cases found with
    | none => cases ok
    | some place =>
      obtain ⟨index, header⟩ := place
      obtain ⟨space, read, ok⟩ := bind_ok_iff.mp ok
      obtain ⟨_, starts⟩ := readArray_eq_ok_iff.mp read
      dsimp only at ok
      split at ok
      · next fits =>
        obtain ⟨returned, placed, _⟩ := placeStruct_placed ok
        obtain rfl := Option.some.inj returned
        obtain ⟨shape, inside, mem, front, used⟩ := placed
        exact ⟨size, header, index, space, word, rfl, request, search, starts, fits,
          (SameShape.setFront h header).trans shape, inside, mem, front, used⟩
      · cases ok

/-- The search starts in the space that holds the bump pointer. -/
theorem Tiled.spaceIndex_eq (tiled : Tiled h) (after : h.heapStart ≤ h.allocFront)
    (before : h.allocFront < h.heapStart + h.numberOfSpaces * spaceSize) :
    h.spaceIndex = .ok (((h.allocFront - h.heapStart) / 2048 : ℕ) : ℤ) := by
  have count := tiled.count
  simp only [spaceSize] at before
  rw [spaceIndex_of_firstSpace (tiled.firstSpace (by omega)) after, toInt32_of_lt (by omega)]

end GarbageCollector.Proofs
