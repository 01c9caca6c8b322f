import GarbageCollector.Proofs.ApartCopy
import GarbageCollector.Soundness.Relocation

/-! # What a copy holds

The `memcpy` of an evacuation starts at the root's value, not at the object's first data byte. So the copy
has the object's data exactly when the bytes from the root's value on repeat it: always for a root that
points at the first data byte.
-/

namespace GarbageCollector.Soundness

open Model Proofs

/-- The `size` bytes from a root's value on are the data of the object at `header`. A byte that falls into
the block that the allocator is about to place is one of that block's header. -/
def SourceRepeats (h : Heap) (value : Word) (header size : ℕ) : Prop :=
  ∀ index newHeader, h.findSpace size = .ok (some (index, newHeader)) → ∀ offset < size,
    h.mem.store64 newHeader (h.mem.load64 header) (value.toNat + offset) = h.mem (header + 8 + offset)

/-- A copy apart from its object has the object's data exactly when the root's bytes repeat it, and a
root that points at the first byte repeats it. -/
theorem copiedData_iff {c c' : Collection} {root header newHeader size : ℕ}
    (object : Encodes c.heap header size)
    (pointed : (c.stack root).toNat ∈ (Block.data ⟨header, size⟩).bytes)
    (apart : (Block.extent ⟨header, size⟩).Apart (Block.extent ⟨newHeader, size⟩))
    (ok : garbageCollection c root = .ok c')
    (recorded : c'.evacuated = c.evacuated ++ [⟨header, newHeader, size⟩]) :
    ((∀ offset < size, c'.heap.mem (newHeader + 8 + offset) = c.heap.mem (header + 8 + offset)) ↔
      SourceRepeats c.heap (c.stack root) header size) ∧
    ((c.stack root).toNat = header + 8 → SourceRepeats c.heap (c.stack root) header size) := by
  have copy := apartCopy object pointed apart ok recorded
  obtain ⟨index, search⟩ := copy.search
  have target {other place : ℕ} (again : c.heap.findSpace size = .ok (some (other, place))) :
      place = newHeader :=
    (Prod.mk.inj (Option.some.inj (Except.ok.inj (again.symm.trans search)))).2
  refine ⟨⟨?_, ?_⟩, ?_⟩
  · intro copied other place again offset bound
    obtain rfl := target again
    rw [← copy.data offset bound]
    exact copied offset bound
  · intro repeats offset bound
    rw [copy.data offset bound]
    exact repeats index newHeader search offset bound
  · intro first other place again offset bound
    obtain rfl := target again
    simp only [Block.extent, headerSizeBytes] at apart
    have order := (Extent.apart_iff (by dsimp only; omega) (by dsimp only; omega)).mp apart
    dsimp only at order
    rw [first, ByteMemory.store64_of_outside (by omega)]

/-- The second of two objects, evacuated through its first byte. -/
theorem copiedData_two_objects : ∃ c c', garbageCollection c 8 = .ok c' ∧
    c'.evacuated = c.evacuated ++ [⟨65568, 65536, 8⟩] ∧
    ∀ offset < 8, c'.heap.mem (65536 + 8 + offset) = c.heap.mem (65568 + 8 + offset) := by
  obtain ⟨s, ran, found⟩ := exists_of_toOption
    (Machine.run Session.step (Session.start smallHeap) twoObjects)
    (fun s => (s.heap.mem.load64 65568, s.heap.prepareCollection.toOption.map fun prepared =>
      (prepared.mem.load64 65568, (garbageCollection ⟨prepared, twoSlots, []⟩ 8).toOption.map
        fun c' => c'.evacuated)))
    (0x0800000000000003, some (0x0800000000000003, some [⟨65568, 65536, 8⟩])) (by decide +kernel)
  obtain ⟨_, found⟩ := Prod.mk.inj found
  obtain ⟨prepared, _, found⟩ := exists_of_toOption _ _ _ found
  obtain ⟨word, found⟩ := Prod.mk.inj found
  obtain ⟨c', ok, recorded⟩ := exists_of_toOption _ _ _ found
  have object : Encodes prepared 65568 8 := by
    refine ⟨"ii".toList, by decide, by decide, ?_, by decide⟩
    rw [word]
    decide +kernel
  have pointed : (twoSlots 8).toNat ∈ (Block.data ⟨65568, 8⟩).bytes := by decide
  have apart : (Block.extent ⟨65568, 8⟩).Apart (Block.extent ⟨65536, 8⟩) :=
    Extent.apart_of_le (.inr (by decide))
  have copied := copiedData_iff (c := ⟨prepared, twoSlots, []⟩) object pointed apart ok recorded
  have first : (twoSlots 8).toNat = 65568 + 8 := by decide
  exact ⟨⟨prepared, twoSlots, []⟩, c', ok, recorded, copied.1.mpr (copied.2 first)⟩

/-- Garbage, then an object whose first data byte is not zero. -/
def markedObject : List Call :=
  [.hAllocStruct (some "4i".toList), .hAllocStruct (some "4i".toList), .write 65576 7]

/-- A stack whose slot points at the ninth byte of the second object. -/
def interiorSlot : Stack := fun slot => if slot = 8 then 65584 else 0

/-- An interior root: the scan returns the object's header, the copy lies below the object and does not
have its first data byte. -/
theorem exists_interior_copy : ∃ s prepared c',
    Machine.run Session.step (Session.start smallHeap) markedObject = .ok s ∧
    s.heap.prepareCollection = .ok prepared ∧
    prepared.findHeaderAddressThroughFooter 65584 (65584 + 2048) = .ok (some 65568) ∧
    garbageCollection ⟨prepared, interiorSlot, []⟩ 8 = .ok c' ∧
    c'.evacuated = [⟨65568, 65536, 16⟩] ∧ prepared.mem (65568 + 8) = 7 ∧ c'.heap.mem (65536 + 8) = 0 := by
  obtain ⟨s, ran, found⟩ := exists_of_toOption
    (Machine.run Session.step (Session.start smallHeap) markedObject)
    (fun s => s.heap.prepareCollection.toOption.map fun prepared =>
      (((prepared.findHeaderAddressThroughFooter 65584 (65584 + 2048)).toOption == some (some 65568),
        prepared.mem (65568 + 8)), (garbageCollection ⟨prepared, interiorSlot, []⟩ 8).toOption.map
          fun c' => (c'.evacuated, c'.heap.mem (65536 + 8))))
    (some ((true, 7), some ([⟨65568, 65536, 16⟩], 0))) (by decide +kernel)
  obtain ⟨prepared, prepare, found⟩ := exists_of_toOption _ _ _ found
  obtain ⟨before, found⟩ := Prod.mk.inj found
  obtain ⟨scan, first⟩ := Prod.mk.inj before
  obtain ⟨c', ok, found⟩ := exists_of_toOption _ _ _ found
  obtain ⟨recorded, copied⟩ := Prod.mk.inj found
  obtain ⟨_, scan, rfl⟩ := exists_of_toOption _ id (some 65568) (by simpa using scan)
  exact ⟨s, prepared, c', ran, prepare, scan, ok, recorded, first, copied⟩

end GarbageCollector.Soundness
