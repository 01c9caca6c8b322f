import GarbageCollector.Proofs.Scan

/-! # Copies apart from their object

In any heap, an object that is evacuated to a block apart from its own is encoded again word for word:
`ApartCopy` gives every byte afterwards. The bytes of the copy are those that follow the root's value,
with the new header already in place.
-/

namespace GarbageCollector.Proofs

open Model

/-- The word at `header` encodes a layout of `size` bytes. -/
def Encodes (h : Heap) (header size : ℕ) : Prop :=
  ∃ format, Expanded format ∧ format ≠ [] ∧ toBitVector format = some (h.mem.load64 header) ∧
    formatStrBytes format = size

/-- A visit that records an evacuation made it. -/
theorem evacuate_of_event {c c' : Collection} {root : ℕ} {event : Evacuation}
    (ok : garbageCollection c root = .ok c') (recorded : c'.evacuated = c.evacuated ++ [event]) :
    ∃ h layout, EvacuationRun c c' root event.oldHeader h layout event.newHeader ∧
      event.size = formatStrBytes layout := by
  have grown : c'.evacuated ≠ c.evacuated := by
    rw [recorded]
    simp
  unfold garbageCollection at ok
  split at ok
  · obtain rfl := Except.ok.inj ok
    exact (grown rfl).elim
  obtain ⟨found, _, ok⟩ := bind_ok_iff.mp ok
  cases found with
  | skipped =>
    obtain rfl := Except.ok.inj ok
    exact (grown rfl).elim
  | forwarding value =>
    obtain rfl := Except.ok.inj ok
    exact (grown rfl).elim
  | bitVector header =>
    obtain ⟨h, layout, newHeader, run⟩ := evacuate_run ok
    have same := run.evacuated.symm.trans recorded
    obtain rfl := List.singleton_injective (List.append_cancel_left same)
    exact ⟨h, layout, run, rfl⟩

/-- Every byte after the evacuation of an object to a block apart from it. -/
structure ApartCopy (c c' : Collection) (root header newHeader size : ℕ) : Prop where
  shape : SameShape c.heap c'.heap
  inside : c.heap.InBounds newHeader (size + 16)
  search : ∃ index, c.heap.findSpace size = .ok (some (index, newHeader))
  front : c'.heap.allocFront = newHeader + size + 16
  encoded : c'.heap.mem.load64 newHeader = c.heap.mem.load64 header
  data : ∀ offset < size, c'.heap.mem (newHeader + 8 + offset) =
    c.heap.mem.store64 newHeader (c.heap.mem.load64 header) ((c.stack root).toNat + offset)
  outside : ∀ address, (address < newHeader ∨ newHeader + size + 16 ≤ address) →
    (address < header ∨ header + 8 ≤ address) → c'.heap.mem address = c.heap.mem address
  forwarded : c'.heap.mem.load64 header = setHeaderForwardAddress (BitVec.ofNat 64 newHeader)
  stack : c'.stack = Function.update c.stack root
    (BitVec.ofNat 64 newHeader + (c.stack root - BitVec.ofNat 64 header))

/-- The decoder and the allocator give the copy the header word of its object. -/
theorem request_of_decoded {h : Heap} {header size : ℕ} {layout : List Char} {newSize : ℕ} {word : Word}
    (object : Encodes h header size)
    (decoded : bitVectorToFormatString (h.mem.load64 header) = .ok (some layout))
    (request : h.structRequest (some layout) = .ok (some (newSize, word))) :
    newSize = size ∧ word = h.mem.load64 header := by
  obtain ⟨format, letters, nonempty, encoded, rfl⟩ := object
  have layout_eq := decoded.symm.trans (bitVectorToFormatString_of_toBitVector letters nonempty encoded)
  obtain rfl := Option.some.inj (Except.ok.inj layout_eq)
  obtain ⟨_, _, created, _⟩ := bitVectorToFormatString_ok decoded
  obtain ⟨text, frmtString, same, parsed, again, rfl, _, _⟩ := structRequest_some request
  obtain rfl := Option.some.inj same
  obtain rfl := Option.some.inj (Except.ok.inj (parsed.symm.trans created))
  refine ⟨formatStrBytes_decodedLayout format, Option.some.inj ?_⟩
  rw [← again, toBitVector_decodedLayout letters encoded]

theorem apartCopy {c c' : Collection} {root header newHeader size : ℕ}
    (object : Encodes c.heap header size)
    (pointed : (c.stack root).toNat ∈ (Block.data ⟨header, size⟩).bytes)
    (apart : (Block.extent ⟨header, size⟩).Apart (Block.extent ⟨newHeader, size⟩))
    (ok : garbageCollection c root = .ok c')
    (recorded : c'.evacuated = c.evacuated ++ [⟨header, newHeader, size⟩]) :
    ApartCopy c c' root header newHeader size := by
  obtain ⟨h, layout, run, bytes⟩ := evacuate_of_event ok recorded
  dsimp only at run bytes
  obtain ⟨newSize, other, index, space, word, same, found⟩ := hAllocStruct_found run.allocated
  obtain rfl : newHeader = other := Nat.add_right_cancel same
  obtain ⟨rfl, word_eq⟩ := request_of_decoded object run.decoded found.request
  have placed := found.placed
  simp only [Block.extent, headerSizeBytes] at apart
  have order := (Extent.apart_iff (by dsimp only; omega) (by dsimp only; omega)).mp apart
  dsimp only at order
  simp only [Block.data, Block.dataStart, headerSizeBytes, Extent.mem_bytes] at pointed
  have kept : h.mem.load64 header = c.heap.mem.load64 header :=
    ByteMemory.load64_congr fun offset bound => placed.mem_outside (by omega)
  have length_eq : (getSizeBitsField (h.mem.load64 header)).toNat = newSize := by
    obtain ⟨format, _, _, encoded, size_eq⟩ := object
    rw [kept, toNat_getSizeBitsField_toBitVector encoded, size_eq]
  have noOverlap := run.noOverlap
  obtain ⟨length, same, _, _, heap_eq⟩ := run.copied
  rw [length_eq] at noOverlap same
  subst same
  refine ⟨?_, placed.inside, ⟨index, found.search⟩, ?_, ?_, ?_, ?_, ?_, run.stack⟩
  · rw [heap_eq]
    exact placed.shape.trans (.setMem h _)
  · rw [heap_eq]
    exact placed.front
  · rw [heap_eq, ← word_eq, ← placed.load64_header]
    apply ByteMemory.load64_congr
    intro offset bound
    rw [Heap.setMem_mem, ByteMemory.store64_of_outside (by omega), ByteMemory.copy_of_outside (by omega)]
  · intro offset bound
    rw [heap_eq, Heap.setMem_mem, ByteMemory.store64_of_outside (by omega),
      ByteMemory.copy_inside bound, placed.mem, ByteMemory.store64_of_outside (by omega), word_eq]
  · intro address outCopy outHeader
    rw [heap_eq, Heap.setMem_mem, ByteMemory.store64_of_outside (by omega),
      ByteMemory.copy_of_outside (by omega), placed.mem_outside (by omega)]
  · rw [heap_eq]
    exact ByteMemory.load64_store64

/-- A copy starts at a multiple of four. -/
theorem ApartCopy.aligned {c c' : Collection} {root header newHeader size : ℕ}
    (copy : ApartCopy c c' root header newHeader size) (tiled : Tiled c.heap)
    (aligned : c.heap.heapStart % 16 = 0) (front : c.heap.allocFront % 4 = 0) : newHeader % 4 = 0 := by
  obtain ⟨index, search⟩ := copy.search
  obtain ⟨here, space, _, _, _, ⟨_, rfl, _⟩ | start⟩ := findSpace_some search
  · exact front
  · obtain ⟨_, rfl⟩ := tiled.space_eq start
    simp only [spaceSize]
    omega

end GarbageCollector.Proofs
