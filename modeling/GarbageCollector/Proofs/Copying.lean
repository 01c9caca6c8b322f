import GarbageCollector.Proofs.Progress

/-! # Copies of intact objects

An object is intact when no other block has taken its bytes and its header still encodes its layout.
A root that points into the data of an intact object, with room for the copy below the object and inside
the current space, is evacuated without a fault: `Moved` gives every byte afterwards. The bytes of the
copy are those that follow the root's value, so they are those of the object when the root points at the
start of its data. A loop over such roots keeps `Copying`.
-/

namespace GarbageCollector.Proofs

open Model

/-- Without raw allocations the bump pointer and every block stay in the first half of the spaces. -/
structure FirstHalf (h : Heap) (blocks : List Block) : Prop where
  steady : Steady h
  within : h.allocFront ≤ h.heapStart + h.numberOfSpaces / 2 * 2048
  blocks : ∀ block ∈ blocks, h.heapStart ≤ block.header ∧
    block.header + block.size + 16 ≤ h.heapStart + h.numberOfSpaces / 2 * 2048

namespace FirstHalf

variable {h h' : Heap} {blocks more : List Block}

theorem setMem (half : FirstHalf h blocks) (mem : ByteMemory) : FirstHalf (h.setMem mem) blocks :=
  ⟨(SameShape.setMem h mem).steady half.steady half.steady.front, half.within, half.blocks⟩

/-- One more struct block, whichever list records it. -/
theorem place {layout : Option (List Char)} {size header index space : ℕ} {word : Word}
    (half : FirstHalf h blocks) (placed : StructPlaced h h' layout size header index space word)
    (recorded : ∀ block ∈ more, block = ⟨header, size⟩ ∨ block ∈ blocks) : FirstHalf h' more := by
  have same := placed.placed.shape
  obtain ⟨steady, within, lower, upper⟩ := placed.firstHalf half.steady half.within
  refine ⟨steady, within, fun block member => ?_⟩
  rw [same.heapStart, same.numberOfSpaces]
  rcases recorded block member with rfl | old
  · exact ⟨lower, upper⟩
  · exact half.blocks block old

/-- Every evacuation keeps the copies in the first half. -/
theorem evacuated {c c' : Collection} {root header newHeader size : ℕ} {layout : List Char}
    (half : FirstHalf c.heap (c.evacuated.map Evacuation.block))
    (done : Evacuated c c' root header h layout newHeader size) :
    FirstHalf c'.heap (c'.evacuated.map Evacuation.block) := by
  obtain ⟨index, space, word, placed⟩ := done.placed
  obtain ⟨mem, same⟩ := done.heap_eq
  rw [same, done.evacuated, List.map_append]
  apply FirstHalf.setMem
  apply half.place placed
  intro block member
  rcases List.mem_append.mp member with old | new
  · exact .inr old
  · exact .inl (List.mem_singleton.mp new)

/-- Every root keeps the copies in the first half. -/
theorem root {c c' : Collection} {root : ℕ}
    (half : FirstHalf c.heap (c.evacuated.map Evacuation.block))
    (ok : garbageCollection c root = .ok c') :
    FirstHalf c'.heap (c'.evacuated.map Evacuation.block) := by
  cases garbageCollection_ok half.steady.shaped half.steady.half ok with
  | skipped same => rwa [same]
  | forwarded value found same => rwa [same]
  | evacuated header found h layout newHeader size done => exact half.evacuated done

/-- Every step keeps the blocks in the first half. -/
theorem step {s s' : Session} {call : Call} (structOnly : call.StructOnly)
    (half : FirstHalf s.heap s.blocks) (ok : s.step call = .ok s') : FirstHalf s'.heap s'.blocks := by
  cases call with
  | hAllocStruct layout =>
    cases step_hAllocStruct half.steady ok with
    | nullStruct same advances null => rwa [same]
    | struct placed blocks map =>
      rw [blocks]
      exact half.place placed fun block => List.mem_cons.mp
  | hAllocRaw bytes => cases structOnly
  | write address value =>
    obtain ⟨_, rfl⟩ := step_write ok
    exact half.setMem _
  | hGcDbg stack roots =>
    obtain ⟨_, collected, _, ran, rfl⟩ := step_hGcDbg half.steady ok
    have prepared : FirstHalf (s.heap.setFront s.heap.heapStart).resetUsed [] :=
      ⟨half.steady.prepared, Nat.le_add_right _ _, fun block member => by cases member⟩
    have after := Machine.run_preserves
      (fun c => FirstHalf c.heap (c.evacuated.map Evacuation.block)) FirstHalf.root prepared ran
    exact ⟨after.steady, after.within, fun block member =>
      after.blocks block (List.mem_reverse.mp member)⟩

end FirstHalf

theorem firstHalf_of_reachable {s : Session} (reachable : Reachable Call.StructOnly s) :
    FirstHalf s.heap s.blocks := by
  apply (reachable_induction reachable (fun s => FirstHalf s.heap s.blocks) ?_ ?_).2
  · intro h booted
    have fresh := fresh_of_booted booted
    refine ⟨fresh.steady, ?_, fun block member => by cases member⟩
    change h.allocFront ≤ _
    rw [fresh.front]
    exact Nat.le_add_right _ _
  · intro s s' call _ half structOnly ok
    exact half.step structOnly ok

/-- A block that is still the object that `h_alloc_struct` wrote: it shares no byte with another block
and its header word encodes a layout of its size. -/
structure Intact (s : Session) (block : Block) : Prop where
  member : block ∈ s.blocks
  alone : ∀ other ∈ s.blocks, other ≠ block → block.extent.Apart other.extent
  encoded : ∃ format, Expanded format ∧ format ≠ [] ∧
    toBitVector format = some (s.heap.mem.load64 block.header) ∧ formatStrBytes format = block.size

/-- There is room for a copy behind the bump pointer: the block in the current space, its header and data
below the object. -/
structure HasRoom (h : Heap) (block : Block) : Prop where
  inSpace : (h.allocFront - h.heapStart) % spaceSize + block.size + 16 ≤ spaceSize
  below : h.allocFront + headerSizeBytes + block.size ≤ block.header

/-- The layout that the decoder makes of a header is requested as it is. -/
theorem structRequest_decodedLayout {h : Heap} {format : List Char} {bits : Word}
    (letters : Expanded format) (nonempty : format ≠ []) (encoded : toBitVector format = some bits)
    (available : formatStrBytes format + 8 ≤ h.hAvail) :
    h.structRequest (some (decodedLayout format)) = .ok (some (formatStrBytes format, bits)) := by
  have decoded := bitVectorToFormatString_of_toBitVector letters nonempty encoded
  obtain ⟨_, _, created, _⟩ := bitVectorToFormatString_ok decoded
  obtain ⟨small, _⟩ := formatStrBytes_of_toBitVector encoded
  have units : decodedLayout format ≠ [] := by
    intro empty
    have sameBytes := formatStrBytes_decodedLayout format
    rw [empty] at sameBytes
    cases format with
    | nil => exact nonempty rfl
    | cons c rest =>
      have unit := interpretedSize_pos (letters c List.mem_cons_self)
      simp only [formatStrBytes] at sameBytes
      omega
  refine bind_ok_iff.mpr ⟨_, created, ?_⟩
  simp only [toBitVector_decodedLayout letters encoded, formatStrBytes_decodedLayout, headerSizeBytes,
    spaceSize]
  rw [if_neg (by omega), if_neg (by omega), if_neg units]

/-- With room in the current space an accepted struct goes to the bump pointer. -/
theorem hAllocStruct_of_room {h : Heap} {layout : Option (List Char)} {size : ℕ} {word : Word}
    (steady : Steady h) (request : h.structRequest layout = .ok (some (size, word)))
    (early : h.allocFront < h.heapStart + h.numberOfSpaces / 2 * 2048)
    (room : (h.allocFront - h.heapStart) % 2048 + size + 16 ≤ 2048) :
    ∃ h', h.hAllocStruct layout = .ok (some (h.allocFront + 8), h') ∧
      Placed h h' h.allocFront size word := by
  have front := steady.front
  have current := steady.currentSpace early
  have fitsHeap := steady.shaped.spacesFit
  simp only [spaceSize] at fitsHeap
  generalize start : h.heapStart + (h.allocFront - h.heapStart) / 2048 * 2048 = space at current
  have roomy : size + 8 ≤ spaceLeft h.allocFront space := by
    rw [spaceLeft_eq (by omega) (by omega)]
    omega
  have roomAfter : size + 8 ≤ spaceLeft (h.allocFront + 8) space := by
    rw [spaceLeft_eq (by omega) (by omega)]
    omega
  have moved : Shaped (h.setFront h.allocFront) := (SameShape.setFront h _).shaped steady.shaped
  have bound : (h.allocFront - h.heapStart) / 2048 < h.numberOfSpaces := by omega
  have after : space ≤ h.allocFront := by omega
  have fits : h.allocFront + size + 16 ≤ space + 2048 := by omega
  have started : h.allocFront ≤ h.heapStart + h.size := by omega
  obtain ⟨h', written⟩ := placeStruct_exists moved word bound start.symm after fits started
  refine ⟨h', ?_, (placeStruct_ok moved written).2.1⟩
  rw [hAllocStruct_of_current request current (if_pos roomy).symm, if_pos roomAfter]
  exact written

/-- Ranges of the heap that do not meet are copied without a fault. -/
theorem memcpy_of_apart {h : Heap} {address source length : ℕ} (target : h.InBounds address length)
    (origin : h.InBounds source length) (apart : address + length ≤ source) :
    h.memcpy address source length = .ok (h.setMem (h.mem.copy address source length)) := by
  unfold Heap.memcpy
  rw [if_pos ⟨target, origin⟩, if_pos (.inr (.inl apart))]

/-- A forwarding word has the type of one, whatever the address. -/
theorem getHeaderType_setHeaderForwardAddress (address : Word) :
    getHeaderType (setHeaderForwardAddress address) = .forwardingAddress := by
  have masked : maskFromMsb (setHeaderForwardAddress address) 62 = 1 := by
    have mask : maskFromMsb (setHeaderForwardAddress address) 62 =
        (address &&& ~~~3#64 ||| 1#64) &&& 3#64 := rfl
    rw [mask, BitVec.and_or_distrib_right, BitVec.and_assoc]
    simp
  simp [getHeaderType, masked]

/-- The size byte of a word in memory is its last byte. -/
theorem toNat_getSizeBitsField_load64 (memory : ByteMemory) (address : ℕ) :
    (getSizeBitsField (memory.load64 address)).toNat = (memory (address + 7)).toNat := by
  have top : getSizeBitsField (memory.load64 address) = (memory (address + 7)).setWidth 64 := by
    apply BitVec.eq_of_getLsbD_eq
    intro k bound
    rw [getSizeBitsField, BitVec.getLsbD_ushiftRight, ByteMemory.load64]
    simp only [BitVec.getLsbD_append, BitVec.getLsbD_setWidth]
    grind
  rw [top, BitVec.toNat_setWidth]
  exact Nat.mod_eq_of_lt (by omega)

/-- The last byte of a footer is the size of its object. -/
theorem Placed.footer_top {h h' : Heap} {header size : ℕ} {word : Word}
    (placed : Placed h h' header size word) : h'.mem (header + 8 + size + 7) = BitVec.ofNat 8 size := by
  have top : ∀ size : BitVec 8, (createFooter size).extractLsb' (8 * 7) 8 = size := by decide +kernel
  rw [placed.mem, ByteMemory.store64_inside (by omega), top]

/-- An object that a root can be moved to a copy below it. -/
structure Movable (c : Collection) (root : ℕ) (block : Block) : Prop where
  steady : Steady c.heap
  used : c.heap.usedBytes ≤ 2 * (c.heap.allocFront - c.heap.heapStart)
  inside : block.header + block.size + 16 ≤ c.heap.heapStart + c.heap.numberOfSpaces / 2 * 2048
  encoded : ∃ format, Expanded format ∧ format ≠ [] ∧
    toBitVector format = some (c.heap.mem.load64 block.header) ∧ formatStrBytes format = block.size
  pointed : (c.stack root).toNat ∈ block.data.bytes
  room : HasRoom c.heap block

/-- Every byte after the evacuation of an object to a copy below it. -/
structure Moved (c c' : Collection) (root : ℕ) (block : Block) : Prop where
  steady : Steady c'.heap
  shape : SameShape c.heap c'.heap
  front : c'.heap.allocFront = c.heap.allocFront + block.size + 16
  used : c'.heap.usedBytes ≤ c.heap.usedBytes + (2 * block.size + 24)
  evacuated : c'.evacuated = c.evacuated ++ [⟨block.header, c.heap.allocFront, block.size⟩]
  below : ∀ address < c.heap.allocFront, c'.heap.mem address = c.heap.mem address
  data : ∀ offset < block.size,
    c'.heap.mem (c.heap.allocFront + 8 + offset) = c.heap.mem ((c.stack root).toNat + offset)
  above : ∀ address, c.heap.allocFront + block.size + 16 ≤ address →
    (address < block.header ∨ block.header + 8 ≤ address) → c'.heap.mem address = c.heap.mem address
  forwarded : getHeaderType (c'.heap.mem.load64 block.header) = .forwardingAddress

namespace Movable

variable {c c' : Collection} {root : ℕ} {block : Block}

theorem room_eq (movable : Movable c root block) :
    (c.heap.allocFront - c.heap.heapStart) % 2048 + block.size + 16 ≤ 2048 ∧
      c.heap.allocFront + 8 + block.size ≤ block.header :=
  ⟨movable.room.inSpace, movable.room.below⟩

/-- What `evacuate` asks of the allocator. -/
theorem request (movable : Movable c root block) : ∃ format,
    bitVectorToFormatString (c.heap.mem.load64 block.header) = .ok (some (decodedLayout format)) ∧
    formatStrBytes (decodedLayout format) = block.size ∧
    c.heap.structRequest (some (decodedLayout format)) =
      .ok (some (block.size, c.heap.mem.load64 block.header)) := by
  obtain ⟨format, letters, nonempty, encoded, size⟩ := movable.encoded
  obtain ⟨_, below⟩ := movable.room_eq
  have inside := movable.inside
  have used := movable.used
  have front := movable.steady.front
  have fits := movable.steady.shaped.spacesFit
  simp only [spaceSize] at fits
  have available : formatStrBytes format + 8 ≤ c.heap.hAvail := by
    unfold Heap.hAvail Heap.hUsed
    split <;> omega
  have request := structRequest_decodedLayout letters nonempty encoded available
  rw [size] at request
  exact ⟨format, bitVectorToFormatString_of_toBitVector letters nonempty encoded,
    (formatStrBytes_decodedLayout format).trans size, request⟩

/-- The evacuation neither faults nor fails an assertion. -/
theorem evacuates (movable : Movable c root block) :
    ∃ h word c', Placed c.heap h c.heap.allocFront block.size word ∧
      evacuate c root block.header = .ok c' ∧
      c'.heap = h.setMem ((h.mem.copy (c.heap.allocFront + 8) (c.stack root).toNat block.size).store64
        block.header (setHeaderForwardAddress (BitVec.ofNat 64 c.heap.allocFront))) ∧
      c'.evacuated = c.evacuated ++ [⟨block.header, c.heap.allocFront, block.size⟩] := by
  obtain ⟨format, decoded, bytes, request⟩ := movable.request
  obtain ⟨inSpace, below⟩ := movable.room_eq
  have steady := movable.steady
  have front := steady.front
  have inside := movable.inside
  have two := steady.shaped.someSpaces
  have pointed := movable.pointed
  simp only [Block.data, Block.dataStart, headerSizeBytes, Extent.mem_bytes] at pointed
  have fits := steady.shaped.spacesFit
  simp only [spaceSize] at fits
  obtain ⟨small, _⟩ := structRequest_size request
  obtain ⟨h, allocated, placed⟩ := hAllocStruct_of_room steady request (by omega) inSpace
  have bounds (address length : ℕ) : h.InBounds address length ↔ c.heap.InBounds address length := by
    simp only [Heap.InBounds, placed.shape.heapStart, placed.shape.size]
  have bits : c.heap.InBounds block.header 8 := ⟨by omega, by omega⟩
  have target : c.heap.InBounds (c.heap.allocFront + 8) block.size := ⟨by omega, by omega⟩
  have origin : c.heap.InBounds (c.stack root).toNat block.size := ⟨by omega, by omega⟩
  have size : (getSizeBitsField (h.mem.load64 block.header)).toNat = block.size := by
    obtain ⟨_, _, _, encoded, same⟩ := movable.encoded
    have before := toNat_getSizeBitsField_toBitVector encoded
    rw [toNat_getSizeBitsField_load64] at before ⊢
    rcases Nat.lt_or_ge (block.header + 7) (c.heap.allocFront + block.size + 16) with inFooter | after
    · have top : block.header + 7 = c.heap.allocFront + 8 + block.size + 7 := by omega
      rw [top, placed.footer_top, BitVec.toNat_ofNat, Nat.mod_eq_of_lt (by omega)]
    · rw [placed.mem_outside (.inr after), before, same]
  have copied := memcpy_of_apart ((bounds _ _).mpr target) ((bounds _ _).mpr origin) (by omega)
  have back : c.heap.allocFront + 8 - headerSizeBytes = c.heap.allocFront := Nat.add_sub_cancel _ _
  refine ⟨h, _, ⟨_, Function.update c.stack root (BitVec.ofNat 64 c.heap.allocFront +
    (c.stack root - BitVec.ofNat 64 block.header)), _⟩, placed, ?_, rfl, rfl⟩
  refine bind_ok_iff.mpr ⟨_, load64_ok_iff.mpr ⟨bits, rfl⟩, bind_ok_iff.mpr ⟨_, decoded, ?_⟩⟩
  refine bind_ok_iff.mpr ⟨_, allocated, ?_⟩
  dsimp only
  rw [if_neg (by omega)]
  refine bind_ok_iff.mpr ⟨_, load64_ok_iff.mpr ⟨(bounds _ _).mpr bits, rfl⟩, ?_⟩
  rw [size, back, bytes]
  exact bind_ok_iff.mpr ⟨_, copied, bind_ok_iff.mpr ⟨_, store64_of_inBounds ((bounds _ _).mpr bits), rfl⟩⟩

/-- Every byte afterwards. -/
theorem moves (movable : Movable c root block) :
    ∃ c', evacuate c root block.header = .ok c' ∧ Moved c c' root block := by
  obtain ⟨h, word, c', placed, ok, heap, evacuated⟩ := movable.evacuates
  obtain ⟨_, below⟩ := movable.room_eq
  have pointed := movable.pointed
  simp only [Block.data, Block.dataStart, headerSizeBytes, Extent.mem_bytes] at pointed
  have steady' : Steady c'.heap := by
    obtain ⟨_, _, _, _, done⟩ := evacuate_ok movable.steady.shaped movable.steady.half ok
    exact done.steady movable.steady
  refine ⟨c', ok, steady', ?_, ?_, ?_, evacuated, ?_, ?_, ?_, ?_⟩
  all_goals rw [heap]
  · exact placed.shape.trans (.setMem h _)
  · exact placed.front
  · exact placed.used.le.trans (Nat.mod_le _ _)
  · intro address before
    rw [Heap.setMem_mem, ByteMemory.store64_of_outside (by omega),
      ByteMemory.copy_of_outside (by omega), placed.mem_outside (by omega)]
  · intro offset inside
    rw [Heap.setMem_mem, ByteMemory.store64_of_outside (by omega), ByteMemory.copy_inside inside,
      placed.mem_outside (by omega)]
  · intro address after outside
    rw [Heap.setMem_mem, ByteMemory.store64_of_outside outside, ByteMemory.copy_of_outside (by omega),
      placed.mem_outside (by omega)]
  · change getHeaderType ((ByteMemory.store64 _ block.header _).load64 block.header) = _
    rw [ByteMemory.load64_store64]
    exact getHeaderType_setHeaderForwardAddress _

end Movable

/-- The offsets of an object's `*` fields in its data, as its header gives them. -/
def fieldOffsets (h : Heap) (header : ℕ) : List ℕ :=
  pointerOffsets 0 (layoutWrites (h.mem.load64 header))

/-- A value at the start of an object's data, or anywhere in the data of an object without `*` fields. -/
structure PointsAt (s : Session) (value : Word) (block : Block) : Prop where
  inside : value.toNat ∈ block.data.bytes
  exact : value.toNat = block.dataStart ∨ fieldOffsets s.heap block.header = []

/-- What a collection of `s` keeps while every visit copies an intact object. -/
structure Copying (s : Session) (c : Collection) : Prop where
  steady : Steady c.heap
  shape : SameShape s.heap c.heap
  used : c.heap.usedBytes ≤ 2 * (c.heap.allocFront - c.heap.heapStart)
  objects : ∀ event ∈ c.evacuated, Intact s ⟨event.oldHeader, event.size⟩
  /-- From the bump pointer on, only the headers of evacuated objects have changed. -/
  kept : ∀ address, c.heap.allocFront ≤ address →
    (∀ event ∈ c.evacuated, address < event.oldHeader ∨ event.oldHeader + 8 ≤ address) →
    c.heap.mem address = s.heap.mem address
  /-- Each copy lies below the bump pointer, and its header and data below its object. -/
  below : ∀ event ∈ c.evacuated, event.newHeader + event.size + 16 ≤ c.heap.allocFront ∧
    event.newHeader + 8 + event.size ≤ event.oldHeader
  /-- Each copy of an object with `*` fields has the bytes of the object. -/
  copies : ∀ event ∈ c.evacuated, fieldOffsets s.heap event.oldHeader = [] ∨
    ∀ offset < event.size,
      c.heap.mem (event.newHeader + 8 + offset) = s.heap.mem (event.oldHeader + 8 + offset)
  distinct : (c.evacuated.map Evacuation.oldHeader).Nodup

namespace Copying

variable {s : Session} {c c' : Collection} {block : Block}

theorem prepared {stack : Stack} (steady : Steady s.heap) :
    Copying s ⟨(s.heap.setFront s.heap.heapStart).resetUsed, stack, []⟩ where
  steady := steady.prepared
  shape := .prepared s.heap
  used := Nat.zero_le _
  objects event member := by cases member
  kept _ _ _ := rfl
  below event member := by cases member
  copies event member := by cases member
  distinct := .nil

/-- An intact object shares no byte with the objects evacuated before it. -/
theorem apart (copying : Copying s c) (intact : Intact s block)
    (fresh : ∀ event ∈ c.evacuated, event.oldHeader ≠ block.header) :
    ∀ event ∈ c.evacuated, event.oldHeader + event.size + 16 ≤ block.header ∨
      block.header + block.size + 16 ≤ event.oldHeader := by
  intro event member
  have object := copying.objects event member
  have other : (⟨event.oldHeader, event.size⟩ : Block) ≠ block := by
    rintro rfl
    exact fresh event member rfl
  have apart := intact.alone _ object.member other
  rw [Extent.apart_iff] at apart
  · simp only [Block.extent, headerSizeBytes] at apart
    omega
  · simp only [Block.extent, headerSizeBytes]
    omega
  · simp only [Block.extent, headerSizeBytes]
    omega

/-- An intact object that has not been evacuated has the bytes it had. -/
theorem unchanged (copying : Copying s c) (intact : Intact s block) (room : HasRoom c.heap block)
    (fresh : ∀ event ∈ c.evacuated, event.oldHeader ≠ block.header) {address : ℕ}
    (lower : block.header ≤ address) (upper : address < block.header + block.size + 16) :
    c.heap.mem address = s.heap.mem address := by
  have below := room.below
  apply copying.kept address (by omega)
  intro event member
  have apart := copying.apart intact fresh event member
  omega

theorem movable {root : ℕ} (copying : Copying s c) (half : FirstHalf s.heap s.blocks)
    (intact : Intact s block) (room : HasRoom c.heap block)
    (fresh : ∀ event ∈ c.evacuated, event.oldHeader ≠ block.header)
    (pointed : PointsAt s (c.stack root) block) : Movable c root block := by
  have same := copying.shape
  have word : c.heap.mem.load64 block.header = s.heap.mem.load64 block.header :=
    ByteMemory.load64_congr fun offset _ => copying.unchanged intact room fresh (by omega) (by omega)
  refine ⟨copying.steady, copying.used, ?_, ?_, pointed.inside, room⟩
  · rw [same.heapStart, same.numberOfSpaces]
    exact (half.blocks block intact.member).2
  · rw [word]
    exact intact.encoded

theorem mem_evacuated_moved {root : ℕ} (moved : Moved c c' root block) (event : Evacuation) :
    event ∈ c'.evacuated ↔
      event ∈ c.evacuated ∨ event = ⟨block.header, c.heap.allocFront, block.size⟩ := by
  rw [moved.evacuated, List.mem_append, List.mem_singleton]

/-- One more copy changes no byte behind itself but those of the header of its object. -/
theorem kept_moved {root : ℕ} (copying : Copying s c) (moved : Moved c c' root block) {address : ℕ}
    (after : c'.heap.allocFront ≤ address)
    (outside : ∀ event ∈ c'.evacuated, address < event.oldHeader ∨ event.oldHeader + 8 ≤ address) :
    c'.heap.mem address = s.heap.mem address := by
  have front := moved.front
  have atBlock := outside _ ((mem_evacuated_moved moved _).mpr (.inr rfl))
  rw [moved.above address (by omega) atBlock]
  apply copying.kept address (by omega)
  intro event old
  exact outside event ((mem_evacuated_moved moved event).mpr (.inl old))

/-- One more copy writes over no earlier copy, and has the bytes of its object. -/
theorem copies_moved {root : ℕ} (copying : Copying s c) (intact : Intact s block)
    (room : HasRoom c.heap block) (fresh : ∀ event ∈ c.evacuated, event.oldHeader ≠ block.header)
    (pointed : PointsAt s (c.stack root) block) (moved : Moved c c' root block) {event : Evacuation}
    (member : event ∈ c'.evacuated) :
    fieldOffsets s.heap event.oldHeader = [] ∨ ∀ offset < event.size,
      c'.heap.mem (event.newHeader + 8 + offset) = s.heap.mem (event.oldHeader + 8 + offset) := by
  rcases (mem_evacuated_moved moved event).mp member with old | rfl
  · obtain ⟨before, _⟩ := copying.below event old
    apply (copying.copies event old).imp_right
    intro bytes offset bound
    rw [moved.below _ (by omega), bytes offset bound]
  · apply pointed.exact.symm.imp_right
    intro start offset bound
    dsimp only at bound ⊢
    rw [moved.data offset bound, start]
    simp only [Block.dataStart, headerSizeBytes]
    apply copying.unchanged intact room fresh
    · omega
    · omega

/-- One more copy keeps the invariant. -/
theorem moved {root : ℕ} (copying : Copying s c) (intact : Intact s block)
    (room : HasRoom c.heap block)
    (fresh : ∀ event ∈ c.evacuated, event.oldHeader ≠ block.header)
    (pointed : PointsAt s (c.stack root) block) (moved : Moved c c' root block) : Copying s c' where
  steady := moved.steady
  shape := copying.shape.trans moved.shape
  used := by
    have used := copying.used
    have more := moved.used
    have front := copying.steady.front
    have newFront := moved.front
    have same := moved.shape.heapStart
    omega
  objects event member := by
    rcases (mem_evacuated_moved moved event).mp member with old | rfl
    · exact copying.objects event old
    · exact intact
  kept address after outside := copying.kept_moved moved after outside
  below event member := by
    have front := moved.front
    rcases (mem_evacuated_moved moved event).mp member with old | rfl
    · obtain ⟨before, lower⟩ := copying.below event old
      exact ⟨by omega, lower⟩
    · exact ⟨front.ge, room.below⟩
  copies event member := copying.copies_moved intact room fresh pointed moved member
  distinct := by
    rw [moved.evacuated, List.map_append, List.nodup_append]
    refine ⟨copying.distinct, List.nodup_singleton _, ?_⟩
    intro header member other last
    obtain ⟨event, old, rfl⟩ := List.mem_map.mp member
    rw [List.mem_singleton.mp last]
    exact fresh event old

end Copying

end GarbageCollector.Proofs
