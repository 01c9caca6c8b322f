import GarbageCollector.Machine.Trace
import GarbageCollector.Math.Sliding
import GarbageCollector.Soundness.CollectionCycle
import GarbageCollector.Soundness.ForwardedRoots

/-! # A collection that compacts

Where each visit meets an object with room for its copy below it, or one that has been moved and whose old
place is still there, `h_gc_dbg` slides the objects down: the moves are those of the sliding plan, every copy
is its object byte for byte, and every visited slot follows. The copies can be found and moved again.
-/

namespace GarbageCollector.Soundness

open Model Proofs

/-- The spaces of a heap, with header and footer around the data of an object. -/
def slidingGeometry (h : Heap) : Sliding.Geometry := ⟨h.heapStart, spaceSize, 2 * headerSizeBytes⟩

/-- A move as the collector records it. -/
def evacuationOf (move : Sliding.Move) : Evacuation := ⟨move.source, move.target, move.size⟩

def objectOf (block : Block) : Sliding.Object := ⟨block.header, block.size⟩

/-- An object that the collector finds from the start of its data and copies whole: no word in front of its
footer looks like a footer. -/
structure Whole (s : Session) (block : Block) : Prop where
  intact : Intact s block
  words : block.size % 8 = 0
  untagged : ∀ word < block.size / 8, confirmTag (s.heap.mem.load64 (block.dataStart + 8 * word)) = false
  footer : s.heap.mem.load64 (block.dataStart + block.size) = createFooter (BitVec.ofNat 8 block.size)

theorem size_bounds_of_intact {s : Session} {block : Block} (intact : Intact s block) :
    0 < block.size ∧ block.size ≤ 216 := by
  obtain ⟨format, letters, nonempty, encoded, same⟩ := intact.encoded
  obtain ⟨small, _⟩ := formatStrBytes_of_toBitVector encoded
  cases format with
  | nil => exact (nonempty rfl).elim
  | cons letter rest =>
    have positive := interpretedSize_pos (letters letter List.mem_cons_self)
    simp only [formatStrBytes] at same small
    omega

section Places

variable {s : Session} {block : Block} {value : Word}

theorem header_inBounds (half : FirstHalf s.heap s.blocks) (member : block ∈ s.blocks) :
    s.heap.InBounds block.header 8 := by
  obtain ⟨lower, upper⟩ := half.blocks block member
  have two := half.steady.shaped.someSpaces
  have fits := half.steady.shaped.spacesFit
  simp only [spaceSize] at fits
  rw [Heap.InBounds]
  omega

theorem large_of_start (half : FirstHalf s.heap s.blocks) (member : block ∈ s.blocks)
    (large : 0xFFF ≤ s.heap.heapStart) (start : value.toNat = block.dataStart) : 0xFFF ≤ value.toNat := by
  obtain ⟨lower, _⟩ := half.blocks block member
  rw [start]
  simp only [Block.dataStart, headerSizeBytes]
  omega

/-- A pointer to the start of an object, carried to a place below it. -/
theorem toNat_slid (start : value.toNat = block.dataStart) {target : ℕ} (below : target ≤ block.header) :
    (BitVec.ofNat 64 target + (value - BitVec.ofNat 64 block.header)).toNat = target + headerSizeBytes := by
  have bound := value.isLt
  simp only [Block.dataStart, headerSizeBytes] at start ⊢
  rw [toNat_relocated (by omega) (by omega)]
  omega

end Places

/-- An intact object is the only block with its header. -/
theorem block_of_header {s : Session} {block other : Block} (intact : Intact s block) (member : other ∈ s.blocks)
    (same : block.header = other.header) : block = other := by
  by_contra different
  apply intact.alone other member (Ne.symm different) block.header
  · simp only [Block.extent, headerSizeBytes, Extent.mem_bytes]
    omega
  · simp only [Block.extent, headerSizeBytes, Extent.mem_bytes]
    omega

section Bytes

variable {c c' : Collection} {root : ℕ} {block : Block}

/-- Two ranges with the same two words around the same data are the same. -/
theorem bytes_of_parts {memory other : ByteMemory} {target source size : ℕ}
    (header : memory.load64 target = other.load64 source)
    (data : ∀ offset < size, memory (target + 8 + offset) = other (source + 8 + offset))
    (footer : memory.load64 (target + 8 + size) = other.load64 (source + 8 + size)) :
    ∀ offset < size + 16, memory (target + offset) = other (source + offset) := by
  intro offset bound
  rcases Nat.lt_or_ge offset 8 with inHeader | behind
  · have here := @ByteMemory.extractLsb'_load64 memory target offset inHeader
    rw [header, ByteMemory.extractLsb'_load64 inHeader] at here
    exact here.symm
  obtain ⟨shift, rfl⟩ := Nat.exists_eq_add_of_le behind
  rcases Nat.lt_or_ge shift size with inData | inFooter
  · simpa only [Nat.add_assoc] using data shift inData
  obtain ⟨last, rfl⟩ := Nat.exists_eq_add_of_le inFooter
  have short : last < 8 := by omega
  have here := @ByteMemory.extractLsb'_load64 memory (target + 8 + size) last short
  rw [footer, ByteMemory.extractLsb'_load64 short] at here
  simpa only [Nat.add_assoc] using here.symm

/-- An object moved to a place apart from it, where it is the same. -/
structure Slid (c c' : Collection) (root : ℕ) (block : Block) : Prop where
  moved : Moved c c' root block
  copied : ApartCopy c c' root block.header c.heap.allocFront block.size
  bytes : ∀ offset < block.size + 16,
    c'.heap.mem (c.heap.allocFront + offset) = c.heap.mem (block.header + offset)

/-- A root at the start of an object's data slides the object down. -/
theorem slides (movable : Movable c root block)
    (apart : c.heap.allocFront + block.size + 16 ≤ block.header)
    (start : (c.stack root).toNat = block.dataStart)
    (footer : c.heap.mem.load64 (block.dataStart + block.size) = createFooter (BitVec.ofNat 8 block.size))
    (looked : garbageCollection c root = evacuate c root block.header) :
    ∃ c', garbageCollection c root = .ok c' ∧ Slid c c' root block := by
  obtain ⟨c', ok, moved⟩ := movable.moves
  obtain ⟨h, word, other, placed, same, heap, _⟩ := movable.evacuates
  cases ok.symm.trans same
  have copied : ApartCopy c c' root block.header c.heap.allocFront block.size := by
    apply apartCopy movable.encoded movable.pointed ?_ (looked.trans ok) moved.evacuated
    apply Extent.apart_of_le
    simp only [Block.extent, headerSizeBytes]
    omega
  refine ⟨c', looked.trans ok, moved, copied, ?_⟩
  simp only [Block.dataStart, headerSizeBytes] at start footer
  apply bytes_of_parts copied.encoded
  · intro offset bound
    rw [moved.data offset bound, start]
  · rw [footer, ← placed.load64_footer]
    apply ByteMemory.load64_congr
    intro offset bound
    rw [heap, Heap.setMem_mem, ByteMemory.store64_of_outside (by omega),
      ByteMemory.copy_of_outside (by omega)]

end Bytes

/-- A root whose scan returns a live header gets the evacuation. -/
theorem rootCase_of_live {h : Heap} {value : Word} {header : ℕ} (large : 0xFFF ≤ value.toNat)
    (found : h.findHeaderAddressThroughFooter value.toNat
      (value + BitVec.ofNat 64 spaceSize).toNat = .ok (some header))
    (inside : h.InBounds header 8) (live : getHeaderType (h.mem.load64 header) = .bitVector) :
    h.rootCase value = .ok (.bitVector header) := by
  rw [Heap.rootCase, if_neg (by omega), found]
  simp only [load64_of_inBounds inside, live, bind, Except.bind]

/-- The visited slots point at the data of the moved objects, the others are as they were. -/
structure Followed (stack : Stack) (done : List (ℕ × Block)) (moves : List Sliding.Move) (stack' : Stack) :
    Prop where
  slots : ∀ visit ∈ done, ∃ move ∈ moves, move.source = visit.2.header ∧ move.size = visit.2.size ∧
    (stack' visit.1).toNat = move.target + headerSizeBytes
  others : ∀ slot, slot ∉ done.map Prod.fst → stack' slot = stack slot

/-- One more slot. -/
theorem Followed.visit {stack stack' : Stack} {done : List (ℕ × Block)} {moves moves' : List Sliding.Move}
    {root : ℕ} {block : Block} {move : Sliding.Move} (followed : Followed stack done moves stack')
    (more : ∀ move ∈ moves, move ∈ moves') (unvisited : root ∉ done.map Prod.fst) (member : move ∈ moves')
    (source : move.source = block.header) (size : move.size = block.size)
    (start : (stack' root).toNat = block.dataStart) (below : move.target ≤ block.header) :
    Followed stack (done ++ [(root, block)]) moves' (Function.update stack' root
      (BitVec.ofNat 64 move.target + (stack' root - BitVec.ofNat 64 block.header))) := by
  constructor
  · intro visit here
    rcases List.mem_append.mp here with old | new
    · have other : visit.1 ≠ root := fun same => unvisited (same ▸ List.mem_map_of_mem old)
      obtain ⟨earlier, planned, places⟩ := followed.slots visit old
      rw [Function.update_of_ne other]
      exact ⟨earlier, more earlier planned, places⟩
    · rw [List.mem_singleton.mp new]
      refine ⟨move, member, source, size, ?_⟩
      rw [Function.update_self]
      exact toNat_slid start below
  · intro slot outside
    rw [List.map_append, List.mem_append, not_or] at outside
    have other : slot ≠ root := fun same => outside.2 (same ▸ List.mem_singleton_self _)
    rw [Function.update_of_ne other]
    exact followed.others slot outside.1

/-- What a collection of `s` keeps while its visits follow the plan. -/
structure Compacting (s : Session) (stack : Stack) (done : List (ℕ × Block)) (moves : List Sliding.Move)
    (c : Collection) : Prop where
  copying : Copying s c
  orderly : Sliding.Orderly (slidingGeometry s.heap) moves
  evacuated : c.evacuated = moves.map evacuationOf
  front : c.heap.allocFront = Sliding.front (slidingGeometry s.heap) moves
  wholes : ∀ move ∈ moves, Whole s ⟨move.source, move.size⟩
  copies : ∀ move ∈ moves, ∀ offset < move.size + 16,
    c.heap.mem (move.target + offset) = s.heap.mem (move.source + offset)
  aligned : ∀ move ∈ moves, move.target % 8 = 0
  /-- An object whose old place is still there has left its new one. -/
  forwards : ∀ move ∈ moves, c.heap.allocFront ≤ move.source →
    c.heap.mem.load64 move.source = setHeaderForwardAddress (BitVec.ofNat 64 move.target)
  followed : Followed stack done moves c.stack

namespace Compacting

variable {s : Session} {stack : Stack} {done : List (ℕ × Block)} {moves : List Sliding.Move} {c : Collection}
  {root : ℕ} {block : Block}

theorem prepared (steady : Steady s.heap) :
    Compacting s stack [] [] ⟨(s.heap.setFront s.heap.heapStart).resetUsed, stack, []⟩ where
  copying := .prepared steady
  orderly := .nil
  evacuated := rfl
  front := rfl
  wholes move member := by cases member
  copies move member := by cases member
  aligned move member := by cases member
  forwards move member := by cases member
  followed := ⟨fun _ member => (List.not_mem_nil member).elim, fun _ _ => rfl⟩

/-- Behind its header, an object that the copies have not reached is as it was. -/
theorem keeps (compacting : Compacting s stack done moves c) (whole : Whole s block)
    (below : c.heap.allocFront ≤ block.header) {address : ℕ} (lower : block.header + 8 ≤ address)
    (upper : address < block.header + block.size + 16) : c.heap.mem address = s.heap.mem address := by
  apply compacting.copying.kept address (by omega)
  intro event member
  by_cases same : (⟨event.oldHeader, event.size⟩ : Block) = block
  · subst same
    exact .inr lower
  · have apart := whole.intact.alone _ (compacting.copying.objects event member).member same
    rw [Extent.apart_iff] at apart
    · simp only [Block.extent, headerSizeBytes] at apart
      omega
    · simp only [Block.extent, headerSizeBytes]
      omega
    · simp only [Block.extent, headerSizeBytes]
      omega

/-- The objects are of whole words, so every copy starts at one. -/
theorem front_mod (compacting : Compacting s stack done moves c) (half : FirstHalf s.heap s.blocks) :
    c.heap.allocFront % 8 = 0 := by
  have aligned := half.steady.shaped.aligned
  rw [compacting.front]
  apply Sliding.front_mod
  · simp only [slidingGeometry]
    omega
  · simp only [slidingGeometry, headerSizeBytes]
  · exact fun move member => (compacting.wholes move member).words

/-- The scan from the start of its data finds such an object. -/
theorem finds (compacting : Compacting s stack done moves c) (half : FirstHalf s.heap s.blocks)
    (whole : Whole s block) (below : c.heap.allocFront ≤ block.header) {value : Word}
    (start : value.toNat = block.dataStart) :
    c.heap.findHeaderAddressThroughFooter value.toNat (value + BitVec.ofNat 64 spaceSize).toNat =
      .ok (some block.header) := by
  obtain ⟨lower, upper⟩ := half.blocks block whole.intact.member
  obtain ⟨_, small⟩ := size_bounds_of_intact whole.intact
  have two := half.steady.shaped.someSpaces
  have fits := half.steady.shaped.spacesFit
  have inAddressSpace := half.steady.shaped.inAddressSpace
  have words := whole.words
  have untagged := whole.untagged
  have footer := whole.footer
  simp only [Block.dataStart, headerSizeBytes, spaceSize] at start untagged footer fits
  have stop : (value + BitVec.ofNat 64 spaceSize).toNat = block.header + 8 + 2048 := by
    rw [BitVec.toNat_add, start, spaceSize, BitVec.toNat_ofNat]
    omega
  have last : 8 * (block.size / 8) = block.size := by omega
  have loaded (word : ℕ) (bound : word ≤ block.size / 8) :
      c.heap.mem.load64 (block.header + 8 + 8 * word) = s.heap.mem.load64 (block.header + 8 + 8 * word) :=
    ByteMemory.load64_congr fun offset short => compacting.keeps whole below (by omega) (by omega)
  have atFooter := loaded (block.size / 8) le_rfl
  rw [last, footer] at atFooter
  have first : FirstTag c.heap value.toNat (value + BitVec.ofNat 64 spaceSize).toNat (block.size / 8) := by
    rw [start, stop]
    constructor
    · omega
    · intro step bound
      rw [Heap.InBounds, compacting.copying.shape.heapStart, compacting.copying.shape.size]
      omega
    · intro step bound
      rw [loaded step bound.le]
      exact untagged step bound
    · rw [last, atFooter, confirmTag_createFooter]
  have jump : block.header + 8 + block.size - (block.size + headerSizeBytes) = block.header := by
    simp only [headerSizeBytes]
    omega
  rw [findHeader_of_firstTag first, start, headerBefore, last, atFooter, toNat_getSizeBitsField_createFooter,
    Nat.mod_eq_of_lt (by omega), jump]

/-- What a visit needs that moves an object. -/
structure Fits (c : Collection) (block : Block) : Prop where
  notMoved : ∀ event ∈ c.evacuated, event.oldHeader ≠ block.header
  room : HasRoom c.heap block
  apart : c.heap.allocFront + block.size + 16 ≤ block.header

/-- Room in the plan is room in the heap. -/
theorem fits (compacting : Compacting s stack done moves c)
    (fresh : block.header ∉ moves.map Sliding.Move.source)
    (inPage : (Sliding.front (slidingGeometry s.heap) moves - s.heap.heapStart) % spaceSize + block.size + 16 ≤
      spaceSize)
    (below : Sliding.front (slidingGeometry s.heap) moves + block.size + 16 ≤ block.header) : Fits c block := by
  rw [← compacting.front] at inPage below
  refine ⟨?_, ⟨?_, ?_⟩, below⟩
  · intro event member same
    rw [compacting.evacuated] at member
    obtain ⟨move, old, rfl⟩ := List.mem_map.mp member
    exact fresh (same ▸ List.mem_map_of_mem old)
  · rw [compacting.copying.shape.heapStart]
    exact inPage
  · simp only [headerSizeBytes]
    omega

/-- An object that has not been moved has the bytes it had. -/
theorem unchanged (compacting : Compacting s stack done moves c) (whole : Whole s block) (fits : Fits c block)
    {offset : ℕ} (bound : offset < block.size + 16) :
    c.heap.mem (block.header + offset) = s.heap.mem (block.header + offset) :=
  compacting.copying.unchanged whole.intact fits.room fits.notMoved (by omega) (by omega)

/-- A root at the start of its data makes the collector move it. -/
theorem looked (compacting : Compacting s stack done moves c) (half : FirstHalf s.heap s.blocks)
    (large : 0xFFF ≤ s.heap.heapStart) (whole : Whole s block) (fits : Fits c block) (nonnull : root ≠ 0)
    (start : (c.stack root).toNat = block.dataStart) :
    garbageCollection c root = evacuate c root block.header := by
  have same := compacting.copying.shape
  have apart := fits.apart
  obtain ⟨_, _, _, encoded, _⟩ := whole.intact.encoded
  have found := compacting.finds half whole (by omega) start
  have inside := header_inBounds half whole.intact.member
  rw [Heap.InBounds, ← same.heapStart, ← same.size] at inside
  have live : c.heap.rootCase (c.stack root) = .ok (.bitVector block.header) := by
    apply rootCase_of_live (large_of_start half whole.intact.member large start) found inside
    rw [ByteMemory.load64_congr fun offset short => compacting.unchanged whole fits (by omega)]
    exact getHeaderType_toBitVector encoded
  rw [garbageCollection_of_ne_zero c nonnull, live]
  rfl

/-- A move like this does what the collector needs for the next visit. -/
theorem slides (compacting : Compacting s stack done moves c) (half : FirstHalf s.heap s.blocks)
    (large : 0xFFF ≤ s.heap.heapStart) (whole : Whole s block) (fits : Fits c block) (nonnull : root ≠ 0)
    (start : (c.stack root).toNat = block.dataStart) :
    ∃ c', garbageCollection c root = .ok c' ∧ Slid c c' root block ∧ Copying s c' := by
  obtain ⟨positive, _⟩ := size_bounds_of_intact whole.intact
  have inData : (c.stack root).toNat ∈ block.data.bytes := by
    rw [start, Block.data, Extent.mem_bytes]
    exact ⟨le_rfl, Nat.lt_add_of_pos_right positive⟩
  have points : PointsAt s (c.stack root) block := ⟨inData, .inl start⟩
  have movable := compacting.copying.movable half whole.intact fits.room fits.notMoved points
  have footer : c.heap.mem.load64 (block.dataStart + block.size) = createFooter (BitVec.ofNat 8 block.size) := by
    rw [← whole.footer]
    apply ByteMemory.load64_congr
    intro offset short
    simp only [Block.dataStart, headerSizeBytes, Nat.add_assoc]
    exact compacting.unchanged whole fits (by omega)
  obtain ⟨c', ok, slid⟩ := Soundness.slides movable fits.apart start footer
    (compacting.looked half large whole fits nonnull start)
  exact ⟨c', ok, slid, compacting.copying.moved whole.intact fits.room fits.notMoved points slid.moved⟩

section Moves

variable {c' : Collection} {move : Sliding.Move}

/-- One more move writes over no earlier copy. -/
theorem copies_slid (compacting : Compacting s stack done moves c) (whole : Whole s block) (fits : Fits c block)
    (slid : Slid c c' root block) (member : move ∈ moves ++ [⟨block.header, c.heap.allocFront, block.size⟩])
    {offset : ℕ} (bound : offset < move.size + 16) :
    c'.heap.mem (move.target + offset) = s.heap.mem (move.source + offset) := by
  rcases List.mem_append.mp member with old | new
  · obtain ⟨_, stop⟩ := compacting.orderly.inside move old
    rw [← compacting.front] at stop
    simp only [Sliding.Move.stop, slidingGeometry, headerSizeBytes] at stop
    rw [slid.moved.below _ (by omega), compacting.copies move old offset bound]
  · rw [List.mem_singleton.mp new] at bound ⊢
    rw [slid.bytes offset bound, compacting.unchanged whole fits bound]

/-- The forwarding words behind one more copy stay, and its object gets one. -/
theorem forwards_slid (compacting : Compacting s stack done moves c) (whole : Whole s block) (fits : Fits c block)
    (slid : Slid c c' root block) (member : move ∈ moves ++ [⟨block.header, c.heap.allocFront, block.size⟩])
    (behind : c'.heap.allocFront ≤ move.source) :
    c'.heap.mem.load64 move.source = setHeaderForwardAddress (BitVec.ofNat 64 move.target) := by
  have front := slid.moved.front
  rcases List.mem_append.mp member with old | new
  · have recorded : evacuationOf move ∈ c.evacuated := by
      rw [compacting.evacuated]
      exact List.mem_map_of_mem old
    have apart := compacting.copying.apart whole.intact fits.notMoved _ recorded
    simp only [evacuationOf] at apart
    rw [← compacting.forwards move old (by omega)]
    apply ByteMemory.load64_congr
    intro offset short
    exact slid.moved.above _ (by omega) (by omega)
  · rw [List.mem_singleton.mp new]
    exact slid.copied.forwarded

end Moves

/-- A visit to an object that has not been moved moves it. -/
theorem first (compacting : Compacting s stack done moves c) (half : FirstHalf s.heap s.blocks)
    (large : 0xFFF ≤ s.heap.heapStart) (whole : Whole s block) (nonnull : root ≠ 0)
    (unvisited : root ∉ done.map Prod.fst) (pointed : (stack root).toNat = block.dataStart)
    (fresh : block.header ∉ moves.map Sliding.Move.source)
    (inPage : (Sliding.front (slidingGeometry s.heap) moves - s.heap.heapStart) % spaceSize + block.size + 16 ≤
      spaceSize)
    (below : Sliding.front (slidingGeometry s.heap) moves + block.size + 16 ≤ block.header) :
    ∃ c', garbageCollection c root = .ok c' ∧ Compacting s stack (done ++ [(root, block)])
      (moves ++ [⟨block.header, Sliding.front (slidingGeometry s.heap) moves, block.size⟩]) c' := by
  have fits := compacting.fits fresh inPage below
  have visited : Sliding.Visited (slidingGeometry s.heap) moves (objectOf block) _ :=
    .first fresh inPage below rfl
  have orderly := compacting.orderly.visited visited
  have start : (c.stack root).toNat = block.dataStart := by
    rw [compacting.followed.others root unvisited, pointed]
  obtain ⟨c', ok, slid, copying⟩ := compacting.slides half large whole fits nonnull start
  rw [← compacting.front] at below ⊢
  refine ⟨c', ok, copying, ?_, ?_, ?_, ?_, ?_, ?_, ?_, ?_⟩
  · rwa [← compacting.front] at orderly
  · rw [slid.moved.evacuated, compacting.evacuated, List.map_append]
    rfl
  · rw [slid.moved.front, Sliding.front_append, ← compacting.front]
    rfl
  · intro move member
    rcases List.mem_append.mp member with old | new
    · exact compacting.wholes move old
    · rw [List.mem_singleton.mp new]
      exact whole
  · exact fun move member offset bound => compacting.copies_slid whole fits slid member bound
  · intro move member
    rcases List.mem_append.mp member with old | new
    · exact compacting.aligned move old
    · rw [List.mem_singleton.mp new]
      exact compacting.front_mod half
  · exact fun move member behind => compacting.forwards_slid whole fits slid member behind
  · rw [slid.copied.stack]
    exact compacting.followed.visit (fun _ old => List.mem_append_left _ old) unvisited
      (List.mem_append_right _ (List.mem_singleton_self _)) rfl rfl start (by dsimp only; omega)

/-- A visit to an object that has been moved, and whose old place is still there, rewrites the slot. -/
theorem again (compacting : Compacting s stack done moves c) (half : FirstHalf s.heap s.blocks)
    (large : 0xFFF ≤ s.heap.heapStart) (whole : Whole s block) (nonnull : root ≠ 0)
    (unvisited : root ∉ done.map Prod.fst) (pointed : (stack root).toNat = block.dataStart)
    (member : block.header ∈ moves.map Sliding.Move.source)
    (kept : Sliding.front (slidingGeometry s.heap) moves ≤ block.header) :
    ∃ c', garbageCollection c root = .ok c' ∧ Compacting s stack (done ++ [(root, block)]) moves c' := by
  have copying := compacting.copying
  rw [← compacting.front] at kept
  have value : c.stack root = stack root := compacting.followed.others root unvisited
  have start : (c.stack root).toNat = block.dataStart := by rw [value, pointed]
  obtain ⟨move, planned, source⟩ := List.mem_map.mp member
  have size : move.size = block.size := by
    have same := block_of_header (compacting.wholes move planned).intact whole.intact.member source
    exact congrArg Block.size same
  have below : move.target ≤ block.header := by
    have stop := compacting.orderly.below move planned
    simp only [Sliding.Move.stop] at stop
    omega
  have word := compacting.forwards move planned (source ▸ kept)
  rw [source] at word
  have aligned : (BitVec.ofNat 64 move.target).toNat % 4 = 0 := by
    have eight := compacting.aligned move planned
    rw [BitVec.toNat_ofNat]
    omega
  have forwarding : c.heap.rootCase (c.stack root) = .ok (.forwarding
      (BitVec.ofNat 64 move.target + (c.stack root - BitVec.ofNat 64 block.header))) := by
    have inside := header_inBounds half whole.intact.member
    rw [Heap.InBounds, ← copying.shape.heapStart, ← copying.shape.size] at inside
    have looked := rootCase_of_forwarded (large_of_start half whole.intact.member large start)
      (compacting.finds half whole kept start) inside (by rw [word, getHeaderType_setHeaderForwardAddress])
    rwa [word, forwardedTo_setHeaderForwardAddress aligned] at looked
  refine ⟨⟨c.heap, Function.update c.stack root
    (BitVec.ofNat 64 move.target + (c.stack root - BitVec.ofNat 64 block.header)), c.evacuated⟩, ?_, ?_⟩
  · rw [garbageCollection_of_ne_zero c nonnull, forwarding]
    rfl
  · refine ⟨⟨copying.steady, copying.shape, copying.used, copying.objects, copying.kept, copying.below,
      copying.copies, copying.distinct⟩, compacting.orderly, compacting.evacuated, compacting.front,
      compacting.wholes, compacting.copies, compacting.aligned, compacting.forwards, ?_⟩
    exact compacting.followed.visit (fun _ old => old) unvisited planned source size start below

/-- A visit that the plan can make, the collector makes. -/
theorem advances {moves' : List Sliding.Move} (compacting : Compacting s stack done moves c)
    (half : FirstHalf s.heap s.blocks) (large : 0xFFF ≤ s.heap.heapStart) (whole : Whole s block)
    (nonnull : root ≠ 0) (unvisited : root ∉ done.map Prod.fst)
    (pointed : (stack root).toNat = block.dataStart)
    (planned : Sliding.visit (slidingGeometry s.heap) moves (objectOf block) = .ok moves') :
    ∃ c', garbageCollection c root = .ok c' ∧ Compacting s stack (done ++ [(root, block)]) moves' c' := by
  cases Sliding.visited_of_visit planned with
  | again member kept same =>
    rw [same]
    exact compacting.again half large whole nonnull unvisited pointed member kept
  | first fresh inPage below moved =>
    rw [moved]
    exact compacting.first half large whole nonnull unvisited pointed fresh inPage below

end Compacting

/-- The session after a collection. -/
def afterCollection (s : Session) (c : Collection) : Session :=
  ⟨c.heap, (c.evacuated.map Evacuation.block).reverse, s.heap.allocMap⟩

/-- What a collection leaves that moves objects as planned. -/
structure Compacted (s : Session) (stack : Stack) (visits : List (ℕ × Block)) (moves : List Sliding.Move)
    (freed : ℕ) (c : Collection) : Prop where
  evacuated : c.evacuated = moves.map evacuationOf
  /-- The moved objects lie one behind the other from the start of the heap to the bump pointer. -/
  orderly : Sliding.Orderly (slidingGeometry s.heap) moves
  front : c.heap.allocFront = Sliding.front (slidingGeometry s.heap) moves
  used : c.heap.hUsed = (moves.map fun move => countedBytes ⟨move.target, move.size⟩).sum
  freed : freed = (s.heap.hUsed + 2 ^ 64 - c.heap.hUsed) % 2 ^ 64
  copies : ∀ move ∈ moves, ∀ offset < move.size + 16,
    c.heap.mem (move.target + offset) = s.heap.mem (move.source + offset)
  /-- Every copy can be found and moved again. -/
  wholes : ∀ move ∈ moves, Whole (afterCollection s c) ⟨move.target, move.size⟩
  followed : Followed stack visits moves c.stack

section Collected

variable {s s' : Session} {stack : Stack} {visits : List (ℕ × Block)} {moves : List Sliding.Move}

/-- An object that is the same at another place, apart from the other blocks there, is whole there. -/
theorem Whole.copied {source target size : ℕ} (whole : Whole s ⟨source, size⟩)
    (bytes : ∀ offset < size + 16, s'.heap.mem (target + offset) = s.heap.mem (source + offset))
    (member : ⟨target, size⟩ ∈ s'.blocks)
    (alone : ∀ other ∈ s'.blocks, other ≠ ⟨target, size⟩ →
      (Block.extent ⟨target, size⟩).Apart other.extent) : Whole s' ⟨target, size⟩ := by
  have words (shift : ℕ) (bound : shift ≤ size + 8) :
      s'.heap.mem.load64 (target + shift) = s.heap.mem.load64 (source + shift) := by
    apply ByteMemory.load64_congr
    intro offset short
    simp only [Nat.add_assoc]
    exact bytes (shift + offset) (by omega)
  have multiple := whole.words
  have untagged := whole.untagged
  have footer := whole.footer
  simp only [Block.dataStart, headerSizeBytes] at multiple untagged footer
  refine ⟨⟨member, alone, ?_⟩, multiple, ?_, ?_⟩
  · have header := words 0 (by omega)
    simp only [Nat.add_zero] at header
    rw [header]
    exact whole.intact.encoded
  · intro word bound
    dsimp only at bound
    have here := words (8 + 8 * word) (by omega)
    simp only [Block.dataStart, headerSizeBytes, ← Nat.add_assoc] at here ⊢
    rw [here]
    exact untagged word bound
  · have here := words (8 + size) (by omega)
    simp only [Block.dataStart, headerSizeBytes, ← Nat.add_assoc] at here ⊢
    rw [here]
    exact footer

/-- Every copy is whole afterwards. -/
theorem Compacting.whole {c : Collection} (compacting : Compacting s stack visits moves c) {move : Sliding.Move}
    (member : move ∈ moves) : Whole (afterCollection s c) ⟨move.target, move.size⟩ := by
  have blocks : ∀ other, other ∈ (afterCollection s c).blocks ↔
      ∃ move ∈ moves, (⟨move.target, move.size⟩ : Block) = other := by
    intro other
    rw [afterCollection, List.mem_reverse, compacting.evacuated, List.map_map, List.mem_map]
    rfl
  apply (compacting.wholes move member).copied (compacting.copies move member)
  · exact (blocks _).mpr ⟨move, member, rfl⟩
  · intro other inside different
    obtain ⟨second, member', rfl⟩ := (blocks other).mp inside
    apply Extent.apart_of_le
    have apart := compacting.orderly.apart member member' (by rintro rfl; exact different rfl)
    simp only [Sliding.Move.Apart, Sliding.Move.stop, slidingGeometry, headerSizeBytes] at apart
    simp only [Block.extent, headerSizeBytes]
    omega

/-- A collection whose slots point at whole objects, where the plan can be made, makes it. -/
theorem hGcDbg_compacts (reachable : Reachable Call.StructOnly s) (large : 0xFFF ≤ s.heap.heapStart) {last : ℕ}
    (nonnull : ∀ visit ∈ visits, visit.1 ≠ 0) (distinct : (visits.map Prod.fst).Nodup)
    (pointed : ∀ visit ∈ visits, (stack visit.1).toNat = visit.2.dataStart)
    (wholes : ∀ visit ∈ visits, Whole s visit.2)
    (planned : Machine.run (Sliding.visit (slidingGeometry s.heap)) []
      (visits.map fun visit => objectOf visit.2) = .ok moves) :
    ∃ freed c, hGcDbg s.heap stack (visits.map Prod.fst ++ [last]) = .ok (freed, c) ∧
      Compacted s stack visits moves freed c := by
  have half := firstHalf_of_reachable reachable
  have steady := half.steady
  have visited : visitedRoots (visits.map Prod.fst ++ [last]) = visits.map Prod.fst := by
    simp [visitedRoots]
  obtain ⟨c, ran, compacting⟩ := Machine.run_refines (Compacting s stack)
    (fun {done visit rest moves c moves'} split compacting stepped => by
      have member : visit ∈ visits := by
        rw [split]
        exact List.mem_append_right _ List.mem_cons_self
      have unvisited : visit.1 ∉ done.map Prod.fst := by
        rw [split, List.map_append, List.map_cons, List.nodup_append] at distinct
        intro earlier
        exact distinct.2.2 _ earlier _ List.mem_cons_self rfl
      exact compacting.advances half large (wholes visit member) (nonnull visit member) unvisited
        (pointed visit member) stepped)
    (Compacting.prepared steady) planned
  have charged := charged_of_run half ran
  rw [compacting.evacuated, List.map_map] at charged
  refine ⟨_, c, hGcDbg_of_run steady.shaped steady.half (visited.symm ▸ ran), compacting.evacuated,
    compacting.orderly, compacting.front, charged, rfl, compacting.copies, fun _ => compacting.whole,
    compacting.followed⟩

end Collected

/-- Garbage, and two objects of one word behind it. -/
def sparseCalls : List Call :=
  [.hAllocStruct (some "8i".toList), .hAllocStruct (some "2i".toList), .hAllocStruct (some "2i".toList)]

/-- Two slots that point at the first of the two objects, and between them one that points at the second. -/
def sharedSlots : Stack := fun slot => if slot = 8 ∨ slot = 24 then 65592 else if slot = 16 then 65616 else 0

def sharedVisits : List (ℕ × Block) := [(8, ⟨65584, 8⟩), (16, ⟨65608, 8⟩), (24, ⟨65584, 8⟩)]

theorem hGcDbg_compacts_shared : ∃ s freed c,
    Machine.run Session.step (Session.start smallHeap) sparseCalls = .ok s ∧
    hGcDbg s.heap sharedSlots [8, 16, 24, 32] = .ok (freed, c) ∧
    Compacted s sharedSlots sharedVisits [⟨65584, 65536, 8⟩, ⟨65608, 65560, 8⟩] freed c := by
  obtain ⟨s, ran, found⟩ := exists_of_toOption
    (Machine.run Session.step (Session.start smallHeap) sparseCalls)
    (fun s => ((s.blocks, s.heap.heapStart), [65584, 65592, 65600, 65608, 65616, 65624].map s.heap.mem.load64))
    (([⟨65608, 8⟩, ⟨65584, 8⟩, ⟨65536, 32⟩], 65536),
      [0x0800000000000003, 0, createFooter 8, 0x0800000000000003, 0, createFooter 8]) (by decide +kernel)
  obtain ⟨places, words⟩ := Prod.mk.inj found
  obtain ⟨blocks, start⟩ := Prod.mk.inj places
  simp only [List.map_cons, List.map_nil, List.cons.injEq, and_true] at words
  obtain ⟨header, data, footer, header', data', footer'⟩ := words
  have reachable : Reachable Call.StructOnly s :=
    ⟨smallHeap, booted_smallHeap, sparseCalls, by simp [sparseCalls, Call.StructOnly], ran⟩
  have oneWord (place : ℕ) (member : ⟨place, 8⟩ ∈ s.blocks)
      (alone : ∀ other ∈ s.blocks, other ≠ ⟨place, 8⟩ → (Block.extent ⟨place, 8⟩).Apart other.extent)
      (header : s.heap.mem.load64 place = 0x0800000000000003) (data : s.heap.mem.load64 (place + 8) = 0)
      (footer : s.heap.mem.load64 (place + 16) = createFooter 8) : Whole s ⟨place, 8⟩ := by
    refine ⟨⟨member, alone, "ii".toList, by decide, by decide, ?_, rfl⟩, Nat.mod_self 8, ?_, footer⟩
    · rw [header]
      decide +kernel
    · intro word bound
      dsimp only at bound
      obtain rfl : word = 0 := by omega
      exact (congrArg confirmTag data).trans (by decide)
  have alone (place : ℕ) (live : place = 65584 ∨ place = 65608) :
      ∀ other ∈ s.blocks, other ≠ ⟨place, 8⟩ → (Block.extent ⟨place, 8⟩).Apart other.extent := by
    intro other member different
    rw [show s.blocks = _ from blocks] at member
    simp only [List.mem_cons, List.not_mem_nil, or_false] at member
    apply Extent.apart_of_le
    rcases live with rfl | rfl <;> rcases member with rfl | rfl | rfl <;>
      first | exact absurd rfl different | decide
  have first : Whole s ⟨65584, 8⟩ := by
    apply oneWord 65584 ?_ (alone 65584 (.inl rfl)) header data footer
    simp [show s.blocks = _ from blocks]
  have second : Whole s ⟨65608, 8⟩ := by
    apply oneWord 65608 ?_ (alone 65608 (.inr rfl)) header' data' footer'
    simp [show s.blocks = _ from blocks]
  have wholes : ∀ visit ∈ sharedVisits, Whole s visit.2 := by
    intro visit member
    simp only [sharedVisits, List.mem_cons, List.not_mem_nil, or_false] at member
    rcases member with rfl | rfl | rfl
    · exact first
    · exact second
    · exact first
  have geometry : slidingGeometry s.heap = ⟨65536, 2048, 16⟩ := by
    rw [slidingGeometry, show s.heap.heapStart = 65536 from start]
    rfl
  have large : 0xFFF ≤ s.heap.heapStart := by
    rw [show s.heap.heapStart = 65536 from start]
    decide
  have planned : Machine.run (Sliding.visit (slidingGeometry s.heap)) []
      (sharedVisits.map fun visit => objectOf visit.2) = .ok [⟨65584, 65536, 8⟩, ⟨65608, 65560, 8⟩] := by
    rw [geometry]
    rfl
  obtain ⟨freed, c, collected, compacted⟩ := @hGcDbg_compacts s sharedSlots sharedVisits _ reachable large 32
    (by decide) (by decide) (by decide) wholes planned
  exact ⟨s, freed, c, ran, collected, compacted⟩

end GarbageCollector.Soundness
