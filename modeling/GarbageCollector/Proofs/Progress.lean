import GarbageCollector.Proofs.Session

/-! # When the allocators succeed

The converse of the inversion lemmas: while the bump pointer is in the first half of the spaces, an
accepted struct is either placed or refused, but never faults; a raw block is placed as soon as it
fits in the heap's bytes. A fresh heap places every struct that it accepts.
-/

namespace GarbageCollector.Proofs

open Model

variable {h : Heap} {size index space : ℕ} {word : Word}

theorem store64_of_inBounds {address : ℕ} (inside : h.InBounds address 8) :
    h.store64 address word = .ok (h.setMem (h.mem.store64 address word)) :=
  if_pos inside

/-- Marking never leaves the map when the last segment is in the heap. -/
theorem setAllocMap_exists (h : Heap) {heapStart startAddress endAddress : ℕ}
    (firstSpace : readArray h.spaces 0 = .ok heapStart)
    (first : (startAddress - heapStart) / 16 ≤ 64 * h.allocMap.length)
    (last : (endAddress - heapStart) / 16 ≤ 64 * h.allocMap.length) :
    ∃ map, h.setAllocMap startAddress endAddress = .ok (h.setMap map) ∧
      map.length = h.allocMap.length := by
  have room : (startAddress - heapStart) / 16 +
      ((endAddress - heapStart) / 16 - (startAddress - heapStart) / 16) ≤ 64 * h.allocMap.length := by
    omega
  obtain ⟨map, marks⟩ := markSegments_exists room
  refine ⟨map, bind_ok_iff.mpr ⟨_, firstSpace, bind_ok_iff.mpr ⟨map, marks, rfl⟩⟩, ?_⟩
  exact length_markSegments marks

/-- Segments of the heap have their bit in the map. -/
theorem Shaped.segment_le (shaped : Shaped h) {address : ℕ} (inside : address ≤ h.heapStart + h.size) :
    (address - h.heapStart) / 16 ≤ 64 * h.allocMap.length := by
  have pages := shaped.wholePages
  rw [shaped.mapLength]
  simp only [spaceSize] at pages
  omega

/-- A struct block that lies in its space is written without a fault. -/
theorem placeStruct_exists (shaped : Shaped h) (word : Word) {startAddrs : ℕ} (bound : index < h.numberOfSpaces)
    (start : space = h.heapStart + index * 2048) (after : space ≤ h.allocFront)
    (room : h.allocFront + size + 16 ≤ space + 2048) (started : startAddrs ≤ h.heapStart + h.size) :
    ∃ h', h.placeStruct startAddrs index space size word = .ok (some (h.allocFront + 8), h') := by
  have fits := shaped.spacesFit
  simp only [spaceSize] at fits
  have spaceEnd : space + 2048 ≤ h.heapStart + h.numberOfSpaces * 2048 := by
    have next : (index + 1) * 2048 ≤ h.numberOfSpaces * 2048 := Nat.mul_le_mul_right _ bound
    omega
  have first : h.InBounds h.allocFront 8 := ⟨by omega, by omega⟩
  have last : h.InBounds (h.allocFront + headerSizeBytes + size) 8 := by
    simp only [Heap.InBounds, headerSizeBytes]
    omega
  have stop : h.allocFront + headerSizeBytes + size + headerSizeBytes ≤ h.heapStart + h.size := by
    simp only [headerSizeBytes]
    omega
  obtain ⟨map, marks, mapLength⟩ := setAllocMap_exists
    (((((h.setMem (h.mem.store64 h.allocFront word)).advance headerSizeBytes).advance size).setMem
      ((h.mem.store64 h.allocFront word).store64 (h.allocFront + headerSizeBytes + size)
        (createFooter (BitVec.ofNat 8 size)))).advance headerSizeBytes)
    shaped.firstSpace (shaped.segment_le started) (shaped.segment_le stop)
  have segment : (h.allocFront + headerSizeBytes - 1 - space) / minObjSize ≤ 127 := by
    simp only [headerSizeBytes, minObjSize]
    omega
  have segments : (index * 128 + (h.allocFront + headerSizeBytes - 1 - space) / minObjSize) +
      (size + headerSizeBytes + (minObjSize - 1)) / minObjSize ≤ 64 * map.length := by
    have pages := shaped.segment_le (show space + 2048 ≤ h.heapStart + h.size by omega)
    simp only [Heap.advance_allocMap, Heap.setMem_allocMap] at mapLength
    rw [mapLength]
    simp only [headerSizeBytes, minObjSize]
    omega
  obtain ⟨next, object⟩ := markSegments_exists segments
  have object : markObject map
      (index * 2 + if 63 < (h.allocFront + headerSizeBytes - 1 - space) / minObjSize then 1 else 0)
      (if 63 < (h.allocFront + headerSizeBytes - 1 - space) / minObjSize then
        (h.allocFront + headerSizeBytes - 1 - space) / minObjSize - 64
        else (h.allocFront + headerSizeBytes - 1 - space) / minObjSize)
      ((size + headerSizeBytes + (minObjSize - 1)) / minObjSize) = .ok next := by
    generalize (h.allocFront + headerSizeBytes - 1 - space) / minObjSize = bit at segment object ⊢
    rw [markObject_eq_markSegments (by split <;> omega), ← object]
    congr 1
    split <;> omega
  exact ⟨_, bind_ok_iff.mpr ⟨_, store64_of_inBounds first, bind_ok_iff.mpr ⟨_, store64_of_inBounds last,
    bind_ok_iff.mpr ⟨_, marks, bind_ok_iff.mpr ⟨next, object, rfl⟩⟩⟩⟩⟩

/-- A bump pointer in the first half is in an active space. -/
theorem Steady.currentSpace (steady : Steady h)
    (early : h.allocFront < h.heapStart + h.numberOfSpaces / 2 * 2048) :
    CurrentSpace h ((h.allocFront - h.heapStart) / 2048)
      (h.heapStart + (h.allocFront - h.heapStart) / 2048 * 2048) := by
  have front := steady.front
  have few := steady.shaped.fewSpaces
  have indexed := spaceIndex_eq steady.shaped front
  rw [toInt32_of_lt (by omega)] at indexed
  exact ⟨indexed, (steady.half.active_iff (by omega)).mpr (by omega),
    steady.shaped.space (by omega)⟩

/-- The walk from an inactive space ends without a fault. -/
theorem walkToActive_eq_none (steady : Steady h) {i : ℕ} (late : h.numberOfSpaces / 2 ≤ i) :
    h.walkToActive i = .ok none := by
  fun_induction Heap.walkToActive h i with
  | case1 i done => rfl
  | case2 i more outside =>
    have inside := steady.shaped.flagCount
    rw [List.getElem?_eq_none_iff] at outside
    omega
  | case3 i more active =>
    rw [steady.half.active_iff (by omega)] at active
    omega
  | case4 i more inactive ih => exact ih (by omega)

/-- Right at the end of the first half no space is found. -/
theorem findSpace_of_full (steady : Steady h)
    (full : h.allocFront = h.heapStart + h.numberOfSpaces / 2 * 2048) :
    h.findSpace size = .ok none := by
  have two := steady.shaped.someSpaces
  have few := steady.shaped.fewSpaces
  have indexed := spaceIndex_eq steady.shaped steady.front
  rw [toInt32_of_lt (by omega), full, show (h.heapStart + h.numberOfSpaces / 2 * 2048 - h.heapStart) /
    2048 = h.numberOfSpaces / 2 by omega] at indexed
  have inactive := readArray_natCast (steady.half (h.numberOfSpaces / 2) (by omega))
  rw [decide_eq_false (by omega)] at inactive
  have start := readArray_natCast (steady.shaped.space (i := h.numberOfSpaces / 2) (by omega))
  refine bind_ok_iff.mpr ⟨_, indexed, bind_ok_iff.mpr ⟨_, inactive, bind_ok_iff.mpr ⟨_, start, ?_⟩⟩⟩
  dsimp only
  rw [if_neg (by simp)]
  exact bind_ok_iff.mpr ⟨none, walkToActive_eq_none steady (by rw [Int.toNat_natCast]), rfl⟩

/-- An accepted struct in an active space: the second test decides between `NULL` and a block. -/
theorem hAllocStruct_of_current {layout : Option (List Char)}
    (request : h.structRequest layout = .ok (some (size, word))) (current : CurrentSpace h index space)
    {header : ℕ}
    (header_eq : header = if size + 8 ≤ spaceLeft h.allocFront space then h.allocFront else space) :
    h.hAllocStruct layout = if size + 8 ≤ spaceLeft (header + 8) space then
      (h.setFront header).placeStruct h.allocFront index space size word
      else .ok (none, h.setFront header) := by
  have start := readArray_natCast current.starts
  unfold Heap.hAllocStruct
  rw [request]
  change (h.findSpace size >>= _) = _
  rw [findSpace_of_current current, ← header_eq]
  change (readArray h.spaces index >>= _) = _
  rw [start]
  rfl

/-- While the bump pointer is in the first half, `h_alloc_struct` faults only in its request. -/
theorem hAllocStruct_exists {layout : Option (List Char)} {requested : Option (ℕ × Word)}
    (steady : Steady h) (within : h.allocFront ≤ h.heapStart + h.numberOfSpaces / 2 * 2048)
    (request : h.structRequest layout = .ok requested) :
    ∃ outcome, h.hAllocStruct layout = .ok outcome := by
  cases requested with
  | none => exact ⟨_, bind_ok_iff.mpr ⟨none, request, rfl⟩⟩
  | some wanted =>
    obtain ⟨size, word⟩ := wanted
    rcases Nat.lt_or_eq_of_le within with early | full
    · have current := steady.currentSpace early
      have front := steady.front
      have fitsHeap := steady.shaped.spacesFit
      simp only [spaceSize] at fitsHeap
      obtain ⟨small, _⟩ := structRequest_size request
      generalize start : h.heapStart + (h.allocFront - h.heapStart) / 2048 * 2048 = space at current
      generalize header_eq : (if size + 8 ≤ spaceLeft h.allocFront space then h.allocFront else space) =
        header
      rw [hAllocStruct_of_current request current header_eq.symm]
      split
      · next fits =>
        have placed : space ≤ header ∧ header + size + 16 ≤ space + 2048 := by
          split at header_eq
          · next room =>
            rw [spaceLeft_eq (by omega) (by omega)] at room
            rw [spaceLeft_eq (by omega) (by omega)] at fits
            omega
          · omega
        have moved : Shaped (h.setFront header) := (SameShape.setFront h header).shaped steady.shaped
        have bound : (h.allocFront - h.heapStart) / 2048 < h.numberOfSpaces := by omega
        have started : h.allocFront ≤ h.heapStart + h.size := by omega
        obtain ⟨h', written⟩ := placeStruct_exists moved word bound start.symm placed.1 placed.2 started
        exact ⟨_, written⟩
      · exact ⟨_, rfl⟩
    · refine ⟨(none, h), bind_ok_iff.mpr ⟨_, request, ?_⟩⟩
      exact bind_ok_iff.mpr ⟨none, findSpace_of_full steady full, rfl⟩

/-- An accepted raw block that fits in the heap's bytes is written without a fault. -/
theorem hAllocRaw_exists {bytes : ℕ} (shaped : Shaped h) (positive : 0 < bytes)
    (available : bytes ≤ h.hAvail) (inside : h.InBounds h.allocFront (bytes + 16)) :
    ∃ h', h.hAllocRaw bytes = .ok (some (h.allocFront + 8), h') := by
  simp only [Heap.InBounds] at inside
  have first : h.InBounds h.allocFront 8 := ⟨by omega, by omega⟩
  have last : h.InBounds (h.allocFront + headerSizeBytes + bytes) 8 := by
    simp only [Heap.InBounds, headerSizeBytes]
    omega
  have start : h.allocFront ≤ h.heapStart + h.size := by omega
  have stop : h.allocFront + headerSizeBytes + bytes + headerSizeBytes ≤ h.heapStart + h.size := by
    simp only [headerSizeBytes]
    omega
  obtain ⟨map, marks, _⟩ := setAllocMap_exists
    (((((h.setMem (h.mem.store64 h.allocFront (createRawHeader bytes))).advance
      headerSizeBytes).advance bytes).setMem
      ((h.mem.store64 h.allocFront (createRawHeader bytes)).store64
        (h.allocFront + headerSizeBytes + bytes) (createFooter (BitVec.ofNat 8 bytes)))).advance
      headerSizeBytes)
    shaped.firstSpace (shaped.segment_le start) (shaped.segment_le stop)
  unfold Heap.hAllocRaw
  rw [if_neg (by omega), if_neg (by omega)]
  exact ⟨_, bind_ok_iff.mpr ⟨_, store64_of_inBounds first, bind_ok_iff.mpr ⟨_, store64_of_inBounds last,
    bind_ok_iff.mpr ⟨_, marks, rfl⟩⟩⟩⟩

/-- A valid layout that leaves enough bytes available is accepted. -/
theorem structRequest_of_format {text format : List Char}
    (created : createFormatStr text = .ok (some format))
    (enough : enoughBitsForLayout format = true) (nonempty : text ≠ [])
    (available : formatStrBytes format + 8 ≤ h.hAvail) :
    ∃ word, h.structRequest (some text) = .ok (some (formatStrBytes format, word)) := by
  obtain ⟨word, encoded⟩ : ∃ word, toBitVector format = some word := by
    simp only [toBitVector, enough, if_true]
    exact ⟨_, rfl⟩
  obtain ⟨small, _⟩ := formatStrBytes_of_toBitVector encoded
  refine ⟨word, bind_ok_iff.mpr ⟨some format, created, ?_⟩⟩
  simp only [encoded, headerSizeBytes, spaceSize]
  rw [if_neg (by omega), if_neg (by omega), if_neg nonempty]

/-- A fresh heap never answers an accepted struct with `NULL`. -/
theorem structRequest_of_null {layout : Option (List Char)} {h' : Heap} (fresh : Fresh h)
    (null : h.hAllocStruct layout = .ok (none, h')) : h.structRequest layout = .ok none := by
  obtain ⟨requested, request, _⟩ := bind_ok_iff.mp null
  cases requested with
  | none => exact request
  | some wanted =>
    obtain ⟨size, word⟩ := wanted
    have steady := fresh.steady
    have two := steady.shaped.someSpaces
    have fitsHeap := steady.shaped.spacesFit
    simp only [spaceSize] at fitsHeap
    have front := fresh.front
    obtain ⟨small, _⟩ := structRequest_size request
    have current := steady.currentSpace (by omega)
    rw [show (h.allocFront - h.heapStart) / 2048 = 0 by omega, Nat.zero_mul, Nat.add_zero, ← front]
      at current
    have fits : size + 8 ≤ spaceLeft (h.allocFront + 8) h.allocFront := by
      rw [spaceLeft_next]
      omega
    have stays : h.allocFront =
        if size + 8 ≤ spaceLeft h.allocFront h.allocFront then h.allocFront else h.allocFront := by simp
    rw [hAllocStruct_of_current request current stays, if_pos fits] at null
    have moved : Shaped (h.setFront h.allocFront) := (SameShape.setFront h _).shaped steady.shaped
    have bound : 0 < h.numberOfSpaces := by omega
    have start : h.allocFront = h.heapStart + 0 * 2048 := by omega
    have room : h.allocFront + size + 16 ≤ h.allocFront + 2048 := by omega
    have started : h.allocFront ≤ h.heapStart + h.size := by omega
    obtain ⟨h', written⟩ := placeStruct_exists moved word bound start le_rfl room started
    rw [written] at null
    cases null

end GarbageCollector.Proofs
