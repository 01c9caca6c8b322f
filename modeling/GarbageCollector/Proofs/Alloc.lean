import GarbageCollector.Proofs.Boot

/-! # What one allocation does

A successful call of either allocator places one block: `Placed` gives the bytes it writes, where
it leaves the bump pointer and how it counts. A struct goes to the bump pointer, or to the start of
the current space when it does not fit behind it, or to the start of the next active space when
the current one is inactive. A call that returns `NULL` leaves the heap as it was.
-/

namespace GarbageCollector.Proofs

open Model

/-- The parts of the heap that allocation and collection never change. -/
structure SameShape (h h' : Heap) : Prop where
  heapStart : h'.heapStart = h.heapStart
  size : h'.size = h.size
  spaces : h'.spaces = h.spaces
  numberOfSpaces : h'.numberOfSpaces = h.numberOfSpaces
  spaceIsActive : h'.spaceIsActive = h.spaceIsActive
  mapLength : h'.allocMap.length = h.allocMap.length

namespace SameShape

variable {a b c : Heap}

theorem refl (h : Heap) : SameShape h h := ⟨rfl, rfl, rfl, rfl, rfl, rfl⟩

theorem trans (first : SameShape a b) (second : SameShape b c) : SameShape a c :=
  ⟨second.heapStart.trans first.heapStart, second.size.trans first.size,
    second.spaces.trans first.spaces, second.numberOfSpaces.trans first.numberOfSpaces,
    second.spaceIsActive.trans first.spaceIsActive, second.mapLength.trans first.mapLength⟩

theorem shaped (same : SameShape a b) (shaped : Shaped a) : Shaped b := by
  obtain ⟨heapStart, size, spaces, count, flags, length⟩ := same
  constructor
  all_goals simp only [heapStart, size, spaces, count, flags, length]
  · exact shaped.nonnull
  · exact shaped.aligned
  · exact shaped.large
  · exact shaped.bounded
  · exact shaped.inAddressSpace
  · exact shaped.wholePages
  · exact shaped.someSpaces
  · exact shaped.evenSpaces
  · exact shaped.fewSpaces
  · exact shaped.spacesFit
  · exact shaped.spaces
  · exact shaped.flagCount
  · exact shaped.mapLength

theorem halfActive (same : SameShape a b) (half : HalfActive a) : HalfActive b := by
  intro i bound
  rw [same.numberOfSpaces] at bound ⊢
  rw [same.spaceIsActive]
  exact half i bound

theorem setFront (h : Heap) (address : ℕ) : SameShape h (h.setFront address) :=
  ⟨rfl, rfl, rfl, rfl, rfl, rfl⟩

theorem setMem (h : Heap) (mem : ByteMemory) : SameShape h (h.setMem mem) :=
  ⟨rfl, rfl, rfl, rfl, rfl, rfl⟩

theorem prepared (h : Heap) : SameShape h (h.setFront h.heapStart).resetUsed :=
  ⟨rfl, rfl, rfl, rfl, rfl, rfl⟩

end SameShape

/-- One block written at `header`. -/
structure Placed (h h' : Heap) (header size : ℕ) (word : Word) : Prop where
  shape : SameShape h h'
  inside : h.InBounds header (size + 16)
  mem : h'.mem = (h.mem.store64 header word).store64 (header + 8 + size)
    (createFooter (BitVec.ofNat 8 size))
  front : h'.allocFront = header + size + 16
  used : h'.usedBytes = (h.usedBytes + (2 * size + 24)) % 2 ^ 64

/-- The bytes outside a placed block keep their values. -/
theorem Placed.mem_outside {h h' : Heap} {header size address : ℕ} {word : Word}
    (placed : Placed h h' header size word)
    (outside : address < header ∨ header + size + 16 ≤ address) : h'.mem address = h.mem address := by
  rw [placed.mem, ByteMemory.store64_of_outside (by omega), ByteMemory.store64_of_outside (by omega)]

theorem store64_ok_iff {h h' : Heap} {address : ℕ} {word : Word} :
    h.store64 address word = .ok h' ↔
      h.InBounds address 8 ∧ h' = h.setMem (h.mem.store64 address word) := by
  unfold Heap.store64
  split
  · next inside => simp [inside, eq_comm]
  · next outside => simp [outside]

theorem load64_ok_iff {h : Heap} {address : ℕ} {word : Word} :
    h.load64 address = .ok word ↔ h.InBounds address 8 ∧ word = h.mem.load64 address := by
  unfold Heap.load64
  split
  · next inside => simp [inside, eq_comm]
  · next outside => simp [outside]

/-- The segments that `set_alloc_map` marks, from the first space on. -/
def markRange (heapStart : ℕ) (map : List Word) (startAddress endAddress : ℕ) :
    Except Fault (List Word) :=
  markSegments map ((startAddress - heapStart) / 16)
    ((endAddress - heapStart) / 16 - (startAddress - heapStart) / 16)

theorem setAllocMap_ok {h h' : Heap} {heapStart startAddress endAddress : ℕ}
    (ok : h.setAllocMap startAddress endAddress = .ok h')
    (firstSpace : readArray h.spaces 0 = .ok heapStart) :
    ∃ map, markRange heapStart h.allocMap startAddress endAddress = .ok map ∧
      h' = h.setMap map := by
  simp only [Heap.setAllocMap, bind_ok_iff, firstSpace, Except.ok.injEq, exists_eq_left'] at ok
  obtain ⟨map, marks, rfl⟩ := ok
  exact ⟨map, marks, rfl⟩

theorem length_markRange {heapStart startAddress endAddress : ℕ} {map next : List Word}
    (ok : markRange heapStart map startAddress endAddress = .ok next) : next.length = map.length :=
  length_markSegments ok

theorem marked_markRange {heapStart startAddress endAddress : ℕ} {map next : List Word}
    (ok : markRange heapStart map startAddress endAddress = .ok next) (i : ℕ) :
    Marked next i ↔ ((startAddress - heapStart) / 16 ≤ i ∧ i < (endAddress - heapStart) / 16) ∨
      Marked map i := by
  rw [marked_markSegments ok]
  apply or_congr_left
  omega

section Struct

variable {h h' : Heap} {layout : Option (List Char)} {size p : ℕ} {word : Word}

/-- What an accepted request says about its size. -/
theorem structRequest_some (request : h.structRequest layout = .ok (some (size, word))) :
    ∃ text frmtString, layout = some text ∧ createFormatStr text = .ok (some frmtString) ∧
      toBitVector frmtString = some word ∧ formatStrBytes frmtString = size ∧
      size + 8 ≤ h.hAvail ∧ text ≠ [] := by
  cases layout with
  | none => cases request
  | some text =>
    obtain ⟨parsed, parse, request⟩ := bind_ok_iff.mp request
    cases parsed with
    | none => cases request
    | some frmtString =>
      dsimp only at request
      cases encoded : toBitVector frmtString with
      | none => rw [encoded] at request; cases request
      | some bits =>
        rw [encoded] at request
        dsimp only at request
        split at request
        · cases request
        split at request
        · cases request
        split at request
        · cases request
        rename_i avail _ nonempty
        cases request
        exact ⟨text, frmtString, rfl, parse, encoded, rfl, by simpa using avail, nonempty⟩

theorem structRequest_size (request : h.structRequest layout = .ok (some (size, word))) :
    size ≤ 216 ∧ size % 4 = 0 := by
  obtain ⟨_, _, _, _, encoded, rfl, _, _⟩ := structRequest_some request
  exact formatStrBytes_of_toBitVector encoded

theorem layoutBytes_of_structRequest (request : h.structRequest layout = .ok (some (size, word))) :
    layoutBytes layout = size := by
  obtain ⟨text, frmtString, rfl, parse, _, rfl, _, _⟩ := structRequest_some request
  simp [layoutBytes, parse]

/-- A block that `placeStruct` writes in any heap, with the marks of its two loops. -/
theorem placeStruct_placed {startAddrs index space : ℕ} {result : Option ℕ}
    (ok : h.placeStruct startAddrs index space size word = .ok (result, h')) :
    result = some (h.allocFront + 8) ∧ Placed h h' h.allocFront size word ∧
      ∃ first map, readArray h.spaces 0 = .ok first ∧
        markRange first h.allocMap startAddrs (h.allocFront + size + 16) = .ok map ∧
        markObject map (index * 2 + if 63 < (h.allocFront + 7 - space) / 16 then 1 else 0)
          (if 63 < (h.allocFront + 7 - space) / 16 then (h.allocFront + 7 - space) / 16 - 64
            else (h.allocFront + 7 - space) / 16)
          ((size + 23) / 16) = .ok h'.allocMap := by
  obtain ⟨h₁, stored, ok⟩ := bind_ok_iff.mp ok
  obtain ⟨bottom, rfl⟩ := store64_ok_iff.mp stored
  obtain ⟨h₂, stored, ok⟩ := bind_ok_iff.mp ok
  obtain ⟨last, rfl⟩ := store64_ok_iff.mp stored
  obtain ⟨h₃, marking, ok⟩ := bind_ok_iff.mp ok
  obtain ⟨first, read, _⟩ := bind_ok_iff.mp marking
  obtain ⟨map, marks, rfl⟩ := setAllocMap_ok marking read
  obtain ⟨next, object, same⟩ := bind_ok_iff.mp ok
  obtain ⟨rfl, rfl⟩ := Prod.mk.inj (Except.ok.inj same)
  have sameLength : next.length = h.allocMap.length :=
    (length_markObject object).trans (length_markRange marks)
  have stop : h.allocFront + 8 + size + 8 = h.allocFront + size + 16 := by omega
  have inside : h.InBounds h.allocFront (size + 16) := ⟨bottom.1, stop.ge.trans last.2⟩
  refine ⟨rfl, ⟨?_, inside, rfl, stop, ?_⟩, first, map, read, stop ▸ marks, object⟩
  · constructor
    all_goals simp [sameLength]
  · simp only [Heap.addUsed_usedBytes, Heap.setMap_usedBytes, Heap.advance_usedBytes,
      Heap.setMem_usedBytes, headerSizeBytes]
    omega

/-- A block that `placeStruct` writes, with the marks of its two loops. -/
theorem placeStruct_ok {startAddrs index space : ℕ} {result : Option ℕ} (shaped : Shaped h)
    (ok : h.placeStruct startAddrs index space size word = .ok (result, h')) :
    result = some (h.allocFront + 8) ∧ Placed h h' h.allocFront size word ∧
      ∃ map, markRange h.heapStart h.allocMap startAddrs (h.allocFront + size + 16) = .ok map ∧
        markObject map (index * 2 + if 63 < (h.allocFront + 7 - space) / 16 then 1 else 0)
          (if 63 < (h.allocFront + 7 - space) / 16 then (h.allocFront + 7 - space) / 16 - 64
            else (h.allocFront + 7 - space) / 16)
          ((size + 23) / 16) = .ok h'.allocMap := by
  obtain ⟨returned, placed, first, map, read, marks, object⟩ := placeStruct_placed ok
  cases shaped.firstSpace.symm.trans read
  exact ⟨returned, placed, map, marks, object⟩

end Struct

section Space

variable {h : Heap} {size index start : ℕ}

/-- The bump pointer is in an active space, as far as the `int` index can tell. -/
structure CurrentSpace (h : Heap) (index space : ℕ) : Prop where
  indexed : h.spaceIndex = .ok (index : ℤ)
  active : h.spaceIsActive[index]? = some true
  starts : h.spaces[index]? = some space

/-- An accepted struct does not fit behind the bump pointer of an active space. -/
def Rewinds (h : Heap) (layout : Option (List Char)) : Prop :=
  ∃ size word index space, h.structRequest layout = .ok (some (size, word)) ∧
    CurrentSpace h index space ∧ spaceLeft h.allocFront space < size + headerSizeBytes

theorem CurrentSpace.unique {other otherSpace space : ℕ} (current : CurrentSpace h index space)
    (again : CurrentSpace h other otherSpace) : index = other ∧ space = otherSpace := by
  have sameIndex := current.indexed.symm.trans again.indexed
  rw [Except.ok.injEq, Int.natCast_inj] at sameIndex
  subst sameIndex
  exact ⟨rfl, Option.some.inj (current.starts.symm.trans again.starts)⟩

theorem HalfActive.active_iff (half : HalfActive h) {i : ℕ} (bound : i < h.numberOfSpaces) :
    h.spaceIsActive[i]? = some true ↔ i < h.numberOfSpaces / 2 := by
  rw [half i bound, Option.some.injEq, decide_eq_true_iff]

/-- From an inactive space the walk finds nothing, since no active space follows. -/
theorem walkToActive_none (half : HalfActive h) {i : ℕ} {found : Option ℕ}
    (late : h.numberOfSpaces / 2 ≤ i) (ok : h.walkToActive i = .ok found) : found = none := by
  fun_induction Heap.walkToActive h i with
  | case1 i done => cases ok; rfl
  | case2 i more outside => cases ok
  | case3 i more active =>
    rw [half.active_iff (by omega)] at active
    omega
  | case4 i more inactive ih => exact ih (by omega) ok

/-- In an active space the search stays there. -/
theorem findSpace_of_current {space : ℕ} (current : CurrentSpace h index space) :
    h.findSpace size = .ok (some (index,
      if size + 8 ≤ spaceLeft h.allocFront space then h.allocFront else space)) := by
  have active := readArray_natCast current.active
  have start := readArray_natCast current.starts
  refine bind_ok_iff.mpr ⟨_, current.indexed, bind_ok_iff.mpr ⟨_, active, bind_ok_iff.mpr ⟨_, start, ?_⟩⟩⟩
  dsimp only [headerSizeBytes]
  rw [Int.toNat_natCast]
  by_cases fits : size + 8 ≤ spaceLeft h.allocFront space
  · rw [if_pos ⟨rfl, fits⟩, if_pos fits]
  · rw [if_neg fun both => fits both.2, if_neg fits]
    exact bind_ok_iff.mpr ⟨some index, rfl, bind_ok_iff.mpr ⟨_, start, rfl⟩⟩

/-- The space found is the current one: the walk never succeeds. -/
theorem findSpace_ok (shaped : Shaped h) (half : HalfActive h)
    (ok : h.findSpace size = .ok (some (index, start))) :
    ∃ space, CurrentSpace h index space ∧
      start = if size + 8 ≤ spaceLeft h.allocFront space then h.allocFront else space := by
  obtain ⟨current, indexed, ok⟩ := bind_ok_iff.mp ok
  obtain ⟨active, readActive, ok⟩ := bind_ok_iff.mp ok
  obtain ⟨space, readSpace, ok⟩ := bind_ok_iff.mp ok
  obtain ⟨nonnegative, activeAt⟩ := readArray_eq_ok_iff.mp readActive
  obtain ⟨_, spaceAt⟩ := readArray_eq_ok_iff.mp readSpace
  lift current to ℕ using nonnegative
  rw [Int.toNat_natCast] at activeAt spaceAt ok
  dsimp only at ok
  cases active with
  | true =>
    have here : CurrentSpace h current space := ⟨indexed, activeAt, spaceAt⟩
    split at ok
    · next fits =>
      cases ok
      exact ⟨space, here, (if_pos fits.2).symm⟩
    · next tooFull =>
      obtain ⟨found, walked, ok⟩ := bind_ok_iff.mp ok
      cases walked
      obtain ⟨first, read, ok⟩ := bind_ok_iff.mp ok
      cases ok
      obtain ⟨_, startAt⟩ := readArray_eq_ok_iff.mp read
      rw [Int.toNat_natCast, spaceAt, Option.some.injEq] at startAt
      rw [← startAt]
      exact ⟨space, here, (if_neg fun fits => tooFull ⟨rfl, fits⟩).symm⟩
  | false =>
    obtain ⟨bound, _⟩ := shaped.space_eq spaceAt
    have late : h.numberOfSpaces / 2 ≤ current := by
      by_contra early
      have active := (half.active_iff bound).mpr (by omega)
      rw [activeAt] at active
      cases active
    obtain ⟨found, walked, ok⟩ := bind_ok_iff.mp ok
    obtain rfl := walkToActive_none half late walked
    cases ok

theorem spaceIndex_of_firstSpace (first : readArray h.spaces 0 = .ok h.heapStart)
    (front : h.heapStart ≤ h.allocFront) :
    h.spaceIndex = .ok (toInt32 ((h.allocFront - h.heapStart) / 2048 : ℕ)) := by
  have quotient : ((h.allocFront : ℤ) - h.heapStart).tdiv spaceSize =
      ((h.allocFront - h.heapStart) / 2048 : ℕ) := by
    rw [Int.tdiv_eq_ediv_of_nonneg (by omega)]
    simp only [spaceSize]
    omega
  simp only [Heap.spaceIndex, first, bind, Except.bind, quotient]

theorem spaceIndex_eq (shaped : Shaped h) (front : h.heapStart ≤ h.allocFront) :
    h.spaceIndex = .ok (toInt32 ((h.allocFront - h.heapStart) / 2048 : ℕ)) :=
  spaceIndex_of_firstSpace shaped.firstSpace front

/-- The current space is one of the first half, and it starts at or before the bump pointer. -/
theorem CurrentSpace.bounds {space : ℕ} (current : CurrentSpace h index space) (shaped : Shaped h)
    (half : HalfActive h) (front : h.heapStart ≤ h.allocFront) :
    index < h.numberOfSpaces / 2 ∧ space = h.heapStart + index * 2048 ∧ space ≤ h.allocFront := by
  obtain ⟨bound, rfl⟩ := shaped.space_eq current.starts
  have indexed := current.indexed
  rw [spaceIndex_eq shaped front, Except.ok.injEq] at indexed
  have le : toInt32 ((h.allocFront - h.heapStart) / 2048 : ℕ) ≤ ((h.allocFront - h.heapStart) / 2048 : ℕ) :=
    toInt32_le
  rw [indexed] at le
  refine ⟨(half.active_iff bound).mp current.active, rfl, ?_⟩
  simp only [spaceSize]
  omega

/-- While the bump pointer is in the heap's spaces, the `int` index is exact. -/
theorem CurrentSpace.index_eq {space : ℕ} (current : CurrentSpace h index space) (shaped : Shaped h)
    (front : h.heapStart ≤ h.allocFront)
    (inside : h.allocFront ≤ h.heapStart + h.numberOfSpaces * 2048) :
    index = (h.allocFront - h.heapStart) / 2048 := by
  have few := shaped.fewSpaces
  have indexed := current.indexed
  rw [spaceIndex_eq shaped front, toInt32_of_lt (by omega), Except.ok.injEq] at indexed
  omega

/-- The test for space left, where the pointer does not run past the end of the space. -/
theorem spaceLeft_eq {front space : ℕ} (after : space ≤ front) (before : front ≤ space + 2048) :
    spaceLeft front space = space + 2048 - front := by
  simp only [spaceLeft, spaceSize]
  omega

theorem spaceLeft_start (space : ℕ) : spaceLeft space space = 2048 := by
  rw [spaceLeft_eq le_rfl (by omega)]
  omega

/-- After the move to the start of a space every accepted struct fits. -/
theorem spaceLeft_next (space : ℕ) : spaceLeft (space + headerSizeBytes) space = 2040 := by
  rw [spaceLeft_eq (by omega) (by simp only [headerSizeBytes]; omega)]
  simp only [headerSizeBytes]
  omega

end Space

/-- One struct block: where it goes and which segments its two loops mark. -/
structure StructPlaced (h h' : Heap) (layout : Option (List Char)) (size header index space : ℕ)
    (word : Word) : Prop where
  request : h.structRequest layout = .ok (some (size, word))
  current : CurrentSpace h index space
  header_eq : header = if size + 8 ≤ spaceLeft h.allocFront space then h.allocFront else space
  fits : size + 8 ≤ spaceLeft (header + 8) space
  placed : Placed h h' header size word
  marks : ∃ map, markRange h.heapStart h.allocMap h.allocFront (header + size + 16) = .ok map ∧
    markObject map (index * 2 + if 63 < (header + 7 - space) / 16 then 1 else 0)
      (if 63 < (header + 7 - space) / 16 then (header + 7 - space) / 16 - 64
        else (header + 7 - space) / 16) ((size + 23) / 16) = .ok h'.allocMap

namespace StructPlaced

variable {h h' : Heap} {layout : Option (List Char)} {size header index space : ℕ} {word : Word}

/-- A struct goes to the bump pointer or, when it rewinds, to the start of the current space. -/
theorem header_cases (struct : StructPlaced h h' layout size header index space word)
    (shaped : Shaped h) (half : HalfActive h) (front : h.heapStart ≤ h.allocFront) :
    (¬ Rewinds h layout ∧ header = h.allocFront) ∨
      (Rewinds h layout ∧ header = space ∧ space < h.allocFront) := by
  obtain ⟨small, _⟩ := structRequest_size struct.request
  obtain ⟨_, _, le⟩ := struct.current.bounds shaped half front
  have header_eq := struct.header_eq
  by_cases fits : size + 8 ≤ spaceLeft h.allocFront space
  · rw [if_pos fits] at header_eq
    refine .inl ⟨?_, header_eq⟩
    rintro ⟨other, bits, index', space', request, current, tooFull⟩
    cases struct.request.symm.trans request
    obtain ⟨rfl, rfl⟩ := struct.current.unique current
    simp only [headerSizeBytes] at tooFull
    omega
  · rw [if_neg fits] at header_eq
    refine .inr ⟨⟨size, word, index, space, struct.request, struct.current, ?_⟩, header_eq, ?_⟩
    · simp only [headerSizeBytes]
      omega
    · refine lt_of_le_of_ne le fun same => fits ?_
      rw [← same, spaceLeft_start]
      omega

/-- While the bump pointer is in the first half, a struct block lies inside its space. -/
theorem inside (struct : StructPlaced h h' layout size header index space word)
    (shaped : Shaped h) (half : HalfActive h) (front : h.heapStart ≤ h.allocFront)
    (within : h.allocFront ≤ h.heapStart + h.numberOfSpaces * 2048) :
    space ≤ header ∧ header + size + 16 ≤ space + 2048 := by
  obtain ⟨early, start, le⟩ := struct.current.bounds shaped half front
  have index := struct.current.index_eq shaped front within
  have before : h.allocFront ≤ space + 2048 := by omega
  obtain ⟨small, _⟩ := structRequest_size struct.request
  have fits := struct.fits
  have header_eq := struct.header_eq
  split at header_eq
  · next room =>
    rw [spaceLeft_eq le before] at room
    rw [spaceLeft_eq (by omega) (by omega)] at fits
    omega
  · omega

/-- The segments marked once a struct is placed: those of `set_alloc_map`, those of the loop over the
object, and the old ones. -/
theorem marked (struct : StructPlaced h h' layout size header index space word)
    (near : header + 7 - space < 2064) (i : ℕ) :
    Marked h'.allocMap i ↔
      ((h.allocFront - h.heapStart) / 16 ≤ i ∧ i < (header + size + 16 - h.heapStart) / 16) ∨
      (index * 128 + (header + 7 - space) / 16 ≤ i ∧
        i < index * 128 + (header + 7 - space) / 16 + (size + 23) / 16) ∨
      Marked h.allocMap i := by
  obtain ⟨map, marks, object⟩ := struct.marks
  generalize bit_eq : (header + 7 - space) / 16 = bit at object ⊢
  have small : bit ≤ 128 := by omega
  have start : (index * 2 + if 63 < bit then 1 else 0) * 64 + (if 63 < bit then bit - 64 else bit) =
      index * 128 + bit := by
    split <;> omega
  have bound : (if 63 < bit then bit - 64 else bit) ≤ 64 := by
    split <;> omega
  rw [markObject_eq_markSegments bound, start] at object
  rw [marked_markSegments object, marked_markRange marks]
  exact or_left_comm

/-- Placing a struct clears no mark. -/
theorem marked_of_old (struct : StructPlaced h h' layout size header index space word) {i : ℕ}
    (old : Marked h.allocMap i) : Marked h'.allocMap i := by
  obtain ⟨map, marks, object⟩ := struct.marks
  exact ((marked_markRange marks i).mpr (.inr old)).markObject object

/-- The first loop marks every segment that the block covers completely from its start. -/
theorem marked_of_setAllocMap
    (struct : StructPlaced h h' layout size header index space word) {i : ℕ}
    (lower : (h.allocFront - h.heapStart) / 16 ≤ i)
    (upper : i < (header + size + 16 - h.heapStart) / 16) : Marked h'.allocMap i := by
  obtain ⟨map, marks, object⟩ := struct.marks
  exact ((marked_markRange marks i).mpr (.inl ⟨lower, upper⟩)).markObject object

end StructPlaced

/-- A call of `h_alloc_struct` returns `NULL` and changes nothing, or places one block. -/
theorem hAllocStruct_ok {h h' : Heap} {layout : Option (List Char)} {result : Option ℕ}
    (shaped : Shaped h) (half : HalfActive h) (ok : h.hAllocStruct layout = .ok (result, h')) :
    (result = none ∧ h' = h ∧ ¬ Rewinds h layout) ∨ ∃ size header index space word,
      result = some (header + 8) ∧ StructPlaced h h' layout size header index space word := by
  obtain ⟨requested, request, ok⟩ := bind_ok_iff.mp ok
  cases requested with
  | none =>
    cases ok
    refine .inl ⟨rfl, rfl, ?_⟩
    rintro ⟨size, word, index, space, accepted, _⟩
    cases request.symm.trans accepted
  | some wanted =>
    obtain ⟨size, word⟩ := wanted
    obtain ⟨found, search, ok⟩ := bind_ok_iff.mp ok
    cases found with
    | none =>
      cases ok
      refine .inl ⟨rfl, rfl, ?_⟩
      rintro ⟨_, _, _, _, _, current, _⟩
      cases search.symm.trans (findSpace_of_current current)
    | some place =>
      obtain ⟨index, header⟩ := place
      obtain ⟨space, current, header_eq⟩ := findSpace_ok shaped half search
      obtain ⟨start, read, ok⟩ := bind_ok_iff.mp ok
      obtain ⟨_, startAt⟩ := readArray_eq_ok_iff.mp read
      rw [Int.toNat_natCast, current.starts, Option.some.injEq] at startAt
      subst startAt
      dsimp only at ok
      obtain ⟨small, _⟩ := structRequest_size request
      split at ok
      · next fits =>
        have shapedMoved : Shaped (h.setFront header) := (SameShape.setFront h header).shaped shaped
        obtain ⟨rfl, placed, marks⟩ := placeStruct_ok shapedMoved ok
        obtain ⟨shape, inside, mem, front, used⟩ := placed
        exact .inr ⟨size, header, index, space, word, rfl, request, current, header_eq, fits,
          ⟨(SameShape.setFront h header).trans shape, inside, mem, front, used⟩, marks⟩
      · next tooFull =>
        cases ok
        split at header_eq
        · next room =>
          refine .inl ⟨rfl, by rw [header_eq]; rfl, ?_⟩
          rintro ⟨size', word', index', space', accepted, current', full⟩
          cases request.symm.trans accepted
          obtain ⟨rfl, rfl⟩ := current.unique current'
          simp only [headerSizeBytes] at full
          omega
        · rw [header_eq, spaceLeft_next] at tooFull
          simp only [headerSizeBytes] at tooFull
          omega

/-- A raw block in any heap: a call returns `NULL` and changes nothing, or places one block. -/
theorem hAllocRaw_placed {h h' : Heap} {bytes : ℕ} {result : Option ℕ}
    (ok : h.hAllocRaw bytes = .ok (result, h')) :
    (result = none ∧ h' = h ∧ (bytes = 0 ∨ h.hAvail < bytes)) ∨
      result = some (h.allocFront + 8) ∧ 0 < bytes ∧ bytes ≤ h.hAvail ∧
        Placed h h' h.allocFront bytes (createRawHeader bytes) ∧
        ∃ first, readArray h.spaces 0 = .ok first ∧
          markRange first h.allocMap h.allocFront (h.allocFront + bytes + 16) = .ok h'.allocMap := by
  unfold Heap.hAllocRaw at ok
  split at ok
  · next tooFull => cases ok; exact .inl ⟨rfl, rfl, .inr tooFull⟩
  split at ok
  · next empty => cases ok; exact .inl ⟨rfl, rfl, .inl empty⟩
  rename_i available positive
  obtain ⟨h₁, stored, ok⟩ := bind_ok_iff.mp ok
  obtain ⟨bottom, rfl⟩ := store64_ok_iff.mp stored
  obtain ⟨h₂, stored, ok⟩ := bind_ok_iff.mp ok
  obtain ⟨last, rfl⟩ := store64_ok_iff.mp stored
  obtain ⟨h₃, marking, ok⟩ := bind_ok_iff.mp ok
  obtain ⟨first, read, _⟩ := bind_ok_iff.mp marking
  obtain ⟨map, marks, rfl⟩ := setAllocMap_ok marking read
  obtain ⟨rfl, rfl⟩ := Prod.mk.inj (Except.ok.inj ok)
  have sameLength : map.length = h.allocMap.length := length_markRange marks
  have stop : h.allocFront + 8 + bytes + 8 = h.allocFront + bytes + 16 := by omega
  have inside : h.InBounds h.allocFront (bytes + 16) := ⟨bottom.1, stop.ge.trans last.2⟩
  refine .inr ⟨rfl, by omega, by omega, ⟨?_, inside, rfl, stop, ?_⟩, first, read, stop ▸ marks⟩
  · constructor
    all_goals simp [sameLength]
  · simp only [Heap.addUsed_usedBytes, Heap.setMap_usedBytes, Heap.advance_usedBytes,
      Heap.setMem_usedBytes, headerSizeBytes]
    omega

/-- One raw block: where it goes and which segments it marks. -/
structure RawPlaced (h h' : Heap) (bytes : ℕ) : Prop where
  positive : 0 < bytes
  available : bytes ≤ h.hAvail
  placed : Placed h h' h.allocFront bytes (createRawHeader bytes)
  marks : markRange h.heapStart h.allocMap h.allocFront (h.allocFront + bytes + 16) = .ok h'.allocMap

/-- A call of `h_alloc_raw` returns `NULL` and changes nothing, or places one block. -/
theorem hAllocRaw_ok {h h' : Heap} {bytes : ℕ} {result : Option ℕ} (shaped : Shaped h)
    (ok : h.hAllocRaw bytes = .ok (result, h')) :
    (result = none ∧ h' = h ∧ (bytes = 0 ∨ h.hAvail < bytes)) ∨
      result = some (h.allocFront + 8) ∧ RawPlaced h h' bytes := by
  rcases hAllocRaw_placed ok with refused | ⟨returned, positive, available, placed, first, read, marks⟩
  · exact .inl refused
  · cases shaped.firstSpace.symm.trans read
    exact .inr ⟨returned, positive, available, placed, marks⟩

end GarbageCollector.Proofs
