import GarbageCollector.Machine.Foretell
import GarbageCollector.Math.Overlay
import GarbageCollector.Proofs.Places
import GarbageCollector.Proofs.Scan

/-! # What a collection will do

A forecast of a collection is made from the heap before it. It goes through the root slots and keeps where the
bump pointer and the counter will be, what the slots will hold and which copies will have been made: only
their places and sizes, not their bytes. A word that a copy will have been written over is not known, so a
visit that looks it up cannot be foreseen; what is foreseen comes true.
-/

namespace GarbageCollector.Proofs

open Model

/-- Why a forecast ends early. -/
inductive Obstacle where
  /-- The visit will fail an assertion, access memory outside the heap or copy between ranges that overlap. -/
  | fails
  /-- The visit will look up a word that an earlier copy is written over. -/
  | overwritten
deriving DecidableEq, Repr

/-- A copy that a visit will make. -/
structure Foreseen where
  /-- The old header, and the new one. -/
  header : ℕ
  place : ℕ
  size : ℕ
  /-- The new header's word. -/
  word : Word
  /-- The root's value, from which `length` bytes are copied. -/
  value : ℕ
  length : ℕ
deriving DecidableEq, Repr

namespace Foreseen

/-- The memory with the header and the footer of the copy. -/
def allocated (copy : Foreseen) (memory : ByteMemory) : ByteMemory :=
  (memory.store64 copy.place copy.word).store64 (copy.place + 8 + copy.size)
    (createFooter (BitVec.ofNat 8 copy.size))

/-- The memory after the whole visit. -/
def written (copy : Foreseen) (memory : ByteMemory) : ByteMemory :=
  ((copy.allocated memory).copy (copy.place + 8) copy.value copy.length).store64 copy.header
    (setHeaderForwardAddress (BitVec.ofNat 64 copy.place))

/-- The whole range that is written, and the forwarding word. -/
def move (copy : Foreseen) : Overlay.Move :=
  ⟨copy.header, copy.place, copy.place + 8 + max (copy.size + 8) copy.length⟩

def evacuation (copy : Foreseen) : Evacuation := ⟨copy.header, copy.place, copy.size⟩

/-- Both ranges of the `memcpy` lie in the heap, apart from each other. -/
def Copyable (h : Heap) (copy : Foreseen) : Prop :=
  h.InBounds (copy.place + 8) copy.length ∧ h.InBounds copy.value copy.length ∧
    (copy.length = 0 ∨ copy.place + 8 + copy.length ≤ copy.value ∨
      copy.value + copy.length ≤ copy.place + 8)

instance (h : Heap) (copy : Foreseen) : Decidable (copy.Copyable h) :=
  inferInstanceAs (Decidable (_ ∧ _ ∧ _))

end Foreseen

/-- The words after some copies, latest first. -/
def wordCell (copies : List Foreseen) (address : ℕ) : Overlay.Cell :=
  Overlay.cell 8 (copies.map Foreseen.move) address

structure Forecast where
  front : ℕ
  used : ℕ
  stack : Stack
  /-- The copies so far, latest first. -/
  copies : List Foreseen

namespace Forecast

def start (h : Heap) (stack : Stack) : Forecast := ⟨h.heapStart, 0, stack, []⟩

/-- The heap with the bump pointer and the counter as they will be. -/
def heap (f : Forecast) (h : Heap) : Heap := { h with allocFront := f.front, usedBytes := f.used }

/-- The word that will be at an address. -/
def word (f : Forecast) (h : Heap) (address : ℕ) : Except Obstacle Word :=
  match wordCell f.copies address with
  | .kept => if h.InBounds address 8 then .ok (h.mem.load64 address) else .error .fails
  | .marked place => .ok (setHeaderForwardAddress (BitVec.ofNat 64 place))
  | .overwritten => .error .overwritten

/-- What `find_header_address_through_footer` will find. -/
def findHeader (f : Forecast) (h : Heap) (ptr stop : ℕ) : Except Obstacle (Option ℕ) :=
  if ptr < stop then do
    let currentValue ← f.word h ptr
    if confirmTag currentValue then
      .ok (some (ptr - ((getSizeBitsField currentValue).toNat + headerSizeBytes)))
    else f.findHeader h (ptr + 8) stop
  else .ok none
termination_by stop - ptr
decreasing_by omega

/-- The copy of an object, with the size that will be read from the old header after the allocation. -/
def copyOf (f : Forecast) (h : Heap) (root header : ℕ) (layout : List Char) (word : Word) : Foreseen :=
  let copy : Foreseen := ⟨header, placeOf (f.heap h) (formatStrBytes layout), formatStrBytes layout, word,
    (f.stack root).toNat, 0⟩
  { copy with length := (getSizeBitsField ((copy.allocated h.mem).load64 header)).toNat }

/-- A copy has been made, and the root points into it. -/
def after (f : Forecast) (root : ℕ) (copy : Foreseen) : Forecast where
  front := copy.place + copy.size + 16
  used := f.used + (2 * copy.size + 24)
  stack := Function.update f.stack root
    (BitVec.ofNat 64 copy.place + (f.stack root - BitVec.ofNat 64 copy.header))
  copies := copy :: f.copies

/-- A visit that evacuates the object with this header. -/
def evacuate (f : Forecast) (h : Heap) (root header : ℕ) (bits : Word) : Except Obstacle Forecast :=
  match bitVectorToFormatString bits with
  | .ok (some layout) =>
    match toBitVector layout with
    | some word =>
      let copy := f.copyOf h root header layout word
      if Places (f.heap h) copy.size ∧ copy.place + 8 ≠ copy.value ∧ copy.Copyable h then
        .ok (f.after root copy)
      else .error .fails
    | none => .error .fails
  | _ => .error .fails

/-- A visit of `garbage_collection` to a root slot. -/
def visit (h : Heap) (f : Forecast) (root : ℕ) : Except Obstacle Forecast :=
  if root = 0 then .ok f
  else if (f.stack root).toNat < 0xFFF then .ok f
  else do
    match ← f.findHeader h (f.stack root).toNat (f.stack root + BitVec.ofNat 64 spaceSize).toNat with
    | none => .ok f
    | some header => do
      let bits ← f.word h header
      match getHeaderType bits with
      | .bitVector => f.evacuate h root header bits
      | .forwardingAddress =>
        let address := setBitAtIndexFromLsb (setBitAtIndexFromLsb bits 0 false) 0 false
        .ok { f with
          stack := Function.update f.stack root (address + (f.stack root - BitVec.ofNat 64 header)) }
      | .ptrToFormatString => .error .fails
      | .rawLayout => .error .fails

end Forecast

/-- The word that a field of the copy gets in a visit to the heap as it was before the collection. -/
def Foreseen.fieldWord (copy : Foreseen) (h : Heap) (offset : ℕ) : Word :=
  (copy.written h.mem).load64 (copy.place + 8 + offset)

/-- No earlier copy is written over the bytes that the field gets, and no later one over the field. -/
structure Foreseen.Carries (copy : Foreseen) (later earlier : List Foreseen) (offset : ℕ) : Prop where
  source : offset < copy.length → wordCell earlier (copy.value + offset) = .kept
  /-- Behind the bytes that are copied, the field has those that were there. -/
  behind : copy.length < offset + 8 → wordCell earlier (copy.place + 8 + offset) = .kept
  target : wordCell later (copy.place + 8 + offset) = .kept

/-- The forecast has come true so far. -/
structure Foresees (h : Heap) (f : Forecast) (c : Collection) : Prop where
  shape : SameShape h c.heap
  half : FirstHalf c.heap (c.evacuated.map Evacuation.block)
  front : c.heap.allocFront = f.front
  used : c.heap.usedBytes = f.used
  stack : c.stack = f.stack
  evacuated : c.evacuated = (f.copies.map Foreseen.evacuation).reverse
  distinct : (f.copies.map Foreseen.header).Nodup
  kept : ∀ address, wordCell f.copies address = .kept → c.heap.mem.load64 address = h.mem.load64 address
  marked : ∀ address place, wordCell f.copies address = .marked place →
    c.heap.load64 address = .ok (setHeaderForwardAddress (BitVec.ofNat 64 place))
  fields : ∀ later copy earlier offset, f.copies = later ++ copy :: earlier →
    copy.Carries later earlier offset →
    c.heap.mem.load64 (copy.place + 8 + offset) = copy.fieldWord h offset

/-- A forecast says that a visit fails, and nothing about one that it cannot foresee. -/
def Obstacle.Settled (obstacle : Obstacle) : Prop := obstacle = .fails

section Lookups

variable {h : Heap} {f : Forecast} {c : Collection}

theorem Foresees.inBounds_iff (foresees : Foresees h f c) (address length : ℕ) :
    c.heap.InBounds address length ↔ h.InBounds address length := by
  simp only [Heap.InBounds, foresees.shape.heapStart, foresees.shape.size]

theorem Foresees.word (foresees : Foresees h f c) (address : ℕ) :
    Machine.Foretells Obstacle.Settled Eq (f.word h address) (c.heap.load64 address) := by
  rw [Forecast.word]
  cases cell : wordCell f.copies address with
  | kept =>
    dsimp only
    rw [Heap.load64, foresees.kept address cell]
    by_cases inside : h.InBounds address 8
    · rw [if_pos inside, if_pos ((foresees.inBounds_iff address 8).mpr inside)]
      exact .returns rfl
    · rw [if_neg inside, if_neg fun here => inside ((foresees.inBounds_iff address 8).mp here)]
      exact .of_error
  | marked place =>
    dsimp only
    rw [foresees.marked address place cell]
    exact .returns rfl
  | overwritten => exact .leaves nofun

/-- A word that is foreseen is as before, or forwards. -/
theorem Forecast.word_cases {address : ℕ} {bits : Word} (read : f.word h address = .ok bits) :
    (wordCell f.copies address = .kept ∧ h.InBounds address 8 ∧ bits = h.mem.load64 address) ∨
      getHeaderType bits = .forwardingAddress := by
  rw [Forecast.word] at read
  cases cell : wordCell f.copies address with
  | kept =>
    rw [cell] at read
    dsimp only at read
    split at read
    · next inside => exact .inl ⟨rfl, inside, (Except.ok.inj read).symm⟩
    · cases read
  | marked place =>
    rw [cell] at read
    rw [← Except.ok.inj read]
    exact .inr (getHeaderType_setHeaderForwardAddress _)
  | overwritten =>
    rw [cell] at read
    cases read

theorem Foresees.findHeader (foresees : Foresees h f c) (ptr stop : ℕ) :
    Machine.Foretells Obstacle.Settled Eq (f.findHeader h ptr stop)
      (c.heap.findHeaderAddressThroughFooter ptr stop) := by
  fun_induction Heap.findHeaderAddressThroughFooter c.heap ptr stop with
  | case1 ptr before ih =>
    rw [Forecast.findHeader, if_pos before]
    apply (foresees.word ptr).bind
    rintro word _ _ rfl
    by_cases tagged : confirmTag word = true
    · rw [if_pos tagged]
      dsimp only
      rw [if_pos tagged]
      exact .returns rfl
    · rw [if_neg tagged]
      dsimp only
      rw [if_neg tagged]
      exact ih
  | case2 ptr after =>
    rw [Forecast.findHeader, if_neg after]
    exact .returns rfl

end Lookups

section Copies

variable {h : Heap} {f f' : Forecast} {c c' : Collection} {copy : Foreseen} {memory other : ByteMemory}
  {address offset : ℕ}

theorem byte_of_load64 (same : memory.load64 address = other.load64 address) {shift : ℕ} (bound : shift < 8) :
    memory (address + shift) = other (address + shift) := by
  rw [← @ByteMemory.extractLsb'_load64 memory address shift bound, same, ByteMemory.extractLsb'_load64 bound]

theorem Foreseen.allocated_congr (same : memory address = other address) :
    copy.allocated memory address = copy.allocated other address := by
  simp only [Foreseen.allocated, ByteMemory.store64, same]

theorem Foreseen.load64_allocated (same : memory.load64 address = other.load64 address) :
    (copy.allocated memory).load64 address = (copy.allocated other).load64 address :=
  ByteMemory.load64_congr fun _ bound => Foreseen.allocated_congr (byte_of_load64 same bound)

/-- A word that the visit spares is as it was. -/
theorem Foreseen.load64_written (spares : copy.move.Spares 8 address) :
    (copy.written memory).load64 address = memory.load64 address := by
  obtain ⟨copied, forwarded⟩ := spares
  simp only [Foreseen.move] at copied forwarded
  apply ByteMemory.load64_congr
  intro offset bound
  rw [Foreseen.written, ByteMemory.store64_of_outside (by omega), ByteMemory.copy_of_outside (by omega),
    Foreseen.allocated, ByteMemory.store64_of_outside (by omega), ByteMemory.store64_of_outside (by omega)]

/-- A field of the copy depends on the bytes that it is copied from, and on those that it had. -/
theorem Foreseen.load64_field
    (source : offset < copy.length → memory.load64 (copy.value + offset) = other.load64 (copy.value + offset))
    (behind : copy.length < offset + 8 →
      memory.load64 (copy.place + 8 + offset) = other.load64 (copy.place + 8 + offset)) :
    (copy.written memory).load64 (copy.place + 8 + offset) =
      (copy.written other).load64 (copy.place + 8 + offset) := by
  apply ByteMemory.load64_congr
  intro shift bound
  by_cases forwarding : copy.header ≤ copy.place + 8 + offset + shift ∧
      copy.place + 8 + offset + shift < copy.header + 8
  · simp only [Foreseen.written, ByteMemory.store64, forwarding, and_self, if_true]
  rw [Foreseen.written, Foreseen.written, ByteMemory.store64_of_outside (by omega),
    ByteMemory.store64_of_outside (by omega)]
  rcases Nat.lt_or_ge (offset + shift) copy.length with copied | after
  · rw [Nat.add_assoc _ offset shift, ByteMemory.copy_inside copied, ByteMemory.copy_inside copied,
      ← Nat.add_assoc]
    exact Foreseen.allocated_congr (byte_of_load64 (source (by omega)) bound)
  · rw [ByteMemory.copy_of_outside (by omega), ByteMemory.copy_of_outside (by omega)]
    exact Foreseen.allocated_congr (byte_of_load64 (behind (by omega)) bound)

/-- One more copy has been made as foreseen. -/
theorem Foresees.copied (foresees : Foresees h f c) (copies : f'.copies = copy :: f.copies)
    (kept : wordCell f.copies copy.header = .kept) (bits : c'.heap.InBounds copy.header 8)
    (shape : SameShape h c'.heap) (half : FirstHalf c'.heap (c'.evacuated.map Evacuation.block))
    (front : c'.heap.allocFront = f'.front) (used : c'.heap.usedBytes = f'.used) (stack : c'.stack = f'.stack)
    (evacuated : c'.evacuated = c.evacuated ++ [copy.evacuation])
    (written : c'.heap.mem = copy.written c.heap.mem) : Foresees h f' c' where
  shape := shape
  half := half
  front := front
  used := used
  stack := stack
  evacuated := by
    rw [evacuated, foresees.evacuated, copies, List.map_cons, List.reverse_cons]
  distinct := by
    rw [copies, List.map_cons, List.nodup_cons]
    refine ⟨fun again => ?_, foresees.distinct⟩
    obtain ⟨earlier, member, same⟩ := List.mem_map.mp again
    exact Overlay.source_ne_of_kept (by decide) kept (List.mem_map_of_mem member) same
  kept := by
    intro address cell
    rw [copies, wordCell, List.map_cons] at cell
    rcases Overlay.cell_cons_cases (by rw [cell]; simp) with ⟨_, marked⟩ | ⟨spares, same⟩
    · cases cell.symm.trans marked
    · rw [written, Foreseen.load64_written spares]
      exact foresees.kept address (same.symm.trans cell)
  marked := by
    intro address place cell
    rw [copies, wordCell, List.map_cons] at cell
    rcases Overlay.cell_cons_cases (by rw [cell]; simp) with ⟨rfl, marked⟩ | ⟨spares, same⟩
    · cases cell.symm.trans marked
      rw [Foreseen.move, load64_of_inBounds bits, written, Foreseen.written, ByteMemory.load64_store64]
    · obtain ⟨inside, word⟩ := load64_ok_iff.mp (foresees.marked address place (same.symm.trans cell))
      have inside' : c'.heap.InBounds address 8 := by
        rw [Heap.InBounds, shape.heapStart, shape.size]
        exact (foresees.inBounds_iff address 8).mp inside
      rw [load64_of_inBounds inside', written, Foreseen.load64_written spares, ← word]
  fields := by
    intro later other earlier offset split carries
    rw [written]
    cases later with
    | nil =>
      obtain ⟨rfl, rfl⟩ := List.cons.inj (copies.symm.trans split)
      exact Foreseen.load64_field (fun inside => foresees.kept _ (carries.source inside))
        fun outside => foresees.kept _ (carries.behind outside)
    | cons last later =>
      obtain ⟨rfl, rest⟩ := List.cons.inj (copies.symm.trans split)
      have target := carries.target
      rw [wordCell, List.map_cons] at target
      rcases Overlay.cell_cons_cases (by rw [target]; simp) with ⟨_, marked⟩ | ⟨spares, same⟩
      · cases target.symm.trans marked
      · rw [Foreseen.load64_written spares]
        exact foresees.fields later other earlier offset rest
          ⟨carries.source, carries.behind, same.symm.trans target⟩

end Copies

section Visits

variable {h : Heap} {f : Forecast} {c : Collection} {root header size : ℕ}

theorem Foresees.spaceOffset_eq (foresees : Foresees h f c) : spaceOffset c.heap = spaceOffset (f.heap h) := by
  simp only [spaceOffset, Forecast.heap, foresees.front, foresees.shape.heapStart]

theorem Foresees.places_iff (foresees : Foresees h f c) : Places c.heap size ↔ Places (f.heap h) size := by
  have offset := foresees.spaceOffset_eq
  have start := foresees.shape.heapStart
  have spaces := foresees.shape.numberOfSpaces
  have bytes := foresees.shape.size
  have front := foresees.front
  have used := foresees.used
  constructor
  · rintro ⟨encodable, available, early, fits⟩
    rw [used, bytes] at available
    rw [front, start, spaces] at early
    rw [offset] at fits
    exact ⟨encodable, available, early, fits⟩
  · rintro ⟨encodable, available, early, fits⟩
    refine ⟨encodable, ?_, ?_, ?_⟩
    · rw [used, bytes]
      exact available
    · rw [front, start, spaces]
      exact early
    · rw [offset]
      exact fits

theorem Foresees.placeOf_eq (foresees : Foresees h f c) : placeOf c.heap size = placeOf (f.heap h) size := by
  rw [placeOf, placeOf, foresees.spaceOffset_eq, foresees.front]
  rfl

/-- What an evacuation does once its copy is allocated. -/
theorem evacuate_of_allocated {bits : Word} {layout : List Char} {place : ℕ} {h' : Heap}
    (loaded : c.heap.load64 header = .ok bits) (decoded : bitVectorToFormatString bits = .ok (some layout))
    (allocated : c.heap.hAllocStruct (some layout) = .ok (some (place + 8), h')) (inside : h'.InBounds header 8)
    (other : place + 8 ≠ (c.stack root).toNat) :
    evacuate c root header =
      (h'.memcpy (place + 8) (c.stack root).toNat (getSizeBitsField (h'.mem.load64 header)).toNat).bind fun h =>
        (h.store64 header (setHeaderForwardAddress (BitVec.ofNat 64 place))).bind fun h =>
          .ok ⟨h, Function.update c.stack root (BitVec.ofNat 64 place + (c.stack root - BitVec.ofNat 64 header)),
            c.evacuated ++ [⟨header, place, formatStrBytes layout⟩]⟩ := by
  have back : place + 8 - headerSizeBytes = place := Nat.add_sub_cancel _ _
  simp only [evacuate, loaded, decoded, allocated, bind, Except.bind, if_neg other,
    load64_of_inBounds inside, back]

/-- The block that is allocated for a decoded layout. -/
theorem placed_of_decoded {bits : Word} {layout : List Char} {place : ℕ} {h' : Heap}
    (decoded : bitVectorToFormatString bits = .ok (some layout))
    (ran : h.hAllocStruct (some layout) = .ok (some (place + 8), h')) :
    ∃ word, toBitVector layout = some word ∧ Placed h h' place (formatStrBytes layout) word := by
  obtain ⟨size, other, index, space, word, same, found⟩ := hAllocStruct_found ran
  obtain rfl := Nat.add_right_cancel same
  obtain ⟨_, _, created, _⟩ := bitVectorToFormatString_ok decoded
  obtain ⟨text, format, texts, parsed, encoded, rfl, _, _⟩ := structRequest_some found.request
  obtain rfl := Option.some.inj texts
  obtain rfl := Option.some.inj (Except.ok.inj (parsed.symm.trans created))
  exact ⟨word, encoded, found.placed⟩

/-- The `memcpy` of a visit faults exactly when its ranges leave the heap or overlap. -/
theorem memcpy_cases {copy : Foreseen} {h' : Heap}
    (bounds : ∀ address length, h'.InBounds address length ↔ h.InBounds address length) :
    (copy.Copyable h ∧ h'.memcpy (copy.place + 8) copy.value copy.length =
        .ok (h'.setMem (h'.mem.copy (copy.place + 8) copy.value copy.length))) ∨
      (¬ copy.Copyable h ∧ ∃ fault, h'.memcpy (copy.place + 8) copy.value copy.length = .error fault) := by
  rw [Heap.memcpy]
  by_cases inside : h'.InBounds (copy.place + 8) copy.length ∧ h'.InBounds copy.value copy.length
  · have here := inside
    rw [bounds, bounds] at here
    by_cases apart : copy.length = 0 ∨ copy.place + 8 + copy.length ≤ copy.value ∨
        copy.value + copy.length ≤ copy.place + 8
    · rw [if_pos inside, if_pos apart]
      exact .inl ⟨⟨here.1, here.2, apart⟩, rfl⟩
    · rw [if_pos inside, if_neg apart]
      exact .inr ⟨fun copyable => apart copyable.2.2, _, rfl⟩
  · have outside := inside
    rw [bounds, bounds] at outside
    rw [if_neg inside]
    exact .inr ⟨fun copyable => outside ⟨copyable.1, copyable.2.1⟩, _, rfl⟩

/-- An evacuation whose copy has been allocated. -/
theorem Foresees.evacuate_placed (foresees : Foresees h f c) {copy : Foreseen} {layout : List Char} {h' : Heap}
    (kept : wordCell f.copies copy.header = .kept) (inside : h.InBounds copy.header 8)
    (decoded : bitVectorToFormatString (h.mem.load64 copy.header) = .ok (some layout))
    (allocated : c.heap.hAllocStruct (some layout) = .ok (some (copy.place + 8), h'))
    (placed : Placed c.heap h' copy.place copy.size copy.word)
    (places : Places c.heap copy.size) (size : copy.size = formatStrBytes layout)
    (value : copy.value = (f.stack root).toNat)
    (length : copy.length = (getSizeBitsField ((copy.allocated h.mem).load64 copy.header)).toNat) :
    Machine.Foretells Obstacle.Settled (Foresees h)
      (if copy.place + 8 ≠ copy.value ∧ copy.Copyable h then .ok (f.after root copy) else .error .fails)
      (Model.evacuate c root copy.header) := by
  have shape := placed.shape
  have bounds (address length : ℕ) : h'.InBounds address length ↔ h.InBounds address length := by
    rw [← foresees.inBounds_iff, Heap.InBounds, Heap.InBounds, shape.heapStart, shape.size]
  have loaded : c.heap.load64 copy.header = .ok (h.mem.load64 copy.header) := by
    rw [load64_of_inBounds ((foresees.inBounds_iff _ _).mpr inside), foresees.kept _ kept]
  have stack := foresees.stack
  rw [← stack] at value
  by_cases other : copy.place + 8 = copy.value
  · have failed : Model.evacuate c root copy.header = .error .assertion := by
      rw [value] at other
      simp only [Model.evacuate, loaded, decoded, allocated, bind, Except.bind, other, if_true]
    rw [failed, if_neg fun fits => fits.1 other]
    exact .of_error
  have again : (getSizeBitsField (h'.mem.load64 copy.header)).toNat = copy.length := by
    rw [length, placed.mem]
    exact congrArg (fun word => (getSizeBitsField word).toNat) (Foreseen.load64_allocated (foresees.kept _ kept))
  have inside' := (bounds _ _).mpr inside
  have elsewhere : copy.place + 8 ≠ (c.stack root).toNat := value ▸ other
  have ran := evacuate_of_allocated loaded decoded allocated inside' elsewhere
  rw [← value, again] at ran
  rcases memcpy_cases bounds with ⟨copyable, copied⟩ | ⟨faulty, fault, failed⟩
  · have stored : (h'.setMem (h'.mem.copy (copy.place + 8) copy.value copy.length)).store64 copy.header
        (setHeaderForwardAddress (BitVec.ofNat 64 copy.place)) = .ok (h'.setMem (copy.written c.heap.mem)) := by
      rw [store64_of_inBounds (by exact inside'), Foreseen.written, Foreseen.allocated, ← placed.mem]
      rfl
    rw [copied, Except.bind, stored, Except.bind, ← size] at ran
    rw [ran, if_pos ⟨other, copyable⟩]
    obtain ⟨_, _, _, _, done⟩ := evacuate_ok foresees.half.steady.shaped foresees.half.steady.half ran
    have few := foresees.half.steady.size_le
    have small := places.encodable
    have available := places.available
    refine .returns (foresees.copied rfl kept ?_ ?_ (foresees.half.evacuated done) ?_ ?_ ?_ rfl rfl)
    · exact inside'
    · exact foresees.shape.trans (shape.trans (.setMem h' _))
    · exact placed.front
    · change h'.usedBytes = f.used + (2 * copy.size + 24)
      rw [placed.used, ← foresees.used]
      omega
    · dsimp only [Forecast.after]
      rw [stack]
  · rw [failed] at ran
    rw [ran, if_neg fun fits => faulty fits.2]
    exact .of_error

/-- The forecast of an evacuation. -/
theorem Foresees.evacuate (foresees : Foresees h f c) (kept : wordCell f.copies header = .kept)
    (inside : h.InBounds header 8) :
    Machine.Foretells Obstacle.Settled (Foresees h) (f.evacuate h root header (h.mem.load64 header))
      (Model.evacuate c root header) := by
  have loaded : c.heap.load64 header = .ok (h.mem.load64 header) := by
    rw [load64_of_inBounds ((foresees.inBounds_iff _ _).mpr inside), foresees.kept _ kept]
  rw [Forecast.evacuate]
  rcases bitVectorToFormatString_cases (h.mem.load64 header) with fault | ⟨layout, decoded, nonempty⟩
  · have failed : Model.evacuate c root header = .error .outOfBounds := by
      simp only [Model.evacuate, loaded, fault, bind, Except.bind]
    rw [fault, failed]
    exact .of_error
  rw [decoded]
  dsimp only
  rcases hAllocStruct_decoded foresees.half.steady foresees.half.within decoded nonempty with
    ⟨places, h', allocated⟩ | ⟨refused, h', allocated⟩
  · rw [foresees.placeOf_eq] at allocated
    obtain ⟨word, encoded, placed⟩ := placed_of_decoded decoded allocated
    rw [encoded]
    dsimp only
    have fits : Places (f.heap h) (f.copyOf h root header layout word).size := foresees.places_iff.mp places
    rw [if_congr (and_iff_right fits) rfl rfl]
    exact @Foresees.evacuate_placed _ f c root foresees (f.copyOf h root header layout word) layout h' kept inside
      decoded allocated placed places rfl rfl rfl
  · have failed : Model.evacuate c root header = .error .assertion := by
      simp only [Model.evacuate, loaded, decoded, allocated, bind, Except.bind]
    rw [failed]
    cases encoded : toBitVector layout with
    | none => exact .of_error
    | some word =>
      dsimp only
      rw [if_neg fun fits => refused (foresees.places_iff.mpr fits.1)]
      exact .of_error

/-- A forwarded root changes nothing but its slot. -/
theorem Foresees.forwarded (foresees : Foresees h f c) (root : ℕ) (value : Word) :
    Foresees h { f with stack := Function.update f.stack root value }
      { c with stack := Function.update f.stack root value } where
  shape := foresees.shape
  half := foresees.half
  front := foresees.front
  used := foresees.used
  stack := rfl
  evacuated := foresees.evacuated
  distinct := foresees.distinct
  kept := foresees.kept
  marked := foresees.marked
  fields := foresees.fields

/-- The forecast of a visit. -/
theorem Foresees.visit (foresees : Foresees h f c) (root : ℕ) :
    Machine.Foretells Obstacle.Settled (Foresees h) (f.visit h root) (garbageCollection c root) := by
  rw [Forecast.visit, garbageCollection, foresees.stack]
  by_cases null : root = 0
  · rw [if_pos null, if_pos null]
    exact .returns foresees
  rw [if_neg null, if_neg null, Heap.rootCase]
  by_cases small : (f.stack root).toNat < 0xFFF
  · rw [if_pos small, if_pos small]
    exact .returns foresees
  rw [if_neg small, if_neg small, bind_assoc]
  apply (foresees.findHeader _ _).bind
  rintro found _ _ rfl
  cases found with
  | none => exact .returns foresees
  | some header =>
    dsimp only
    rw [bind_assoc]
    apply (foresees.word header).bind
    rintro bits _ read rfl
    cases type : getHeaderType bits with
    | bitVector =>
      rcases Forecast.word_cases read with ⟨kept, inside, rfl⟩ | forwards
      · exact foresees.evacuate kept inside
      · cases type.symm.trans forwards
    | forwardingAddress => exact .returns (foresees.forwarded root _)
    | ptrToFormatString => exact .of_error
    | rawLayout => exact .of_error

end Visits

end GarbageCollector.Proofs
