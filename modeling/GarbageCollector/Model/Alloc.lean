import GarbageCollector.Model.Heap

/-! # The two allocators

`h_alloc_struct` and `h_alloc_raw` of `gc.c`. Both move one bump pointer. `h_alloc_struct` is cut
at its own comments: reading the request, finding the space, writing the block; each part is a
function of its own, and the whole is their composition. An allocator returns the pointer it hands
out (`none` is `NULL`) with the heap it leaves.
-/

namespace GarbageCollector.Model

/-- `SPACE_SIZE - (front - space)` as a `uint16_t`. -/
def spaceLeft (front space : ℕ) : ℕ := (((spaceSize : ℤ) - ((front : ℤ) - space)) % 2 ^ 16).toNat

/-- The second marking loop, one iteration for every `MIN_OBJ_SIZE` bytes. -/
def markObject (map : List Word) (mapIndex bitIndex : ℕ) : ℕ → Except Fault (List Word)
  | 0 => .ok map
  | remaining + 1 =>
    let crossed := 63 < bitIndex
    let mapIndex := if crossed then mapIndex + 1 else mapIndex
    let bitIndex := if crossed then 0 else bitIndex
    do
      let next ← setMapBit map mapIndex bitIndex
      markObject next mapIndex (bitIndex + 1) remaining

namespace Heap

/-- The call up to the choice of a space: the data size and the header word that it asks for, or
`none` where it returns `NULL`. -/
def structRequest (h : Heap) (layout : Option (List Char)) : Except Fault (Option (ℕ × Word)) :=
  match layout with
  | none => .ok none
  | some text => do
    match ← createFormatStr text with
    | none => .ok none
    | some frmtString =>
      let size := formatStrBytes frmtString
      match toBitVector frmtString with
      | none => .ok none
      | some bitVector =>
        if h.hAvail < size + headerSizeBytes then .ok none
        else if headerSizeBytes + size > spaceSize then .ok none
        else if text = [] then .ok none
        else .ok (some (size, bitVector))

/-- `space_index`, which is an `int`. -/
def spaceIndex (h : Heap) : Except Fault ℤ := do
  let first ← readArray h.spaces 0
  .ok (toInt32 (((h.allocFront : ℤ) - first).tdiv spaceSize))

/-- `while (!space_is_active)`: the next active space after `spaceIndex`. -/
def walkToActive (h : Heap) (spaceIndex : ℕ) : Except Fault (Option ℕ) :=
  if h.numberOfSpaces ≤ spaceIndex + 1 then .ok none
  else
    match h.spaceIsActive[spaceIndex + 1]? with
    | none => .error .outOfBounds
    | some true => .ok (some (spaceIndex + 1))
    | some false => walkToActive h (spaceIndex + 1)
termination_by h.numberOfSpaces - spaceIndex

/-- The space to allocate in and the bump pointer there. When the current space is active but too
full, the walk is not entered and the pointer goes back to the start of the same space. -/
def findSpace (h : Heap) (size : ℕ) : Except Fault (Option (ℕ × ℕ)) := do
  let index ← h.spaceIndex
  let active ← readArray h.spaceIsActive index
  let space ← readArray h.spaces index
  let structFits := size + headerSizeBytes ≤ spaceLeft h.allocFront space
  if active ∧ structFits then .ok (some (index.toNat, h.allocFront))
  else
    match ← (if active then .ok (some index.toNat) else h.walkToActive index.toNat) with
    | none => .ok none
    | some found => do
      let start ← readArray h.spaces (found : ℕ)
      .ok (some (found, start))

/-- Write header and footer at the bump pointer and account for the block. The marks of
`set_alloc_map` start where the bump pointer stood when the call began. -/
def placeStruct (h : Heap) (startAddrs : ℕ) (spaceIndex : ℕ) (space : ℕ) (size : ℕ)
    (bitVector : Word) : Except Fault (Option ℕ × Heap) := do
  let h ← h.store64 h.allocFront bitVector
  let h := h.advance headerSizeBytes
  let dataPtr := h.allocFront
  let h := h.advance size
  let h ← h.store64 h.allocFront (createFooter (BitVec.ofNat 8 size))
  let h := h.advance headerSizeBytes
  let h ← h.setAllocMap startAddrs h.allocFront
  let h := h.addUsed (size + headerSizeBytes * 2)
  let headerPtr := dataPtr - 1
  let bitIndex := (headerPtr - space) / minObjSize
  let offset := if 63 < bitIndex then 1 else 0
  let bitIndex := if 63 < bitIndex then bitIndex - 64 else bitIndex
  let map ← markObject h.allocMap (spaceIndex * 2 + offset) bitIndex
    ((size + headerSizeBytes + (minObjSize - 1)) / minObjSize)
  .ok (some dataPtr, (h.setMap map).addUsed (size + headerSizeBytes))

def hAllocStruct (h : Heap) (layout : Option (List Char)) : Except Fault (Option ℕ × Heap) := do
  match ← h.structRequest layout with
  | none => .ok (none, h)
  | some (size, bitVector) => do
    match ← h.findSpace size with
    | none => .ok (none, h)
    | some (spaceIndex, allocFront) => do
      let space ← readArray h.spaces (spaceIndex : ℕ)
      let moved := h.setFront allocFront
      if size + headerSizeBytes ≤ spaceLeft (allocFront + headerSizeBytes) space then
        moved.placeStruct h.allocFront spaceIndex space size bitVector
      else .ok (none, moved)

def hAllocRaw (h : Heap) (bytes : ℕ) : Except Fault (Option ℕ × Heap) :=
  if h.hAvail < bytes then .ok (none, h)
  else if bytes = 0 then .ok (none, h)
  else do
    let startAddrs := h.allocFront
    let h ← h.store64 h.allocFront (createRawHeader bytes)
    let h := h.advance headerSizeBytes
    let newObject := h.allocFront
    let h := h.advance bytes
    let h ← h.store64 h.allocFront (createFooter (BitVec.ofNat 8 bytes))
    let h := h.advance headerSizeBytes
    let h ← h.setAllocMap startAddrs h.allocFront
    let h := h.addUsed (headerSizeBytes * 2 + bytes)
    .ok (some newObject, h.addUsed (headerSizeBytes + bytes))

end Heap

end GarbageCollector.Model
