import GarbageCollector.Math.ByteMemory
import GarbageCollector.Machine.Run
import GarbageCollector.Model.Header
import Mathlib.Algebra.Order.Ring.Rat
import Mathlib.Tactic.Simps.Basic

/-! # The heap, its creation and its allocation map

`heap_t` of `gc.h`, `h_init`, `h_used`, `h_avail` and `set_alloc_map` of `gc.c`, and
`validate_ptr` of `traverse_stack.c`. The bytes that `calloc` returned for the heap are a memory
of their own; an access to them outside `[heapStart, heapStart + size)` faults, as does an access
outside one of the three tables. The fields of `heap_t` that no function here reads (`start`,
`space_size`, `gc_threshold`, `gc_runs`) are left out.
-/

namespace GarbageCollector.Model

/-- The value of a C `float`, as far as comparisons see it. -/
inductive CFloat where
  | finite (value : ℚ)
  | infinity
  | negInfinity
  | nan
deriving DecidableEq, Repr

namespace CFloat

def gt : CFloat → ℚ → Bool
  | finite value, bound => bound < value
  | infinity, _ => true
  | negInfinity, _ => false
  | nan, _ => false

def le : CFloat → ℚ → Bool
  | finite value, bound => value ≤ bound
  | infinity, _ => false
  | negInfinity, _ => true
  | nan, _ => false

end CFloat

/-- The block that `calloc(1, bytes)` returns when it succeeds. -/
structure CallocBlock (bytes : ℕ) where
  address : ℕ
  nonnull : 0 < address
  aligned : address % 16 = 0
  /-- A single object has at most `PTRDIFF_MAX` bytes and lies in the address space. -/
  bounded : bytes < 2 ^ 63
  fits : address + bytes ≤ 2 ^ 64

/-- `heap_t`, with the bytes of its block. -/
structure Heap where
  /-- The block from `calloc(1, bytes)`. -/
  heapStart : ℕ
  size : ℕ
  allocFront : ℕ
  spaces : List ℕ
  numberOfSpaces : ℕ
  spaceIsActive : List Bool
  allocMap : List Word
  unsafeStack : Bool
  usedBytes : ℕ
  mem : ByteMemory

/-- The loop that fills `heap->spaces` from index `i` on; `i * SPACE_SIZE` is an `int` product. -/
def spaceTable (heapStart : ℕ) (i : ℕ) : ℕ → Except Fault (List ℕ)
  | 0 => .ok []
  | remaining + 1 =>
    if i * spaceSize < 2 ^ 31 then do
      let rest ← spaceTable heapStart (i + 1) remaining
      .ok ((heapStart + i * spaceSize) :: rest)
    else .error .signedOverflow

/-- One run of the loop that activates the first `count` spaces. -/
def activateSpaces (flags : List Bool) (count : ℕ) : List Bool :=
  (List.range count).foldl (fun flags i => flags.set i true) flags

/-- `h_init`, given the block that its `calloc(1, bytes)` returns. The outcome `none` is `NULL`. -/
def hInit (bytes : ℕ) (unsafeStack : Bool) (gcThreshold : CFloat) (block : CallocBlock bytes) :
    Except Fault (Option Heap) :=
  if bytes % (spaceSize * 2) ≠ 0 then .ok none
  else if bytes = 0 then .ok none
  else if gcThreshold.gt 1 || gcThreshold.le 0 then .ok none
  else if bytes < 2048 * 4 then .ok none
  else
    let numberOfSpaces := toInt32 (bytes / spaceSize)
    if numberOfSpaces ≤ 0 then .error .outOfBounds
    else do
      let count := numberOfSpaces.toNat
      let half := count / 2
      let flags := (List.range half).foldl (fun flags _ => activateSpaces flags half)
        (List.replicate count false)
      let spaces ← spaceTable block.address 0 count
      let allocFront ← readArray spaces 0
      .ok (some {
        heapStart := block.address
        size := bytes
        allocFront := allocFront
        spaces := spaces
        numberOfSpaces := count
        spaceIsActive := flags
        allocMap := List.replicate (bytes / (16 * 8) / 8) 0
        unsafeStack := unsafeStack
        usedBytes := 0
        mem := fun _ => 0 })

namespace Heap

def hUsed (h : Heap) : ℕ := h.usedBytes

def hAvail (h : Heap) : ℕ := if h.size < h.usedBytes then 0 else h.size - h.hUsed

/-- `h->used_bytes += bytes` on a `size_t`. -/
@[simps]
def addUsed (h : Heap) (bytes : ℕ) : Heap := { h with usedBytes := (h.usedBytes + bytes) % 2 ^ 64 }

/-- `h->used_bytes = 0`. -/
@[simps]
def resetUsed (h : Heap) : Heap := { h with usedBytes := 0 }

/-- `h->alloc_front = address`. -/
@[simps]
def setFront (h : Heap) (address : ℕ) : Heap := { h with allocFront := address }

/-- `h->alloc_front += bytes`. -/
@[simps]
def advance (h : Heap) (bytes : ℕ) : Heap := { h with allocFront := h.allocFront + bytes }

/-- The heap with other bytes in its block. -/
@[simps]
def setMem (h : Heap) (mem : ByteMemory) : Heap := { h with mem := mem }

/-- The heap with another allocation map. -/
@[simps]
def setMap (h : Heap) (map : List Word) : Heap := { h with allocMap := map }

/-- Whether `length` bytes from the address lie in the heap's block. -/
def InBounds (h : Heap) (address length : ℕ) : Prop :=
  h.heapStart ≤ address ∧ address + length ≤ h.heapStart + h.size

instance (h : Heap) (address length : ℕ) : Decidable (h.InBounds address length) :=
  inferInstanceAs (Decidable (_ ∧ _))

def load64 (h : Heap) (address : ℕ) : Except Fault Word :=
  if h.InBounds address 8 then .ok (h.mem.load64 address) else .error .outOfBounds

def store64 (h : Heap) (address : ℕ) (word : Word) : Except Fault Heap :=
  if h.InBounds address 8 then .ok (h.setMem (h.mem.store64 address word))
  else .error .outOfBounds

/-- `memcpy` inside the heap; its ranges must not overlap. -/
def memcpy (h : Heap) (address source length : ℕ) : Except Fault Heap :=
  if h.InBounds address length ∧ h.InBounds source length then
    if length = 0 ∨ address + length ≤ source ∨ source + length ≤ address then
      .ok (h.setMem (h.mem.copy address source length))
    else .error .overlap
  else .error .outOfBounds

end Heap

/-- `h->alloc_map[map_index] = set_bit_at_index_from_msb(h->alloc_map[map_index], bit_index, true)`. -/
def setMapBit (map : List Word) (mapIndex bitIndex : ℕ) : Except Fault (List Word) :=
  match map[mapIndex]? with
  | none => .error .outOfBounds
  | some word => .ok (map.set mapIndex (setBitAtIndexFromMsb word bitIndex true))

/-- The loop of `set_alloc_map` from segment `i` on. -/
def markSegments (map : List Word) (i : ℕ) : ℕ → Except Fault (List Word)
  | 0 => .ok map
  | remaining + 1 => do
    let next ← setMapBit map (i / 64) (i % 64)
    markSegments next (i + 1) remaining

namespace Heap

def setAllocMap (h : Heap) (startAddress endAddress : ℕ) : Except Fault Heap := do
  let heapStartAddress ← readArray h.spaces 0
  let startIndex := (startAddress - heapStartAddress) / 16
  let endIndex := (endAddress - heapStartAddress) / 16
  let map ← markSegments h.allocMap startIndex (endIndex - startIndex)
  .ok (h.setMap map)

def validatePtr (h : Heap) (ptr : ℕ) : Except Fault Bool := do
  let start ← readArray h.spaces 0
  let last ← readArray h.spaces (h.numberOfSpaces - 1 : ℕ)
  let heapEnd := last + spaceSize
  if ptr < start ∨ heapEnd < ptr then .ok false
  else
    let bit := (ptr - start) / 16
    let word ← readArray h.allocMap (bit / 64 : ℕ)
    .ok (getBitAtIndexFromMsb word (bit % 64) != 0)

end Heap

end GarbageCollector.Model
