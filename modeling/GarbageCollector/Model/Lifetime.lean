import GarbageCollector.Math.Ledger
import GarbageCollector.Model.Session
import GarbageCollector.Model.TraverseStack

/-! # Heaps that come and go

`h_init` with all of its `calloc`s, `h_delete` and `h_delete_dbg` of `gc.c`, in a process that may have
several heaps. The ledger holds the blocks of these `calloc`s; the blocks that other functions get for format
strings and header objects are not in it. `h_init` stores the address of a second allocation map over that
of the first, and never sets `start`. The entries that `h_delete` clears are in an array that it frees next.
-/

namespace GarbageCollector.Model

/-- The blocks that the calls of `calloc` in `h_init` return. -/
structure InitBlocks (bytes : ℕ) where
  record : ℕ
  spaces : ℕ
  spaceIsActive : ℕ
  /-- For `alloc_map`, which is overwritten at once. -/
  firstMap : ℕ
  allocMap : ℕ
  heapStart : CallocBlock bytes

/-- `sizeof(heap_t)`. -/
def heapRecordBytes : ℕ := 88

/-- A `heap_t` in use, with the pointers that `h_delete` frees. -/
structure OpenHeap where
  /-- The pointer that `h_init` returned. -/
  record : ℕ
  start : ℕ
  spaces : ℕ
  spaceIsActive : ℕ
  allocMap : ℕ
  session : Session

/-- The blocks of `h_init`, oldest first. -/
def InitBlocks.chunks {bytes : ℕ} (blocks : InitBlocks bytes) (h : Heap) : List Chunk :=
  [⟨blocks.record, heapRecordBytes⟩, ⟨blocks.spaces, h.numberOfSpaces * 8⟩,
    ⟨blocks.spaceIsActive, h.numberOfSpaces⟩, ⟨blocks.firstMap, bytes / (16 * 8)⟩,
    ⟨blocks.allocMap, bytes / (16 * 8)⟩, ⟨blocks.heapStart.address, bytes⟩]

structure Process where
  chunks : List Chunk
  heaps : List OpenHeap

inductive HeapEvent where
  | hInit (bytes : ℕ) (unsafeStack : Bool) (gcThreshold : CFloat) (blocks : InitBlocks bytes)
  /-- What a client may do with the heap of this pointer. -/
  | call (h : ℕ) (call : Call)
  | hDelete (h : ℕ)
  | hDeleteDbg (h : ℕ) (stack : Stack) (frameAddress environ : ℕ) (dbgValue : Word)

inductive ProcessFault where
  | heap (fault : Fault)
  /-- A `free` of something that is not the address of a block in use. -/
  | invalidFree
  /-- A use of a heap that was never made or has been deleted. -/
  | unknownHeap
deriving DecidableEq, Repr

/-- A fault of the functions on one heap. -/
def liftFault {α : Type} : Except Fault α → Except ProcessFault α
  | .ok value => .ok value
  | .error fault => .error (.heap fault)

/-- `h_delete`, by what is left in use. -/
def hDelete (chunks : List Chunk) (h : OpenHeap) : Option (List Chunk) := do
  let chunks ← Ledger.free chunks h.spaceIsActive
  let chunks ← Ledger.free chunks h.start
  let chunks ← Ledger.free chunks h.spaces
  let chunks ← Ledger.free chunks h.allocMap
  Ledger.free chunks h.record

namespace Process

def start : Process := ⟨[], []⟩

def find (p : Process) (h : ℕ) : Except ProcessFault OpenHeap :=
  match p.heaps.find? fun heap => heap.record = h with
  | some heap => .ok heap
  | none => .error .unknownHeap

/-- Delete the heap of this pointer. -/
def delete (p : Process) (heap : OpenHeap) : Except ProcessFault Process :=
  match hDelete p.chunks heap with
  | some chunks => .ok ⟨chunks, p.heaps.filter fun other => other.record ≠ heap.record⟩
  | none => .error .invalidFree

def step (p : Process) : HeapEvent → Except ProcessFault Process
  | .hInit bytes unsafeStack gcThreshold blocks => do
    match ← liftFault (hInit bytes unsafeStack gcThreshold blocks.heapStart) with
    | none => .ok p
    | some h => .ok ⟨blocks.chunks h ++ p.chunks,
        ⟨blocks.record, 0, blocks.spaces, blocks.spaceIsActive, blocks.allocMap, .start h⟩ :: p.heaps⟩
  | .call h call => do
    let heap ← p.find h
    let session ← liftFault (heap.session.step call)
    .ok { p with heaps := p.heaps.map fun other =>
      if other.record = h then { other with session := session } else other }
  | .hDelete h => do
    let heap ← p.find h
    p.delete heap
  | .hDeleteDbg h stack frameAddress environ dbgValue => do
    let heap ← p.find h
    let _ ← liftFault (invalidatePtrsAtHeap heap.session.heap stack frameAddress environ dbgValue)
    p.delete heap

end Process

end GarbageCollector.Model
