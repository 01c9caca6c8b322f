import GarbageCollector.Model.Alloc
import Mathlib.Logic.Function.Basic

/-! # The collector

`find_header_address_through_footer` of `traverse_stack.c`, `garbage_collection` and `h_gc_dbg` of
`gc.c`. Root slots are stack words, apart from the heap's bytes, so the stack is a map from slot
addresses to words. `root_ptrs` supplies the list of slots. In `garbage_collection` the text after
the forwarding branch's `return` is never executed; for a raw header or a format-string header the
text is not well-formed C (`item_header` is out of scope there and the braces do not balance), and
reaching it is a fault. Each evacuation is recorded in a log that the C code does not keep.
-/

namespace GarbageCollector.Model

/-- The words of the stack, by address. -/
abbrev Stack := ℕ → Word

/-- One object moved by a collection. -/
structure Evacuation where
  oldHeader : ℕ
  newHeader : ℕ
  size : ℕ
deriving DecidableEq, Repr

/-- A collection in progress. -/
structure Collection where
  heap : Heap
  stack : Stack
  /-- The objects moved so far, oldest first. -/
  evacuated : List Evacuation

namespace Heap

def findHeaderAddressThroughFooter (h : Heap) (ptr endOfSearchArea : ℕ) :
    Except Fault (Option ℕ) :=
  if ptr < endOfSearchArea then do
    let currentValue ← h.load64 ptr
    if confirmTag currentValue then
      let objectBytes := (getSizeBitsField currentValue).toNat
      let bytesToJumpBack := objectBytes + headerSizeBytes
      .ok (some (ptr - bytesToJumpBack))
    else findHeaderAddressThroughFooter h (ptr + 8) endOfSearchArea
  else .ok none
termination_by endOfSearchArea - ptr
decreasing_by omega

/-- What `garbage_collection` finds behind the value of a root slot. -/
inductive RootCase where
  /-- The value is too small, or no footer follows it. -/
  | skipped
  /-- A live object, by its header. -/
  | bitVector (header : ℕ)
  /-- An object that has moved, by the value that the slot gets. -/
  | forwarding (value : Word)
deriving DecidableEq, Repr

/-- The lookups of `garbage_collection`, up to its choice of a branch. -/
def rootCase (h : Heap) (value : Word) : Except Fault RootCase :=
  if value.toNat < 0xFFF then .ok .skipped
  else do
    match ← h.findHeaderAddressThroughFooter value.toNat (value + BitVec.ofNat 64 spaceSize).toNat with
    | none => .ok .skipped
    | some header => do
      let bytesOffset := value - BitVec.ofNat 64 header
      let word ← h.load64 header
      match getHeaderType word with
      | .bitVector => .ok (.bitVector header)
      | .forwardingAddress =>
        let newHeaderAddress := setBitAtIndexFromLsb word 0 false
        let newHeaderAddress := setBitAtIndexFromLsb newHeaderAddress 0 false
        .ok (.forwarding (newHeaderAddress + bytesOffset))
      | .ptrToFormatString => .error .illFormed
      | .rawLayout => .error .illFormed

/-- Both flip loops of `h_gc_dbg` do this. -/
@[simps]
def flipSpaces (h : Heap) : Heap := { h with spaceIsActive := h.spaceIsActive.map (!·) }

/-- Move the bump pointer to the first active space, if there is one. -/
def setBumpPointer (h : Heap) : Except Fault Heap :=
  match h.spaceIsActive.findIdx? id with
  | none => .ok h
  | some i => do
    let space ← readArray h.spaces (i : ℕ)
    .ok (h.setFront space)

/-- `h_gc_dbg` from the flip of the spaces up to the loop over the roots. -/
def prepareCollection (h : Heap) : Except Fault Heap := do
  let h := h.flipSpaces
  let h := h.flipSpaces
  let h ← h.setBumpPointer
  .ok h.resetUsed

end Heap

open Heap (RootCase)

/-- The branch for a header of type `BIT_VECTOR`. The size field is read again after the
allocation, which may have written over the old header. -/
def evacuate (c : Collection) (root : ℕ) (header : ℕ) : Except Fault Collection := do
  let value := c.stack root
  let bytesOffset := value - BitVec.ofNat 64 header
  let word ← c.heap.load64 header
  match ← bitVectorToFormatString word with
  | none => .error .assertion
  | some frmtStr => do
    match ← c.heap.hAllocStruct (some frmtStr) with
    | (none, _) => .error .assertion
    | (some newObj, h) =>
      if newObj = value.toNat then .error .assertion
      else do
        let newHeader := newObj - headerSizeBytes
        let oldWord ← h.load64 header
        let size := (getSizeBitsField oldWord).toNat
        let h ← h.memcpy newObj value.toNat size
        let headerAddress := BitVec.ofNat 64 newHeader
        let h ← h.store64 header (setHeaderForwardAddress headerAddress)
        .ok {
          heap := h
          stack := Function.update c.stack root (headerAddress + bytesOffset)
          evacuated := c.evacuated ++ [⟨header, newHeader, formatStrBytes frmtStr⟩] }

def garbageCollection (c : Collection) (root : ℕ) : Except Fault Collection :=
  if root = 0 then .ok c
  else do
    match ← c.heap.rootCase (c.stack root) with
    | .skipped => .ok c
    | .bitVector header => evacuate c root header
    | .forwarding value => .ok { c with stack := Function.update c.stack root value }

/-- The slots that the loop of `h_gc_dbg` visits: `i` runs to `num_roots - 1`. -/
def visitedRoots (roots : List ℕ) : List ℕ := roots.take (roots.length - 1)

/-- `h_gc_dbg` with the slots that `root_ptrs` found: the number it returns and what it leaves. -/
def hGcDbg (h : Heap) (stack : Stack) (roots : List ℕ) : Except Fault (ℕ × Collection) := do
  let oldUsedMemory := h.hUsed
  let prepared ← h.prepareCollection
  let collected ← Machine.run garbageCollection ⟨prepared, stack, []⟩ (visitedRoots roots)
  let newUsedMemory := collected.heap.hUsed
  .ok ((oldUsedMemory + 2 ^ 64 - newUsedMemory) % 2 ^ 64, collected)

end GarbageCollector.Model
