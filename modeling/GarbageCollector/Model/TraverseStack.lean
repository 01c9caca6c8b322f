import GarbageCollector.Model.Collect
import GarbageCollector.Model.FormatStr

/-! # The scan of the stack

`root_ptrs` and `invalidate_ptrs_at_heap` of `traverse_stack.c`. The slots of the stack are the multiples
of eight between the frame address and `environ`, and the stack maps them to their words. The conflict
markers left in `root_ptrs` enclose unused variables and blank lines only. The array of roots is a block of
cells of which some have been written: a `realloc` that fails leaves no cell, and an access outside the
block, or to a cell that has not been written, is a fault.
-/

namespace GarbageCollector.Model

/-- The array that `root_ptrs` fills. -/
structure RootArray where
  capacity : ℕ
  found : ℕ
  pointers : List (Option ℕ)
deriving DecidableEq, Repr

namespace RootArray

def start : RootArray := ⟨128, 0, List.replicate 128 none⟩

/-- `capacity *= 2` and the `realloc` to that many pointers. -/
def grow (array : RootArray) : RootArray :=
  let capacity := array.capacity * 2 % 2 ^ 64
  let pointers := if mallocSucceeds (BitVec.ofNat 64 (capacity * 8)) then
      array.pointers.take capacity ++ List.replicate (capacity - array.pointers.length) none
    else []
  { array with capacity := capacity, pointers := pointers }

/-- `pointers[found++] = current`, where the array grows first if it is full. -/
def push (array : RootArray) (current : ℕ) : Except Fault RootArray :=
  let array := if array.capacity ≤ array.found then array.grow else array
  if array.found < array.pointers.length then
    .ok { array with found := array.found + 1, pointers := array.pointers.set array.found (some current) }
  else .error .outOfBounds

end RootArray

def pointerCheckVaild (_ : Word) : Bool := true

/-- The loop of `root_ptrs` from `current` down to the word above `stackBottom`. -/
def rootPtrsFrom (h : Heap) (stack : Stack) (stackBottom current : ℕ) (array : RootArray) :
    Except Fault RootArray :=
  if stackBottom < current then do
    let valid ← h.validatePtr (stack current).toNat
    if valid then
      if h.unsafeStack && !pointerCheckVaild (stack current) then
        rootPtrsFrom h stack stackBottom (current - 8) array
      else do
        let array ← array.push current
        rootPtrsFrom h stack stackBottom (current - 8) array
    else rootPtrsFrom h stack stackBottom (current - 8) array
  else .ok array
termination_by current
decreasing_by all_goals omega

/-- `root_ptrs` in a frame at the given address: the array it returns, with `*count` as its `found`. -/
def rootPtrs (h : Heap) (stack : Stack) (frameAddress environ : ℕ) : Except Fault RootArray :=
  rootPtrsFrom h stack (min frameAddress environ) (max frameAddress environ) .start

/-- The loop of `invalidate_ptrs_at_heap` from index `i` on, which is an `int`. -/
def invalidateFrom (stack : Stack) (dbgValue : Word) (array : RootArray) (i : ℕ) : Except Fault Stack :=
  if i < array.found then
    match array.pointers[i]? with
    | some (some slot) =>
      if i + 1 < 2 ^ 31 then invalidateFrom (Function.update stack slot dbgValue) dbgValue array (i + 1)
      else .error .signedOverflow
    | _ => .error .outOfBounds
  else .ok stack
termination_by array.found - i

/-- `invalidate_ptrs_at_heap`: the heap and the stack that it leaves. -/
def invalidatePtrsAtHeap (h : Heap) (stack : Stack) (frameAddress environ : ℕ) (dbgValue : Word) :
    Except Fault (Heap × Stack) := do
  let array ← rootPtrs h stack frameAddress environ
  let stack ← invalidateFrom stack dbgValue array 0
  .ok (h, stack)

/-- The roots in the first cells of the array, which `h_gc_dbg` reads. -/
def RootArray.roots (array : RootArray) : Except Fault (List ℕ) :=
  (array.pointers.take array.found).mapM fun cell =>
    match cell with
    | some slot => .ok slot
    | none => .error .outOfBounds

end GarbageCollector.Model
