import GarbageCollector.Math.CString
import GarbageCollector.Model.Alloc

/-! # Strings in the heap

`h_strdup` of the demo's `common.c`, with the `strcpy` that it calls. The string that is copied is given by its
bytes in front of the terminator.
-/

namespace GarbageCollector.Model

namespace Heap

/-- `strcpy` into the heap. -/
def strcpy (h : Heap) (address : ℕ) (str : List (BitVec 8)) : Except Fault Heap :=
  if h.InBounds address (str.length + 1) then .ok (h.setMem (h.mem.storeBytes address (str ++ [0])))
  else .error .outOfBounds

def hStrdup (h : Heap) (str : List (BitVec 8)) : Except Fault (Option ℕ × Heap) := do
  let len := str.length + 1
  let (newStr, h) ← h.hAllocRaw len
  match newStr with
  | none => .ok (none, h)
  | some newStr => do
    let h ← h.strcpy newStr str
    .ok (some newStr, h)

end Heap

end GarbageCollector.Model
