import GarbageCollector.Model.Collect
import GarbageCollector.Math.Extent

/-! # A client's session with the heap

A session is the heap together with a record of the blocks handed out since the latest collection
began: the state that a client sees. A call is what a client may do: allocate, write a byte of the
data of one of its objects, or collect with any stack and any list of root slots.
-/

namespace GarbageCollector.Model

/-- A block handed out: header, data, footer. -/
structure Block where
  header : ℕ
  /-- The number of data bytes. -/
  size : ℕ
deriving DecidableEq, Repr

namespace Block

/-- From the start of the header to the end of the footer. -/
def extent (block : Block) : Extent :=
  ⟨block.header, block.header + headerSizeBytes + block.size + headerSizeBytes⟩

/-- The address of the data, which is the pointer a client gets. -/
def dataStart (block : Block) : ℕ := block.header + headerSizeBytes

/-- The bytes between header and footer. -/
def data (block : Block) : Extent := ⟨block.dataStart, block.dataStart + block.size⟩

end Block

/-- The block of an evacuated object. -/
def Evacuation.block (evacuation : Evacuation) : Block := ⟨evacuation.newHeader, evacuation.size⟩

/-- What a client may do. -/
inductive Call where
  | hAllocStruct (layout : Option (List Char))
  | hAllocRaw (bytes : ℕ)
  | write (address : ℕ) (value : BitVec 8)
  | hGcDbg (stack : Stack) (roots : List ℕ)

namespace Call

/-- The calls of the two allocators. -/
def Allocates : Call → Prop
  | hAllocStruct _ => True
  | hAllocRaw _ => True
  | _ => False

/-- Everything but `h_alloc_raw`. -/
def StructOnly : Call → Prop
  | hAllocRaw _ => False
  | _ => True

instance : DecidablePred Allocates := fun call => by
  cases call <;> unfold Allocates <;> infer_instance

instance : DecidablePred StructOnly := fun call => by
  cases call <;> unfold StructOnly <;> infer_instance

end Call

/-- The heap and what has been handed out of it. -/
structure Session where
  heap : Heap
  /-- The blocks allocated or evacuated since the latest collection began, latest first. -/
  blocks : List Block
  /-- The allocation map as it was when that collection began, or at the start. -/
  mapAtCollection : List Word

/-- The data size of an expanded layout; a call that fails hands out no block. -/
def layoutBytes (layout : Option (List Char)) : ℕ :=
  match layout with
  | none => 0
  | some text =>
    match createFormatStr text with
    | .ok (some frmtString) => formatStrBytes frmtString
    | _ => 0

namespace Session

/-- The session right after `h_init`. -/
def start (h : Heap) : Session := ⟨h, [], h.allocMap⟩

/-- Record the outcome of an allocator. -/
def handOut (s : Session) (size : ℕ) : Option ℕ × Heap → Session
  | (none, h) => { s with heap := h }
  | (some p, h) => { s with heap := h, blocks := ⟨p - headerSizeBytes, size⟩ :: s.blocks }

/-- The address lies in the data of some object. -/
def Owns (s : Session) (address : ℕ) : Prop := ∃ block ∈ s.blocks, address ∈ block.data.bytes

instance (s : Session) (address : ℕ) : Decidable (s.Owns address) :=
  inferInstanceAs (Decidable (∃ block ∈ s.blocks, address ∈ block.data.bytes))

def step (s : Session) : Call → Except Fault Session
  | .hAllocStruct layout => do
    let outcome ← s.heap.hAllocStruct layout
    .ok (s.handOut (layoutBytes layout) outcome)
  | .hAllocRaw bytes => do
    let outcome ← s.heap.hAllocRaw bytes
    .ok (s.handOut bytes outcome)
  | .write address value =>
    if s.Owns address then
      .ok { s with heap := s.heap.setMem (Function.update s.heap.mem address value) }
    else .error .foreignWrite
  | .hGcDbg stack roots => do
    let (_, collected) ← Model.hGcDbg s.heap stack roots
    .ok ⟨collected.heap, (collected.evacuated.map Evacuation.block).reverse, s.heap.allocMap⟩

end Session

/-- A heap that `h_init` returns. -/
def Booted (h : Heap) : Prop :=
  ∃ bytes unsafeStack gcThreshold, ∃ block : CallocBlock bytes,
    hInit bytes unsafeStack gcThreshold block = .ok (some h)

/-- A state that calls of the given kind reach from a booted heap. -/
def Reachable (kind : Call → Prop) (s : Session) : Prop :=
  ∃ h, Booted h ∧ ∃ calls, (∀ call ∈ calls, kind call) ∧
    Machine.run Session.step (Session.start h) calls = .ok s

end GarbageCollector.Model
