import GarbageCollector.Proofs.AnyHeap
import GarbageCollector.Proofs.Layout

/-! # What one collection does

The two flips cancel, so a collection starts with the activity it found and with the bump pointer at
the first space. Each root then leaves the collection alone, rewrites its slot, or evacuates one
object: `Evacuated` gives the block allocated for it, the bytes copied and the forwarding word.
-/

namespace GarbageCollector.Proofs

open Model

open Heap (RootCase)

theorem flipSpaces_flipSpaces (h : Heap) : h.flipSpaces.flipSpaces = h := by
  have same : (h.spaceIsActive.map (!·)).map (!·) = h.spaceIsActive := by
    rw [List.map_map]
    exact (List.map_congr_left fun flag _ => Bool.not_not flag).trans (List.map_id _)
  simp only [Heap.flipSpaces, same]

/-- Before the first root is processed, a collection only moves the bump pointer back to the first
space and clears the counter. -/
theorem prepareCollection_eq {h : Heap} (shaped : Shaped h) (half : HalfActive h) :
    h.prepareCollection = .ok (h.setFront h.heapStart).resetUsed := by
  have two := shaped.someSpaces
  have first : h.spaceIsActive[0]? = some true := (half.active_iff (by omega)).mpr (by omega)
  have found : h.spaceIsActive.findIdx? id = some 0 := by
    cases flags : h.spaceIsActive with
    | nil => simp [flags] at first
    | cons flag rest =>
      rw [flags, List.getElem?_cons_zero, Option.some.injEq] at first
      rw [first, List.findIdx?_cons]
      rfl
  have bump : h.setBumpPointer = .ok (h.setFront h.heapStart) := by
    unfold Heap.setBumpPointer
    rw [found]
    change (readArray h.spaces 0 >>= _) = _
    rw [shaped.firstSpace]
    rfl
  unfold Heap.prepareCollection
  dsimp only
  rw [flipSpaces_flipSpaces, bump]
  rfl

theorem findHeaderAddressThroughFooter_prepared (h : Heap) (ptr stop : ℕ) :
    (h.setFront h.heapStart).resetUsed.findHeaderAddressThroughFooter ptr stop =
      h.findHeaderAddressThroughFooter ptr stop := by
  fun_induction Heap.findHeaderAddressThroughFooter h ptr stop with
  | case1 ptr before ih =>
    rw [Heap.findHeaderAddressThroughFooter, if_pos before]
    change (h.load64 ptr >>= _) = (h.load64 ptr >>= _)
    congr 1
    funext value
    split
    · rfl
    · exact ih
  | case2 ptr after => rw [Heap.findHeaderAddressThroughFooter, if_neg after]

/-- The lookups of a root do not depend on the bump pointer or the counter. -/
theorem rootCase_prepared (h : Heap) (value : Word) :
    (h.setFront h.heapStart).resetUsed.rootCase value = h.rootCase value := by
  unfold Heap.rootCase
  rw [findHeaderAddressThroughFooter_prepared]
  rfl

/-- A live object is found by a header of its type inside the heap. -/
theorem rootCase_bitVector {h : Heap} {value : Word} {header : ℕ}
    (found : h.rootCase value = .ok (.bitVector header)) :
    h.InBounds header 8 ∧ getHeaderType (h.mem.load64 header) = .bitVector := by
  unfold Heap.rootCase at found
  split at found
  · cases found
  obtain ⟨result, _, found⟩ := bind_ok_iff.mp found
  cases result with
  | none => cases found
  | some header' =>
    obtain ⟨word, loaded, found⟩ := bind_ok_iff.mp found
    obtain ⟨inside, rfl⟩ := load64_ok_iff.mp loaded
    generalize type : getHeaderType (h.mem.load64 header') = headerType at found
    cases headerType with
    | bitVector => cases found; exact ⟨inside, type⟩
    | forwardingAddress => cases found
    | ptrToFormatString => cases found
    | rawLayout => cases found

theorem memcpy_ok {h h' : Heap} {address source length : ℕ}
    (ok : h.memcpy address source length = .ok h') :
    h.InBounds address length ∧ h.InBounds source length ∧
      (length = 0 ∨ address + length ≤ source ∨ source + length ≤ address) ∧
      h' = h.setMem (h.mem.copy address source length) := by
  unfold Heap.memcpy at ok
  split at ok
  · next inside =>
    split at ok
    · next apart => exact ⟨inside.1, inside.2, apart, (Except.ok.inj ok).symm⟩
    · cases ok
  · cases ok

/-- One object evacuated in any heap: `h` is the heap right after the allocation of its copy. -/
structure EvacuationRun (c c' : Collection) (root header : ℕ) (h : Heap) (layout : List Char)
    (newHeader : ℕ) : Prop where
  bits : c.heap.InBounds header 8
  decoded : bitVectorToFormatString (c.heap.mem.load64 header) = .ok (some layout)
  allocated : c.heap.hAllocStruct (some layout) = .ok (some (newHeader + 8), h)
  moved : newHeader + 8 ≠ (c.stack root).toNat
  copied : ∃ length, length = (getSizeBitsField (h.mem.load64 header)).toNat ∧
    h.InBounds (newHeader + 8) length ∧ h.InBounds (c.stack root).toNat length ∧
    c'.heap = h.setMem ((h.mem.copy (newHeader + 8) (c.stack root).toNat length).store64 header
      (setHeaderForwardAddress (BitVec.ofNat 64 newHeader)))
  noOverlap : (getSizeBitsField (h.mem.load64 header)).toNat = 0 ∨
    newHeader + 8 + (getSizeBitsField (h.mem.load64 header)).toNat ≤ (c.stack root).toNat ∨
    (c.stack root).toNat + (getSizeBitsField (h.mem.load64 header)).toNat ≤ newHeader + 8
  stack : c'.stack = Function.update c.stack root
    (BitVec.ofNat 64 newHeader + (c.stack root - BitVec.ofNat 64 header))
  evacuated : c'.evacuated = c.evacuated ++ [⟨header, newHeader, formatStrBytes layout⟩]

theorem evacuate_run {c c' : Collection} {root header : ℕ} (ok : evacuate c root header = .ok c') :
    ∃ h layout newHeader, EvacuationRun c c' root header h layout newHeader := by
  obtain ⟨word, loaded, ok⟩ := bind_ok_iff.mp ok
  obtain ⟨bits, rfl⟩ := load64_ok_iff.mp loaded
  obtain ⟨decoded, decode, ok⟩ := bind_ok_iff.mp ok
  cases decoded with
  | none => cases ok
  | some layout =>
    obtain ⟨outcome, allocated, ok⟩ := bind_ok_iff.mp ok
    obtain ⟨result, h⟩ := outcome
    cases result with
    | none => cases ok
    | some newObj =>
      dsimp only at ok
      split at ok
      · cases ok
      rename_i moved
      obtain ⟨oldWord, loadedAgain, ok⟩ := bind_ok_iff.mp ok
      obtain ⟨_, rfl⟩ := load64_ok_iff.mp loadedAgain
      obtain ⟨h₁, copied, ok⟩ := bind_ok_iff.mp ok
      obtain ⟨target, source, noOverlap, rfl⟩ := memcpy_ok copied
      obtain ⟨h₂, stored, ok⟩ := bind_ok_iff.mp ok
      obtain ⟨_, rfl⟩ := store64_ok_iff.mp stored
      obtain rfl := Except.ok.inj ok
      obtain ⟨_, newHeader, _, _, _, rfl, _⟩ := hAllocStruct_found allocated
      have back : newHeader + 8 - headerSizeBytes = newHeader := Nat.add_sub_cancel _ _
      refine ⟨h, layout, newHeader, bits, decode, allocated, moved,
        ⟨_, rfl, target, source, ?_⟩, noOverlap, ?_, ?_⟩
      · simp only [back]
        rfl
      · simp only [back]
      · simp only [back]

/-- One object evacuated: `h` is the heap right after the allocation of its copy. -/
structure Evacuated (c c' : Collection) (root header : ℕ) (h : Heap) (layout : List Char)
    (newHeader size : ℕ) : Prop where
  bits : c.heap.InBounds header 8
  decoded : bitVectorToFormatString (c.heap.mem.load64 header) = .ok (some layout)
  size_eq : size = formatStrBytes layout
  placed : ∃ index space word, StructPlaced c.heap h (some layout) size newHeader index space word
  moved : newHeader + 8 ≠ (c.stack root).toNat
  copied : ∃ length, length = (getSizeBitsField (h.mem.load64 header)).toNat ∧
    h.InBounds (newHeader + 8) length ∧ h.InBounds (c.stack root).toNat length ∧
    c'.heap = h.setMem ((h.mem.copy (newHeader + 8) (c.stack root).toNat length).store64 header
      (setHeaderForwardAddress (BitVec.ofNat 64 newHeader)))
  stack : c'.stack = Function.update c.stack root
    (BitVec.ofNat 64 newHeader + (c.stack root - BitVec.ofNat 64 header))
  evacuated : c'.evacuated = c.evacuated ++ [⟨header, newHeader, size⟩]

theorem evacuate_ok {c c' : Collection} {root header : ℕ} (shaped : Shaped c.heap)
    (half : HalfActive c.heap) (ok : evacuate c root header = .ok c') :
    ∃ h layout newHeader size, Evacuated c c' root header h layout newHeader size := by
  obtain ⟨h, layout, newHeader, run⟩ := evacuate_run ok
  rcases hAllocStruct_ok shaped half run.allocated with ⟨absent, _⟩ | placement
  · cases absent
  obtain ⟨size, header', index, space, newWord, same, placed⟩ := placement
  obtain rfl : newHeader = header' := Nat.add_right_cancel (Option.some.inj same)
  obtain ⟨_, _, created, _⟩ := bitVectorToFormatString_ok run.decoded
  have size_eq : size = formatStrBytes layout := by
    rw [← layoutBytes_of_structRequest placed.request]
    simp [layoutBytes, created]
  exact ⟨h, layout, newHeader, size, run.bits, run.decoded, size_eq, ⟨index, space, newWord, placed⟩,
    run.moved, run.copied, run.stack, size_eq ▸ run.evacuated⟩

/-- Past the null check, a root acts on what its lookups find. -/
theorem garbageCollection_of_ne_zero (c : Collection) {root : ℕ} (nonnull : root ≠ 0) :
    garbageCollection c root = (c.heap.rootCase (c.stack root)).bind fun
      | .skipped => .ok c
      | .bitVector header => evacuate c root header
      | .forwarding value => .ok { c with stack := Function.update c.stack root value } :=
  if_neg nonnull

/-- What one root does. -/
inductive RootStep (c c' : Collection) (root : ℕ) : Prop where
  | skipped (same : c' = c)
  | forwarded (value : Word) (found : c.heap.rootCase (c.stack root) = .ok (.forwarding value))
      (same : c' = { c with stack := Function.update c.stack root value })
  | evacuated (header : ℕ) (found : c.heap.rootCase (c.stack root) = .ok (.bitVector header))
      (h : Heap) (layout : List Char) (newHeader size : ℕ)
      (done : Evacuated c c' root header h layout newHeader size)

theorem garbageCollection_ok {c c' : Collection} {root : ℕ} (shaped : Shaped c.heap)
    (half : HalfActive c.heap) (ok : garbageCollection c root = .ok c') : RootStep c c' root := by
  unfold garbageCollection at ok
  split at ok
  · exact .skipped (Except.ok.inj ok).symm
  obtain ⟨found, looked, ok⟩ := bind_ok_iff.mp ok
  cases found with
  | skipped => exact .skipped (Except.ok.inj ok).symm
  | bitVector header =>
    obtain ⟨h, layout, newHeader, size, done⟩ := evacuate_ok shaped half ok
    exact .evacuated header looked h layout newHeader size done
  | forwarding value => exact .forwarded value looked (Except.ok.inj ok).symm

namespace Evacuated

variable {c c' : Collection} {root header newHeader size : ℕ} {h : Heap} {layout : List Char}

/-- The heap after an evacuation is the one after its allocation, with other bytes. -/
theorem heap_eq (done : Evacuated c c' root header h layout newHeader size) :
    ∃ mem, c'.heap = h.setMem mem :=
  let ⟨_, _, _, _, same⟩ := done.copied
  ⟨_, same⟩

theorem sameShape (done : Evacuated c c' root header h layout newHeader size) :
    SameShape c.heap c'.heap := by
  obtain ⟨index, space, word, placed⟩ := done.placed
  obtain ⟨mem, same⟩ := done.heap_eq
  rw [same]
  exact placed.placed.shape.trans (.setMem h mem)

theorem front (done : Evacuated c c' root header h layout newHeader size) :
    c'.heap.allocFront = newHeader + size + 16 := by
  obtain ⟨index, space, word, placed⟩ := done.placed
  obtain ⟨mem, same⟩ := done.heap_eq
  rw [same]
  exact placed.placed.front

theorem used (done : Evacuated c c' root header h layout newHeader size) :
    c'.heap.usedBytes = (c.heap.usedBytes + (2 * size + 24)) % 2 ^ 64 := by
  obtain ⟨index, space, word, placed⟩ := done.placed
  obtain ⟨mem, same⟩ := done.heap_eq
  rw [same]
  exact placed.placed.used

end Evacuated

theorem RootStep.sameShape {c c' : Collection} {root : ℕ} (step : RootStep c c' root) :
    SameShape c.heap c'.heap := by
  cases step with
  | skipped same => rw [same]; exact .refl _
  | forwarded value found same => rw [same]; exact .refl _
  | evacuated header found h layout newHeader size done => exact done.sameShape

/-- A collection that returns, as its three parts. -/
theorem hGcDbg_ok {h : Heap} {stack : Stack} {roots : List ℕ} {freed : ℕ} {collected : Collection}
    (shaped : Shaped h) (half : HalfActive h) (ok : hGcDbg h stack roots = .ok (freed, collected)) :
    Machine.run garbageCollection ⟨(h.setFront h.heapStart).resetUsed, stack, []⟩
        (visitedRoots roots) = .ok collected ∧
      freed = (h.usedBytes + 2 ^ 64 - collected.heap.usedBytes) % 2 ^ 64 := by
  obtain ⟨prepared, prepare, ok⟩ := bind_ok_iff.mp ok
  rw [prepareCollection_eq shaped half, Except.ok.injEq] at prepare
  subst prepare
  obtain ⟨result, ran, ok⟩ := bind_ok_iff.mp ok
  obtain ⟨rfl, rfl⟩ := Prod.mk.inj (Except.ok.inj ok)
  exact ⟨ran, rfl⟩

theorem hGcDbg_of_run {h : Heap} {stack : Stack} {roots : List ℕ} {collected : Collection}
    (shaped : Shaped h) (half : HalfActive h)
    (ran : Machine.run garbageCollection ⟨(h.setFront h.heapStart).resetUsed, stack, []⟩
      (visitedRoots roots) = .ok collected) :
    hGcDbg h stack roots =
      .ok ((h.usedBytes + 2 ^ 64 - collected.heap.usedBytes) % 2 ^ 64, collected) :=
  bind_ok_iff.mpr ⟨_, prepareCollection_eq shaped half, bind_ok_iff.mpr ⟨_, ran, rfl⟩⟩

end GarbageCollector.Proofs
