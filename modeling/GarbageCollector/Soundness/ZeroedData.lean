import GarbageCollector.Proofs.Watermark
import GarbageCollector.Soundness.Relocation

/-! # Fresh objects and old bytes

`h_alloc_struct` clears nothing, so the data of a new object is zero exactly when every byte of it that lies
below the high-water mark of the session is zero already. Memory below the mark is handed out again after a
collection and after a struct that goes back to the start of its space; without either, every object is
zero.
-/

namespace GarbageCollector.Soundness

open Model Proofs

/-- An object that `h_alloc_struct` returns to the client has only zeros in its data. -/
def ReturnsZeroed (w : Watched) (call : Call) : Prop :=
  ∀ layout p h', call = .hAllocStruct layout → w.session.heap.hAllocStruct layout = .ok (some p, h') →
    ∀ offset < layoutBytes layout, h'.mem (p + offset) = 0

/-- At the place that a requested struct gets, no byte below the mark has another value than zero. -/
def ReusesZeros (w : Watched) (call : Call) : Prop :=
  ∀ layout size word, call = .hAllocStruct layout →
    w.session.heap.structRequest layout = .ok (some (size, word)) → Places w.session.heap size →
    ∀ address ∈ (Block.data ⟨placeOf w.session.heap size, size⟩).bytes, address < w.mark →
      w.session.heap.mem address = 0

/-- The request decides it. -/
instance (w : Watched) : DecidablePred (ReusesZeros w)
  | .hAllocStruct layout =>
    match request : w.session.heap.structRequest layout with
    | .ok (some (size, _)) =>
      decidable_of_iff (Places w.session.heap size → ∀ offset < size,
          placeOf w.session.heap size + 8 + offset < w.mark →
            w.session.heap.mem (placeOf w.session.heap size + 8 + offset) = 0) (by
        constructor
        · rintro zeros _ _ _ ⟨⟩ request' places address inside below
          cases request.symm.trans request'
          simp only [Block.data, Block.dataStart, headerSizeBytes, Extent.mem_bytes] at inside
          have zero := zeros places (address - (placeOf w.session.heap size + 8)) (by omega)
          rw [Nat.add_sub_cancel' inside.1] at zero
          exact zero below
        · intro zeros places offset bound below
          apply zeros _ _ _ rfl request places _ ?_ below
          simp only [Block.data, Block.dataStart, headerSizeBytes, Extent.mem_bytes]
          omega)
    | .ok none => isTrue fun _ _ _ same request' => by
      cases same
      cases request.symm.trans request'
    | .error _ => isTrue fun _ _ _ same request' => by
      cases same
      cases request.symm.trans request'
  | .hAllocRaw _ => isTrue nofun
  | .write _ _ => isTrue nofun
  | .hGcDbg _ _ => isTrue nofun

/-- The call puts no struct back to the start of a space, and is no collection. -/
def Ascends (w : Watched) (call : Call) : Prop :=
  (∀ layout, call = .hAllocStruct layout → ¬ Rewinds w.session.heap layout) ∧
    ∀ stack roots, call ≠ .hGcDbg stack roots

/-- Placing a struct writes no byte of its data. -/
theorem mem_data_of_placed {h h' : Heap} {header size address : ℕ} {word : Word}
    (placed : Placed h h' header size word) (lower : header + 8 ≤ address)
    (upper : address < header + 8 + size) : h'.mem address = h.mem address := by
  rw [placed.mem, ByteMemory.store64_of_outside (by omega), ByteMemory.store64_of_outside (by omega)]

/-- A returned object has the place that it was promised. -/
theorem structPlaced_of_returned {w : Watched} {layout : Option (List Char)} {p : ℕ} {h' : Heap}
    (above : ZeroAbove w) (ok : w.session.heap.hAllocStruct layout = .ok (some p, h')) :
    ∃ size word, w.session.heap.structRequest layout = .ok (some (size, word)) ∧
      Places w.session.heap size ∧ p = placeOf w.session.heap size + 8 ∧
      Placed w.session.heap h' (placeOf w.session.heap size) size word ∧ layoutBytes layout = size := by
  have half := above.half
  rcases hAllocStruct_ok half.steady.shaped half.steady.half ok with ⟨null, _⟩ | placement
  · cases null
  obtain ⟨size, header, index, space, word, same, placed⟩ := placement
  obtain rfl := Option.some.inj same
  obtain ⟨places, rfl⟩ := placed.places half.steady half.within
  exact ⟨size, word, placed.request, places, rfl, placed.placed,
    layoutBytes_of_structRequest placed.request⟩

/-- One call returns zeros exactly when it reuses only zeros. -/
theorem returnsZeroed_iff {w : Watched} {call : Call} (above : ZeroAbove w) :
    ReturnsZeroed w call ↔ ReusesZeros w call := by
  constructor
  · intro zeroed layout size word same request places address inside _
    obtain ⟨h', ok⟩ := hAllocStruct_of_places above.half.steady places request
    obtain ⟨size', word', request', _, _, placed, bytes⟩ := structPlaced_of_returned above ok
    obtain ⟨rfl, rfl⟩ := Prod.mk.inj (Option.some.inj (Except.ok.inj (request.symm.trans request')))
    simp only [Block.data, Block.dataStart, headerSizeBytes, Extent.mem_bytes] at inside
    rw [← mem_data_of_placed placed inside.1 inside.2]
    have zero := zeroed layout _ h' same ok (address - (placeOf w.session.heap size + 8)) (by omega)
    rwa [Nat.add_sub_cancel' inside.1] at zero
  · intro zeros layout p h' same ok offset bound
    obtain ⟨size, word, request, places, rfl, placed, bytes⟩ := structPlaced_of_returned above ok
    rw [mem_data_of_placed placed (by omega) (by omega)]
    rcases Nat.lt_or_ge (placeOf w.session.heap size + 8 + offset) w.mark with reused | fresh
    · apply zeros layout size word same request places _ ?_ reused
      simp only [Block.data, Block.dataStart, headerSizeBytes, Extent.mem_bytes]
      omega
    · exact above.zero _ fresh

/-- Every byte behind the bump pointer is zero, and every block ends before it. -/
structure ZeroBehind (w : Watched) : Prop where
  above : ZeroAbove w
  below : ∀ block ∈ w.session.blocks, block.header + 8 + block.size ≤ w.session.heap.allocFront
  zero : ∀ address, w.session.heap.allocFront ≤ address → w.session.heap.mem address = 0

theorem ZeroBehind.start {h : Heap} (fresh : Fresh h) : ZeroBehind (Watched.start h) :=
  ⟨.start fresh, fun _ member => (List.not_mem_nil member).elim, fun address _ => fresh.zero address⟩

/-- A session that only ascends keeps the bytes behind its bump pointer. -/
theorem ZeroBehind.step {w w' : Watched} {call : Call} (behind : ZeroBehind w)
    (structOnly : call.StructOnly) (ascends : Ascends w call) (ok : w.step call = .ok w') :
    ZeroBehind w' := by
  have above := behind.above.step structOnly ok
  have steady := behind.above.half.steady
  obtain ⟨next, stepped, same⟩ := bind_ok_iff.mp ok
  obtain rfl := Except.ok.inj same
  cases call with
  | hAllocStruct layout =>
    cases step_hAllocStruct steady stepped with
    | nullStruct unchanged _ null =>
      subst unchanged
      exact ⟨above, behind.below, behind.zero⟩
    | struct placed blocks map =>
      have front := placed.placed.front
      rcases placed.header_cases steady.shaped steady.half steady.front with ⟨_, rfl⟩ | ⟨rewinds, _⟩
      · refine ⟨above, fun block member => ?_, fun address past => ?_⟩
        · change block ∈ next.blocks at member
          rw [blocks] at member
          change _ ≤ next.heap.allocFront
          rcases List.mem_cons.mp member with rfl | old
          · dsimp only
            omega
          · have stop := behind.below block old
            omega
        · change next.heap.allocFront ≤ address at past
          exact (placed.placed.mem_outside (by omega)).trans (behind.zero address (by omega))
      · exact (ascends.1 layout rfl rewinds).elim
  | hAllocRaw bytes => cases structOnly
  | write place value =>
    obtain ⟨_, rfl⟩ := step_write stepped
    refine ⟨above, behind.below, fun address past => ?_⟩
    exact zero_past_write behind.below stepped past (behind.zero address past)
  | hGcDbg stack roots => exact (ascends.2 stack roots rfl).elim

/-- Behind the bump pointer there is nothing but zeros to reuse. -/
theorem ZeroBehind.reusesZeros {w : Watched} {call : Call} (behind : ZeroBehind w)
    (ascends : Ascends w call) : ReusesZeros w call := by
  apply (returnsZeroed_iff behind.above).mp ?_
  intro layout p h' same ok offset bound
  have half := behind.above.half
  rcases hAllocStruct_ok half.steady.shaped half.steady.half ok with ⟨null, _⟩ | placement
  · cases null
  obtain ⟨size, header, index, space, word, returned, placed⟩ := placement
  obtain rfl := Option.some.inj returned
  rw [layoutBytes_of_structRequest placed.request] at bound
  rcases placed.header_cases half.steady.shaped half.steady.half half.steady.front with
    ⟨_, rfl⟩ | ⟨rewinds, _⟩
  · rw [mem_data_of_placed placed.placed (by omega) (by omega)]
    exact behind.zero _ (by omega)
  · exact (ascends.1 layout same rewinds).elim

/-- In every run, all returned objects are zero exactly when all reused bytes are; and in a run that only
ascends they are. -/
theorem returnsZeroed_of_run {h : Heap} (booted : Booted h) {calls : List Call}
    (structOnly : ∀ call ∈ calls, call.StructOnly) :
    (Machine.Along Watched.step ReturnsZeroed (Watched.start h) calls ↔
      Machine.Along Watched.step ReusesZeros (Watched.start h) calls) ∧
    (Machine.Along Watched.step Ascends (Watched.start h) calls →
      Machine.Along Watched.step ReusesZeros (Watched.start h) calls) := by
  have fresh := fresh_of_booted booted
  constructor
  · exact Machine.along_iff_of_invariant ZeroAbove (fun above _ => returnsZeroed_iff above)
      (fun above member => above.step (structOnly _ member)) (.start fresh)
  · intro advances
    have kinds : Machine.Along Watched.step (fun _ call => call.StructOnly) (Watched.start h) calls :=
      Machine.along_of_forall fun _ => structOnly
    exact Machine.along_of_invariant ZeroBehind (fun behind allowed => behind.reusesZeros allowed.1)
      (fun behind allowed => behind.step allowed.2 allowed.1) (advances.and kinds) (.start fresh)

/-- Two structs, a value in the second one, a collection without roots, and a struct in the place of the first. -/
def reusedPlace : List Call :=
  [.hAllocStruct (some "4i".toList), .hAllocStruct (some "2i".toList), .write 65576 7, .hGcDbg (fun _ => 0) [],
    .hAllocStruct (some "4i".toList)]

theorem returnsZeroed_reusedPlace :
    Machine.Along Watched.step ReturnsZeroed (Watched.start smallHeap) reusedPlace :=
  (returnsZeroed_of_run booted_smallHeap (by simp [reusedPlace, Call.StructOnly])).1.mpr (by decide +kernel)

/-- A struct, a value in its first byte, and a collection without roots. -/
def collectedObject : List Call :=
  [.hAllocStruct (some "4i".toList), .write 65544 7, .hGcDbg (fun _ => 0) []]

/-- The next struct gets the same place, with the old value. -/
theorem exists_old_value : ∃ w h', Machine.run Watched.step (Watched.start smallHeap) collectedObject = .ok w ∧
    w.session.heap.hAllocStruct (some "4i".toList) = .ok (some 65544, h') ∧ h'.mem 65544 = 7 ∧
    ¬ ReturnsZeroed w (.hAllocStruct (some "4i".toList)) := by
  obtain ⟨w, ran, found⟩ := exists_of_toOption
    (Machine.run Watched.step (Watched.start smallHeap) collectedObject)
    (fun w => (w.session.heap.hAllocStruct (some "4i".toList)).toOption.map
      fun result => (result.1, result.2.mem 65544)) (some (some 65544, 7)) (by decide +kernel)
  obtain ⟨⟨p, h'⟩, allocated, found⟩ := exists_of_toOption _ _ _ found
  obtain ⟨rfl, old⟩ := Prod.mk.inj found
  refine ⟨w, h', ran, allocated, old, fun zeroed => ?_⟩
  have zero := zeroed _ _ h' rfl allocated 0 (by decide +kernel)
  rw [Nat.add_zero, show h'.mem 65544 = 7 from old] at zero
  cases zero

end GarbageCollector.Soundness
