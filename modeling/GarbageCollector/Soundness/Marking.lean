import GarbageCollector.Proofs.Progress

/-! # Which data addresses are recognised

`validate_ptr` accepts the data of a block that was just handed out except, sometimes, in its last
segment: `set_alloc_map` rounds its end down, and the loop over a struct starts in the segment of
the byte before the data and counts from the size alone. `LastSegmentMarked` says when the last
segment is reached all the same.
-/

namespace GarbageCollector.Soundness

open Model Proofs

/-- The block that a call hands out is recognised at every address of its data. -/
def Recognised (s : Session) (call : Call) : Prop :=
  ∀ s' block, s.step call = .ok s' → s'.blocks = block :: s.blocks → 1 ≤ block.size →
    ∀ address ∈ block.data.bytes, s'.heap.validatePtr address = .ok true

/-- The last segment of the data of a block at `header` is in the spaces and gets marked: by
`set_alloc_map`, by the loop over the object, or by an earlier block. -/
def LastSegmentMarked (h : Heap) (header size : ℕ) (byObject : Prop) : Prop :=
  header + size + 7 ≤ h.heapStart + h.numberOfSpaces * spaceSize ∧
    ((header - h.heapStart + size) % 16 ≤ 8 ∨ byObject ∨
      Marked h.allocMap ((header - h.heapStart + size + 7) / 16))

/-- The condition on the state before a call. It asks nothing of a struct that is refused or that
rewinds, nor of an empty one. -/
def Covered (s : Session) : Call → Prop
  | .hAllocStruct layout => ∀ size word index space,
      s.heap.structRequest layout = .ok (some (size, word)) → CurrentSpace s.heap index space →
      size + headerSizeBytes ≤ spaceLeft s.heap.allocFront space →
      size + headerSizeBytes ≤ spaceLeft (s.heap.allocFront + headerSizeBytes) space → 1 ≤ size →
      LastSegmentMarked s.heap s.heap.allocFront size
        (((s.heap.allocFront - s.heap.heapStart + 7) % 16 + size) / 16 ≤ (size + 7) / 16)
  | .hAllocRaw bytes => 1 ≤ bytes → bytes ≤ s.heap.hAvail →
      LastSegmentMarked s.heap s.heap.allocFront bytes False
  | _ => True

/-- A block whose segments are marked up to the one before its end is recognised exactly when its
last one is. -/
theorem validatePtr_data_iff {h : Heap} {header size : ℕ} (shaped : Shaped h)
    (above : h.heapStart ≤ header) (positive : 1 ≤ size)
    (early : ∀ i, (header - h.heapStart) / 16 ≤ i → i < (header + size + 16 - h.heapStart) / 16 →
      Marked h.allocMap i) :
    (∀ address ∈ (Block.data ⟨header, size⟩).bytes, h.validatePtr address = .ok true) ↔
      header + size + 7 ≤ h.heapStart + h.numberOfSpaces * spaceSize ∧
        Marked h.allocMap ((header - h.heapStart + size + 7) / 16) := by
  simp only [Block.data, Block.dataStart, headerSizeBytes, Extent.mem_bytes]
  constructor
  · intro recognised
    obtain ⟨_, inside, marked⟩ := (shaped.validatePtr_iff _).mp
      (recognised (header + size + 7) ⟨by omega, by omega⟩)
    rw [show header + size + 7 - h.heapStart = header - h.heapStart + size + 7 by omega] at marked
    exact ⟨inside, marked⟩
  · rintro ⟨inside, last⟩ address ⟨lower, upper⟩
    refine (shaped.validatePtr_iff address).mpr ⟨by omega, by omega, ?_⟩
    rcases Nat.lt_or_ge ((address - h.heapStart) / 16) ((header - h.heapStart + size + 7) / 16) with
      before | after
    · apply early
      · omega
      · omega
    · have same : (address - h.heapStart) / 16 = (header - h.heapStart + size + 7) / 16 := by omega
      rwa [same]

/-- The last segment of a raw block. -/
theorem raw_last_iff {h h' : Heap} {bytes : ℕ} (placed : RawPlaced h h' bytes)
    (front : h.heapStart ≤ h.allocFront) :
    Marked h'.allocMap ((h.allocFront - h.heapStart + bytes + 7) / 16) ↔
      (h.allocFront - h.heapStart + bytes) % 16 ≤ 8 ∨ False ∨
        Marked h.allocMap ((h.allocFront - h.heapStart + bytes + 7) / 16) := by
  rw [marked_markRange placed.marks, false_or]
  apply or_congr_left
  omega

theorem recognised_raw_iff {s s' : Session} {bytes : ℕ} (steady : Steady s.heap)
    (ok : s.step (.hAllocRaw bytes) = .ok s') (placed : RawPlaced s.heap s'.heap bytes)
    (blocks : s'.blocks = ⟨s.heap.allocFront, bytes⟩ :: s.blocks) :
    Recognised s (.hAllocRaw bytes) ↔ Covered s (.hAllocRaw bytes) := by
  have same := placed.placed.shape
  have front := steady.front
  have early : ∀ i, (s.heap.allocFront - s'.heap.heapStart) / 16 ≤ i →
      i < (s.heap.allocFront + bytes + 16 - s'.heap.heapStart) / 16 → Marked s'.heap.allocMap i := by
    intro i lower upper
    rw [same.heapStart] at lower upper
    exact (marked_markRange placed.marks i).mpr (.inl ⟨lower, upper⟩)
  have data := validatePtr_data_iff (same.shaped steady.shaped) (same.heapStart.le.trans front)
    placed.positive early
  rw [same.heapStart, same.numberOfSpaces, raw_last_iff placed front] at data
  constructor
  · intro recognised positive _
    exact data.mp (recognised s' ⟨s.heap.allocFront, bytes⟩ ok blocks positive)
  · intro covered s₂ block ok₂ blocks₂ positive
    cases ok.symm.trans ok₂
    cases blocks.symm.trans blocks₂
    exact data.mpr (covered positive placed.available)

/-- The last segment of a struct that does not rewind. -/
theorem struct_last_iff {h h' : Heap} {layout : Option (List Char)} {size index space : ℕ}
    {word : Word} (placed : StructPlaced h h' layout size h.allocFront index space word)
    (steady : Steady h) (within : h.allocFront ≤ h.heapStart + h.numberOfSpaces * 2048) :
    Marked h'.allocMap ((h.allocFront - h.heapStart + size + 7) / 16) ↔
      (h.allocFront - h.heapStart + size) % 16 ≤ 8 ∨
        ((h.allocFront - h.heapStart + 7) % 16 + size) / 16 ≤ (size + 7) / 16 ∨
        Marked h.allocMap ((h.allocFront - h.heapStart + size + 7) / 16) := by
  have front := steady.front
  obtain ⟨_, start, _⟩ := placed.current.bounds steady.shaped steady.half front
  have index_eq := placed.current.index_eq steady.shaped front within
  rw [placed.marked (by omega)]
  apply or_congr
  · omega
  · apply or_congr_left
    omega

theorem recognised_struct_iff {s s' : Session} {layout : Option (List Char)}
    {size header index space : ℕ} {word : Word} (steady : Steady s.heap)
    (ok : s.step (.hAllocStruct layout) = .ok s')
    (placed : StructPlaced s.heap s'.heap layout size header index space word)
    (blocks : s'.blocks = ⟨header, size⟩ :: s.blocks) :
    Recognised s (.hAllocStruct layout) ↔ Covered s (.hAllocStruct layout) := by
  have same := placed.placed.shape
  have front := steady.front
  obtain ⟨half, start, le⟩ := placed.current.bounds steady.shaped steady.half front
  rcases placed.header_cases steady.shaped steady.half front with ⟨advances, rfl⟩ | ⟨rewinds, rfl, _⟩
  · have fits : size + headerSizeBytes ≤ spaceLeft s.heap.allocFront space := by
      by_contra tooFull
      exact advances ⟨size, word, index, space, placed.request, placed.current, Nat.lt_of_not_le tooFull⟩
    have data (positive : 1 ≤ size) := validatePtr_data_iff (same.shaped steady.shaped)
      (same.heapStart.le.trans front) positive fun i lower upper => by
        rw [same.heapStart] at lower upper
        exact placed.marked_of_setAllocMap lower upper
    rw [same.heapStart, same.numberOfSpaces] at data
    have last : s.heap.allocFront + size + 7 ≤ s.heap.heapStart + s.heap.numberOfSpaces * spaceSize →
        _ := fun inside => struct_last_iff placed steady (by simp only [spaceSize] at inside; omega)
    constructor
    · intro recognised size' word' index' space' request current _ _ positive
      cases placed.request.symm.trans request
      exact (and_congr_right last).mp
        ((data positive).mp (recognised s' ⟨s.heap.allocFront, size⟩ ok blocks positive))
    · intro covered s₂ block ok₂ blocks₂ positive
      cases ok.symm.trans ok₂
      cases blocks.symm.trans blocks₂
      exact (data positive).mpr ((and_congr_right last).mpr
        (covered size word index space placed.request placed.current fits placed.fits positive))
  · obtain ⟨small, _⟩ := structRequest_size placed.request
    have marked (i : ℕ) (lower : index * 128 ≤ i) (upper : i < index * 128 + (size + 23) / 16) :
        Marked s'.heap.allocMap i :=
      (placed.marked (by omega) i).mpr (.inr (.inl ⟨by omega, by omega⟩))
    constructor
    · intro _ size' word' index' space' request current fits
      obtain ⟨_, _, _, _, request₂, current₂, tooFull⟩ := rewinds
      cases request.symm.trans request₂
      obtain ⟨rfl, rfl⟩ := current.unique current₂
      exact (Nat.not_lt.mpr fits tooFull).elim
    · intro _ s₂ block ok₂ blocks₂ positive
      cases ok.symm.trans ok₂
      cases blocks.symm.trans blocks₂
      change 1 ≤ size at positive
      refine (validatePtr_data_iff (same.shaped steady.shaped) ?_ positive ?_).mpr ⟨?_, ?_⟩
      · rw [same.heapStart]
        omega
      · intro i lower upper
        rw [same.heapStart] at lower upper
        exact marked i (by omega) (by omega)
      · rw [same.heapStart, same.numberOfSpaces]
        simp only [spaceSize]
        omega
      · rw [same.heapStart]
        exact marked _ (by omega) (by omega)

/-- At a step that completes, the object is recognised exactly when the condition holds. -/
theorem recognised_step_iff {s s' : Session} {call : Call} (steady : Steady s.heap)
    (allocates : call.Allocates) (ok : s.step call = .ok s') : Recognised s call ↔ Covered s call := by
  have unchanged (same : s' = s) : Recognised s call := by
    intro s₂ block ok₂ blocks
    cases ok.symm.trans ok₂
    rw [same] at blocks
    exact (List.cons_ne_self _ _ blocks.symm).elim
  cases step_allocates steady allocates ok with
  | nullStruct same advances null =>
    apply iff_of_true (unchanged same)
    intro size word index space request current fits again _
    rw [hAllocStruct_of_current request current (if_pos fits).symm, if_pos again] at null
    have moved := (SameShape.setFront s.heap s.heap.allocFront).shaped steady.shaped
    cases (placeStruct_ok moved null).1
  | nullRaw same refused =>
    apply iff_of_true (unchanged same)
    intro positive available
    omega
  | struct placed blocks map => exact recognised_struct_iff steady ok placed blocks
  | raw placed blocks map => exact recognised_raw_iff steady ok placed blocks

/-- Right after every successful call of a run its object is recognised at every address of its
data, exactly when the marks of every call reach the last segment. -/
theorem recognised_iff {h : Heap} (booted : Booted h) {calls : List Call}
    (allocates : ∀ call ∈ calls, call.Allocates) {s : Session}
    (ran : Machine.run Session.step (Session.start h) calls = .ok s) :
    Machine.Along Session.step Recognised (Session.start h) calls ↔
      Machine.Along Session.step Covered (Session.start h) calls :=
  Machine.along_iff_of_run (fun s => Steady s.heap)
    (fun steady member ok => recognised_step_iff steady (allocates _ member) ok) step_steady
    (fresh_of_booted booted).steady ran

/-- A block of eight bytes and one of sixteen. -/
theorem recognised_iff_two_blocks : ∃ s,
    Machine.run Session.step (Session.start smallHeap)
      [.hAllocStruct (some "2i".toList), .hAllocRaw 16] = .ok s ∧
    (Machine.Along Session.step Recognised (Session.start smallHeap)
        [.hAllocStruct (some "2i".toList), .hAllocRaw 16] ↔
      Machine.Along Session.step Covered (Session.start smallHeap)
        [.hAllocStruct (some "2i".toList), .hAllocRaw 16]) := by
  obtain ⟨s, ran, _⟩ := exists_of_toOption (Machine.run Session.step (Session.start smallHeap)
    [.hAllocStruct (some "2i".toList), .hAllocRaw 16]) (fun s => s.heap.allocFront) 65592
    (by decide +kernel)
  exact ⟨s, ran, recognised_iff booted_smallHeap (by simp [Call.Allocates]) ran⟩

/-- Behind a block of eight bytes, a block of four has its data alone in segment 2, which no loop
marks: `validate_ptr` does not accept the pointer that the call just returned. -/
theorem not_recognised_second_struct : ¬ Machine.Along Session.step Recognised
    (Session.start smallHeap) [.hAllocStruct (some "2i".toList), .hAllocStruct (some "i".toList)] := by
  intro recognised
  obtain ⟨first, stepped, blocks⟩ := exists_of_toOption
    ((Session.start smallHeap).step (.hAllocStruct (some "2i".toList))) (fun s => s.blocks)
    [⟨65536, 8⟩] (by decide +kernel)
  obtain ⟨second, ran, found⟩ := exists_of_toOption (Machine.run Session.step
    (Session.start smallHeap) [.hAllocStruct (some "2i".toList), .hAllocStruct (some "i".toList)])
    (fun s => (s.blocks, (s.heap.validatePtr 65568).toOption)) ([⟨65560, 4⟩, ⟨65536, 8⟩], some false)
    (by decide +kernel)
  obtain ⟨blocks', refused⟩ := Prod.mk.inj found
  obtain ⟨middle, stepped', tail⟩ := Machine.run_cons_ok_iff.mp ran
  cases stepped.symm.trans stepped'
  obtain ⟨last, steppedAgain, done⟩ := Machine.run_cons_ok_iff.mp tail
  cases done
  have accepted := (recognised.2 first stepped).1 second ⟨65560, 4⟩ steppedAgain
    (by rw [blocks', blocks]) (by decide) 65568 (by decide)
  rw [accepted] at refused
  cases refused

end GarbageCollector.Soundness
