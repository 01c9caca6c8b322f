import GarbageCollector.Proofs.Progress

/-! # Where blocks lie

A struct block always lies in one active space. A raw block goes wherever the bump pointer is, since
`h_alloc_raw` compares its size with the free bytes of the heap and not with those of the space: a
run stays inside its active spaces exactly when every raw block it asks for happens to fit.
-/

namespace GarbageCollector.Soundness

open Model Proofs

/-- The block lies in one active space. -/
def InActiveSpace (h : Heap) (block : Block) : Prop :=
  ∃ (i space : ℕ), h.spaceIsActive[i]? = some true ∧ h.spaces[i]? = some space ∧
    space ≤ block.extent.start ∧ block.extent.stop ≤ space + spaceSize

/-- Every block lies in the heap and in one active space, and the bump pointer is in the heap. -/
structure Inside (s : Session) : Prop where
  inHeap : ∀ block ∈ s.blocks, s.heap.heapStart ≤ block.extent.start ∧
    block.extent.stop ≤ s.heap.heapStart + s.heap.size
  inSpace : ∀ block ∈ s.blocks, InActiveSpace s.heap block
  front : s.heap.allocFront ≤ s.heap.heapStart + s.heap.size

/-- The call accesses nothing outside the heap and leaves everything inside. -/
def StaysInside (s : Session) (call : Call) : Prop :=
  s.step call ≠ .error .outOfBounds ∧ ∀ s', s.step call = .ok s' → Inside s'

/-- A raw request that is admitted fits in the active space at the bump pointer. -/
def RawFits (s : Session) : Call → Prop
  | .hAllocRaw bytes => 0 < bytes → bytes ≤ s.heap.hAvail →
      InActiveSpace s.heap ⟨s.heap.allocFront, bytes⟩
  | _ => True

theorem SameShape.inActiveSpace {h h' : Heap} (same : SameShape h h') {block : Block} :
    InActiveSpace h' block ↔ InActiveSpace h block := by
  simp only [InActiveSpace, same.spaceIsActive, same.spaces]

/-- An active space ends in the first half of the heap. -/
theorem inActiveSpace_bounds {h : Heap} {block : Block} (steady : Steady h)
    (inside : InActiveSpace h block) : h.heapStart ≤ block.header ∧
      block.header + block.size + 16 ≤ h.heapStart + h.numberOfSpaces / 2 * 2048 := by
  obtain ⟨i, space, active, start, lower, upper⟩ := inside
  obtain ⟨bound, rfl⟩ := steady.shaped.space_eq start
  have early := (steady.half.active_iff bound).mp active
  simp only [Block.extent, spaceSize, headerSizeBytes] at lower upper
  omega

/-- What runs of fitting calls keep: every block in an active space, the bump pointer in the first
half. -/
structure Contained (s : Session) : Prop where
  steady : Steady s.heap
  front : s.heap.allocFront ≤ s.heap.heapStart + s.heap.numberOfSpaces / 2 * 2048
  blocks : ∀ block ∈ s.blocks, InActiveSpace s.heap block

theorem Contained.inside {s : Session} (contained : Contained s) : Inside s := by
  have fits := contained.steady.shaped.spacesFit
  have front := contained.front
  simp only [spaceSize] at fits
  refine ⟨fun block member => ?_, contained.blocks, by omega⟩
  have bounds := inActiveSpace_bounds contained.steady (contained.blocks block member)
  simp only [Block.extent, headerSizeBytes]
  omega

theorem contained_start {h : Heap} (fresh : Fresh h) : Contained (Session.start h) := by
  refine ⟨fresh.steady, ?_, fun block member => by cases member⟩
  change h.allocFront ≤ _
  rw [fresh.front]
  exact Nat.le_add_right _ _

/-- One more block in an active space. -/
theorem Contained.place {s s' : Session} {block : Block} {word : Word} (contained : Contained s)
    (blocks : s'.blocks = block :: s.blocks)
    (placed : Placed s.heap s'.heap block.header block.size word)
    (inside : InActiveSpace s.heap block) : Contained s' := by
  obtain ⟨lower, upper⟩ := inActiveSpace_bounds contained.steady inside
  have same := placed.shape
  refine ⟨same.steady contained.steady ?_, ?_, ?_⟩
  · rw [placed.front]
    omega
  · rw [placed.front, same.heapStart, same.numberOfSpaces]
    exact upper
  · intro other member
    rw [blocks] at member
    rw [SameShape.inActiveSpace same]
    rcases List.mem_cons.mp member with rfl | old
    · exact inside
    · exact contained.blocks other old

/-- A struct block lies in the current space, which is active. -/
theorem structPlaced_inActiveSpace {h h' : Heap} {layout : Option (List Char)}
    {size header index space : ℕ} {word : Word} (steady : Steady h)
    (front : h.allocFront ≤ h.heapStart + h.numberOfSpaces * 2048)
    (placed : StructPlaced h h' layout size header index space word) :
    InActiveSpace h ⟨header, size⟩ := by
  obtain ⟨lower, upper⟩ := placed.inside steady.shaped steady.half steady.front front
  refine ⟨index, space, placed.current.active, placed.current.starts, lower, ?_⟩
  simp only [Block.extent, spaceSize, headerSizeBytes]
  omega

theorem contained_step {s s' : Session} {call : Call} (contained : Contained s)
    (allocates : call.Allocates) (fits : RawFits s call) (ok : s.step call = .ok s') :
    Contained s' := by
  have within := front_le_of_firstHalf contained.front
  cases step_allocates contained.steady allocates ok with
  | nullStruct same advances null => rwa [same]
  | nullRaw same refused => rwa [same]
  | struct placed blocks map =>
    exact contained.place blocks placed.placed
      (structPlaced_inActiveSpace contained.steady within placed)
  | raw placed blocks map =>
    exact contained.place blocks placed.placed (fits placed.positive placed.available)

/-- Only the expansion of a layout can fault before a space is chosen. -/
theorem structRequest_error {h : Heap} {layout : Option (List Char)} {fault : Fault}
    (failed : h.structRequest layout = .error fault) : fault = .bufferOverflow := by
  cases layout with
  | none => cases failed
  | some text =>
    simp only [Heap.structRequest] at failed
    cases created : createFormatStr text with
    | error other =>
      rw [created] at failed
      obtain rfl := Except.error.inj failed
      unfold createFormatStr interpretedFormatStr at created
      dsimp only at created
      split at created
      · cases created
      split at created
      · split at created
        · cases created
        · exact (Except.error.inj created).symm
      · cases created
    | ok parsed =>
      rw [created] at failed
      cases parsed with
      | none => cases failed
      | some frmtString =>
        dsimp only [bind, Except.bind] at failed
        split at failed
        · cases failed
        split at failed
        · cases failed
        split at failed
        · cases failed
        split at failed
        · cases failed
        · cases failed

theorem step_ne_outOfBounds {s : Session} {call : Call} (contained : Contained s)
    (allocates : call.Allocates) (fits : RawFits s call) : s.step call ≠ .error .outOfBounds := by
  intro failed
  cases call with
  | hAllocStruct layout =>
    cases request : s.heap.structRequest layout with
    | error fault =>
      have kind := structRequest_error request
      subst kind
      simp [Session.step, Heap.hAllocStruct, request, bind, Except.bind] at failed
    | ok requested =>
      obtain ⟨outcome, allocated⟩ := hAllocStruct_exists contained.steady contained.front request
      simp [Session.step, allocated, bind, Except.bind] at failed
  | hAllocRaw bytes =>
    by_cases admitted : 0 < bytes ∧ bytes ≤ s.heap.hAvail
    · obtain ⟨lower, upper⟩ := inActiveSpace_bounds contained.steady (fits admitted.1 admitted.2)
      have spacesFit := contained.steady.shaped.spacesFit
      simp only [spaceSize] at spacesFit
      dsimp only at lower upper
      obtain ⟨h', allocated⟩ := hAllocRaw_exists contained.steady.shaped admitted.1 admitted.2
        ⟨lower, by omega⟩
      simp [Session.step, allocated, bind, Except.bind] at failed
    · have allocated : s.heap.hAllocRaw bytes = .ok (none, s.heap) := by
        unfold Heap.hAllocRaw
        split
        · rfl
        · rw [if_pos (by omega)]
      simp [Session.step, allocated, bind, Except.bind] at failed
  | write address value => cases allocates
  | hGcDbg stack roots => cases allocates

/-- An admitted raw block that does not fit in the heap's bytes is written over their end. -/
theorem hAllocRaw_outOfBounds {h : Heap} {bytes : ℕ} (front : h.heapStart ≤ h.allocFront)
    (positive : 0 < bytes) (available : bytes ≤ h.hAvail)
    (outside : ¬ h.InBounds h.allocFront (bytes + 16)) : h.hAllocRaw bytes = .error .outOfBounds := by
  unfold Heap.hAllocRaw
  rw [if_neg (by omega), if_neg (by omega)]
  by_cases first : h.InBounds h.allocFront 8
  · rw [store64_of_inBounds first]
    change ((Heap.store64 _ (h.allocFront + headerSizeBytes + bytes) _) >>= _) = _
    rw [Heap.store64, if_neg]
    · rfl
    · intro last
      apply outside
      simp only [Heap.InBounds, Heap.setMem_heapStart, Heap.setMem_size, Heap.advance_heapStart,
        Heap.advance_size, headerSizeBytes] at first last ⊢
      omega
  · rw [Heap.store64, if_neg first]
    rfl

/-- A raw call that stays inside fits in an active space. -/
theorem rawFits_of_staysInside {s : Session} {call : Call} (steady : Steady s.heap)
    (stays : StaysInside s call) : RawFits s call := by
  cases call with
  | hAllocRaw bytes =>
    intro positive available
    by_cases inside : s.heap.InBounds s.heap.allocFront (bytes + 16)
    · obtain ⟨h', allocated⟩ := hAllocRaw_exists steady.shaped positive available inside
      have stepped : s.step (.hAllocRaw bytes) =
          .ok (s.handOut bytes (some (s.heap.allocFront + 8), h')) := by
        simp [Session.step, allocated, bind, Except.bind]
      have placed := (stays.2 _ stepped).inSpace ⟨s.heap.allocFront, bytes⟩ List.mem_cons_self
      rcases hAllocRaw_ok steady.shaped allocated with ⟨absent, _⟩ | ⟨_, written⟩
      · cases absent
      · exact (SameShape.inActiveSpace written.placed.shape).mp placed
    · have failed := hAllocRaw_outOfBounds steady.front positive available inside
      exact (stays.1 (by simp [Session.step, failed, bind, Except.bind])).elim
  | hAllocStruct layout => trivial
  | write address value => trivial
  | hGcDbg stack roots => trivial

/-- A run of allocations stays inside the active spaces exactly when every raw block that it is
granted fits in the active space at the bump pointer. -/
theorem staysInside_iff {h : Heap} (booted : Booted h) {calls : List Call}
    (allocates : ∀ call ∈ calls, call.Allocates) :
    Machine.Along Session.step StaysInside (Session.start h) calls ↔
      Machine.Along Session.step RawFits (Session.start h) calls := by
  have fresh := fresh_of_booted booted
  constructor
  · intro stays
    exact Machine.along_of_invariant (fun s => Steady s.heap)
      (fun steady inside => rawFits_of_staysInside steady inside)
      (fun steady _ ok => step_steady steady ok) stays fresh.steady
  · intro fits
    have along : Machine.Along Session.step (fun s call => call.Allocates ∧ RawFits s call)
        (Session.start h) calls :=
      Machine.Along.and (Machine.along_of_forall fun _ call member => allocates call member) fits
    apply Machine.along_of_invariant Contained ?_ ?_ along (contained_start fresh)
    · rintro s call contained ⟨allowed, fitting⟩
      exact ⟨step_ne_outOfBounds contained allowed fitting,
        fun s' ok => (contained_step contained allowed fitting ok).inside⟩
    · rintro s call s' contained ⟨allowed, fitting⟩ ok
      exact contained_step contained allowed fitting ok

/-- A struct and a small raw block. -/
theorem staysInside_iff_two_blocks :
    Machine.Along Session.step StaysInside (Session.start smallHeap)
        [.hAllocStruct (some "2i".toList), .hAllocRaw 3] ↔
      Machine.Along Session.step RawFits (Session.start smallHeap)
        [.hAllocStruct (some "2i".toList), .hAllocRaw 3] :=
  staysInside_iff booted_smallHeap (by simp [Call.Allocates])

/-- A raw block of all 8192 bytes is granted, and its footer is written behind the heap. -/
theorem not_staysInside_whole_heap :
    smallHeap.hAvail = 8192 ∧
      (Session.start smallHeap).step (.hAllocRaw 8192) = .error .outOfBounds ∧
      ¬ Machine.Along Session.step StaysInside (Session.start smallHeap) [.hAllocRaw 8192] := by
  have failed : (Session.start smallHeap).step (.hAllocRaw 8192) = .error .outOfBounds := rfl
  exact ⟨rfl, failed, fun stays => stays.1.1 failed⟩

end GarbageCollector.Soundness
