import GarbageCollector.Proofs.Session

/-! # Blocks that do not overlap

Until a struct rewinds the bump pointer to the start of its space, the blocks handed out tile the
heap from its start to the bump pointer, so they are apart and no later block touches them. The
first rewind puts a block on top of those that tile its space.
-/

namespace GarbageCollector.Soundness

open Model Proofs

/-- The blocks of a run share no byte, and nothing writes over a block once it is handed out. -/
structure Separate (h : Heap) (calls : List Call) (s : Session) : Prop where
  apart : s.blocks.Pairwise fun later earlier => later.extent.Apart earlier.extent
  kept : ∀ first second middle, calls = first ++ second →
    Machine.run Session.step (Session.start h) first = .ok middle →
    ∀ block ∈ middle.blocks, ∀ address ∈ block.extent.bytes,
      s.heap.mem address = middle.heap.mem address

/-- A call that does not send the bump pointer back to the start of its space. -/
def Advances (s : Session) : Call → Prop
  | .hAllocStruct layout => ¬ Rewinds s.heap layout
  | _ => True

/-- The blocks of a session tile its heap up to the bump pointer. -/
def Tiled (s : Session) : Prop :=
  Extent.Tiles s.heap.heapStart s.heap.allocFront (s.blocks.map Block.extent)

theorem tiled_start {h : Heap} (fresh : Fresh h) : Tiled (Session.start h) := fresh.front

/-- Where an advancing call puts its block. -/
theorem placed_at_front {s s' : Session} {call : Call} (step : AllocStep s s' call)
    (steady : Steady s.heap) (advances : Advances s call) :
    s' = s ∨ ∃ size word, s'.blocks = ⟨s.heap.allocFront, size⟩ :: s.blocks ∧
      Placed s.heap s'.heap s.heap.allocFront size word := by
  cases step with
  | nullStruct same advances null => exact .inl same
  | nullRaw same refused => exact .inl same
  | raw placed blocks map => exact .inr ⟨_, _, blocks, placed.placed⟩
  | struct placed blocks map =>
    rcases placed.header_cases steady.shaped steady.half steady.front with ⟨_, rfl⟩ | ⟨rewinds, _⟩
    · exact .inr ⟨_, _, blocks, placed.placed⟩
    · exact (advances rewinds).elim

/-- An advancing call extends the tiling. -/
theorem tiled_step {s s' : Session} {call : Call} (step : AllocStep s s' call)
    (steady : Steady s.heap) (advances : Advances s call) (tiled : Tiled s) : Tiled s' := by
  rcases placed_at_front step steady advances with rfl | ⟨size, word, blocks, placed⟩
  · exact tiled
  · rw [Tiled, blocks, placed.shape.heapStart, placed.front]
    refine ⟨?_, ?_, tiled⟩
    · simp only [Block.extent, headerSizeBytes]
      omega
    · simp only [Block.extent]
      omega

/-- A call that rewinds hands out a block that meets an earlier one. -/
theorem overlaps_of_rewind {s s' : Session} {call : Call} (step : AllocStep s s' call)
    (steady : Steady s.heap) (tiled : Tiled s) (rewinds : ¬ Advances s call) :
    ∃ block, s'.blocks = block :: s.blocks ∧
      ∃ earlier ∈ s.blocks, ¬ block.extent.Apart earlier.extent := by
  cases step with
  | nullStruct same advances null => exact (rewinds advances).elim
  | nullRaw same refused => exact (rewinds trivial).elim
  | raw placed blocks map => exact (rewinds trivial).elim
  | struct placed blocks map =>
    rcases placed.header_cases steady.shaped steady.half steady.front with
      ⟨advances, _⟩ | ⟨_, rfl, before⟩
    · exact (rewinds advances).elim
    · obtain ⟨_, start, _⟩ := placed.current.bounds steady.shaped steady.half steady.front
      obtain ⟨extent, member, covered⟩ := tiled.covers (by omega) before
      obtain ⟨earlier, old, rfl⟩ := List.mem_map.mp member
      refine ⟨_, blocks, earlier, old, Extent.not_apart_of_mem ?_ covered⟩
      simp only [Extent.mem_bytes, Block.extent, headerSizeBytes]
      omega

/-- Along a run of advancing calls nothing below the first bump pointer changes. -/
theorem kept_below {s s' : Session} {calls : List Call} (steady : Steady s.heap)
    (allocates : ∀ call ∈ calls, call.Allocates)
    (advances : Machine.Along Session.step Advances s calls)
    (ran : Machine.run Session.step s calls = .ok s') {address : ℕ}
    (below : address < s.heap.allocFront) : s'.heap.mem address = s.heap.mem address := by
  have along : Machine.Along Session.step (fun s call => call.Allocates ∧ Advances s call) s calls :=
    Machine.Along.and (Machine.along_of_forall fun _ call member => allocates call member) advances
  apply (Machine.run_invariant (fun s₁ => Steady s₁.heap ∧ s.heap.allocFront ≤ s₁.heap.allocFront ∧
    s₁.heap.mem address = s.heap.mem address) ?_ along ⟨steady, le_rfl, rfl⟩ ran).2.2
  rintro s₁ call s₂ ⟨steady₁, front, same⟩ ⟨allowed, advancing⟩ ok
  refine ⟨step_steady steady₁ ok, ?_⟩
  rcases placed_at_front (step_allocates steady₁ allowed ok) steady₁ advancing with
    rfl | ⟨size, word, _, placed⟩
  · exact ⟨front, same⟩
  · rw [placed.front, placed.mem_outside (.inl (by omega)), same]
    exact ⟨by omega, rfl⟩

/-- Along a run of advancing calls the blocks stay a tiling. -/
theorem tiled_run {s s' : Session} {calls : List Call} (steady : Steady s.heap)
    (allocates : ∀ call ∈ calls, call.Allocates)
    (advances : Machine.Along Session.step Advances s calls) (tiled : Tiled s)
    (ran : Machine.run Session.step s calls = .ok s') : Tiled s' := by
  have along : Machine.Along Session.step (fun s call => call.Allocates ∧ Advances s call) s calls :=
    Machine.Along.and (Machine.along_of_forall fun _ call member => allocates call member) advances
  apply (Machine.run_invariant (fun s₁ => Steady s₁.heap ∧ Tiled s₁) ?_ along ⟨steady, tiled⟩ ran).2
  rintro s₁ call s₂ ⟨steady₁, tiled₁⟩ ⟨allowed, advancing⟩ ok
  exact ⟨step_steady steady₁ ok,
    tiled_step (step_allocates steady₁ allowed ok) steady₁ advancing tiled₁⟩

/-- The blocks of a run are separate exactly when none of its calls rewinds the bump pointer. -/
theorem separate_iff {h : Heap} (booted : Booted h) {calls : List Call}
    (allocates : ∀ call ∈ calls, call.Allocates) {s : Session}
    (ran : Machine.run Session.step (Session.start h) calls = .ok s) :
    Separate h calls s ↔ Machine.Along Session.step Advances (Session.start h) calls := by
  have fresh := fresh_of_booted booted
  constructor
  · intro separate
    by_contra broken
    obtain ⟨leading, call, rest, middle, rfl, advances, led, rewinds⟩ :=
      Machine.exists_first_violation broken
    obtain ⟨_, led', followed⟩ := Machine.run_append_ok_iff.mp ran
    cases led.symm.trans led'
    obtain ⟨next, stepped, tail⟩ := Machine.run_cons_ok_iff.mp followed
    simp only [List.mem_append, List.mem_cons] at allocates
    have allocatesLeading := fun call member => allocates call (.inl member)
    have steady := run_steady fresh.steady led
    have tiled := tiled_run fresh.steady allocatesLeading advances (tiled_start fresh) led
    obtain ⟨block, blocks, earlier, old, meets⟩ := overlaps_of_rewind
      (step_allocates steady (allocates call (.inr (.inl rfl))) stepped) steady tiled rewinds
    obtain ⟨new, grown⟩ := run_blocks (step_steady steady stepped)
      (fun other member => allocates other (.inr (.inr member))) tail
    have apart := separate.apart
    rw [grown, blocks, List.pairwise_append] at apart
    exact meets (List.rel_of_pairwise_cons apart.2.1 old)
  · intro advances
    constructor
    · have tiled := tiled_run fresh.steady allocates advances (tiled_start fresh) ran
      exact List.pairwise_map.mp tiled.pairwise_apart
    · rintro first second middle rfl led block member address inside
      obtain ⟨_, led', followed⟩ := Machine.run_append_ok_iff.mp ran
      cases led.symm.trans led'
      obtain ⟨advancesFirst, advancesSecond⟩ := Machine.along_append_iff.mp advances
      have allocatesFirst := fun call member => allocates call (List.mem_append_left second member)
      have tiled := tiled_run fresh.steady allocatesFirst advancesFirst (tiled_start fresh) led
      have below := (tiled.within _ (List.mem_map_of_mem member)).2
      exact kept_below (run_steady fresh.steady led)
        (fun call member => allocates call (List.mem_append_right first member))
        (advancesSecond _ led) followed (inside.2.trans_le below)

/-- Two small blocks next to each other are separate exactly because no call rewinds. -/
theorem separate_iff_two_blocks : ∃ s,
    Machine.run Session.step (Session.start smallHeap)
      [.hAllocStruct (some "2i".toList), .hAllocRaw 3] = .ok s ∧
    (Separate smallHeap [.hAllocStruct (some "2i".toList), .hAllocRaw 3] s ↔
      Machine.Along Session.step Advances (Session.start smallHeap)
        [.hAllocStruct (some "2i".toList), .hAllocRaw 3]) := by
  obtain ⟨s, ran, _⟩ := exists_of_toOption (Machine.run Session.step
    (Session.start smallHeap) [.hAllocStruct (some "2i".toList), .hAllocRaw 3])
    (fun s => s.heap.allocFront) 65579 (by decide +kernel)
  exact ⟨s, ran, separate_iff booted_smallHeap (by simp [Call.Allocates]) ran⟩

/-- Nine structs of 216 bytes: the ninth does not fit behind the others and lands on the first. -/
theorem exists_not_separate : ∃ s,
    Machine.run Session.step (Session.start smallHeap)
      (List.replicate 9 (.hAllocStruct (some "54i".toList))) = .ok s ∧
    ¬ Separate smallHeap (List.replicate 9 (.hAllocStruct (some "54i".toList))) s := by
  obtain ⟨s, ran, blocks⟩ := exists_of_toOption (Machine.run Session.step
    (Session.start smallHeap) (List.replicate 9 (.hAllocStruct (some "54i".toList))))
    (fun s => s.blocks)
    (⟨65536, 216⟩ :: (List.range 8).reverse.map fun i => ⟨65536 + 232 * i, 216⟩)
    (by decide +kernel)
  refine ⟨s, ran, fun separate => ?_⟩
  have apart := separate.apart
  rw [blocks] at apart
  have meets : Extent.Apart (Block.extent ⟨65536, 216⟩) (Block.extent ⟨65536, 216⟩) :=
    List.rel_of_pairwise_cons apart (by decide)
  have covered : 65536 ∈ (Block.extent ⟨65536, 216⟩).bytes := by decide
  exact Extent.not_apart_of_mem covered covered meets

end GarbageCollector.Soundness
