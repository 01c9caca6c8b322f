import GarbageCollector.Machine.Outcome
import GarbageCollector.Proofs.Watermark
import GarbageCollector.Soundness.StaleMarks

/-! # The half of the heap that stays passive

`h_gc_dbg` flips the spaces twice, so the half that `h_init` leaves inactive is inactive for ever: no block
and no mark gets there and no pointer into it is taken for a root. Only its first bytes can be written at all,
by the copy of an object whose size byte is larger than its block. Marks are never cleared, so what is once
taken for a root always is.
-/

namespace GarbageCollector.Soundness

open Model Proofs

/-- Where the active half of the heap ends. -/
def halfway (h : Heap) : ℕ := h.heapStart + h.numberOfSpaces / 2 * 2048

/-- A heap whose second half is neither allocated, nor marked, nor written behind its first 247 bytes. -/
structure Confined (h : Heap) (blocks : List Block) : Prop where
  half : FirstHalf h blocks
  marks : ∀ i, Marked h.allocMap i → i < h.numberOfSpaces / 2 * 128
  zero : ∀ address, halfway h + 247 ≤ address → h.mem address = 0

/-- What a client can see of the second half. -/
structure PassiveHalf (s : Session) : Prop where
  flags : HalfActive s.heap
  front : s.heap.allocFront ≤ halfway s.heap
  blocks : ∀ block ∈ s.blocks, s.heap.heapStart ≤ block.extent.start ∧ block.extent.stop ≤ halfway s.heap
  roots : ∀ ptr, s.heap.validatePtr ptr = .ok true → ptr < halfway s.heap
  zero : ∀ address, halfway s.heap + 247 ≤ address → s.heap.mem address = 0

section Confinement

variable {h h' : Heap} {blocks : List Block}

theorem SameShape.halfway_eq (same : SameShape h h') : halfway h' = halfway h := by
  simp only [halfway, same.heapStart, same.numberOfSpaces]

theorem Confined.start (booted : Booted h) : Confined h [] := by
  have fresh := fresh_of_booted booted
  exact ⟨firstHalf_of_reachable ⟨h, booted, [], by simp, rfl⟩,
    fun i marked => (fresh.not_marked i marked).elim, fun address _ => fresh.zero address⟩

/-- The marks of one struct stay in the first half. -/
theorem marks_of_structPlaced {layout : Option (List Char)} {size header index space : ℕ} {word : Word}
    (half : FirstHalf h blocks) (marks : ∀ i, Marked h.allocMap i → i < h.numberOfSpaces / 2 * 128)
    (placed : StructPlaced h h' layout size header index space word) (i : ℕ) (marked : Marked h'.allocMap i) :
    i < h'.numberOfSpaces / 2 * 128 := by
  rw [placed.placed.shape.numberOfSpaces]
  obtain ⟨_, _, lower, upper⟩ := placed.firstHalf half.steady half.within
  rcases marked_of_structPlaced half.steady half.within placed marked with old | ⟨address, inside, rfl⟩
  · exact marks i old
  · simp only [Block.extent, headerSizeBytes, Extent.mem_bytes] at inside
    omega

/-- One more struct stays in the first half. -/
theorem Confined.place {layout : Option (List Char)} {size header index space : ℕ} {word : Word}
    (confined : Confined h blocks) (placed : StructPlaced h h' layout size header index space word) :
    Confined h' (⟨header, size⟩ :: blocks) := by
  obtain ⟨_, _, lower, upper⟩ := placed.firstHalf confined.half.steady confined.half.within
  refine ⟨confined.half.place placed fun _ => List.mem_cons.mp,
    marks_of_structPlaced confined.half confined.marks placed, fun address past => ?_⟩
  rw [SameShape.halfway_eq placed.placed.shape] at past
  rw [placed.placed.mem_outside (.inr (by simp only [halfway] at past; omega)), confined.zero address past]

/-- What the loop over the roots keeps: marks in the first half, and zeros behind the copies. -/
structure CopiesConfined (bound : ℕ) (c : Collection) : Prop where
  below : CopiesBelow bound c
  marks : ∀ i, Marked c.heap.allocMap i → i < c.heap.numberOfSpaces / 2 * 128

theorem CopiesConfined.root {bound : ℕ} {c c' : Collection} {root : ℕ} (copies : CopiesConfined bound c)
    (ok : garbageCollection c root = .ok c') : CopiesConfined bound c' := by
  have half := copies.below.half
  refine ⟨copies.below.root ok, ?_⟩
  cases garbageCollection_ok half.steady.shaped half.steady.half ok with
  | skipped same => rw [same]; exact copies.marks
  | forwarded value found same => rw [same]; exact copies.marks
  | evacuated header found h layout newHeader size done =>
    obtain ⟨index, space, word, placed⟩ := done.placed
    obtain ⟨mem, changed⟩ := done.heap_eq
    have marks := marks_of_structPlaced half copies.marks placed
    rw [changed]
    exact marks

/-- A collection copies nothing far behind the first half. -/
theorem Confined.collect {stack : Stack} {visited : List ℕ} {collected : Collection}
    (confined : Confined h blocks)
    (ran : Machine.run garbageCollection ⟨(h.setFront h.heapStart).resetUsed, stack, []⟩ visited = .ok collected) :
    Confined collected.heap (collected.evacuated.map Evacuation.block).reverse := by
  have steady := confined.half.steady
  have prepared : CopiesConfined (halfway h + 247) ⟨(h.setFront h.heapStart).resetUsed, stack, []⟩ :=
    ⟨⟨⟨steady.prepared, Nat.le_add_right _ _, fun block member => by cases member⟩,
      fun address past _ => confined.zero address past⟩, confined.marks⟩
  have copies := Machine.run_preserves (CopiesConfined (halfway h + 247)) CopiesConfined.root prepared ran
  have half := copies.below.half
  have same : halfway collected.heap = halfway h :=
    (collection_induction steady.prepared (fun c => halfway c.heap = halfway h)
      (SameShape.halfway_eq (.prepared h))
      (fun _ _ same step => (SameShape.halfway_eq step.sameShape).trans same) ran).2
  refine ⟨⟨half.steady, half.within, fun block member => half.blocks block (List.mem_reverse.mp member)⟩,
    copies.marks, fun address past => copies.below.zero address (by omega) fun event member => ?_⟩
  have inside := (half.blocks event.block (List.mem_map_of_mem member)).2
  simp only [halfway] at past
  simp only [copyEnd]
  omega

end Confinement

section Sessions

variable {s s' : Session}

theorem Confined.step {call : Call} (confined : Confined s.heap s.blocks) (structOnly : call.StructOnly)
    (ok : s.step call = .ok s') : Confined s'.heap s'.blocks := by
  have steady := confined.half.steady
  cases call with
  | hAllocStruct layout =>
    cases step_hAllocStruct steady ok with
    | nullStruct same advances null => rwa [same]
    | struct placed blocks map =>
      rw [blocks]
      exact confined.place placed
  | hAllocRaw bytes => cases structOnly
  | write address value =>
    have below (block : Block) (member : block ∈ s.blocks) :
        block.header + 8 + block.size ≤ halfway s.heap + 247 := by
      have stop := (confined.half.blocks block member).2
      simp only [halfway]
      omega
    obtain ⟨_, rfl⟩ := step_write ok
    exact ⟨confined.half.setMem _, confined.marks,
      fun address past => zero_past_write below ok past (confined.zero address past)⟩
  | hGcDbg stack roots =>
    obtain ⟨_, collected, _, ran, rfl⟩ := step_hGcDbg steady ok
    exact confined.collect ran

theorem confined_of_reachable (reachable : Reachable Call.StructOnly s) : Confined s.heap s.blocks :=
  (reachable_induction reachable (fun s => Confined s.heap s.blocks) (fun _ booted => .start booted)
    fun _ confined structOnly ok => confined.step structOnly ok).2

/-- A collection clears no mark. -/
theorem marked_of_run {c c' : Collection} {visited : List ℕ} (steady : Steady c.heap)
    (ran : Machine.run garbageCollection c visited = .ok c') {i : ℕ} (marked : Marked c.heap.allocMap i) :
    Marked c'.heap.allocMap i := by
  apply (collection_induction steady (fun c => Marked c.heap.allocMap i) marked ?_ ran).2
  intro c₁ c₂ root _ _ kept step
  cases step with
  | skipped same => rwa [same]
  | forwarded value found same => rwa [same]
  | evacuated header found h layout newHeader size done =>
    obtain ⟨index, space, word, placed⟩ := done.placed
    obtain ⟨mem, changed⟩ := done.heap_eq
    rw [changed]
    exact placed.marked_of_old kept

/-- What `validate_ptr` accepts, it accepts after any further call. -/
theorem validatePtr_step {call : Call} (steady : Steady s.heap) (structOnly : call.StructOnly)
    (ok : s.step call = .ok s') {ptr : ℕ} (accepted : s.heap.validatePtr ptr = .ok true) :
    s'.heap.validatePtr ptr = .ok true := by
  have now := (steady.shaped.validatePtr_iff ptr).mp accepted
  have later : SameShape s.heap s'.heap ∧
      ∀ i, Marked s.heap.allocMap i → Marked s'.heap.allocMap i := by
    cases call with
    | hAllocStruct layout =>
      cases step_hAllocStruct steady ok with
      | nullStruct same advances null => rw [same]; exact ⟨.refl _, fun _ => id⟩
      | struct placed blocks map => exact ⟨placed.placed.shape, fun _ => placed.marked_of_old⟩
    | hAllocRaw bytes => cases structOnly
    | write address value =>
      obtain ⟨_, rfl⟩ := step_write ok
      exact ⟨.setMem _ _, fun _ => id⟩
    | hGcDbg stack roots =>
      obtain ⟨_, collected, _, ran, rfl⟩ := step_hGcDbg steady ok
      refine ⟨?_, fun _ marked => marked_of_run steady.prepared ran marked⟩
      exact (collection_induction steady.prepared (fun c => SameShape s.heap c.heap) (.prepared s.heap)
        (fun _ _ same step => same.trans step.sameShape) ran).2
  obtain ⟨same, kept⟩ := later
  rw [(same.shaped steady.shaped).validatePtr_iff, same.heapStart, same.numberOfSpaces]
  exact ⟨now.1, now.2.1, kept _ now.2.2⟩

/-- In every state that is reached without raw blocks the second half of the heap is passive, and whatever
`validate_ptr` accepts then, it accepts ever after. -/
theorem passiveHalf_of_reachable (reachable : Reachable Call.StructOnly s) {calls : List Call}
    (structOnly : ∀ call ∈ calls, call.StructOnly) (ran : Machine.run Session.step s calls = .ok s') :
    PassiveHalf s ∧ ∀ ptr, s.heap.validatePtr ptr = .ok true → s'.heap.validatePtr ptr = .ok true := by
  have confined := confined_of_reachable reachable
  have steady := confined.half.steady
  refine ⟨⟨steady.half, confined.half.within, fun block member => ?_, fun ptr accepted => ?_, confined.zero⟩,
    fun ptr accepted => ?_⟩
  · have inside := confined.half.blocks block member
    simp only [Block.extent, headerSizeBytes, halfway]
    omega
  · obtain ⟨after, _, marked⟩ := (steady.shaped.validatePtr_iff ptr).mp accepted
    have early := confined.marks _ marked
    simp only [halfway]
    omega
  · have along : Machine.Along Session.step (fun _ call => call.StructOnly) s calls :=
      Machine.along_of_forall fun _ call member => structOnly call member
    apply (Machine.run_invariant (fun s => Steady s.heap ∧ s.heap.validatePtr ptr = .ok true) ?_ along
      ⟨steady, accepted⟩ ran).2
    rintro s₁ call s₂ ⟨steady₁, kept⟩ allowed ok
    exact ⟨step_steady steady₁ ok, validatePtr_step steady₁ allowed ok kept⟩

end Sessions

/-- Two objects and a collection from a root into the second one. -/
def collectedOnce : List Call :=
  [.hAllocStruct (some "4i".toList), .hAllocStruct (some "4i".toList), .hGcDbg (fun _ => 65576) [8, 16]]

theorem passiveHalf_collectedOnce : ∃ s s',
    Machine.run Session.step (Session.start smallHeap) collectedOnce = .ok s ∧
    Machine.run Session.step s [.hAllocStruct (some "*i".toList)] = .ok s' ∧
    (PassiveHalf s ∧ ∀ ptr, s.heap.validatePtr ptr = .ok true → s'.heap.validatePtr ptr = .ok true) := by
  obtain ⟨s', ran⟩ : ∃ s', Machine.run Session.step (Session.start smallHeap)
      (collectedOnce ++ [.hAllocStruct (some "*i".toList)]) = .ok s' :=
    Machine.exists_of_isOk (by decide +kernel)
  obtain ⟨s, first, second⟩ := Machine.run_append_ok_iff.mp ran
  exact ⟨s, s', first, second, passiveHalf_of_reachable
    ⟨smallHeap, booted_smallHeap, collectedOnce, by simp [collectedOnce, Call.StructOnly], first⟩
    (by simp [Call.StructOnly]) second⟩

end GarbageCollector.Soundness
