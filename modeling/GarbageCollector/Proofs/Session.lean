import GarbageCollector.Proofs.Boot
import GarbageCollector.Proofs.Collect

/-! # Steps and runs of a session

What each call does to a session, and the facts that every run keeps: the shape of the heap, the
activity of its first half and a bump pointer that is not before the first space. Runs without
raw allocations also keep the bump pointer inside the first half.
-/

namespace GarbageCollector.Proofs

open Model

/-- What every reachable heap satisfies. -/
structure Steady (h : Heap) : Prop where
  shaped : Shaped h
  half : HalfActive h
  front : h.heapStart ≤ h.allocFront

theorem Fresh.steady {h : Heap} (fresh : Fresh h) : Steady h :=
  ⟨fresh.shaped, fresh.half, fresh.front.ge⟩

/-- The first half of the spaces is part of all of them. -/
theorem front_le_of_firstHalf {h : Heap}
    (within : h.allocFront ≤ h.heapStart + h.numberOfSpaces / 2 * 2048) :
    h.allocFront ≤ h.heapStart + h.numberOfSpaces * 2048 :=
  within.trans (Nat.add_le_add_left (Nat.mul_le_mul_right _ (Nat.div_le_self _ _)) _)

/-- Twice the size of a heap still fits a counter, with room to spare. -/
theorem Steady.size_le {h : Heap} (steady : Steady h) : h.size ≤ 2 ^ 63 - 4096 := by
  have pages := steady.shaped.wholePages
  have bounded := steady.shaped.bounded
  simp only [spaceSize] at pages
  omega

theorem SameShape.steady {h h' : Heap} (same : SameShape h h') (steady : Steady h)
    (front : h.heapStart ≤ h'.allocFront) : Steady h' :=
  ⟨same.shaped steady.shaped, same.halfActive steady.half, same.heapStart.le.trans front⟩

/-- A struct placed from the first half of the spaces stays there, and the bump pointer with it. -/
theorem StructPlaced.firstHalf {h h' : Heap} {layout : Option (List Char)}
    {size header index space : ℕ} {word : Word} (steady : Steady h)
    (within : h.allocFront ≤ h.heapStart + h.numberOfSpaces / 2 * 2048)
    (placed : StructPlaced h h' layout size header index space word) :
    Steady h' ∧ h'.allocFront ≤ h'.heapStart + h'.numberOfSpaces / 2 * 2048 ∧ h.heapStart ≤ header ∧
      header + size + 16 ≤ h.heapStart + h.numberOfSpaces / 2 * 2048 := by
  have same := placed.placed.shape
  have front := placed.placed.front
  have inHeap := front_le_of_firstHalf within
  obtain ⟨lower, upper⟩ := placed.inside steady.shaped steady.half steady.front inHeap
  obtain ⟨early, start, _⟩ := placed.current.bounds steady.shaped steady.half steady.front
  refine ⟨same.steady steady (by omega), ?_, by omega, by omega⟩
  rw [front, same.heapStart, same.numberOfSpaces]
  omega

/-- A call of an allocator: it returned `NULL`, or it handed out one block. -/
inductive AllocStep (s s' : Session) : Call → Prop where
  | nullStruct {layout : Option (List Char)} (same : s' = s) (advances : ¬ Rewinds s.heap layout)
      (null : s.heap.hAllocStruct layout = .ok (none, s.heap)) : AllocStep s s' (.hAllocStruct layout)
  | nullRaw {bytes : ℕ} (same : s' = s) (refused : bytes = 0 ∨ s.heap.hAvail < bytes) :
      AllocStep s s' (.hAllocRaw bytes)
  | struct {layout : Option (List Char)} {size header index space : ℕ} {word : Word}
      (placed : StructPlaced s.heap s'.heap layout size header index space word)
      (blocks : s'.blocks = ⟨header, size⟩ :: s.blocks)
      (map : s'.mapAtCollection = s.mapAtCollection) : AllocStep s s' (.hAllocStruct layout)
  | raw {bytes : ℕ} (placed : RawPlaced s.heap s'.heap bytes)
      (blocks : s'.blocks = ⟨s.heap.allocFront, bytes⟩ :: s.blocks)
      (map : s'.mapAtCollection = s.mapAtCollection) : AllocStep s s' (.hAllocRaw bytes)

variable {s s' : Session} {call : Call}

theorem step_hAllocStruct (steady : Steady s.heap) {layout : Option (List Char)}
    (ok : s.step (.hAllocStruct layout) = .ok s') : AllocStep s s' (.hAllocStruct layout) := by
  obtain ⟨⟨result, h⟩, allocated, same⟩ := bind_ok_iff.mp ok
  obtain rfl := Except.ok.inj same
  rcases hAllocStruct_ok steady.shaped steady.half allocated with ⟨rfl, rfl, advances⟩ | placement
  · exact .nullStruct rfl advances allocated
  · obtain ⟨size, header, index, space, word, rfl, placed⟩ := placement
    refine .struct placed ?_ rfl
    rw [layoutBytes_of_structRequest placed.request]
    rfl

theorem step_hAllocRaw (steady : Steady s.heap) {bytes : ℕ}
    (ok : s.step (.hAllocRaw bytes) = .ok s') : AllocStep s s' (.hAllocRaw bytes) := by
  obtain ⟨⟨result, h⟩, allocated, same⟩ := bind_ok_iff.mp ok
  obtain rfl := Except.ok.inj same
  rcases hAllocRaw_ok steady.shaped allocated with ⟨rfl, rfl, refused⟩ | ⟨rfl, placed⟩
  · exact .nullRaw rfl refused
  · exact .raw placed rfl rfl

theorem step_allocates (steady : Steady s.heap) (allocates : call.Allocates)
    (ok : s.step call = .ok s') : AllocStep s s' call := by
  cases call with
  | hAllocStruct layout => exact step_hAllocStruct steady ok
  | hAllocRaw bytes => exact step_hAllocRaw steady ok
  | write address value => cases allocates
  | hGcDbg stack roots => cases allocates

/-- A write stays inside the data of some object. -/
theorem step_write {address : ℕ} {value : BitVec 8} (ok : s.step (.write address value) = .ok s') :
    s.Owns address ∧
      s' = { s with heap := s.heap.setMem (Function.update s.heap.mem address value) } := by
  simp only [Session.step] at ok
  split at ok
  · next owned => exact ⟨owned, (Except.ok.inj ok).symm⟩
  · cases ok

/-- A collection replaces the record by the blocks of the objects it moved. -/
theorem step_hGcDbg (steady : Steady s.heap) {stack : Stack} {roots : List ℕ}
    (ok : s.step (.hGcDbg stack roots) = .ok s') :
    ∃ freed collected, hGcDbg s.heap stack roots = .ok (freed, collected) ∧
      Machine.run garbageCollection ⟨(s.heap.setFront s.heap.heapStart).resetUsed, stack, []⟩
        (visitedRoots roots) = .ok collected ∧
      s' = ⟨collected.heap, (collected.evacuated.map Evacuation.block).reverse, s.heap.allocMap⟩ := by
  obtain ⟨⟨freed, collected⟩, done, same⟩ := bind_ok_iff.mp ok
  obtain rfl := Except.ok.inj same
  exact ⟨freed, collected, done, (hGcDbg_ok steady.shaped steady.half done).1, rfl⟩

/-- One block placed by an allocator, whichever it was. -/
theorem AllocStep.cases_placed (step : AllocStep s s' call) :
    s' = s ∨ ∃ block word, s'.blocks = block :: s.blocks ∧
      Placed s.heap s'.heap block.header block.size word := by
  cases step with
  | nullStruct same advances null => exact .inl same
  | nullRaw same refused => exact .inl same
  | struct placed blocks map => exact .inr ⟨_, _, blocks, placed.placed⟩
  | raw placed blocks map => exact .inr ⟨_, _, blocks, placed.placed⟩

theorem AllocStep.steady (step : AllocStep s s' call) (steady : Steady s.heap) : Steady s'.heap := by
  rcases step.cases_placed with rfl | ⟨block, word, _, placed⟩
  · exact steady
  · apply placed.shape.steady steady
    have inside := placed.inside.1
    rw [placed.front]
    omega

theorem Evacuated.steady {c c' : Collection} {root header newHeader size : ℕ} {h : Heap}
    {layout : List Char} (done : Evacuated c c' root header h layout newHeader size)
    (steady : Steady c.heap) : Steady c'.heap := by
  obtain ⟨index, space, word, placed⟩ := done.placed
  apply done.sameShape.steady steady
  have inside := placed.placed.inside.1
  rw [done.front]
  omega

theorem garbageCollection_steady {c c' : Collection} {root : ℕ} (steady : Steady c.heap)
    (ok : garbageCollection c root = .ok c') : Steady c'.heap := by
  cases garbageCollection_ok steady.shaped steady.half ok with
  | skipped same => rwa [same]
  | forwarded value found same => rwa [same]
  | evacuated header found h layout newHeader size done => exact done.steady steady

/-- The invariant rule for a loop over roots. -/
theorem collection_induction {c c' : Collection} {visited : List ℕ} (steady : Steady c.heap)
    (invariant : Collection → Prop) (initial : invariant c)
    (kept : ∀ {c₁ c₂ root}, root ∈ visited → Steady c₁.heap → invariant c₁ → RootStep c₁ c₂ root →
      invariant c₂)
    (ran : Machine.run garbageCollection c visited = .ok c') : Steady c'.heap ∧ invariant c' := by
  have along : Machine.Along garbageCollection (fun _ root => root ∈ visited) c visited :=
    Machine.along_of_forall fun _ _ member => member
  apply Machine.run_invariant (fun c => Steady c.heap ∧ invariant c) ?_ along ⟨steady, initial⟩ ran
  rintro c₁ root c₂ ⟨steady₁, holds⟩ member ok
  refine ⟨garbageCollection_steady steady₁ ok, ?_⟩
  exact kept member steady₁ holds (garbageCollection_ok steady₁.shaped steady₁.half ok)

theorem run_garbageCollection_steady {c c' : Collection} {visited : List ℕ} (steady : Steady c.heap)
    (ran : Machine.run garbageCollection c visited = .ok c') : Steady c'.heap :=
  Machine.run_preserves (fun c => Steady c.heap) garbageCollection_steady steady ran

/-- The events recorded so far are never dropped. -/
theorem evacuated_prefix {c c' : Collection} {visited : List ℕ} (steady : Steady c.heap)
    (ran : Machine.run garbageCollection c visited = .ok c') :
    ∃ events, c'.evacuated = c.evacuated ++ events := by
  apply (collection_induction steady (fun c₁ => ∃ events, c₁.evacuated = c.evacuated ++ events)
    ⟨[], by simp⟩ ?_ ran).2
  rintro c₁ c₂ root _ _ ⟨events, grown⟩ step
  cases step with
  | skipped same => exact ⟨events, by rw [same, grown]⟩
  | forwarded value found same => exact ⟨events, by rw [same, grown]⟩
  | evacuated header found h layout newHeader size done =>
    exact ⟨events ++ [⟨header, newHeader, size⟩], by rw [done.evacuated, grown, List.append_assoc]⟩

theorem Steady.prepared {h : Heap} (steady : Steady h) :
    Steady (h.setFront h.heapStart).resetUsed :=
  (SameShape.prepared h).steady steady le_rfl

/-- Every step keeps the heap steady. -/
theorem step_steady (steady : Steady s.heap) (ok : s.step call = .ok s') : Steady s'.heap := by
  cases call with
  | hAllocStruct layout => exact (step_hAllocStruct steady ok).steady steady
  | hAllocRaw bytes => exact (step_hAllocRaw steady ok).steady steady
  | write address value =>
    obtain ⟨_, rfl⟩ := step_write ok
    exact (SameShape.setMem s.heap _).steady steady steady.front
  | hGcDbg stack roots =>
    obtain ⟨_, collected, _, ran, rfl⟩ := step_hGcDbg steady ok
    exact run_garbageCollection_steady steady.prepared ran

theorem run_steady {calls : List Call} (steady : Steady s.heap)
    (ran : Machine.run Session.step s calls = .ok s') : Steady s'.heap :=
  Machine.run_preserves (fun s => Steady s.heap) step_steady steady ran

/-- Without collections the record only grows. -/
theorem run_blocks {calls : List Call} (steady : Steady s.heap)
    (allocates : ∀ call ∈ calls, call.Allocates)
    (ran : Machine.run Session.step s calls = .ok s') : ∃ new, s'.blocks = new ++ s.blocks := by
  have along : Machine.Along Session.step (fun _ call => call.Allocates) s calls :=
    Machine.along_of_forall fun _ call member => allocates call member
  apply (Machine.run_invariant (fun s₁ => Steady s₁.heap ∧ ∃ new, s₁.blocks = new ++ s.blocks)
    ?_ along ⟨steady, [], rfl⟩ ran).2
  rintro s₁ call s₂ ⟨steady, new, grown⟩ allowed ok
  refine ⟨step_steady steady ok, ?_⟩
  rcases (step_allocates steady allowed ok).cases_placed with rfl | ⟨block, _, blocks, _⟩
  · exact ⟨new, grown⟩
  · exact ⟨block :: new, by rw [blocks, grown, List.cons_append]⟩

/-- The invariant rule for the states that calls of one kind reach. -/
theorem reachable_induction {kind : Call → Prop} (reachable : Reachable kind s)
    (invariant : Session → Prop)
    (initial : ∀ h, Booted h → invariant (Session.start h))
    (kept : ∀ {s s' call}, Steady s.heap → invariant s → kind call → s.step call = .ok s' →
      invariant s') : Steady s.heap ∧ invariant s := by
  obtain ⟨h, booted, calls, kinds, ran⟩ := reachable
  have along : Machine.Along Session.step (fun _ call => kind call) (Session.start h) calls :=
    Machine.along_of_forall fun _ call member => kinds call member
  apply Machine.run_invariant (fun s => Steady s.heap ∧ invariant s) ?_ along
    ⟨(fresh_of_booted booted).steady, initial h booted⟩ ran
  rintro s call s' ⟨steady, holds⟩ allowed ok
  exact ⟨step_steady steady ok, kept steady holds allowed ok⟩

theorem steady_of_reachable {kind : Call → Prop} (reachable : Reachable kind s) :
    Steady s.heap :=
  (reachable_induction reachable (fun _ => True) (fun _ _ => trivial) fun _ _ _ _ => trivial).1

/-- What a completed evaluation says about its result. -/
theorem exists_of_toOption {α β : Type} (result : Except Fault α) (view : α → β) (value : β)
    (found : result.toOption.map view = some value) : ∃ a, result = .ok a ∧ view a = value := by
  cases result with
  | error fault => cases found
  | ok a => exact ⟨a, rfl, Option.some.inj found⟩

end GarbageCollector.Proofs
