import GarbageCollector.Soundness.Relocation

/-! # Marks that outlive their objects

No collection clears the allocation map. Every mark made since a collection began lies in a segment
of a block allocated or evacuated since; the marks that the collection found stay whether or not
their segments meet such a block.
-/

namespace GarbageCollector.Soundness

open Model Proofs

/-- Segment `i` shares a byte with one of the blocks. -/
def Meets (heapStart : ℕ) (blocks : List Block) (i : ℕ) : Prop :=
  ∃ block ∈ blocks, ∃ address ∈ block.extent.bytes, (address - heapStart) / 16 = i

/-- `validate_ptr` accepts only addresses whose segment meets a block allocated or evacuated since
the latest collection began. -/
def NoStaleMarks (s : Session) : Prop :=
  ∀ address, s.heap.validatePtr address = .ok true →
    Meets s.heap.heapStart s.blocks ((address - s.heap.heapStart) / 16)

/-- Every segment that was marked when the latest collection began meets a block since. -/
def OldMarksMet (s : Session) : Prop :=
  ∀ i, Marked s.mapAtCollection i → Meets s.heap.heapStart s.blocks i

/-- A collection that begins while no segment is marked. -/
def CollectsUnmarked (s : Session) : Call → Prop
  | .hGcDbg _ _ => ∀ i, ¬ Marked s.heap.allocMap i
  | _ => True

/-- How the marks of a heap relate to the blocks since a collection and to the map it found. -/
structure MarksMeet (h : Heap) (blocks : List Block) (old : List Word) : Prop where
  steady : Steady h
  within : h.allocFront ≤ h.heapStart + h.numberOfSpaces / 2 * 2048
  bounded : ∀ i, Marked h.allocMap i → i < h.numberOfSpaces * 128
  kept : ∀ i, Marked old i → Marked h.allocMap i
  meet : ∀ i, Marked h.allocMap i → Marked old i ∨ Meets h.heapStart blocks i

theorem Meets.mono {heapStart i : ℕ} {blocks more : List Block}
    (meets : Meets heapStart blocks i) (subset : blocks ⊆ more) : Meets heapStart more i :=
  let ⟨block, member, rest⟩ := meets
  ⟨block, subset member, rest⟩

/-- A segment between the first and the last one of a block meets it. -/
theorem exists_mem_segment {heapStart header size i : ℕ} (above : heapStart ≤ header)
    (lower : (header - heapStart) / 16 ≤ i) (upper : i * 16 < header - heapStart + size + 16) :
    ∃ address ∈ (Block.extent ⟨header, size⟩).bytes, (address - heapStart) / 16 = i := by
  simp only [Block.extent, headerSizeBytes, Extent.mem_bytes]
  rcases Nat.lt_or_ge (heapStart + i * 16) header with before | after
  · exact ⟨header, ⟨le_rfl, by omega⟩, by omega⟩
  · exact ⟨heapStart + i * 16, ⟨after, by omega⟩, by omega⟩

/-- The marks of one struct lie in segments of its block. -/
theorem marked_of_structPlaced {h h' : Heap} {layout : Option (List Char)}
    {size header index space : ℕ} {word : Word} (steady : Steady h)
    (within : h.allocFront ≤ h.heapStart + h.numberOfSpaces / 2 * 2048)
    (placed : StructPlaced h h' layout size header index space word) {i : ℕ}
    (marked : Marked h'.allocMap i) :
    Marked h.allocMap i ∨
      ∃ address ∈ (Block.extent ⟨header, size⟩).bytes, (address - h.heapStart) / 16 = i := by
  have front := steady.front
  have inHeap := front_le_of_firstHalf within
  obtain ⟨lower, upper⟩ := placed.inside steady.shaped steady.half front inHeap
  obtain ⟨_, start, le⟩ := placed.current.bounds steady.shaped steady.half front
  have index_eq := placed.current.index_eq steady.shaped front inHeap
  rcases (placed.marked (by omega) i).mp marked with first | second | old
  · refine .inr (exists_mem_segment (by omega) ?_ (by omega))
    rcases placed.header_cases steady.shaped steady.half front with ⟨_, same⟩ | ⟨rewinds, same, _⟩
    · rw [same]
      exact first.1
    · rw [same] at first ⊢
      omega
  · exact .inr (exists_mem_segment (by omega) (by omega) (by omega))
  · exact .inl old

/-- One more struct keeps the relation, whichever list records it. -/
theorem MarksMeet.place {h h' : Heap} {blocks more : List Block} {old : List Word}
    {layout : Option (List Char)} {size header index space : ℕ} {word : Word}
    (marks : MarksMeet h blocks old) (placed : StructPlaced h h' layout size header index space word)
    (subset : blocks ⊆ more) (member : ⟨header, size⟩ ∈ more) : MarksMeet h' more old := by
  have same := placed.placed.shape
  obtain ⟨steady, within, lower, upper⟩ := placed.firstHalf marks.steady marks.within
  have new (i : ℕ) (marked : Marked h'.allocMap i) :=
    marked_of_structPlaced marks.steady marks.within placed marked
  refine ⟨steady, within, ?_, fun i marked => placed.marked_of_old (marks.kept i marked), ?_⟩
  · intro i marked
    rw [same.numberOfSpaces]
    rcases new i marked with earlier | ⟨address, inside, rfl⟩
    · exact marks.bounded i earlier
    · simp only [Block.extent, headerSizeBytes, Extent.mem_bytes] at inside
      omega
  · intro i marked
    rw [same.heapStart]
    rcases new i marked with earlier | inside
    · exact (marks.meet i earlier).imp_right (Meets.mono · subset)
    · exact .inr ⟨_, member, inside⟩

/-- Changing the bytes of the heap changes no mark. -/
theorem MarksMeet.setMem {h : Heap} {blocks : List Block} {old : List Word}
    (marks : MarksMeet h blocks old) (mem : ByteMemory) : MarksMeet (h.setMem mem) blocks old :=
  ⟨(SameShape.setMem h mem).steady marks.steady marks.steady.front, marks.within, marks.bounded,
    marks.kept, marks.meet⟩

/-- At the start of a collection the map is the old one. -/
theorem MarksMeet.prepared {h : Heap} {blocks : List Block} {old : List Word}
    (marks : MarksMeet h blocks old) :
    MarksMeet (h.setFront h.heapStart).resetUsed [] h.allocMap :=
  ⟨marks.steady.prepared, Nat.le_add_right _ _, marks.bounded, fun _ marked => marked,
    fun _ marked => .inl marked⟩

/-- Every root keeps the relation. -/
theorem marksMeet_root {c c' : Collection} {root : ℕ} {old : List Word}
    (marks : MarksMeet c.heap (c.evacuated.map Evacuation.block) old)
    (ok : garbageCollection c root = .ok c') :
    MarksMeet c'.heap (c'.evacuated.map Evacuation.block) old := by
  cases garbageCollection_ok marks.steady.shaped marks.steady.half ok with
  | skipped same => rwa [same]
  | forwarded value found same => rwa [same]
  | evacuated header found h layout newHeader size done =>
    obtain ⟨index, space, word, placed⟩ := done.placed
    obtain ⟨mem, same⟩ := done.heap_eq
    rw [same, done.evacuated, List.map_append]
    apply (marks.place placed ?_ ?_).setMem mem
    · exact List.subset_append_left _ _
    · exact List.mem_append_right _ (List.mem_singleton_self _)

/-- Every step keeps the relation. -/
theorem marksMeet_step {s s' : Session} {call : Call} (structOnly : call.StructOnly)
    (marks : MarksMeet s.heap s.blocks s.mapAtCollection) (ok : s.step call = .ok s') :
    MarksMeet s'.heap s'.blocks s'.mapAtCollection := by
  cases call with
  | hAllocStruct layout =>
    cases step_hAllocStruct marks.steady ok with
    | nullStruct same advances null => rwa [same]
    | struct placed blocks map =>
      rw [blocks, map]
      exact marks.place placed (List.subset_cons_self _ _) List.mem_cons_self
  | hAllocRaw bytes => cases structOnly
  | write address value =>
    obtain ⟨_, rfl⟩ := step_write ok
    exact marks.setMem _
  | hGcDbg stack roots =>
    obtain ⟨_, collected, _, ran, rfl⟩ := step_hGcDbg marks.steady ok
    have after := Machine.run_preserves
      (fun c => MarksMeet c.heap (c.evacuated.map Evacuation.block) s.heap.allocMap)
      marksMeet_root marks.prepared ran
    refine ⟨after.steady, after.within, after.bounded, after.kept, fun i marked => ?_⟩
    exact (after.meet i marked).imp_right (Meets.mono · fun _ => List.mem_reverse.mpr)

theorem marksMeet_start {h : Heap} (fresh : Fresh h) :
    MarksMeet (Session.start h).heap (Session.start h).blocks (Session.start h).mapAtCollection := by
  refine ⟨fresh.steady, ?_, fun i marked => (fresh.not_marked i marked).elim,
    fun _ marked => marked, fun _ marked => .inl marked⟩
  change h.allocFront ≤ _
  rw [fresh.front]
  exact Nat.le_add_right _ _

/-- Only the marks that the latest collection found can be stale. -/
theorem noStaleMarks_iff_oldMarksMet {s : Session}
    (marks : MarksMeet s.heap s.blocks s.mapAtCollection) : NoStaleMarks s ↔ OldMarksMet s := by
  have shaped := marks.steady.shaped
  constructor
  · intro noStale i marked
    have now := marks.kept i marked
    have bound := marks.bounded i now
    have segment : (s.heap.heapStart + i * 16 - s.heap.heapStart) / 16 = i := by omega
    have accepted := (shaped.validatePtr_iff (s.heap.heapStart + i * 16)).mpr
      ⟨Nat.le_add_right _ _, by simp only [spaceSize]; omega, by rwa [segment]⟩
    have meets := noStale _ accepted
    rwa [segment] at meets
  · intro oldMet address accepted
    obtain ⟨_, _, marked⟩ := (shaped.validatePtr_iff address).mp accepted
    exact (marks.meet _ marked).elim (oldMet _) id

/-- In every state of a run without raw allocations, the accepted addresses are those of blocks since
the latest collection exactly when the marks it found meet such blocks; and they are in every run whose
collections all begin with an empty map. -/
theorem noStaleMarks_of_run {h : Heap} (booted : Booted h) {calls : List Call}
    (structOnly : ∀ call ∈ calls, call.StructOnly) {s : Session}
    (ran : Machine.run Session.step (Session.start h) calls = .ok s) :
    (NoStaleMarks s ↔ OldMarksMet s) ∧
      (Machine.Along Session.step CollectsUnmarked (Session.start h) calls → NoStaleMarks s) := by
  have fresh := fresh_of_booted booted
  have along : Machine.Along Session.step (fun _ call => call.StructOnly) (Session.start h) calls :=
    Machine.along_of_forall fun _ call member => structOnly call member
  have marks : MarksMeet s.heap s.blocks s.mapAtCollection := Machine.run_invariant
    (fun s => MarksMeet s.heap s.blocks s.mapAtCollection)
    (fun marks allowed ok => marksMeet_step allowed marks ok) along (marksMeet_start fresh) ran
  refine ⟨noStaleMarks_iff_oldMarksMet marks, fun unmarked => ?_⟩
  apply (noStaleMarks_iff_oldMarksMet marks).mpr
  have none : Steady s.heap ∧ ∀ i, ¬ Marked s.mapAtCollection i := by
    apply Machine.run_invariant (fun s => Steady s.heap ∧ ∀ i, ¬ Marked s.mapAtCollection i) ?_
      unmarked ⟨fresh.steady, fresh.not_marked⟩ ran
    rintro s call s' ⟨steady, none⟩ empty ok
    refine ⟨step_steady steady ok, ?_⟩
    cases call with
    | hAllocStruct layout =>
      cases step_hAllocStruct steady ok with
      | nullStruct same advances null => rwa [same]
      | struct placed blocks map => rwa [map]
    | hAllocRaw bytes =>
      cases step_hAllocRaw steady ok with
      | nullRaw same refused => rwa [same]
      | raw placed blocks map => rwa [map]
    | write address value =>
      obtain ⟨_, rfl⟩ := step_write ok
      exact none
    | hGcDbg stack roots =>
      obtain ⟨_, _, _, _, rfl⟩ := step_hGcDbg steady ok
      exact empty
  intro i marked
  exact (none.2 i marked).elim

/-- A collection of the fresh heap, and two structs behind it. -/
def collectedEmpty : List Call :=
  [.hGcDbg (fun _ => 0) [], .hAllocStruct (some "2i".toList), .hAllocStruct (some "4i".toList)]

theorem noStaleMarks_collectedEmpty : ∃ s, Machine.run Session.step (Session.start smallHeap) collectedEmpty = .ok s ∧
    s.blocks = [⟨65560, 16⟩, ⟨65536, 8⟩] ∧ NoStaleMarks s := by
  obtain ⟨s, ran, blocks⟩ := exists_of_toOption (Machine.run Session.step (Session.start smallHeap) collectedEmpty)
    (fun s => s.blocks) [⟨65560, 16⟩, ⟨65536, 8⟩] (by decide +kernel)
  have fresh := fresh_of_booted booted_smallHeap
  have unmarked : Machine.Along Session.step CollectsUnmarked (Session.start smallHeap) collectedEmpty :=
    ⟨fresh.not_marked, fun _ _ => ⟨trivial, fun _ _ => ⟨trivial, fun _ _ => trivial⟩⟩⟩
  exact ⟨s, ran, blocks,
    (noStaleMarks_of_run booted_smallHeap (by simp [collectedEmpty, Call.StructOnly]) ran).2 unmarked⟩

/-- An object without roots is collected, and its address is still accepted. -/
theorem exists_not_noStaleMarks : ∃ s,
    Machine.run Session.step (Session.start smallHeap)
      [.hAllocStruct (some "2i".toList), .hGcDbg (fun _ => 0) []] = .ok s ∧
    s.blocks = [] ∧ s.heap.validatePtr 65544 = .ok true ∧ ¬ NoStaleMarks s := by
  obtain ⟨s, ran, found⟩ := exists_of_toOption (Machine.run Session.step (Session.start smallHeap)
    [.hAllocStruct (some "2i".toList), .hGcDbg (fun _ => 0) []])
    (fun s => (s.blocks, (s.heap.validatePtr 65544).toOption)) ([], some true) (by decide +kernel)
  obtain ⟨blocks, found⟩ := Prod.mk.inj found
  have accepted : s.heap.validatePtr 65544 = .ok true := by
    cases answer : s.heap.validatePtr 65544 with
    | error fault => rw [answer] at found; cases found
    | ok value => rw [answer] at found; exact congrArg _ (Option.some.inj found)
  refine ⟨s, ran, blocks, accepted, fun noStale => ?_⟩
  obtain ⟨block, member, _⟩ := noStale _ accepted
  rw [show s.blocks = [] from blocks] at member
  cases member

end GarbageCollector.Soundness
