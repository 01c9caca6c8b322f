import GarbageCollector.Machine.Outcome
import GarbageCollector.Model.Lifetime
import GarbageCollector.Soundness.Relocation

/-! # Heaps that come and go

However heaps are made, used and deleted, `h_delete` frees blocks in use only, and each of them once. Two blocks of
every `h_init` are never freed, the first of its two allocation maps and the bytes of the heap itself; so the bytes
of a heap are never handed out again, and no pointer is taken for a root by two heaps.
-/

namespace GarbageCollector.Soundness

open Model Proofs

/-- The blocks that `h_delete` frees, in its order. -/
def deletedChunks (heap : OpenHeap) : List Chunk :=
  [⟨heap.spaceIsActive, heap.session.heap.numberOfSpaces⟩, ⟨heap.spaces, heap.session.heap.numberOfSpaces * 8⟩,
    ⟨heap.allocMap, heap.session.heap.size / (16 * 8)⟩, ⟨heap.record, heapRecordBytes⟩]

/-- The block that the objects of a heap lie in. -/
def heapBytes (heap : OpenHeap) : Chunk := ⟨heap.session.heap.heapStart, heap.session.heap.size⟩

/-- The blocks that an event gets and nothing frees. -/
def neverFreed : HeapEvent → List Chunk
  | .hInit bytes unsafeStack gcThreshold blocks =>
    match hInit bytes unsafeStack gcThreshold blocks.heapStart with
    | .ok (some _) => [⟨blocks.firstMap, bytes / (16 * 8)⟩, ⟨blocks.heapStart.address, bytes⟩]
    | _ => []
  | _ => []

/-- Each `calloc` returns a block apart from the blocks in use. -/
def CallocsFresh (p : Process) : HeapEvent → Prop
  | .hInit bytes unsafeStack gcThreshold blocks =>
    ∀ h, hInit bytes unsafeStack gcThreshold blocks.heapStart = .ok (some h) →
      Ledger.Sound (blocks.chunks h) ∧ ∀ chunk ∈ blocks.chunks h, ∀ other ∈ p.chunks, chunk.Apart other
  | _ => True

/-- What every run keeps, with the blocks that have been lost. -/
structure HeapsKept (p : Process) (lost : List Chunk) : Prop where
  sound : Ledger.Sound p.chunks
  chunks : p.chunks.Perm (p.heaps.flatMap deletedChunks ++ lost)
  steady : ∀ heap ∈ p.heaps, Steady heap.session.heap
  start : ∀ heap ∈ p.heaps, heap.start = 0
  bytes : ∀ heap ∈ p.heaps, heapBytes heap ∈ lost
  records : (p.heaps.map OpenHeap.record).Nodup
  isolated : p.heaps.Pairwise fun heap other => (heapBytes heap).Apart (heapBytes other)

section Sessions

variable {h : Heap} {s s' : Session}

theorem hInit_places {bytes : ℕ} {unsafeStack : Bool} {gcThreshold : CFloat} {block : CallocBlock bytes}
    (made : hInit bytes unsafeStack gcThreshold block = .ok (some h)) :
    h.heapStart = block.address ∧ h.size = bytes := by
  unfold hInit at made
  split at made
  · cases made
  split at made
  · cases made
  split at made
  · cases made
  split at made
  · cases made
  dsimp only at made
  split at made
  · cases made
  obtain ⟨_, _, made⟩ := bind_ok_iff.mp made
  obtain ⟨_, _, same⟩ := bind_ok_iff.mp made
  cases same
  exact ⟨rfl, rfl⟩

/-- No call moves the heap or changes its tables' lengths. -/
theorem step_sameShape {call : Call} (steady : Steady s.heap) (ok : s.step call = .ok s') :
    SameShape s.heap s'.heap := by
  cases call with
  | hAllocStruct layout =>
    rcases (step_hAllocStruct steady ok).cases_placed with rfl | ⟨_, _, _, placed⟩
    · exact .refl _
    · exact placed.shape
  | hAllocRaw bytes =>
    rcases (step_hAllocRaw steady ok).cases_placed with rfl | ⟨_, _, _, placed⟩
    · exact .refl _
    · exact placed.shape
  | write address value =>
    obtain ⟨_, rfl⟩ := step_write ok
    exact .setMem _ _
  | hGcDbg stack roots =>
    obtain ⟨_, collected, _, ran, rfl⟩ := step_hGcDbg steady ok
    exact collection_sameShape steady ran

/-- An accepted pointer points into the bytes of the heap. -/
theorem inside_of_accepted (shaped : Shaped h) {ptr : ℕ} (accepted : h.validatePtr ptr = .ok true) :
    h.heapStart ≤ ptr ∧ ptr < h.heapStart + h.size := by
  obtain ⟨lower, _, word, found, _⟩ := (shaped.validatePtr_iff ptr).mp accepted
  obtain ⟨bound, _⟩ := List.getElem?_eq_some_iff.mp found
  rw [shaped.mapLength] at bound
  have pages := shaped.wholePages
  simp only [spaceSize] at pages
  exact ⟨lower, by omega⟩

end Sessions

section Steps

variable {p p' : Process} {lost : List Chunk} {heap : OpenHeap}

theorem find_ok {h : ℕ} (found : p.find h = .ok heap) : heap ∈ p.heaps ∧ heap.record = h := by
  unfold Process.find at found
  split at found
  · next other search =>
    cases found
    exact ⟨List.mem_of_find?_eq_some search, by simpa using List.find?_some search⟩
  · cases found

/-- An element with a key of its own, taken out by the key. -/
theorem perm_cons_filter {α : Type} {key : α → ℕ} {values : List α} (distinct : (values.map key).Nodup)
    {value : α} (member : value ∈ values) :
    values.Perm (value :: values.filter fun other => key other ≠ key value) := by
  induction values with
  | nil => cases member
  | cons first rest ih =>
    rw [List.map_cons, List.nodup_cons] at distinct
    rcases List.mem_cons.mp member with rfl | later
    · have others : rest.filter (fun other => key other ≠ key value) = rest := by
        apply List.filter_eq_self.mpr
        intro other inside
        rw [decide_eq_true_eq]
        intro same
        exact distinct.1 (same ▸ List.mem_map_of_mem inside)
      rw [List.filter_cons, if_neg (by simp), others]
    · have different : key first ≠ key value := by
        intro same
        exact distinct.1 (same ▸ List.mem_map_of_mem later)
      rw [List.filter_cons, if_pos (by simpa using different)]
      exact ((ih distinct.2 later).cons first).trans (.swap value first _)

/-- `h_delete` of a heap in use succeeds and frees the blocks of the heap. -/
theorem HeapsKept.hDelete (kept : HeapsKept p lost) (member : heap ∈ p.heaps) :
    ∃ chunks, hDelete p.chunks heap = some chunks ∧ Ledger.Sound chunks ∧
      chunks.Perm ((p.heaps.filter fun other => other.record ≠ heap.record).flatMap deletedChunks ++ lost) := by
  have heaps := (perm_cons_filter kept.records member).flatMap_right deletedChunks
  have chunks := kept.chunks.trans (heaps.append_right lost)
  rw [List.flatMap_cons, List.append_assoc] at chunks
  have nonnull (chunk : Chunk) (inside : chunk ∈ deletedChunks heap) : chunk.address ≠ 0 := by
    have used := chunks.mem_iff.mpr (List.mem_append_left _ inside)
    exact (kept.sound.real chunk used).1.ne'
  simp only [deletedChunks, List.forall_mem_cons] at nonnull
  obtain ⟨flags, spaces, map, record, _⟩ := nonnull
  have frees : [heap.spaceIsActive, heap.start, heap.spaces, heap.allocMap, heap.record].filter (· ≠ 0) =
      (deletedChunks heap).map Chunk.address := by
    simp [kept.start heap member, deletedChunks, flags, spaces, map, record]
  obtain ⟨left, freed, remaining⟩ := kept.sound.freeAll chunks frees
  have sound := ((kept.sound.perm chunks).of_append).perm remaining.symm
  refine ⟨left, ?_, sound, remaining⟩
  rw [← freed]
  simp [Model.hDelete, List.foldlM]

/-- A heap in use can be deleted, and what every run keeps is kept. -/
theorem HeapsKept.delete (kept : HeapsKept p lost) (member : heap ∈ p.heaps) :
    ∃ p', p.delete heap = .ok p' ∧ HeapsKept p' lost := by
  obtain ⟨chunks, freed, sound, remaining⟩ := kept.hDelete member
  have inside {other : OpenHeap} (left : other ∈ p.heaps.filter fun other => other.record ≠ heap.record) :
      other ∈ p.heaps := (List.mem_filter.mp left).1
  refine ⟨_, by rw [Process.delete, freed], sound, remaining, ?_, ?_, ?_, ?_, ?_⟩
  · exact fun other left => kept.steady other (inside left)
  · exact fun other left => kept.start other (inside left)
  · exact fun other left => kept.bytes other (inside left)
  · exact kept.records.sublist (List.filter_sublist.map _)
  · exact kept.isolated.sublist List.filter_sublist

/-- A call on one heap, which stays where it is. -/
theorem HeapsKept.call (kept : HeapsKept p lost) (member : heap ∈ p.heaps) {call : Call} {session : Session}
    (ok : heap.session.step call = .ok session) :
    HeapsKept { p with heaps := p.heaps.map fun other =>
      if other.record = heap.record then { other with session := session } else other } lost := by
  have steady := kept.steady heap member
  have same := step_sameShape steady ok
  have unique (other : OpenHeap) (inside : other ∈ p.heaps) (record : other.record = heap.record) :
      other = heap := List.inj_on_of_nodup_map kept.records inside member record
  generalize changed : (fun other : OpenHeap =>
    if other.record = heap.record then { other with session := session } else other) = change
  have records (other : OpenHeap) : (change other).record = other.record := by
    rw [← changed]
    dsimp only
    split <;> rfl
  have start (other : OpenHeap) : (change other).start = other.start := by
    rw [← changed]
    dsimp only
    split <;> rfl
  have bytes (other : OpenHeap) (inside : other ∈ p.heaps) : heapBytes (change other) = heapBytes other := by
    rw [← changed]
    dsimp only
    split
    · next record =>
      rw [unique other inside record]
      simp only [heapBytes, same.heapStart, same.size]
    · rfl
  have chunks (other : OpenHeap) (inside : other ∈ p.heaps) :
      deletedChunks (change other) = deletedChunks other := by
    rw [← changed]
    dsimp only
    split
    · next record =>
      rw [unique other inside record]
      simp only [deletedChunks, same.numberOfSpaces, same.size]
    · rfl
  refine ⟨kept.sound, ?_, ?_, ?_, ?_, ?_, ?_⟩
  · rw [List.flatMap_map, List.flatMap_congr chunks]
    exact kept.chunks
  · intro other inside
    obtain ⟨before, old, rfl⟩ := List.mem_map.mp inside
    rw [← changed]
    dsimp only
    split
    · exact step_steady steady ok
    · exact kept.steady before old
  · intro other inside
    obtain ⟨before, old, rfl⟩ := List.mem_map.mp inside
    rw [start]
    exact kept.start before old
  · intro other inside
    obtain ⟨before, old, rfl⟩ := List.mem_map.mp inside
    rw [bytes before old]
    exact kept.bytes before old
  · have sameRecords : OpenHeap.record ∘ change = OpenHeap.record := funext records
    rw [List.map_map, sameRecords]
    exact kept.records
  · rw [List.pairwise_map]
    exact kept.isolated.imp_of_mem fun inside inside' apart => by rwa [bytes _ inside, bytes _ inside']

/-- A new heap gets blocks of its own. -/
theorem HeapsKept.create (kept : HeapsKept p lost) {bytes : ℕ} {unsafeStack : Bool} {gcThreshold : CFloat}
    {blocks : InitBlocks bytes} {h : Heap}
    (made : hInit bytes unsafeStack gcThreshold blocks.heapStart = .ok (some h))
    (fresh : CallocsFresh p (.hInit bytes unsafeStack gcThreshold blocks)) :
    HeapsKept ⟨blocks.chunks h ++ p.chunks,
      ⟨blocks.record, 0, blocks.spaces, blocks.spaceIsActive, blocks.allocMap, .start h⟩ :: p.heaps⟩
      (lost ++ neverFreed (.hInit bytes unsafeStack gcThreshold blocks)) := by
  obtain ⟨sound, apart⟩ := fresh h made
  obtain ⟨heapStart, size⟩ := hInit_places made
  have used (chunk : Chunk) (inside : chunk ∈ p.heaps.flatMap deletedChunks ++ lost) : chunk ∈ p.chunks :=
    kept.chunks.mem_iff.mpr inside
  have lostNow : neverFreed (.hInit bytes unsafeStack gcThreshold blocks) =
      [⟨blocks.firstMap, bytes / (16 * 8)⟩, ⟨blocks.heapStart.address, bytes⟩] := by
    simp only [neverFreed, made]
  rw [lostNow]
  constructor
  · exact kept.sound.append sound apart
  · rw [List.perm_iff_count]
    intro chunk
    have before := kept.chunks.count_eq chunk
    have sizes : (Session.start h).heap = h := rfl
    simp only [List.flatMap_cons, InitBlocks.chunks, deletedChunks, sizes, size, List.count_append,
      List.count_cons, List.count_nil] at before ⊢
    omega
  · intro heap inside
    rcases List.mem_cons.mp inside with rfl | old
    · exact (fresh_of_booted ⟨bytes, unsafeStack, gcThreshold, blocks.heapStart, made⟩).steady
    · exact kept.steady heap old
  · intro heap inside
    rcases List.mem_cons.mp inside with rfl | old
    · rfl
    · exact kept.start heap old
  · intro heap inside
    rcases List.mem_cons.mp inside with rfl | old
    · simp [heapBytes, Session.start, heapStart, size]
    · exact List.mem_append_left _ (kept.bytes heap old)
  · rw [List.map_cons, List.nodup_cons]
    refine ⟨?_, kept.records⟩
    intro again
    obtain ⟨heap, old, record⟩ := List.mem_map.mp again
    have other := used ⟨heap.record, heapRecordBytes⟩
      (List.mem_append_left _ (List.mem_flatMap.mpr ⟨heap, old, by simp [deletedChunks]⟩))
    have away := apart ⟨blocks.record, heapRecordBytes⟩ (by simp [InitBlocks.chunks]) _ other
    simp only [Chunk.Apart, heapRecordBytes] at away
    dsimp only at record
    omega
  · rw [List.pairwise_cons]
    refine ⟨?_, kept.isolated⟩
    intro heap old
    have here : heapBytes ⟨blocks.record, 0, blocks.spaces, blocks.spaceIsActive, blocks.allocMap, .start h⟩ ∈
        blocks.chunks h := by
      simp [heapBytes, Session.start, heapStart, size, InitBlocks.chunks]
    exact apart _ here _ (used _ (List.mem_append_right _ (kept.bytes heap old)))

theorem HeapsKept.find (kept : HeapsKept p lost) (member : heap ∈ p.heaps) : p.find heap.record = .ok heap := by
  unfold Process.find
  cases search : p.heaps.find? fun other => other.record = heap.record with
  | none =>
    have absent := List.find?_eq_none.mp search heap member
    simp at absent
  | some other =>
    have record : other.record = heap.record := by simpa using List.find?_some search
    have same := List.inj_on_of_nodup_map kept.records (List.mem_of_find?_eq_some search) member record
    rw [same]

theorem liftFault_ok_iff {α : Type} {result : Except Fault α} {value : α} :
    liftFault result = .ok value ↔ result = .ok value := by
  cases result <;> simp [liftFault]

/-- The step. -/
theorem HeapsKept.step {event : HeapEvent} (kept : HeapsKept p lost) (fresh : CallocsFresh p event)
    (ok : p.step event = .ok p') : HeapsKept p' (lost ++ neverFreed event) := by
  cases event with
  | hInit bytes unsafeStack gcThreshold blocks =>
    obtain ⟨outcome, lifted, ok⟩ := Machine.bind_ok_iff.mp ok
    have made := liftFault_ok_iff.mp lifted
    cases outcome with
    | none =>
      cases ok
      simp only [neverFreed, made, List.append_nil]
      exact kept
    | some h =>
      cases ok
      exact kept.create made fresh
  | call h call =>
    obtain ⟨heap, found, ok⟩ := Machine.bind_ok_iff.mp ok
    obtain ⟨member, rfl⟩ := find_ok found
    obtain ⟨session, lifted, ok⟩ := Machine.bind_ok_iff.mp ok
    cases ok
    simp only [neverFreed, List.append_nil]
    exact kept.call member (liftFault_ok_iff.mp lifted)
  | hDelete h =>
    obtain ⟨heap, found, ok⟩ := Machine.bind_ok_iff.mp ok
    obtain ⟨next, deleted, kept'⟩ := kept.delete (find_ok found).1
    cases ok.symm.trans deleted
    simp only [neverFreed, List.append_nil]
    exact kept'
  | hDeleteDbg h stack frameAddress environ dbgValue =>
    obtain ⟨heap, found, ok⟩ := Machine.bind_ok_iff.mp ok
    obtain ⟨_, _, ok⟩ := Machine.bind_ok_iff.mp ok
    obtain ⟨next, deleted, kept'⟩ := kept.delete (find_ok found).1
    cases ok.symm.trans deleted
    simp only [neverFreed, List.append_nil]
    exact kept'

theorem liftFault_ends {α : Type} (result : Except Fault α) :
    Machine.Ends (· ≠ .invalidFree) (fun _ => True) (liftFault result) := by
  cases result with
  | ok value => exact .ok trivial
  | error fault => exact .error (by simp)

theorem find_ends (p : Process) (h : ℕ) :
    Machine.Ends (· ≠ .invalidFree) (fun heap => heap ∈ p.heaps) (p.find h) := by
  cases found : p.find h with
  | ok heap => exact .ok (find_ok found).1
  | error fault =>
    apply Machine.Ends.error
    rintro rfl
    unfold Process.find at found
    split at found <;> cases found

/-- No step frees what is not in use. -/
theorem HeapsKept.step_ends (kept : HeapsKept p lost) (event : HeapEvent) :
    Machine.Ends (· ≠ .invalidFree) (fun _ => True) (p.step event) := by
  have deletes (heap : OpenHeap) (member : heap ∈ p.heaps) :
      Machine.Ends (· ≠ .invalidFree) (fun _ => True) (p.delete heap) := by
    obtain ⟨next, deleted, _⟩ := kept.delete member
    rw [deleted]
    exact .ok trivial
  cases event with
  | hInit bytes unsafeStack gcThreshold blocks =>
    apply (liftFault_ends _).bind
    intro outcome _
    cases outcome with
    | none => exact .ok trivial
    | some h => exact .ok trivial
  | call h call =>
    apply (find_ends p h).bind
    intro heap _
    apply (liftFault_ends _).bind
    intro session _
    exact .ok trivial
  | hDelete h =>
    apply (find_ends p h).bind
    exact deletes
  | hDeleteDbg h stack frameAddress environ dbgValue =>
    apply (find_ends p h).bind
    intro heap member
    apply (liftFault_ends _).bind
    intro _ _
    exact deletes heap member

/-- The run. -/
theorem HeapsKept.run {events : List HeapEvent} (kept : HeapsKept p lost)
    (fresh : Machine.Along Process.step CallocsFresh p events) (ran : Machine.run Process.step p events = .ok p') :
    HeapsKept p' (lost ++ events.flatMap neverFreed) := by
  induction events generalizing p lost with
  | nil =>
    cases ran
    simpa using kept
  | cons event rest ih =>
    obtain ⟨next, stepped, tail⟩ := Machine.run_cons_ok_iff.mp ran
    have later := ih (kept.step fresh.1 stepped) (fresh.2 next stepped) tail
    rwa [List.append_assoc] at later

theorem HeapsKept.empty : HeapsKept Process.start [] where
  sound := .nil
  chunks := .refl _
  steady heap member := by cases member
  start heap member := by cases member
  bytes heap member := by cases member
  records := List.nodup_nil
  isolated := .nil

end Steps

/-- What can be said of a process with heaps when the given blocks have been lost. -/
structure Lifetimes (p : Process) (lost : List Chunk) : Prop where
  sound : Ledger.Sound p.chunks
  /-- In use are the blocks of the heaps in use, and the lost ones. -/
  accounted : p.chunks.Perm (p.heaps.flatMap deletedChunks ++ lost)
  frees : ∀ event, p.step event ≠ .error .invalidFree
  /-- A heap in use can be deleted, which frees its blocks and leaves the other heaps alone. -/
  deletes : ∀ heap ∈ p.heaps, ∃ p', p.step (.hDelete heap.record) = .ok p' ∧
    p.chunks.Perm (deletedChunks heap ++ p'.chunks) ∧
    p'.heaps = p.heaps.filter fun other => other.record ≠ heap.record
  isolated : ∀ heap ∈ p.heaps, ∀ other ∈ p.heaps, heap.record ≠ other.record → ∀ ptr,
    heap.session.heap.validatePtr ptr = .ok true → other.session.heap.validatePtr ptr ≠ .ok true

theorem HeapsKept.lifetimes {p : Process} {lost : List Chunk} (kept : HeapsKept p lost) : Lifetimes p lost := by
  refine ⟨kept.sound, kept.chunks, fun event => ?_, ?_, ?_⟩
  · intro invalid
    exact (Machine.ends_iff.mp (kept.step_ends event)).2 _ invalid rfl
  · intro heap member
    obtain ⟨chunks, freed, _, remaining⟩ := kept.hDelete member
    have deleted : p.delete heap = .ok ⟨chunks, p.heaps.filter fun other => other.record ≠ heap.record⟩ := by
      rw [Process.delete, freed]
    refine ⟨_, Machine.bind_ok_iff.mpr ⟨heap, kept.find member, deleted⟩, ?_, rfl⟩
    have heaps := (perm_cons_filter kept.records member).flatMap_right deletedChunks
    have before := kept.chunks.trans (heaps.append_right lost)
    rw [List.flatMap_cons, List.append_assoc] at before
    exact before.trans (remaining.symm.append_left _)
  · intro heap member other member' different ptr accepted again
    have symmetric : Std.Symm fun heap other : OpenHeap => (heapBytes heap).Apart (heapBytes other) :=
      ⟨fun _ _ => Or.symm⟩
    have apart := kept.isolated.forall member member' (by rintro rfl; exact different rfl)
    obtain ⟨lower, upper⟩ := inside_of_accepted (kept.steady heap member).shaped accepted
    obtain ⟨lower', upper'⟩ := inside_of_accepted (kept.steady other member').shaped again
    simp only [Chunk.Apart, heapBytes] at apart
    omega

/-- However heaps are made, used and deleted, the blocks of `h_init` are accounted for. -/
theorem lifetimes_of_run {events : List HeapEvent} {p : Process}
    (fresh : Machine.Along Process.step CallocsFresh .start events)
    (ran : Machine.run Process.step .start events = .ok p) : Lifetimes p (events.flatMap neverFreed) := by
  have kept := HeapsKept.empty.run fresh ran
  rw [List.nil_append] at kept
  exact kept.lifetimes

/-- The blocks of two heaps. -/
def firstBlocks : InitBlocks 8192 := ⟨1024, 2048, 2304, 2560, 3072, smallBlock⟩

theorem bounded_smallBlock : 8192 < 2 ^ 63 := smallBlock.bounded

def secondBlocks : InitBlocks 8192 :=
  ⟨4096, 5120, 5376, 5632, 6144, ⟨131072, by decide, by decide, bounded_smallBlock, by decide⟩⟩

/-- Two heaps, of which the first is used and then deleted. -/
def twoHeaps : List HeapEvent :=
  [.hInit 8192 false (.finite 1) firstBlocks, .hInit 8192 false (.finite 1) secondBlocks,
    .call 1024 (.hAllocStruct (some "4i".toList)), .hDelete 1024]

theorem lifetimes_twoHeaps : ∃ p, Machine.run Process.step .start twoHeaps = .ok p ∧
    Lifetimes p (twoHeaps.flatMap neverFreed) ∧
    twoHeaps.flatMap neverFreed = [⟨2560, 64⟩, ⟨65536, 8192⟩, ⟨5632, 64⟩, ⟨131072, 8192⟩] := by
  obtain ⟨p, ran⟩ : ∃ p, Machine.run Process.step .start twoHeaps = .ok p :=
    Machine.exists_of_isOk (by decide +kernel)
  have fresh : Machine.Along Process.step CallocsFresh .start twoHeaps := by
    refine ⟨?_, fun next stepped => ⟨?_, fun _ _ => ⟨trivial, fun _ _ => ⟨trivial, fun _ _ => trivial⟩⟩⟩⟩
    · intro h made
      obtain rfl := Option.some.inj (Except.ok.inj made)
      decide
    · intro h made
      obtain rfl := Except.ok.inj stepped
      obtain rfl := Option.some.inj (Except.ok.inj made)
      decide
  exact ⟨p, ran, lifetimes_of_run fresh ran, rfl⟩

end GarbageCollector.Soundness
