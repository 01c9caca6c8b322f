import GarbageCollector.Machine.Outcome
import GarbageCollector.Math.PageBump
import GarbageCollector.Proofs.Copying
import GarbageCollector.Soundness.Accounting
import GarbageCollector.Soundness.Placement

/-! # The heap as a bump pointer over pages

What `h_alloc_struct` and `h_gc_dbg` do to the bump pointer, the counter and the blocks depends on data sizes
only: the pages are the active spaces, a block has a header and a footer, and the budget is the size of the
heap, charged with `2 * size + 24` for every block.
-/

namespace GarbageCollector.Soundness

open Model Proofs PageBump

/-- The active spaces of a heap, with the budget that `h_avail` reads. -/
def geometry (h : Heap) : Geometry where
  pageSize := spaceSize
  positive := by decide
  pages := h.numberOfSpaces / 2
  ends := headerSizeBytes
  limit := h.size
  cost := fun size => 2 * size + 24

/-- The bump pointer, the counter and the blocks, from the start of the heap. -/
def bumpState (h : Heap) (blocks : List Block) : State :=
  ⟨h.allocFront - h.heapStart, h.usedBytes, blocks.map fun block => (block.header - h.heapStart, block.size)⟩

/-- The data size that a layout asks for, or `none` where its text is turned down. -/
def requestedBytes (layout : Option (List Char)) : Option ℕ :=
  match layout with
  | none => none
  | some text =>
    match createFormatStr text with
    | .ok (some frmtString) =>
      if (toBitVector frmtString).isSome ∧ text ≠ [] then some (formatStrBytes frmtString) else none
    | _ => none

theorem SameShape.geometry_eq {h h' : Heap} (same : SameShape h h') : geometry h' = geometry h := by
  simp only [geometry, same.numberOfSpaces, same.size]

section Request

variable {h : Heap} {layout : Option (List Char)} {size : ℕ} {word : Word}

theorem requestedBytes_of_structRequest (request : h.structRequest layout = .ok (some (size, word))) :
    requestedBytes layout = some size := by
  obtain ⟨text, frmtString, rfl, created, encoded, rfl, _, nonempty⟩ := structRequest_some request
  simp [requestedBytes, created, encoded, nonempty]

/-- A layout that gets `NULL` before a space is looked for is turned down, or the heap has too few bytes. -/
theorem requestedBytes_of_null (request : h.structRequest layout = .ok none) :
    requestedBytes layout = none ∨ ∃ size, requestedBytes layout = some size ∧ h.hAvail < size + 8 := by
  cases wanted : requestedBytes layout with
  | none => exact .inl rfl
  | some size =>
    refine .inr ⟨size, rfl, ?_⟩
    by_contra enough
    cases layout with
    | none => cases wanted
    | some text =>
      unfold requestedBytes at wanted
      dsimp only at wanted
      split at wanted
      · next frmtString created =>
        split at wanted
        · next accepted =>
          obtain ⟨bits, encoded⟩ := Option.isSome_iff_exists.mp accepted.1
          obtain rfl := Option.some.inj wanted
          have found : ∃ word, h.structRequest (some text) = .ok (some (formatStrBytes frmtString, word)) :=
            structRequest_of_format created (enoughBitsForLayout_of_toBitVector encoded) accepted.2 (by omega)
          obtain ⟨word, served⟩ := found
          cases request.symm.trans served
        · cases wanted
      · cases wanted

end Request

section Place

variable {h h' : Heap} {blocks : List Block} {layout : Option (List Char)} {size index space header : ℕ}
  {word : Word}

/-- The test for bytes available is the test of the budget. -/
theorem hAvail_lt_iff {needed : ℕ} (positive : 0 < needed) :
    h.hAvail < needed ↔ h.size < h.usedBytes + needed := by
  simp only [Heap.hAvail, Heap.hUsed]
  split <;> omega

/-- The place of a block, with the numbers of the heap. -/
theorem place_eq : (bumpState h blocks).place (geometry h) size =
    if h.size < h.usedBytes + (size + 8) then none
    else if h.numberOfSpaces / 2 * 2048 ≤ h.allocFront - h.heapStart then none
    else if size + 8 ≤ 2048 - (h.allocFront - h.heapStart) % 2048 then
      if size + 16 ≤ 2048 - (h.allocFront - h.heapStart) % 2048 then some (h.allocFront - h.heapStart) else none
    else if size + 16 ≤ 2048 then some (h.allocFront - h.heapStart - (h.allocFront - h.heapStart) % 2048)
    else none := rfl

/-- A struct goes where the bump pointer over pages puts it. -/
theorem place_of_placed (half : FirstHalf h blocks)
    (placed : StructPlaced h h' layout size header index space word) :
    h.heapStart ≤ header ∧ (bumpState h blocks).place (geometry h) size = some (header - h.heapStart) := by
  have steady := half.steady
  have front := steady.front
  have inHeap := front_le_of_firstHalf half.within
  obtain ⟨early, start, le⟩ := placed.current.bounds steady.shaped steady.half front
  have index_eq := placed.current.index_eq steady.shaped front inHeap
  obtain ⟨_, _, _, _, _, _, admitted, _⟩ := structRequest_some placed.request
  have room := not_lt.mpr admitted
  rw [hAvail_lt_iff (by omega)] at room
  obtain ⟨lower, upper⟩ := placed.inside steady.shaped steady.half front inHeap
  have header_eq := placed.header_eq
  rw [spaceLeft_eq le (by omega)] at header_eq
  refine ⟨by omega, ?_⟩
  rw [place_eq, if_neg room, if_neg (by omega)]
  by_cases fits : size + 8 ≤ space + 2048 - h.allocFront
  · rw [if_pos fits] at header_eq
    rw [if_pos (by omega), if_pos (by omega), header_eq]
  · rw [if_neg fits] at header_eq
    rw [if_neg (by omega), if_pos (by omega)]
    congr 1
    omega

/-- A struct that gets `NULL` is refused by the bump pointer over pages as well. -/
theorem place_of_null (half : FirstHalf h blocks) (request : h.structRequest layout = .ok (some (size, word)))
    (null : h.hAllocStruct layout = .ok (none, h)) :
    (bumpState h blocks).place (geometry h) size = none := by
  have steady := half.steady
  have front := steady.front
  rw [place_eq]
  split
  · rfl
  split
  · rfl
  · next early =>
    have before : h.allocFront < h.heapStart + h.numberOfSpaces / 2 * 2048 := by omega
    have current := steady.currentSpace before
    generalize start : h.heapStart + (h.allocFront - h.heapStart) / 2048 * 2048 = space at current
    generalize header_eq : (if size + 8 ≤ spaceLeft h.allocFront space then h.allocFront else space) = header
    rw [hAllocStruct_of_current request current header_eq.symm] at null
    obtain ⟨small, _⟩ := structRequest_size request
    rw [spaceLeft_eq (by omega) (by omega)] at header_eq
    split at null
    · obtain ⟨absent, _⟩ := placeStruct_placed null
      cases absent
    · next tooFull =>
      split at header_eq
      · next fits =>
        rw [← header_eq, spaceLeft_eq (by omega) (by omega)] at tooFull
        rw [if_pos (by omega), if_neg (by omega)]
      · rw [← header_eq, spaceLeft_eq (by omega) (by omega)] at tooFull
        omega

/-- The state after a struct is placed. -/
theorem bumpState_of_placed (half : FirstHalf h blocks)
    (placed : StructPlaced h h' layout size header index space word) :
    bumpState h' (⟨header, size⟩ :: blocks) =
      (bumpState h blocks).grant (geometry h) (header - h.heapStart) size := by
  have lower := (place_of_placed half placed).1
  obtain ⟨_, _, _, _, _, _, admitted, _⟩ := structRequest_some placed.request
  obtain ⟨small, _⟩ := structRequest_size placed.request
  have used := placed.placed.used
  rw [used_of_admitted half.steady (by omega) admitted (.inr small)] at used
  simp only [bumpState, State.grant, geometry, headerSizeBytes, placed.placed.front, used,
    placed.placed.shape.heapStart, List.map_cons]
  congr 1
  omega

end Place

/-- The event of the bump pointer that a call stands for. -/
inductive Asks : Call → Event → Prop
  | struct (layout : Option (List Char)) : Asks (.hAllocStruct layout) (.request (requestedBytes layout))
  | write (address : ℕ) (value : BitVec 8) : Asks (.write address value) .idle
  | collect (stack : Stack) (roots : List ℕ) (sizes : List ℕ) : Asks (.hGcDbg stack roots) (.restart sizes)

section Steps

variable {s s' : Session}

/-- A struct call is a request of the bytes that its layout asks for. -/
theorem step_request {layout : Option (List Char)} (half : FirstHalf s.heap s.blocks)
    (ok : s.step (.hAllocStruct layout) = .ok s') :
    (bumpState s.heap s.blocks).step (geometry s.heap) (.request (requestedBytes layout)) =
      .ok (bumpState s'.heap s'.blocks) := by
  cases step_hAllocStruct half.steady ok with
  | nullStruct same advances null =>
    rw [same]
    obtain ⟨requested, request, _⟩ := bind_ok_iff.mp null
    cases requested with
    | none =>
      rcases requestedBytes_of_null request with refused | ⟨size, wanted, few⟩
      · rw [refused]
        rfl
      · rw [wanted, request_ok_iff, place_eq, if_pos ((hAvail_lt_iff (by omega)).mp few)]
        exact .inl ⟨rfl, rfl⟩
    | some found =>
      obtain ⟨size, word⟩ := found
      rw [requestedBytes_of_structRequest request, request_ok_iff]
      exact .inl ⟨place_of_null half request null, rfl⟩
  | struct placed blocks map =>
    rw [requestedBytes_of_structRequest placed.request, request_ok_iff, blocks, bumpState_of_placed half placed]
    exact .inr ⟨_, (place_of_placed half placed).2, rfl⟩

/-- What the loop over the roots has done so far, as demands on an empty bump pointer. -/
structure Demanded (g : Geometry) (c : Collection) : Prop where
  half : FirstHalf c.heap (c.evacuated.map Evacuation.block).reverse
  same : geometry c.heap = g
  met : Machine.run (State.demand g) .empty (c.evacuated.map Evacuation.size) =
    .ok (bumpState c.heap (c.evacuated.map Evacuation.block).reverse)

theorem Demanded.root {g : Geometry} {c c' : Collection} {root : ℕ} (demanded : Demanded g c)
    (step : RootStep c c' root) : Demanded g c' := by
  cases step with
  | skipped same => rwa [same]
  | forwarded value found same =>
    rw [same]
    exact ⟨demanded.half, demanded.same, demanded.met⟩
  | evacuated header found h layout newHeader size done =>
    obtain ⟨index, space, word, placed⟩ := done.placed
    obtain ⟨mem, changed⟩ := done.heap_eq
    have blocks : (c'.evacuated.map Evacuation.block).reverse =
        ⟨newHeader, size⟩ :: (c.evacuated.map Evacuation.block).reverse := by
      rw [done.evacuated, List.map_append, List.reverse_append]
      rfl
    have half := (demanded.half.place placed fun _ => List.mem_cons.mp).setMem mem
    have demand : State.demand g (bumpState c.heap (c.evacuated.map Evacuation.block).reverse) size =
        .ok (bumpState c'.heap (c'.evacuated.map Evacuation.block).reverse) := by
      rw [← demanded.same, demand_ok_iff]
      refine ⟨_, (place_of_placed demanded.half placed).2, ?_⟩
      rw [← bumpState_of_placed demanded.half placed, blocks, changed]
      rfl
    refine ⟨by rwa [blocks, changed], (SameShape.geometry_eq done.sameShape).trans demanded.same, ?_⟩
    rw [done.evacuated, List.map_append, Machine.run_append_ok_iff, ← done.evacuated]
    exact ⟨_, demanded.met, Machine.run_cons_ok_iff.mpr ⟨_, demand, rfl⟩⟩

/-- What a collection moves is demanded of an empty bump pointer. -/
theorem demanded_of_run {h : Heap} {blocks : List Block} {stack : Stack} {visited : List ℕ} {c : Collection}
    (half : FirstHalf h blocks)
    (ran : Machine.run garbageCollection ⟨(h.setFront h.heapStart).resetUsed, stack, []⟩ visited = .ok c) :
    Demanded (geometry h) c := by
  have prepared : Demanded (geometry h) ⟨(h.setFront h.heapStart).resetUsed, stack, []⟩ := by
    refine ⟨⟨half.steady.prepared, Nat.le_add_right _ _, fun block member => by cases member⟩,
      SameShape.geometry_eq (.prepared h), ?_⟩
    simp [bumpState, State.empty]
  exact (collection_induction half.steady.prepared (Demanded (geometry h)) prepared
    (fun _ _ demanded step => demanded.root step) ran).2

/-- A collection is a restart with the sizes of the objects that it moves. -/
theorem step_restart {stack : Stack} {roots : List ℕ} (half : FirstHalf s.heap s.blocks)
    (ok : s.step (.hGcDbg stack roots) = .ok s') :
    ∃ sizes, (bumpState s.heap s.blocks).step (geometry s.heap) (.restart sizes) =
      .ok (bumpState s'.heap s'.blocks) := by
  obtain ⟨_, collected, _, ran, rfl⟩ := step_hGcDbg half.steady ok
  exact ⟨_, (demanded_of_run half ran).met⟩

/-- Every call does to the bump pointer over pages what it asks of it. -/
theorem step_asks {call : Call} (structOnly : call.StructOnly) (half : FirstHalf s.heap s.blocks)
    (ok : s.step call = .ok s') : ∃ event, Asks call event ∧
      (bumpState s.heap s.blocks).step (geometry s.heap) event = .ok (bumpState s'.heap s'.blocks) := by
  cases call with
  | hAllocStruct layout => exact ⟨_, .struct layout, step_request half ok⟩
  | hAllocRaw bytes => cases structOnly
  | write address value =>
    obtain ⟨_, rfl⟩ := step_write ok
    exact ⟨_, .write address value, rfl⟩
  | hGcDbg stack roots =>
    obtain ⟨sizes, met⟩ := step_restart half ok
    exact ⟨_, .collect stack roots sizes, met⟩

/-- No call changes the pages or the budget. -/
theorem geometry_step {call : Call} (half : FirstHalf s.heap s.blocks) (structOnly : call.StructOnly)
    (ok : s.step call = .ok s') : geometry s'.heap = geometry s.heap := by
  cases call with
  | hAllocStruct layout =>
    rcases (step_hAllocStruct half.steady ok).cases_placed with rfl | ⟨_, _, _, placed⟩
    · rfl
    · exact SameShape.geometry_eq placed.shape
  | hAllocRaw bytes => cases structOnly
  | write address value =>
    obtain ⟨_, rfl⟩ := step_write ok
    rfl
  | hGcDbg stack roots =>
    obtain ⟨_, collected, _, ran, rfl⟩ := step_hGcDbg half.steady ok
    apply (collection_induction half.steady.prepared (fun c => geometry c.heap = geometry s.heap)
      (SameShape.geometry_eq (.prepared s.heap)) ?_ ran).2
    intro c₁ c₂ root _ _ same step
    exact (SameShape.geometry_eq step.sameShape).trans same

/-- A run of calls is a run of the bump pointer over the same pages. -/
theorem run_asks {calls : List Call} (structOnly : ∀ call ∈ calls, call.StructOnly)
    (half : FirstHalf s.heap s.blocks) (ran : Machine.run Session.step s calls = .ok s') :
    geometry s'.heap = geometry s.heap ∧ ∃ events, List.Forall₂ Asks calls events ∧
      Machine.run (State.step (geometry s.heap)) (bumpState s.heap s.blocks) events =
        .ok (bumpState s'.heap s'.blocks) := by
  induction calls generalizing s with
  | nil => cases ran; exact ⟨rfl, [], .nil, rfl⟩
  | cons call rest ih =>
    obtain ⟨next, stepped, tail⟩ := Machine.run_cons_ok_iff.mp ran
    have here := structOnly call List.mem_cons_self
    obtain ⟨event, asks, moved⟩ := step_asks here half stepped
    obtain ⟨same, events, later, rest_ran⟩ :=
      ih (fun other member => structOnly other (List.mem_cons_of_mem _ member)) (half.step here stepped) tail
    have kept := geometry_step half here stepped
    rw [kept] at rest_ran
    exact ⟨same.trans kept, event :: events, .cons asks later, Machine.run_cons_ok_iff.mpr ⟨_, moved, rest_ran⟩⟩

end Steps

theorem bumpState_of_fresh {h : Heap} (fresh : Fresh h) : bumpState h [] = .empty := by
  simp [bumpState, State.empty, fresh.front, fresh.used]

theorem startsInFirstHalf {h : Heap} (booted : Booted h) : FirstHalf h [] :=
  firstHalf_of_reachable ⟨h, booted, [], by simp, rfl⟩

/-- In any run without raw blocks the bump pointer, the counter and every block are what a bump pointer over
pages makes of the sizes asked for. -/
theorem session_bumps {h : Heap} (booted : Booted h) {calls : List Call}
    (structOnly : ∀ call ∈ calls, call.StructOnly) {s : Session}
    (ran : Machine.run Session.step (Session.start h) calls = .ok s) :
    ∃ events, List.Forall₂ Asks calls events ∧
      Machine.run (State.step (geometry h)) .empty events = .ok (bumpState s.heap s.blocks) := by
  rw [← bumpState_of_fresh (fresh_of_booted booted)]
  exact (run_asks structOnly (startsInFirstHalf booted) ran).2

/-- Two structs, a write, a collection that moves the second one, and one more struct. -/
def twoStructs : List Call :=
  [.hAllocStruct (some "4i".toList), .hAllocStruct (some "4i".toList), .write 65544 1,
    .hGcDbg (fun _ => 65576) [8, 16], .hAllocStruct (some "*i".toList)]

theorem session_bumps_two : ∃ s, Machine.run Session.step (Session.start smallHeap) twoStructs = .ok s ∧
    ∃ events, List.Forall₂ Asks twoStructs events ∧
      Machine.run (State.step (geometry smallHeap)) .empty events = .ok (bumpState s.heap s.blocks) := by
  obtain ⟨s, ran⟩ : ∃ s, Machine.run Session.step (Session.start smallHeap) twoStructs = .ok s :=
    Machine.exists_of_isOk (by decide +kernel)
  exact ⟨s, ran, session_bumps booted_smallHeap (by simp [twoStructs, Call.StructOnly]) ran⟩

/-- How a session uses its spaces between two collections. -/
structure PageOrder (s : Session) : Prop where
  inSpace : ∀ block ∈ s.blocks, InActiveSpace s.heap block
  /-- A block never starts in an earlier space than one handed out before it. -/
  inOrder : s.blocks.Pairwise fun later earlier =>
    (earlier.header - s.heap.heapStart) / spaceSize ≤ (later.header - s.heap.heapStart) / spaceSize
  /-- The bump pointer gets to a space only behind a block that fills the one before to its last byte. -/
  boundaries : ∀ i, 0 < i → s.heap.heapStart + i * spaceSize ≤ s.heap.allocFront →
    ∃ block ∈ s.blocks, block.extent.stop = s.heap.heapStart + i * spaceSize
  charged : s.heap.usedBytes = (s.blocks.map countedBytes).sum
  budget : ∀ latest ∈ s.blocks.head?, s.heap.usedBytes + latest.size + 8 ≤ s.heap.size + countedBytes latest

section Pages

variable {s : Session}

/-- The bump pointer over pages is orderly in every state that is reached. -/
theorem orderly_of_reachable (reachable : Reachable Call.StructOnly s) :
    Orderly (geometry s.heap) (bumpState s.heap s.blocks) := by
  obtain ⟨h, booted, calls, structOnly, ran⟩ := reachable
  obtain ⟨same, events, _, moved⟩ := run_asks structOnly (startsInFirstHalf booted) ran
  have empty : bumpState (Session.start h).heap (Session.start h).blocks = .empty :=
    bumpState_of_fresh (fresh_of_booted booted)
  rw [empty] at moved
  rw [same]
  exact orderly_of_run moved

/-- A block of an orderly bump pointer lies in one active space. -/
theorem inActiveSpace_of_page (half : FirstHalf s.heap s.blocks) {block : Block} (member : block ∈ s.blocks)
    (inPage : ∃ page < s.heap.numberOfSpaces / 2, page * spaceSize ≤ block.header - s.heap.heapStart ∧
      block.header - s.heap.heapStart + block.size + 2 * headerSizeBytes ≤ (page + 1) * spaceSize) :
    InActiveSpace s.heap block := by
  obtain ⟨page, early, lower, upper⟩ := inPage
  have bound : page < s.heap.numberOfSpaces := by omega
  have start := (half.blocks block member).1
  refine ⟨page, _, (half.steady.half.active_iff bound).mpr early, half.steady.shaped.space bound, ?_, ?_⟩
  all_goals simp only [Block.extent, spaceSize, headerSizeBytes] at lower upper ⊢
  all_goals omega

/-- In every state that is reached without raw blocks the spaces have been used in order. -/
theorem session_pages (reachable : Reachable Call.StructOnly s) : PageOrder s := by
  have half := firstHalf_of_reachable reachable
  have orderly := orderly_of_reachable reachable
  have front := half.steady.front
  constructor
  · intro block member
    exact inActiveSpace_of_page half member (orderly.inPage _ (List.mem_map_of_mem member))
  · exact List.pairwise_map.mp orderly.pagesInOrder
  · intro i later reached
    have offset : i * spaceSize ≤ s.heap.allocFront - s.heap.heapStart := by omega
    obtain ⟨place, member, stops⟩ := orderly.boundaries i later offset
    obtain ⟨block, recorded, rfl⟩ := List.mem_map.mp member
    have start := (half.blocks block recorded).1
    refine ⟨block, recorded, ?_⟩
    change block.header - s.heap.heapStart + block.size + 2 * headerSizeBytes = i * spaceSize at stops
    simp only [Block.extent, headerSizeBytes] at stops ⊢
    omega
  · rw [show s.heap.usedBytes = (bumpState s.heap s.blocks).used from rfl, orderly.charged]
    simp only [bumpState, List.map_map]
    rfl
  · intro latest first
    have head : (latest.header - s.heap.heapStart, latest.size) ∈ (bumpState s.heap s.blocks).blocks.head? := by
      simp only [bumpState, List.head?_map, Option.mem_def, Option.map_eq_some_iff] at first ⊢
      exact ⟨latest, first, rfl⟩
    exact orderly.budget _ head

end Pages

theorem session_pages_two : ∃ s, Machine.run Session.step (Session.start smallHeap) twoStructs = .ok s ∧
    PageOrder s := by
  obtain ⟨s, ran⟩ : ∃ s, Machine.run Session.step (Session.start smallHeap) twoStructs = .ok s :=
    Machine.exists_of_isOk (by decide +kernel)
  exact ⟨s, ran, session_pages
    ⟨smallHeap, booted_smallHeap, twoStructs, by simp [twoStructs, Call.StructOnly], ran⟩⟩

end GarbageCollector.Soundness
