import GarbageCollector.Proofs.Progress

/-! # What `used_bytes` counts

Both allocators add to `used_bytes` twice: a block of `size` data bytes counts `2 * size + 24`
instead of its `size + 16`. The counter is exact as long as nothing has been handed out, and never
afterwards.
-/

namespace GarbageCollector.Soundness

open Model Proofs

/-- The bytes that a block takes: its data and its two header-sized ends. -/
def blockBytes (block : Block) : ℕ := block.size + headerSizeBytes * 2

/-- The counter and the free space add up as they should. -/
structure Accounted (s : Session) : Prop where
  used : s.heap.hUsed = (s.blocks.map blockBytes).sum
  bounded : s.heap.hUsed ≤ s.heap.size
  split : s.heap.hUsed + s.heap.hAvail = s.heap.size

/-- What the allocators really count for a block. -/
def countedBytes (block : Block) : ℕ := 2 * block.size + 24

theorem blockBytes_lt_countedBytes (block : Block) : blockBytes block < countedBytes block := by
  simp only [blockBytes, countedBytes, headerSizeBytes]
  omega

theorem sum_blockBytes_le (blocks : List Block) :
    (blocks.map blockBytes).sum ≤ (blocks.map countedBytes).sum := by
  induction blocks with
  | nil => simp
  | cons block rest ih =>
    have less := blockBytes_lt_countedBytes block
    simp only [List.map_cons, List.sum_cons]
    omega

/-- An admitted request never makes the counter wrap. -/
theorem used_of_admitted {h : Heap} (steady : Steady h) {size needed : ℕ} (positive : 0 < needed)
    (admitted : needed ≤ h.hAvail) (small : size ≤ needed ∨ size ≤ 216) :
    (h.usedBytes + (2 * size + 24)) % 2 ^ 64 = h.usedBytes + (2 * size + 24) := by
  have bound := steady.size_le
  simp only [Heap.hAvail, Heap.hUsed] at admitted
  split at admitted
  · omega
  · exact Nat.mod_eq_of_lt (by omega)

/-- A block handed out adds its count, without wrapping. -/
theorem allocStep_used {s s' : Session} {call : Call} (step : AllocStep s s' call)
    (steady : Steady s.heap) :
    s' = s ∨ ∃ block, s'.blocks = block :: s.blocks ∧
      s'.heap.usedBytes = s.heap.usedBytes + countedBytes block := by
  cases step with
  | nullStruct same advances null => exact .inl same
  | nullRaw same refused => exact .inl same
  | struct struct blocks map =>
    obtain ⟨_, _, _, _, _, _, admitted, _⟩ := structRequest_some struct.request
    obtain ⟨small, _⟩ := structRequest_size struct.request
    refine .inr ⟨_, blocks, ?_⟩
    rw [struct.placed.used, used_of_admitted steady (by omega) admitted (.inr small), countedBytes]
  | raw raw blocks map =>
    refine .inr ⟨_, blocks, ?_⟩
    rw [raw.placed.used, used_of_admitted steady raw.positive raw.available (.inl le_rfl), countedBytes]

/-- The counter is the sum of what the allocators count, over every block handed out. -/
theorem usedBytes_eq {s : Session} (reachable : Reachable Call.Allocates s) :
    Steady s.heap ∧ s.heap.usedBytes = (s.blocks.map countedBytes).sum := by
  apply reachable_induction reachable
    (fun s => s.heap.usedBytes = (s.blocks.map countedBytes).sum)
    (fun h booted => (fresh_of_booted booted).used) ?_
  intro s s' call steady counted allocates ok
  rcases allocStep_used (step_allocates steady allocates ok) steady with rfl | ⟨block, blocks, used⟩
  · exact counted
  · rw [used, blocks, counted, List.map_cons, List.sum_cons, Nat.add_comm]

/-- The call asks a heap for nothing that the heap would hand out. -/
def Refused (h : Heap) : Call → Prop
  | .hAllocStruct layout => h.structRequest layout = .ok none
  | .hAllocRaw bytes => bytes = 0 ∨ h.hAvail < bytes
  | _ => False

/-- On a fresh heap a refused call changes nothing, and every other call hands out a block. -/
theorem step_start {h : Heap} (fresh : Fresh h) {call : Call} (allocates : call.Allocates) {s : Session}
    (ok : (Session.start h).step call = .ok s) :
    (Refused h call ∧ s = Session.start h) ∨ (¬ Refused h call ∧ s.blocks ≠ []) := by
  have steady := fresh.steady
  cases call with
  | hAllocStruct layout =>
    obtain ⟨⟨result, h'⟩, allocated, same⟩ := bind_ok_iff.mp ok
    obtain rfl := Except.ok.inj same
    rcases hAllocStruct_ok steady.shaped steady.half allocated with ⟨rfl, rfl, _⟩ | placement
    · exact .inl ⟨structRequest_of_null fresh allocated, rfl⟩
    · obtain ⟨size, header, index, space, word, rfl, placed⟩ := placement
      refine .inr ⟨fun refused => ?_, List.cons_ne_nil _ _⟩
      have request := refused.symm.trans placed.request
      cases request
  | hAllocRaw bytes =>
    obtain ⟨⟨result, h'⟩, allocated, same⟩ := bind_ok_iff.mp ok
    obtain rfl := Except.ok.inj same
    rcases hAllocRaw_ok steady.shaped allocated with ⟨rfl, rfl, refused⟩ | ⟨rfl, placed⟩
    · exact .inl ⟨refused, rfl⟩
    · refine .inr ⟨fun refused => ?_, List.cons_ne_nil _ _⟩
      have positive := placed.positive
      have available := placed.available
      change bytes = 0 ∨ h.hAvail < bytes at refused
      omega
  | write address value => cases allocates
  | hGcDbg stack roots => cases allocates

/-- Nothing has been handed out exactly when the fresh heap refuses every call. -/
theorem blocks_eq_nil_iff {h : Heap} (fresh : Fresh h) {calls : List Call}
    (allocates : ∀ call ∈ calls, call.Allocates) {s : Session}
    (ran : Machine.run Session.step (Session.start h) calls = .ok s) :
    s.blocks = [] ↔ ∀ call ∈ calls, Refused h call := by
  induction calls with
  | nil => cases ran; simp [Session.start]
  | cons call rest ih =>
    obtain ⟨next, stepped, tail⟩ := Machine.run_cons_ok_iff.mp ran
    have allocatesRest : ∀ other ∈ rest, other.Allocates :=
      fun other member => allocates other (List.mem_cons_of_mem _ member)
    rcases step_start fresh (allocates call List.mem_cons_self) stepped with
      ⟨refused, rfl⟩ | ⟨accepted, handedOut⟩
    · simp [ih allocatesRest tail, refused]
    · obtain ⟨new, grown⟩ := run_blocks (step_steady fresh.steady stepped) allocatesRest tail
      simp [grown, accepted, handedOut]

/-- A state with an empty record is accounted for, and no other is. -/
theorem accounted_iff_blocks {s : Session} (reachable : Reachable Call.Allocates s) :
    Accounted s ↔ s.blocks = [] := by
  obtain ⟨steady, counted⟩ := usedBytes_eq reachable
  constructor
  · intro accounted
    have exactly := accounted.used
    rw [Heap.hUsed, counted] at exactly
    cases blocks : s.blocks with
    | nil => rfl
    | cons block rest =>
      have less := blockBytes_lt_countedBytes block
      have le := sum_blockBytes_le rest
      simp only [blocks, List.map_cons, List.sum_cons] at exactly
      omega
  · intro none
    rw [none] at counted
    have zero : s.heap.hUsed = 0 := counted
    refine ⟨by rw [zero, none]; rfl, by omega, ?_⟩
    simp only [Heap.hAvail, zero]
    simp only [Heap.hUsed] at zero
    rw [zero, if_neg (by omega)]
    omega

/-- The accounting is exact after a run exactly when the heap refused every call of the run. -/
theorem accounted_iff {h : Heap} (booted : Booted h) {calls : List Call}
    (allocates : ∀ call ∈ calls, call.Allocates) {s : Session}
    (ran : Machine.run Session.step (Session.start h) calls = .ok s) :
    Accounted s ↔ ∀ call ∈ calls, Refused h call :=
  (accounted_iff_blocks ⟨h, booted, calls, allocates, ran⟩).trans
    (blocks_eq_nil_iff (fresh_of_booted booted) allocates ran)

/-- An empty struct and an empty raw block are refused, and the fresh heap stays accounted for. -/
theorem accounted_iff_refused :
    Accounted (Session.start smallHeap) ↔
      ∀ call ∈ [Call.hAllocStruct none, Call.hAllocRaw 0], Refused smallHeap call :=
  accounted_iff booted_smallHeap (by simp [Call.Allocates]) rfl

/-- One allocation of four bytes counts 32 bytes for its block of 20. -/
theorem exists_not_accounted : ∃ s, Reachable Call.Allocates s ∧
    Machine.run Session.step (Session.start smallHeap) [.hAllocStruct (some "i".toList)] = .ok s ∧
    s.heap.hUsed = 32 ∧ (s.blocks.map blockBytes).sum = 20 ∧ ¬ Accounted s := by
  obtain ⟨s, ran, found⟩ := exists_of_toOption (Machine.run Session.step
    (Session.start smallHeap) [.hAllocStruct (some "i".toList)])
    (fun s => (s.heap.hUsed, s.blocks)) (32, [⟨65536, 4⟩]) (by decide +kernel)
  obtain ⟨used, blocks⟩ := Prod.mk.inj found
  have bytes : (s.blocks.map blockBytes).sum = 20 := by rw [blocks]; decide
  refine ⟨s, ⟨smallHeap, booted_smallHeap, _, by simp [Call.Allocates], ran⟩, ran, used, bytes, ?_⟩
  intro accounted
  have exactly := accounted.used
  omega

end GarbageCollector.Soundness
