import GarbageCollector.Proofs.Places
import GarbageCollector.Proofs.Footers

/-! # The high-water mark of a session

A session with a mark beyond everything that it can have written: the end of a block for an allocation, and
for a copy the bytes that its object's size byte can ask for. Across allocations, writes and collections
every byte from the mark on is still the zero of the initial `calloc`.
-/

namespace GarbageCollector.Proofs

open Model

/-- A session with its high-water mark. -/
structure Watched where
  session : Session
  mark : ℕ

/-- The end of an allocated block. -/
def blockEnd (block : Block) : ℕ := block.header + block.size + 16

/-- The furthest byte that the evacuation to a block can have written: a copy has as many bytes as the
size byte of a header says. -/
def copyEnd (block : Block) : ℕ := block.header + 8 + max (block.size + 8) 255

/-- The furthest of the blocks' ends. -/
def furthest (stop : Block → ℕ) (blocks : List Block) : ℕ := (blocks.map stop).foldr max 0

theorem furthest_le_iff {stop : Block → ℕ} {blocks : List Block} {address : ℕ} :
    furthest stop blocks ≤ address ↔ ∀ block ∈ blocks, stop block ≤ address := by
  induction blocks with
  | nil => simp [furthest]
  | cons block rest ih =>
    have unfolded : furthest stop (block :: rest) = max (stop block) (furthest stop rest) := rfl
    rw [unfolded, max_le_iff, ih, List.forall_mem_cons]

namespace Watched

/-- Right after `h_init` nothing has been written. -/
def start (h : Heap) : Watched := ⟨Session.start h, h.heapStart⟩

def step (w : Watched) (call : Call) : Except Fault Watched := do
  let next ← w.session.step call
  .ok ⟨next, match call with
    | .hGcDbg _ _ => max w.mark (furthest copyEnd next.blocks)
    | _ => max w.mark (furthest blockEnd next.blocks)⟩

end Watched

/-- What runs without raw blocks keep: every block ends below the mark, and every byte from it on is zero. -/
structure ZeroAbove (w : Watched) : Prop where
  half : FirstHalf w.session.heap w.session.blocks
  below : ∀ block ∈ w.session.blocks, block.header + 8 + block.size ≤ w.mark
  zero : ∀ address, w.mark ≤ address → w.session.heap.mem address = 0

theorem ZeroAbove.start {h : Heap} (fresh : Fresh h) : ZeroAbove (Watched.start h) := by
  have within : h.allocFront ≤ h.heapStart + h.numberOfSpaces / 2 * 2048 := by
    rw [fresh.front]
    exact Nat.le_add_right _ _
  refine ⟨⟨fresh.steady, within, ?_⟩, ?_, fun address _ => fresh.zero address⟩
  · intro block member
    cases member
  · intro block member
    cases member

/-- What the visits of one collection keep. -/
structure CopiesBelow (mark : ℕ) (c : Collection) : Prop where
  half : FirstHalf c.heap (c.evacuated.map Evacuation.block)
  zero : ∀ address, mark ≤ address → (∀ event ∈ c.evacuated, copyEnd event.block ≤ address) →
    c.heap.mem address = 0

/-- A header that a scan returns lies before a byte of a tag. -/
theorem header_before_tag {h : Heap} {value : Word} {header : ℕ} (steady : Steady h)
    (found : h.rootCase value = .ok (.bitVector header)) :
    ∃ address, header + 8 ≤ address ∧ h.mem address ≠ 0 := by
  have bits := (rootCase_bitVector found).1
  unfold Heap.rootCase at found
  split at found
  · cases found
  obtain ⟨result, scanned, found⟩ := bind_ok_iff.mp found
  cases result with
  | none => cases found
  | some other =>
    obtain ⟨word, _, found⟩ := bind_ok_iff.mp found
    have same : other = header := by
      generalize getHeaderType word = headerType at found
      cases headerType with
      | bitVector => cases found; rfl
      | forwardingAddress => cases found
      | ptrToFormatString => cases found
      | rawLayout => cases found
    subst same
    obtain ⟨steps, first, header_eq⟩ := firstTag_of_findHeader scanned
    obtain ⟨low, _⟩ := bytes_of_confirmTag first.tagged
    have positive := steady.shaped.nonnull
    have lowest := bits.1
    unfold headerBefore at header_eq
    simp only [headerSizeBytes] at header_eq
    refine ⟨value.toNat + 8 * steps, by omega, ?_⟩
    rw [low]
    decide

/-- The size byte of a word. -/
theorem toNat_getSizeBitsField_le (word : Word) : (getSizeBitsField word).toNat ≤ 255 := by
  rw [getSizeBitsField, BitVec.toNat_ushiftRight, Nat.shiftRight_eq_div_pow]
  have bound := word.isLt
  omega

theorem CopiesBelow.root {mark : ℕ} {c c' : Collection} {root : ℕ} (below : CopiesBelow mark c)
    (ok : garbageCollection c root = .ok c') : CopiesBelow mark c' := by
  have steady := below.half.steady
  refine ⟨below.half.root ok, ?_⟩
  intro address past copies
  cases garbageCollection_ok steady.shaped steady.half ok with
  | skipped same =>
    subst same
    exact below.zero address past copies
  | forwarded value found same =>
    subst same
    exact below.zero address past copies
  | evacuated header found h layout newHeader size done =>
    rw [done.evacuated] at copies
    have old := below.zero address past fun event member => copies event (List.mem_append_left _ member)
    have new := copies ⟨header, newHeader, size⟩ (List.mem_append_right _ (List.mem_singleton_self _))
    simp only [copyEnd, Evacuation.block] at new
    obtain ⟨tagAt, before, tag⟩ := header_before_tag steady found
    have beyond : header + 8 ≤ address := by
      by_contra inHeader
      refine tag (below.zero tagAt (by omega) fun event member => ?_)
      have stop := copies event (List.mem_append_left _ member)
      omega
    obtain ⟨length, length_eq, _, _, heap_eq⟩ := done.copied
    have short := toNat_getSizeBitsField_le (h.mem.load64 header)
    obtain ⟨index, space, word, placed⟩ := done.placed
    rw [heap_eq, Heap.setMem_mem, ByteMemory.store64_of_outside (by omega),
      ByteMemory.copy_of_outside (by omega), placed.placed.mem_outside (by omega), old]

/-- A client writes below the end of the blocks. -/
theorem zero_past_write {s s' : Session} {bound place : ℕ} {value : BitVec 8}
    (below : ∀ block ∈ s.blocks, block.header + 8 + block.size ≤ bound)
    (stepped : s.step (.write place value) = .ok s') {address : ℕ} (past : bound ≤ address)
    (zero : s.heap.mem address = 0) : s'.heap.mem address = 0 := by
  obtain ⟨⟨owner, recorded, owned⟩, rfl⟩ := step_write stepped
  have stop := below owner recorded
  simp only [Block.data, Block.dataStart, headerSizeBytes, Extent.mem_bytes] at owned
  change Function.update s.heap.mem place value address = 0
  rw [Function.update_of_ne (by omega), zero]

/-- Every call but `h_alloc_raw` keeps the bytes from the mark on zero. -/
theorem ZeroAbove.step {w w' : Watched} {call : Call} (above : ZeroAbove w)
    (structOnly : call.StructOnly) (ok : w.step call = .ok w') : ZeroAbove w' := by
  obtain ⟨next, stepped, same⟩ := bind_ok_iff.mp ok
  obtain rfl := Except.ok.inj same
  have half := above.half.step structOnly stepped
  have steady := above.half.steady
  cases call with
  | hAllocStruct layout =>
    cases step_hAllocStruct steady stepped with
    | nullStruct unchanged advances null =>
      subst unchanged
      exact ⟨half, fun block member => (above.below block member).trans (le_max_left _ _),
        fun address past => above.zero address ((le_max_left _ _).trans past)⟩
    | struct placed blocks map =>
      refine ⟨half, fun block member => ?_, fun address past => ?_⟩
      · have stop := furthest_le_iff.mp (le_refl (furthest blockEnd next.blocks)) block member
        have mark := le_max_right w.mark (furthest blockEnd next.blocks)
        simp only [blockEnd] at stop
        dsimp only
        omega
      · obtain ⟨beyondMark, beyondBlocks⟩ := max_le_iff.mp past
        have stop := furthest_le_iff.mp beyondBlocks _ (blocks ▸ List.mem_cons_self)
        simp only [blockEnd] at stop
        exact (placed.placed.mem_outside (.inr stop)).trans (above.zero address beyondMark)
  | hAllocRaw bytes => cases structOnly
  | write place value =>
    obtain ⟨_, rfl⟩ := step_write stepped
    refine ⟨half, fun block member => (above.below block member).trans (le_max_left _ _),
      fun address past => ?_⟩
    have beyond := (le_max_left _ _).trans past
    exact zero_past_write above.below stepped beyond (above.zero address beyond)
  | hGcDbg stack roots =>
    obtain ⟨_, collected, _, ran, rfl⟩ := step_hGcDbg steady stepped
    have prepared : CopiesBelow w.mark ⟨(w.session.heap.setFront w.session.heap.heapStart).resetUsed,
        stack, []⟩ :=
      ⟨⟨steady.prepared, Nat.le_add_right _ _, fun block member => by cases member⟩,
        fun address past _ => above.zero address past⟩
    have below := Machine.run_preserves (CopiesBelow w.mark) CopiesBelow.root prepared ran
    refine ⟨half, fun block member => ?_, fun address past => ?_⟩
    · have stop := furthest_le_iff.mp (le_refl (furthest copyEnd
        (collected.evacuated.map Evacuation.block).reverse)) block member
      have mark := le_max_right w.mark
        (furthest copyEnd (collected.evacuated.map Evacuation.block).reverse)
      simp only [copyEnd] at stop
      dsimp only
      omega
    · obtain ⟨beyondMark, beyondCopies⟩ := max_le_iff.mp past
      apply below.zero address beyondMark
      intro event member
      exact furthest_le_iff.mp beyondCopies event.block
        (List.mem_reverse.mpr (List.mem_map_of_mem member))

end GarbageCollector.Proofs
