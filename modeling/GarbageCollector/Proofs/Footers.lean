import GarbageCollector.Proofs.Copying
import GarbageCollector.Proofs.Scan

/-! # Which footers still stand

When all that is ever written to a heap is headers and footers of structs, a word at a multiple of four
carries the tag exactly when it is a footer that no later header or footer has touched. A header has both
type bits set and a size byte below that of the tag, and no half of a footer looks like the other half, so
no mixture of old and new bytes is a tag.
-/

namespace GarbageCollector.Proofs

open Model

/-- Where the footer of a block is. -/
def footerAddress (block : Block) : ℕ := block.header + 8 + block.size

/-- The eight bytes at two addresses share none. -/
def WordsApart (first second : ℕ) : Prop := first + 8 ≤ second ∨ second + 8 ≤ first

instance (first second : ℕ) : Decidable (WordsApart first second) :=
  inferInstanceAs (Decidable (_ ∨ _))

/-- The size in the footer that stands at an address. The blocks are listed latest first, and a later
header or footer takes the bytes that it meets. -/
def standingFooter : List Block → ℕ → Option ℕ
  | [], _ => none
  | block :: earlier, address =>
    if address = footerAddress block then some block.size
    else if WordsApart address block.header ∧ WordsApart address (footerAddress block) then
      standingFooter earlier address
    else none

/-- Three bytes of a tagged word. -/
theorem bytes_of_confirmTag {memory : ByteMemory} {address : ℕ}
    (tagged : confirmTag (memory.load64 address) = true) :
    memory address = 0xBA ∧ memory (address + 3) = 0xEF ∧ memory (address + 4) = 0xBE := by
  have masked : memory.load64 address &&& BitVec.ofNat 64 (2 ^ 56 - 1) = footerIdentifier := by
    simpa [confirmTag, maskFromMsb] using tagged
  have bytes (offset : ℕ) (low : offset < 7) :
      memory (address + offset) = footerIdentifier.extractLsb' (8 * offset) 8 := by
    have byte : (memory.load64 address).extractLsb' (8 * offset) 8 = memory (address + offset) :=
      ByteMemory.extractLsb'_load64 (by omega)
    rw [← byte, ← masked]
    apply BitVec.eq_of_getLsbD_eq
    intro index small
    rw [BitVec.getLsbD_extractLsb', BitVec.getLsbD_extractLsb', BitVec.getLsbD_and, BitVec.getLsbD_ofNat,
      Nat.testBit_two_pow_sub_one]
    grind
  have first := bytes 0 (by omega)
  rw [Nat.add_zero] at first
  refine ⟨first.trans ?_, (bytes 3 (by omega)).trans ?_, (bytes 4 (by omega)).trans ?_⟩
  all_goals decide

/-- A word whose halves cannot complete a tag from either side. -/
structure Quiet (word : Word) : Prop where
  low : word.extractLsb' 0 8 ≠ 0xBE
  high : word.extractLsb' 32 8 ≠ 0xBA ∨ word.extractLsb' 56 8 ≠ 0xEF

theorem quiet_createFooter (size : ℕ) : Quiet (createFooter (BitVec.ofNat 8 size)) := by
  have low : ∀ size : BitVec 8, (createFooter size).extractLsb' 0 8 ≠ 0xBE := by decide +kernel
  have high : ∀ size : BitVec 8, (createFooter size).extractLsb' 32 8 ≠ 0xBA := by decide +kernel
  exact ⟨low _, .inl (high _)⟩

/-- The two type bits of a header are its lowest. -/
theorem typeBits_of_toBitVector {format : List Char} {bits : Word}
    (encoded : toBitVector format = some bits) :
    bits.getLsbD 0 = true ∧ bits.getLsbD 1 = true := by
  rw [getLsbD_toBitVector encoded, getLsbD_toBitVector encoded]
  simp

theorem quiet_of_toBitVector {format : List Char} {bits : Word}
    (encoded : toBitVector format = some bits) : Quiet bits ∧ bits.extractLsb' 0 8 ≠ 0xBA := by
  obtain ⟨lowest, _⟩ := typeBits_of_toBitVector encoded
  obtain ⟨small, _⟩ := formatStrBytes_of_toBitVector encoded
  have odd (byte : BitVec 8) (even : byte.getLsbD 0 = false) : bits.extractLsb' 0 8 ≠ byte := by
    intro same
    rw [← same, BitVec.getLsbD_extractLsb', Nat.add_zero, lowest] at even
    cases even
  refine ⟨⟨odd _ (by decide), .inr fun same => ?_⟩, odd _ (by decide)⟩
  have size := toNat_getSizeBitsField_toBitVector encoded
  have top : getSizeBitsField bits = (bits.extractLsb' 56 8).setWidth 64 := by
    apply BitVec.eq_of_getLsbD_eq
    intro k bound
    rw [getSizeBitsField, BitVec.getLsbD_ushiftRight, BitVec.getLsbD_setWidth,
      BitVec.getLsbD_extractLsb']
    grind
  rw [top, same] at size
  have large : ((0xEF : BitVec 8).setWidth 64).toNat = 239 := by decide
  omega

/-- A quiet word stored next to a word at a multiple of four leaves it untagged where they meet. -/
theorem untagged_of_meets {memory : ByteMemory} {address place : ℕ} {word : Word} (quiet : Quiet word)
    (aligned : address % 4 = 0) (placeAligned : place % 4 = 0) (meets : ¬ WordsApart address place)
    (other : address ≠ place) : confirmTag ((memory.store64 place word).load64 address) = false := by
  rw [← Bool.not_eq_true]
  intro tagged
  obtain ⟨first, fourth, fifth⟩ := bytes_of_confirmTag tagged
  have sides : place = address + 4 ∨ address = place + 4 := by
    unfold WordsApart at meets
    omega
  rcases sides with rfl | rfl
  · have byte : memory.store64 (address + 4) word (address + 4 + 0) = word.extractLsb' (8 * 0) 8 :=
      ByteMemory.store64_inside (by omega)
    rw [Nat.add_zero, fifth] at byte
    exact quiet.low byte.symm
  · have low : memory.store64 place word (place + 4) = word.extractLsb' (8 * 4) 8 :=
      ByteMemory.store64_inside (by omega)
    have high : memory.store64 place word (place + 7) = word.extractLsb' (8 * 7) 8 :=
      ByteMemory.store64_inside (by omega)
    rw [first] at low
    rw [show place + 7 = place + 4 + 3 by omega, fourth] at high
    rcases quiet.high with differs | differs
    · exact differs low.symm
    · exact differs high.symm

theorem load64_store64_of_apart {memory : ByteMemory} {address place : ℕ} {word : Word}
    (apart : WordsApart address place) :
    (memory.store64 place word).load64 address = memory.load64 address := by
  unfold WordsApart at apart
  exact ByteMemory.load64_congr fun offset bound => ByteMemory.store64_of_outside (by omega)

/-- A standing footer belongs to a block on record. -/
theorem mem_of_standingFooter {blocks : List Block} {address size : ℕ}
    (stands : standingFooter blocks address = some size) :
    ∃ block ∈ blocks, footerAddress block = address ∧ block.size = size := by
  induction blocks with
  | nil => cases stands
  | cons block earlier ih =>
    unfold standingFooter at stands
    split at stands
    · next here => exact ⟨block, List.mem_cons_self, here.symm, Option.some.inj stands⟩
    · split at stands
      · obtain ⟨other, member, found⟩ := ih stands
        exact ⟨other, List.mem_cons_of_mem _ member, found⟩
      · cases stands

/-- Later blocks that keep away from an address do not change what stands there. -/
theorem standingFooter_append {later earlier : List Block} {address : ℕ}
    (away : ∀ block ∈ later, WordsApart address block.header ∧ WordsApart address (footerAddress block)) :
    standingFooter (later ++ earlier) address = standingFooter earlier address := by
  induction later with
  | nil => rfl
  | cons block later ih =>
    obtain ⟨fromHeader, fromFooter⟩ := away block List.mem_cons_self
    have other : address ≠ footerAddress block := by
      rintro rfl
      unfold WordsApart at fromFooter
      omega
    rw [List.cons_append, standingFooter, if_neg other, if_pos ⟨fromHeader, fromFooter⟩]
    exact ih fun block member => away block (List.mem_cons_of_mem _ member)

/-- Calls of `h_alloc_struct`. -/
def StructCall (call : Call) : Prop := ∃ layout, call = .hAllocStruct layout

/-- The tags of a heap are its standing footers. -/
structure FootersStand (s : Session) : Prop where
  aligned : ∀ block ∈ s.blocks, block.header % 4 = 0 ∧ block.size % 4 = 0 ∧ block.size ≤ 216
  front : s.heap.allocFront % 4 = 0
  clear : ∀ address, address % 4 = 0 → standingFooter s.blocks address = none →
    confirmTag (s.heap.mem.load64 address) = false
  stands : ∀ address size, standingFooter s.blocks address = some size →
    s.heap.mem.load64 address = createFooter (BitVec.ofNat 8 size)

theorem FootersStand.start {h : Heap} (fresh : Fresh h) : FootersStand (Session.start h) := by
  constructor
  · intro block member
    cases member
  · have aligned := fresh.shaped.aligned
    have front := fresh.front
    change h.allocFront % 4 = 0
    omega
  · intro address _ _
    rw [← Bool.not_eq_true]
    intro tagged
    obtain ⟨first, _⟩ := bytes_of_confirmTag tagged
    rw [show (Session.start h).heap.mem address = 0 from fresh.zero address] at first
    cases first
  · intro address size stands
    cases stands

/-- A word that overlaps the header of a new block, but not its footer, is not tagged. -/
theorem untagged_of_header {mem : ByteMemory} {address header : ℕ} {word : Word} (quiet : Quiet word)
    (untagged : word.extractLsb' 0 8 ≠ 0xBA) (unit : address % 4 = 0) (aligned : header % 4 = 0)
    (meets : ¬ WordsApart address header) : confirmTag ((mem.store64 header word).load64 address) = false := by
  by_cases same : address = header
  · subst same
    rw [← Bool.not_eq_true]
    intro tagged
    obtain ⟨first, _⟩ := bytes_of_confirmTag tagged
    have byte : mem.store64 address word (address + 0) = word.extractLsb' (8 * 0) 8 :=
      ByteMemory.store64_inside (by omega)
    rw [Nat.add_zero, first] at byte
    exact untagged byte.symm
  · exact untagged_of_meets quiet unit aligned meets same

/-- One more struct block. -/
theorem FootersStand.place {s : Session} {h' : Heap} {layout : Option (List Char)}
    {size header index space : ℕ} {word : Word} (footers : FootersStand s) (steady : Steady s.heap)
    (placed : StructPlaced s.heap h' layout size header index space word) {map : List Word} :
    FootersStand ⟨h', ⟨header, size⟩ :: s.blocks, map⟩ := by
  obtain ⟨small, wholeUnits⟩ := structRequest_size placed.request
  obtain ⟨_, format, _, _, encoded, _⟩ := structRequest_some placed.request
  obtain ⟨quiet, untagged⟩ := quiet_of_toBitVector encoded
  obtain ⟨_, start, _⟩ := placed.current.bounds steady.shaped steady.half steady.front
  have aligned := steady.shaped.aligned
  have front := footers.front
  have headerAligned : header % 4 = 0 := by
    have header_eq := placed.header_eq
    split at header_eq <;> omega
  have footerAligned : (header + 8 + size) % 4 = 0 := by omega
  have mem := placed.placed.mem
  constructor
  · intro block member
    rcases List.mem_cons.mp member with rfl | old
    · exact ⟨headerAligned, wholeUnits, small⟩
    · exact footers.aligned block old
  · have newFront := placed.placed.front
    change h'.allocFront % 4 = 0
    omega
  · intro address unit none
    change confirmTag (h'.mem.load64 address) = false
    rw [mem]
    unfold standingFooter at none
    split at none
    · cases none
    · next other =>
      change address ≠ header + 8 + size at other
      by_cases fromFooter : WordsApart address (header + 8 + size)
      · rw [load64_store64_of_apart fromFooter]
        by_cases fromHeader : WordsApart address header
        · rw [load64_store64_of_apart fromHeader]
          rw [if_pos ⟨fromHeader, fromFooter⟩] at none
          exact footers.clear address unit none
        · exact untagged_of_header quiet untagged unit headerAligned fromHeader
      · exact untagged_of_meets (quiet_createFooter size) unit footerAligned fromFooter other
  · intro address size' stands
    change h'.mem.load64 address = _
    rw [mem]
    unfold standingFooter at stands
    split at stands
    · next here =>
      change address = header + 8 + size at here
      obtain rfl := Option.some.inj stands
      rw [here, ByteMemory.load64_store64]
    · split at stands
      · next apart =>
        have fromFooter : WordsApart address (header + 8 + size) := apart.2
        rw [load64_store64_of_apart fromFooter, load64_store64_of_apart apart.1]
        exact footers.stands address size' stands
      · cases stands

/-- On a heap that only `h_alloc_struct` has used, the tags are the standing footers. -/
theorem footersStand_of_reachable {s : Session} (reachable : Reachable StructCall s) : FootersStand s := by
  apply (reachable_induction reachable FootersStand ?_ ?_).2
  · intro h booted
    exact .start (fresh_of_booted booted)
  · rintro s s' call steady footers ⟨layout, rfl⟩ ok
    cases step_hAllocStruct steady ok with
    | nullStruct same advances null => rwa [same]
    | struct placed blocks map =>
      obtain ⟨h', newBlocks, newMap⟩ := s'
      subst blocks
      exact footers.place steady placed

end GarbageCollector.Proofs
