import GarbageCollector.Proofs.Footers

/-! # Finding the header of an interior pointer

The scan from an interior pointer moves by eight bytes, so it meets the footer of its own object only when
the object's size is a multiple of eight. Otherwise it passes that footer, and what it returns is the own
header only where a larger block once started at the same place and its footer is the next one to stand on
the scan's path.
-/

namespace GarbageCollector.Soundness

open Model Proofs

/-- The footer of an older, larger block with the same header is the first one on the path of a scan that
starts `k` bytes into the data. -/
def StaleFooterAhead (blocks : List Block) (block : Block) (k : ℕ) : Prop :=
  ∃ older ∈ blocks, older.header = block.header ∧ block.size < older.size ∧ older.size % 8 = 0 ∧
    standingFooter blocks (footerAddress older) = some older.size ∧
    ∀ ahead < older.size, k ≤ ahead → ahead % 8 = 0 →
      standingFooter blocks (block.dataStart + ahead) = none

/-- What holds of an object that no later block overlaps, on a heap that only `h_alloc_struct` has used:
`k` is an offset of its data, and no word of its data on the scan's path is tagged. -/
structure Searched (s : Session) (later : List Block) (block : Block) (earlier : List Block) (k : ℕ) :
    Prop where
  reachable : Reachable StructCall s
  split : s.blocks = later ++ block :: earlier
  alone : ∀ other ∈ later, block.extent.Apart other.extent
  inside : k < block.size
  multiple : k % 8 = 0
  untagged : ∀ words, k + 8 * words + 8 ≤ block.size →
    confirmTag (s.heap.mem.load64 (block.dataStart + k + 8 * words)) = false

namespace Searched

variable {s : Session} {later earlier : List Block} {block : Block} {k : ℕ}

theorem structOnly (searched : Searched s later block earlier k) : Reachable Call.StructOnly s := by
  obtain ⟨h, booted, calls, kinds, ran⟩ := searched.reachable
  refine ⟨h, booted, calls, fun call member => ?_, ran⟩
  obtain ⟨layout, rfl⟩ := kinds call member
  trivial

theorem member (searched : Searched s later block earlier k) : block ∈ s.blocks := by
  rw [searched.split]
  exact List.mem_append_right _ List.mem_cons_self

/-- Words of the object's data and its footer are apart from every later header and footer. -/
theorem standingFooter_eq (searched : Searched s later block earlier k) {address : ℕ}
    (lower : block.header ≤ address) (upper : address ≤ footerAddress block) :
    standingFooter s.blocks address = standingFooter (block :: earlier) address := by
  rw [searched.split]
  apply standingFooter_append
  intro other member
  have apart := searched.alone other member
  simp only [Block.extent, headerSizeBytes] at apart
  have order := (Extent.apart_iff (by dsimp only; omega) (by dsimp only; omega)).mp apart
  unfold footerAddress at upper
  dsimp only at order
  unfold WordsApart footerAddress
  constructor <;> omega

theorem ownFooter (searched : Searched s later block earlier k) :
    standingFooter s.blocks (footerAddress block) = some block.size := by
  have lower : block.header ≤ footerAddress block := by
    unfold footerAddress
    omega
  rw [searched.standingFooter_eq lower le_rfl, standingFooter, if_pos rfl]

/-- Every word up to a block's footer can be read. -/
theorem readable (searched : Searched s later block earlier k) {other : Block} (recorded : other ∈ s.blocks)
    {address : ℕ} (lower : block.header ≤ address) (upper : address ≤ footerAddress other) :
    s.heap.InBounds address 8 := by
  have half := firstHalf_of_reachable searched.structOnly
  have fits := half.steady.shaped.spacesFit
  obtain ⟨_, last⟩ := half.blocks other recorded
  obtain ⟨first, _⟩ := half.blocks block searched.member
  unfold footerAddress at upper
  simp only [spaceSize] at fits
  constructor <;> omega

/-- A standing footer at a distance that it names leads back to the object's header. -/
theorem headerBefore_eq (searched : Searched s later block earlier k) {size : ℕ} (small : size ≤ 216)
    (stands : standingFooter s.blocks (block.dataStart + size) = some size) :
    headerBefore s.heap (block.dataStart + size) = block.header := by
  have footers := footersStand_of_reachable searched.reachable
  rw [headerBefore, footers.stands _ _ stands, toNat_getSizeBitsField_createFooter]
  simp only [Block.dataStart, headerSizeBytes]
  omega

/-- The scan finds the own header once it meets a footer that names its distance. -/
theorem finds (searched : Searched s later block earlier k) {other : Block} (recorded : other ∈ s.blocks)
    (same : other.header = block.header) (after : k ≤ other.size) (wholeWords : other.size % 8 = 0)
    (stands : standingFooter s.blocks (footerAddress other) = some other.size)
    (clear : ∀ ahead < other.size, k ≤ ahead → ahead % 8 = 0 →
      confirmTag (s.heap.mem.load64 (block.dataStart + ahead)) = false) :
    s.heap.findHeaderAddressThroughFooter (block.dataStart + k) (block.dataStart + k + spaceSize) =
      .ok (some block.header) := by
  have footers := footersStand_of_reachable searched.reachable
  have small := (footers.aligned other recorded).2.2
  have multiple := searched.multiple
  have footer : footerAddress other = block.dataStart + other.size := by
    simp only [footerAddress, same, Block.dataStart, headerSizeBytes]
  rw [footer] at stands
  have place (step : ℕ) : block.dataStart + k + 8 * step = block.dataStart + (k + 8 * step) := by omega
  have last : k + 8 * ((other.size - k) / 8) = other.size := by omega
  have first : FirstTag s.heap (block.dataStart + k) (block.dataStart + k + spaceSize)
      ((other.size - k) / 8) := by
    constructor
    · simp only [spaceSize]
      omega
    · intro step bound
      apply searched.readable recorded
      · simp only [Block.dataStart, headerSizeBytes]
        omega
      · rw [footer]
        omega
    · intro step bound
      rw [place]
      exact clear _ (by omega) (by omega) (by omega)
    · rw [place, last, footers.stands _ _ stands, confirmTag_createFooter]
  rw [findHeader_of_firstTag first, place, last, searched.headerBefore_eq small stands]

/-- A footer that names its distance to the block's header belongs to the block or is a stale one. -/
theorem lt_size_of_stands (searched : Searched s later block earlier k) (odd : block.size % 8 ≠ 0) {older : Block}
    {steps : ℕ} (distance : k + 8 * steps = older.size)
    (stands : standingFooter s.blocks (block.dataStart + (k + 8 * steps)) = some older.size) :
    block.size < older.size := by
  have footers := footersStand_of_reachable searched.reachable
  have multiple := searched.multiple
  have dataStart : block.dataStart = block.header + 8 := rfl
  have place : block.dataStart + k + 8 * steps = block.dataStart + (k + 8 * steps) := by omega
  by_contra notLarger
  rcases Nat.lt_or_ge block.size (older.size + 8) with close | inData
  · have here : standingFooter s.blocks (block.dataStart + (k + 8 * steps)) =
        standingFooter (block :: earlier) _ :=
      searched.standingFooter_eq (by omega) (by unfold footerAddress; omega)
    rw [stands, standingFooter, if_neg (by unfold footerAddress; omega),
      if_neg (by unfold WordsApart footerAddress; omega)] at here
    cases here
  · have untagged := searched.untagged steps (by omega)
    rw [place, footers.stands _ _ stands, confirmTag_createFooter] at untagged
    cases untagged

/-- A scan that returns the own header of an object of another size than a multiple of eight has met a
stale footer. -/
theorem stale_of_finds (searched : Searched s later block earlier k) (odd : block.size % 8 ≠ 0)
    (found : s.heap.findHeaderAddressThroughFooter (block.dataStart + k) (block.dataStart + k + spaceSize) =
      .ok (some block.header)) : StaleFooterAhead s.blocks block k := by
  have footers := footersStand_of_reachable searched.reachable
  have positive := (firstHalf_of_reachable searched.structOnly).steady.shaped.nonnull
  obtain ⟨lowest, _⟩ := (firstHalf_of_reachable searched.structOnly).blocks block searched.member
  obtain ⟨headerAligned, _⟩ := footers.aligned block searched.member
  have multiple := searched.multiple
  have dataStart : block.dataStart = block.header + 8 := rfl
  obtain ⟨steps, first, header_eq⟩ := firstTag_of_findHeader found
  have place (step : ℕ) : block.dataStart + k + 8 * step = block.dataStart + (k + 8 * step) := by omega
  have tagged := first.tagged
  rw [place] at tagged header_eq
  obtain ⟨size, stands⟩ : ∃ size, standingFooter s.blocks (block.dataStart + (k + 8 * steps)) = some size := by
    rw [← Option.ne_none_iff_exists']
    intro none
    rw [footers.clear _ (by omega) none] at tagged
    cases tagged
  obtain ⟨older, recorded, footer, rfl⟩ := mem_of_standingFooter stands
  obtain ⟨olderAligned, _, olderSmall⟩ := footers.aligned older recorded
  rw [headerBefore, footers.stands _ _ stands, toNat_getSizeBitsField_createFooter] at header_eq
  simp only [footerAddress, headerSizeBytes] at footer header_eq
  have distance : k + 8 * steps = older.size := by omega
  refine ⟨older, recorded, by omega, searched.lt_size_of_stands odd distance stands, by omega, ?_, ?_⟩
  · rw [footerAddress, footer]
    exact stands
  · intro ahead before after unit
    by_contra some
    obtain ⟨size, early⟩ := Option.ne_none_iff_exists'.mp some
    have untagged := first.untagged ((ahead - k) / 8) (by omega)
    rw [place, show k + 8 * ((ahead - k) / 8) = ahead by omega, footers.stands _ _ early,
      confirmTag_createFooter] at untagged
    cases untagged

end Searched

/-- The scan from an offset that is a multiple of eight returns the object's own header exactly when the
size of the object is one too, or a stale footer says so. -/
theorem findsOwnHeader_iff {s : Session} {later earlier : List Block} {block : Block} {k : ℕ}
    (searched : Searched s later block earlier k) :
    s.heap.findHeaderAddressThroughFooter (block.dataStart + k) (block.dataStart + k + spaceSize) =
        .ok (some block.header) ↔
      block.size % 8 = 0 ∨ StaleFooterAhead s.blocks block k := by
  have footers := footersStand_of_reachable searched.reachable
  obtain ⟨headerAligned, _⟩ := footers.aligned block searched.member
  have inside := searched.inside
  have multiple := searched.multiple
  have dataStart : block.dataStart = block.header + 8 := rfl
  constructor
  · intro found
    rcases Nat.eq_zero_or_pos (block.size % 8) with whole | odd
    · exact .inl whole
    · exact .inr (searched.stale_of_finds odd.ne' found)
  · rintro (whole | ⟨older, recorded, same, larger, whole, stands, clear⟩)
    · apply searched.finds searched.member rfl inside.le whole searched.ownFooter
      intro ahead before after unit
      have untagged := searched.untagged ((ahead - k) / 8) (by omega)
      rwa [show block.dataStart + k + 8 * ((ahead - k) / 8) = block.dataStart + ahead by omega] at untagged
    · apply searched.finds recorded same (by omega) whole stands
      intro ahead before after unit
      exact footers.clear _ (by omega) (clear ahead before after unit)

/-- Two objects of sixteen bytes. -/
def evenObjects : List Call := [.hAllocStruct (some "4i".toList), .hAllocStruct (some "4i".toList)]

/-- Two objects of four bytes. -/
def oddObjects : List Call := [.hAllocStruct (some "i".toList), .hAllocStruct (some "i".toList)]

theorem structCall_of_member {calls : List Call} (all : calls = evenObjects ∨ calls = oddObjects) :
    ∀ call ∈ calls, StructCall call := by
  rintro call member
  rcases all with rfl | rfl
  all_goals
    simp only [evenObjects, oddObjects, List.mem_cons, List.not_mem_nil, or_false] at member
    rcases member with rfl | rfl <;> exact ⟨_, rfl⟩

/-- From the second word of the first of two objects of sixteen bytes. -/
theorem findsOwnHeader_even : ∃ s, Machine.run Session.step (Session.start smallHeap) evenObjects = .ok s ∧
    s.heap.findHeaderAddressThroughFooter (65544 + 8) (65544 + 8 + 2048) = .ok (some 65536) := by
  obtain ⟨s, ran, found⟩ := exists_of_toOption
    (Machine.run Session.step (Session.start smallHeap) evenObjects)
    (fun s => (s.blocks, confirmTag (s.heap.mem.load64 65552)))
    ([⟨65568, 16⟩, ⟨65536, 16⟩], false) (by decide +kernel)
  obtain ⟨blocks, untagged⟩ := Prod.mk.inj found
  have searched : Searched s [⟨65568, 16⟩] ⟨65536, 16⟩ [] 8 := by
    refine ⟨⟨smallHeap, booted_smallHeap, evenObjects, structCall_of_member (.inl rfl), ran⟩, blocks, ?_,
      by decide, by decide, ?_⟩
    · intro other member
      obtain rfl := List.mem_singleton.mp member
      exact Extent.apart_of_le (.inl (by decide))
    · intro words inside
      obtain rfl : words = 0 := by
        dsimp only at inside
        omega
      exact untagged
  exact ⟨s, ran, (findsOwnHeader_iff searched).mpr (.inl (by decide))⟩

/-- From the first byte of the first of two objects of four bytes the scan returns the header of the
second one. -/
theorem exists_neighbour_found : ∃ s,
    Machine.run Session.step (Session.start smallHeap) oddObjects = .ok s ∧
    s.blocks = [⟨65556, 4⟩, ⟨65536, 4⟩] ∧ Searched s [⟨65556, 4⟩] ⟨65536, 4⟩ [] 0 ∧
    s.heap.findHeaderAddressThroughFooter 65544 (65544 + 2048) = .ok (some 65556) := by
  obtain ⟨s, ran, found⟩ := exists_of_toOption
    (Machine.run Session.step (Session.start smallHeap) oddObjects)
    (fun s => (s.blocks, (s.heap.findHeaderAddressThroughFooter 65544 (65544 + 2048)).toOption))
    ([⟨65556, 4⟩, ⟨65536, 4⟩], some (some 65556)) (by decide +kernel)
  obtain ⟨blocks, found⟩ := Prod.mk.inj found
  obtain ⟨_, found, rfl⟩ := exists_of_toOption _ id (some 65556) (by simpa using found)
  refine ⟨s, ran, blocks, ?_, found⟩
  refine ⟨⟨smallHeap, booted_smallHeap, oddObjects, structCall_of_member (.inr rfl), ran⟩, blocks, ?_,
    by decide, by decide, fun words inside => ?_⟩
  · intro other member
    obtain rfl := List.mem_singleton.mp member
    exact Extent.apart_of_le (.inl (by decide))
  · dsimp only at inside
    omega

end GarbageCollector.Soundness
