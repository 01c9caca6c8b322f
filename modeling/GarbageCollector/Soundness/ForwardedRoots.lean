import GarbageCollector.Proofs.ApartCopy
import GarbageCollector.Proofs.Copying
import GarbageCollector.Soundness.Relocation

/-! # Two roots into one object

The first root of an object copies it and leaves a forwarding word, the second one decodes that word. The
copy starts at a multiple of four, so the two tag bits of the word cost no address bit, and both roots move
by the same distance.
-/

namespace GarbageCollector.Soundness

open Model Proofs

theorem getLsbD_setHeaderForwardAddress (address : Word) (k : ℕ) :
    (setHeaderForwardAddress address).getLsbD k =
      (decide (k = 0) || (decide (2 ≤ k) && address.getLsbD k)) := by
  have one : (1#64).getLsbD k = decide (k = 0) := by
    rw [BitVec.getLsbD_one]
    simp
  have three : (3#64).getLsbD k = decide (k < 2) := by
    rw [show (3#64) = BitVec.ofNat 64 (2 ^ 2 - 1) by rfl, BitVec.getLsbD_ofNat,
      Nat.testBit_two_pow_sub_one]
    grind
  rw [setHeaderForwardAddress, BitVec.getLsbD_or, BitVec.getLsbD_and, BitVec.getLsbD_not, one, three]
  grind

/-- The low bits of a multiple of four are clear. -/
theorem getLsbD_of_aligned {address : Word} (aligned : address.toNat % 4 = 0) {k : ℕ} (low : k < 2) :
    address.getLsbD k = false := by
  have cases : k = 0 ∨ k = 1 := by omega
  rcases cases with rfl | rfl
  · rw [BitVec.getLsbD, Nat.testBit_zero]
    simp only [decide_eq_false_iff_not]
    omega
  · rw [BitVec.getLsbD, Nat.testBit_succ, Nat.testBit_zero]
    simp only [decide_eq_false_iff_not]
    omega

/-- What the forwarding branch makes of a header word. -/
def forwardedTo (word : Word) : Word :=
  setBitAtIndexFromLsb (setBitAtIndexFromLsb word 0 false) 0 false

theorem forwardedTo_setHeaderForwardAddress {address : Word} (aligned : address.toNat % 4 = 0) :
    forwardedTo (setHeaderForwardAddress address) = address := by
  apply BitVec.eq_of_getLsbD_eq
  intro k bound
  simp only [forwardedTo, getLsbD_setBitAtIndexFromLsb (show 0 < 64 by omega),
    getLsbD_setHeaderForwardAddress]
  rcases Nat.lt_or_ge k 2 with low | high
  · rw [getLsbD_of_aligned aligned low]
    grind
  · grind

theorem headerGetAddress_setHeaderForwardAddress {address : Word} (aligned : address.toNat % 4 = 0) :
    headerGetAddress (setHeaderForwardAddress address) = address := by
  rw [headerGetAddress, getHeaderType_setHeaderForwardAddress]
  apply BitVec.eq_of_getLsbD_eq
  intro k bound
  simp only [getLsbD_maskFromLsb_two, getLsbD_setHeaderForwardAddress]
  rcases Nat.lt_or_ge k 2 with low | high
  · rw [getLsbD_of_aligned aligned low]
    grind
  · grind

/-- A struct object: its header word, its size and its own footer, inside the heap. -/
structure StructObject (h : Heap) (header size : ℕ) : Prop where
  inside : h.InBounds header (size + 16)
  encoded : Encodes h header size
  footer : h.mem.load64 (header + 8 + size) = createFooter (BitVec.ofNat 8 size)

/-- A root value in the data of an object whose scan meets the object's own footer first. -/
structure MeetsOwnFooter (h : Heap) (value : Word) (header size : ℕ) : Prop where
  pointed : value.toNat ∈ (Block.data ⟨header, size⟩).bytes
  large : 0xFFF ≤ value.toNat
  found : h.findHeaderAddressThroughFooter value.toNat (value + BitVec.ofNat 64 spaceSize).toNat =
    .ok (some header)
  own : ∃ steps, value.toNat + 8 * steps = header + 8 + size ∧
    ∀ step < steps, confirmTag (h.mem.load64 (value.toNat + 8 * step)) = false

/-- The scan stops at the object's own footer. -/
theorem MeetsOwnFooter.firstTag {h : Heap} {value : Word} {header size : ℕ}
    (meets : MeetsOwnFooter h value header size) (object : StructObject h header size) :
    ∃ steps, value.toNat + 8 * steps = header + 8 + size ∧
      FirstTag h value.toNat (value + BitVec.ofNat 64 spaceSize).toNat steps ∧
      header = headerBefore h (value.toNat + 8 * steps) := by
  obtain ⟨steps, atFooter, untagged⟩ := meets.own
  obtain ⟨other, first, header_eq⟩ := firstTag_of_findHeader meets.found
  have tagged : confirmTag (h.mem.load64 (value.toNat + 8 * steps)) = true := by
    rw [atFooter, object.footer, confirmTag_createFooter]
  rcases Nat.lt_trichotomy other steps with less | rfl | more
  · have clear := untagged other less
    rw [first.tagged] at clear
    cases clear
  · exact ⟨other, atFooter, first, header_eq⟩
  · have clear := first.untagged steps more
    rw [tagged] at clear
    cases clear

/-- A root whose scan returns a forwarded header gets the forwarding branch's value. -/
theorem rootCase_of_forwarded {h : Heap} {value : Word} {header : ℕ} (large : 0xFFF ≤ value.toNat)
    (found : h.findHeaderAddressThroughFooter value.toNat
      (value + BitVec.ofNat 64 spaceSize).toNat = .ok (some header))
    (inside : h.InBounds header 8)
    (forwarded : getHeaderType (h.mem.load64 header) = .forwardingAddress) :
    h.rootCase value = .ok (.forwarding (forwardedTo (h.mem.load64 header) +
      (value - BitVec.ofNat 64 header))) := by
  rw [Heap.rootCase, if_neg (by omega), found]
  simp only [load64_of_inBounds inside, forwarded, bind, Except.bind]
  rfl

/-- An offset into an object, carried to the copy. -/
theorem toNat_relocated {value : Word} {header newHeader : ℕ} (after : header ≤ value.toNat)
    (fits : newHeader + (value.toNat - header) < 2 ^ 64) :
    (BitVec.ofNat 64 newHeader + (value - BitVec.ofNat 64 header)).toNat =
      newHeader + (value.toNat - header) := by
  have bound := value.isLt
  have old : (BitVec.ofNat 64 header).toNat = header := by
    rw [BitVec.toNat_ofNat, Nat.mod_eq_of_lt (by omega)]
  have offset : (value - BitVec.ofNat 64 header).toNat = value.toNat - header := by
    rw [BitVec.toNat_sub_of_le (BitVec.le_def.mpr (by omega)), old]
  rw [BitVec.toNat_add, offset, BitVec.toNat_ofNat, Nat.mod_eq_of_lt (show newHeader < 2 ^ 64 by omega),
    Nat.mod_eq_of_lt fits]

/-- Both roots follow the object to its copy at `newHeader`: the first call copies, and the second one
only rewrites its slot. -/
structure FollowAlike (c c' : Collection) (p q header newHeader : ℕ) : Prop where
  encoded : c'.heap.mem.load64 newHeader = c.heap.mem.load64 header
  forwards : getHeaderType (c'.heap.mem.load64 header) = .forwardingAddress
  address : (headerGetAddress (c'.heap.mem.load64 header)).toNat = newHeader
  decoded : (forwardedTo (c'.heap.mem.load64 header)).toNat = newHeader
  front : c'.heap.allocFront % 4 = 0
  first : (c'.stack p).toNat = newHeader + ((c.stack p).toNat - header)
  second : ∃ last, garbageCollection c' q = .ok last ∧ last.heap = c'.heap ∧
    last.evacuated = c'.evacuated ∧ (last.stack q).toNat = newHeader + ((c.stack q).toNat - header)

/-- Two root slots with values in one object move alike. -/
theorem roots_followAlike {c c' : Collection} {p q header newHeader size : ℕ}
    (tiled : Proofs.Tiled c.heap) (aligned : c.heap.heapStart % 16 = 0)
    (inAddressSpace : c.heap.heapStart + c.heap.size ≤ 2 ^ 64) (front : c.heap.allocFront % 4 = 0)
    (object : StructObject c.heap header size) (distinct : q ≠ p) (nonnull : q ≠ 0)
    (fromP : MeetsOwnFooter c.heap (c.stack p) header size)
    (fromQ : MeetsOwnFooter c.heap (c.stack q) header size)
    (apart : (Block.extent ⟨header, size⟩).Apart (Block.extent ⟨newHeader, size⟩))
    (ok : garbageCollection c p = .ok c')
    (recorded : c'.evacuated = c.evacuated ++ [⟨header, newHeader, size⟩]) :
    FollowAlike c c' p q header newHeader := by
  have copy := apartCopy object.encoded fromP.pointed apart ok recorded
  have newAligned := copy.aligned tiled aligned front
  obtain ⟨lower, upper⟩ := copy.inside
  have wholeUnits : size % 4 = 0 := by
    obtain ⟨format, _, _, encoded, rfl⟩ := object.encoded
    exact (formatStrBytes_of_toBitVector encoded).2
  have pointedP := fromP.pointed
  have pointedQ := fromQ.pointed
  simp only [Block.data, Block.dataStart, headerSizeBytes, Extent.mem_bytes] at pointedP pointedQ
  have word : (BitVec.ofNat 64 newHeader).toNat = newHeader := by
    rw [BitVec.toNat_ofNat, Nat.mod_eq_of_lt (by omega)]
  have wordAligned : (BitVec.ofNat 64 newHeader).toNat % 4 = 0 := word.symm ▸ newAligned
  have forwards : getHeaderType (c'.heap.mem.load64 header) = .forwardingAddress := by
    rw [copy.forwarded, getHeaderType_setHeaderForwardAddress]
  have decoded : forwardedTo (c'.heap.mem.load64 header) = BitVec.ofNat 64 newHeader := by
    rw [copy.forwarded, forwardedTo_setHeaderForwardAddress wordAligned]
  have bounds (address length : ℕ) (inside : c.heap.InBounds address length) :
      c'.heap.InBounds address length := by
    rwa [Heap.InBounds, copy.shape.heapStart, copy.shape.size]
  simp only [Block.extent, headerSizeBytes] at apart
  have order := (Extent.apart_iff (by dsimp only; omega) (by dsimp only; omega)).mp apart
  dsimp only at order
  have found : c'.heap.findHeaderAddressThroughFooter (c.stack q).toNat
      (c.stack q + BitVec.ofNat 64 spaceSize).toNat = .ok (some header) := by
    obtain ⟨steps, atFooter, first, header_eq⟩ := fromQ.firstTag object
    obtain ⟨again, same⟩ : FirstTag c'.heap _ _ _ ∧ _ := first.congr (fun address => bounds address 8)
      fun address low high => copy.outside address (by omega) (by omega)
    rw [findHeader_of_firstTag again, same, ← header_eq]
  have inside : c'.heap.InBounds header 8 := bounds header 8 ⟨object.inside.1, by
    have last := object.inside.2
    omega⟩
  have otherSlot : c'.stack q = c.stack q := by
    rw [copy.stack, Function.update_of_ne distinct]
  have looked := rootCase_of_forwarded fromQ.large found inside forwards
  rw [decoded] at looked
  refine ⟨copy.encoded, forwards, ?_, by rw [decoded, word], ?_, ?_, ?_⟩
  · rw [copy.forwarded, headerGetAddress_setHeaderForwardAddress wordAligned, word]
  · rw [copy.front]
    omega
  · rw [copy.stack, Function.update_self, toNat_relocated (by omega) (by omega)]
  · refine ⟨⟨c'.heap, Function.update c'.stack q
      (BitVec.ofNat 64 newHeader + (c.stack q - BitVec.ofNat 64 header)), c'.evacuated⟩, ?_, rfl, rfl, ?_⟩
    · rw [garbageCollection_of_ne_zero c' nonnull, otherSlot, looked]
      rfl
    · dsimp only
      rw [Function.update_self, toNat_relocated (by omega) (by omega)]

/-- The second of two objects, through two slots. -/
theorem followAlike_two_slots : ∃ c c', garbageCollection c 8 = .ok c' ∧
    c'.evacuated = [⟨65568, 65536, 8⟩] ∧ FollowAlike c c' 8 16 65568 65536 := by
  obtain ⟨s, ran, found⟩ := exists_of_toOption
    (Machine.run Session.step (Session.start smallHeap) twoObjects)
    (fun s => (((s.heap.heapStart, s.heap.size), (s.heap.mem.load64 65568, s.heap.mem.load64 65584)),
      ((s.heap.findHeaderAddressThroughFooter 65576 67624).toOption == some (some 65568),
        confirmTag (s.heap.mem.load64 65576)),
      (garbageCollection ⟨(s.heap.setFront s.heap.heapStart).resetUsed, twoSlots, []⟩ 8).toOption.map
        fun c' => c'.evacuated))
    (((65536, 8192), (0x0800000000000003, createFooter 8)), (true, false), some [⟨65568, 65536, 8⟩])
    (by decide +kernel)
  obtain ⟨places, found⟩ := Prod.mk.inj found
  obtain ⟨bounds, words⟩ := Prod.mk.inj places
  obtain ⟨start, length⟩ := Prod.mk.inj bounds
  obtain ⟨word, footer⟩ := Prod.mk.inj words
  obtain ⟨scanned, found⟩ := Prod.mk.inj found
  obtain ⟨scan, untagged⟩ := Prod.mk.inj scanned
  obtain ⟨c', ok, recorded⟩ := exists_of_toOption _ _ _ found
  obtain ⟨_, scan, rfl⟩ := exists_of_toOption _ id (some 65568) (by simpa using scan)
  have reachable : Reachable Call.StructOnly s :=
    ⟨smallHeap, booted_smallHeap, twoObjects, by simp [twoObjects, Call.StructOnly], ran⟩
  have steady := (steady_of_reachable reachable).prepared
  have object : StructObject (s.heap.setFront s.heap.heapStart).resetUsed 65568 8 := by
    refine ⟨?_, ⟨"ii".toList, by decide, by decide, ?_, by decide⟩, footer⟩
    · simp [Heap.InBounds, show s.heap.heapStart = 65536 from start, show s.heap.size = 8192 from length]
    · rw [show (s.heap.setFront s.heap.heapStart).resetUsed.mem.load64 65568 = _ from word]
      decide +kernel
  have meets (slot : ℕ) (value : twoSlots slot = 65576) :
      MeetsOwnFooter (s.heap.setFront s.heap.heapStart).resetUsed (twoSlots slot) 65568 8 := by
    rw [value]
    refine ⟨by decide, by decide, ?_, 1, by decide, ?_⟩
    · rw [findHeaderAddressThroughFooter_prepared]
      exact scan
    · intro step first
      obtain rfl : step = 0 := by omega
      exact untagged
  have apart : (Block.extent ⟨65568, 8⟩).Apart (Block.extent ⟨65536, 8⟩) :=
    Extent.apart_of_le (.inr (by decide))
  have front : (s.heap.setFront s.heap.heapStart).resetUsed.allocFront % 4 = 0 := by
    have aligned := steady.shaped.aligned
    simp only [Heap.resetUsed_allocFront, Heap.setFront_allocFront, Heap.resetUsed_heapStart,
      Heap.setFront_heapStart] at aligned ⊢
    omega
  have follow := roots_followAlike (c := ⟨(s.heap.setFront s.heap.heapStart).resetUsed, twoSlots, []⟩)
    (p := 8) (q := 16) steady.shaped.tiled steady.shaped.aligned steady.shaped.inAddressSpace front object
    (by decide) (by decide) (meets 8 (by decide)) (meets 16 (by decide)) apart ok recorded
  exact ⟨_, c', ok, recorded, follow⟩

end GarbageCollector.Soundness
