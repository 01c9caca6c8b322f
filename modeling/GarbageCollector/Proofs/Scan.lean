import GarbageCollector.Proofs.Collect

/-! # What the scan for a footer meets

`find_header_address_through_footer` stops at the first tagged word on its path and jumps back by the
size that the word gives. `FirstTag` is that word; the scan succeeds exactly when there is one, and its
result depends only on the bytes up to it.
-/

namespace GarbageCollector.Proofs

open Model

variable {h h' : Heap} {ptr stop steps other header : ℕ}

/-- The first tagged word of a scan, `steps` words after its start. -/
structure FirstTag (h : Heap) (ptr stop steps : ℕ) : Prop where
  before : ptr + 8 * steps < stop
  readable : ∀ step ≤ steps, h.InBounds (ptr + 8 * step) 8
  untagged : ∀ step < steps, confirmTag (h.mem.load64 (ptr + 8 * step)) = false
  tagged : confirmTag (h.mem.load64 (ptr + 8 * steps)) = true

/-- The header that the scan computes from a tagged word. -/
def headerBefore (h : Heap) (address : ℕ) : ℕ :=
  address - ((getSizeBitsField (h.mem.load64 address)).toNat + headerSizeBytes)

theorem load64_of_inBounds {address : ℕ} (inside : h.InBounds address 8) :
    h.load64 address = .ok (h.mem.load64 address) :=
  if_pos inside

/-- The scan passes an untagged word. -/
theorem findHeader_next (before : ptr < stop) (inside : h.InBounds ptr 8)
    (untagged : confirmTag (h.mem.load64 ptr) = false) :
    h.findHeaderAddressThroughFooter ptr stop =
      h.findHeaderAddressThroughFooter (ptr + 8) stop := by
  rw [Heap.findHeaderAddressThroughFooter, if_pos before, load64_of_inBounds inside]
  change (if confirmTag _ = true then _ else _) = _
  rw [untagged, if_neg Bool.false_ne_true]

/-- The scan stops at a tagged word. -/
theorem findHeader_here (before : ptr < stop) (inside : h.InBounds ptr 8)
    (tagged : confirmTag (h.mem.load64 ptr) = true) :
    h.findHeaderAddressThroughFooter ptr stop = .ok (some (headerBefore h ptr)) := by
  rw [Heap.findHeaderAddressThroughFooter, if_pos before, load64_of_inBounds inside]
  change (if confirmTag _ = true then _ else _) = _
  rw [tagged, if_pos rfl]
  rfl

/-- The scan finds what its first tagged word says. -/
theorem findHeader_of_firstTag (first : FirstTag h ptr stop steps) :
    h.findHeaderAddressThroughFooter ptr stop = .ok (some (headerBefore h (ptr + 8 * steps))) := by
  induction steps generalizing ptr with
  | zero =>
    have inside := first.readable 0 le_rfl
    exact findHeader_here first.before inside first.tagged
  | succ steps ih =>
    have before := first.before
    have shift (step : ℕ) : ptr + 8 + 8 * step = ptr + 8 * (step + 1) := by omega
    have later : FirstTag h (ptr + 8) stop steps := by
      constructor
      · rw [shift]; exact before
      · intro step bound
        rw [shift]; exact first.readable (step + 1) (by omega)
      · intro step bound
        rw [shift]; exact first.untagged (step + 1) (by omega)
      · rw [shift]; exact first.tagged
    have inside := first.readable 0 (by omega)
    have untagged := first.untagged 0 (by omega)
    rw [Nat.mul_zero, Nat.add_zero] at inside untagged
    rw [findHeader_next (by omega) inside untagged, ih later, shift]

/-- A scan that succeeds met a tagged word. -/
theorem firstTag_of_findHeader
    (found : h.findHeaderAddressThroughFooter ptr stop = .ok (some header)) :
    ∃ steps, FirstTag h ptr stop steps ∧ header = headerBefore h (ptr + 8 * steps) := by
  fun_induction Heap.findHeaderAddressThroughFooter h ptr stop with
  | case1 ptr before ih =>
    obtain ⟨word, loaded, found⟩ := bind_ok_iff.mp found
    obtain ⟨inside, rfl⟩ := load64_ok_iff.mp loaded
    split at found
    · next tagged =>
      refine ⟨0, ⟨before, ?_, fun step bound => by omega, tagged⟩, ?_⟩
      · intro step bound
        obtain rfl : step = 0 := by omega
        exact inside
      · exact (Option.some.inj (Except.ok.inj found)).symm
    · next untagged =>
      obtain ⟨steps, first, rfl⟩ := ih found
      have shift (step : ℕ) : ptr + 8 + 8 * step = ptr + 8 * (step + 1) := by omega
      refine ⟨steps + 1, ⟨?_, ?_, ?_, ?_⟩, by rw [shift]⟩
      · rw [← shift]; exact first.before
      · intro step bound
        cases step with
        | zero => exact inside
        | succ step => rw [← shift]; exact first.readable step (by omega)
      · intro step bound
        cases step with
        | zero => simpa using untagged
        | succ step => rw [← shift]; exact first.untagged step (by omega)
      · rw [← shift]; exact first.tagged
  | case2 ptr after => cases found

/-- The scan reads no byte after its first tagged word. -/
theorem FirstTag.congr (first : FirstTag h ptr stop steps)
    (bounds : ∀ address, h.InBounds address 8 → h'.InBounds address 8)
    (same : ∀ address, ptr ≤ address → address < ptr + 8 * steps + 8 →
      h'.mem address = h.mem address) :
    FirstTag h' ptr stop steps ∧
      headerBefore h' (ptr + 8 * steps) = headerBefore h (ptr + 8 * steps) := by
  have words (step : ℕ) (bound : step ≤ steps) :
      h'.mem.load64 (ptr + 8 * step) = h.mem.load64 (ptr + 8 * step) :=
    ByteMemory.load64_congr fun offset small => same _ (by omega) (by omega)
  refine ⟨⟨first.before, ?_, ?_, ?_⟩, ?_⟩
  · exact fun step bound => bounds _ (first.readable step bound)
  · intro step bound
    rw [words step bound.le]
    exact first.untagged step bound
  · rw [words steps le_rfl]
    exact first.tagged
  · rw [headerBefore, headerBefore, words steps le_rfl]

end GarbageCollector.Proofs
