import GarbageCollector.Proofs.AllocMap

/-! # What `h_init` returns

A heap that `h_init` returns has its table of spaces laid out one after the other, its first half
active, its map and its bytes zero and its bump pointer at the first space. Heaps whose `int`
products would overflow are not returned, since creating them faults.
-/

namespace GarbageCollector.Proofs

open Model

theorem spaceTable_ok {heapStart i count : ℕ} {table : List ℕ}
    (ok : spaceTable heapStart i count = .ok table) :
    (∀ j < count, (i + j) * spaceSize < 2 ^ 31) ∧
      table = (List.range count).map fun j => heapStart + (i + j) * spaceSize := by
  induction count generalizing i table with
  | zero => cases ok; simp
  | succ count ih =>
    simp only [spaceTable] at ok
    split at ok
    · next small =>
      obtain ⟨rest, tail, same⟩ := bind_ok_iff.mp ok
      cases same
      obtain ⟨bounds, rfl⟩ := ih tail
      constructor
      · intro j bound
        cases j with
        | zero => exact small
        | succ j =>
          have later := bounds j (by omega)
          rwa [Nat.add_assoc, Nat.add_comm 1] at later
      · rw [List.range_succ_eq_map, List.map_cons, List.map_map]
        refine congrArg₂ List.cons rfl (List.map_congr_left fun j _ => ?_)
        rw [Function.comp_apply, Nat.add_right_comm i 1 j]
        rfl
    · cases ok

theorem length_activateSpaces (flags : List Bool) (count : ℕ) :
    (activateSpaces flags count).length = flags.length := by
  unfold activateSpaces
  induction count with
  | zero => rfl
  | succ count ih => rw [List.range_succ, List.foldl_concat, List.length_set, ih]

theorem getElem?_activateSpaces (flags : List Bool) (count i : ℕ) :
    (activateSpaces flags count)[i]? = if i < count ∧ i < flags.length then some true else flags[i]? := by
  induction count with
  | zero => simp [activateSpaces]
  | succ count ih =>
    have unfolded : activateSpaces flags (count + 1) = (activateSpaces flags count).set count true := by
      rw [activateSpaces, List.range_succ, List.foldl_concat, ← activateSpaces]
    rw [unfolded]
    by_cases here : count = i
    · subst here
      by_cases inside : count < flags.length
      · rw [List.getElem?_set_self (by rwa [length_activateSpaces]), if_pos ⟨by omega, inside⟩]
      · rw [List.getElem?_eq_none (by rw [List.length_set, length_activateSpaces]; omega),
          if_neg (by omega), List.getElem?_eq_none (by omega)]
    · rw [List.getElem?_set_ne here, ih]
      congr 1
      simp only [eq_iff_iff]
      omega

private theorem getElem?_repeat_activateSpaces (flags : List Bool) (count repeats i : ℕ) :
    ((List.range repeats).foldl (fun flags _ => activateSpaces flags count) flags)[i]? =
        (if 0 < repeats ∧ i < count ∧ i < flags.length then some true else flags[i]?) ∧
      ((List.range repeats).foldl (fun flags _ => activateSpaces flags count) flags).length =
        flags.length := by
  induction repeats with
  | zero => simp
  | succ repeats ih =>
    rw [List.range_succ, List.foldl_concat, getElem?_activateSpaces, length_activateSpaces, ih.1, ih.2]
    refine ⟨?_, rfl⟩
    split_ifs <;> first | rfl | omega

/-- The number of spaces of an accepted size, where the conversion to `int` keeps it positive. -/
private theorem numberOfSpaces_spec {bytes : ℕ} {numberOfSpaces : ℤ}
    (converted : toInt32 (bytes / spaceSize) = numberOfSpaces) (positive : ¬ numberOfSpaces ≤ 0)
    (pages : bytes % (spaceSize * 2) = 0) :
    numberOfSpaces.toNat % 2 = 0 ∧ 2 ≤ numberOfSpaces.toNat ∧
      numberOfSpaces.toNat * spaceSize ≤ bytes := by
  simp only [toInt32, Int.bmod, spaceSize] at converted pages ⊢
  split at converted <;> omega

/-- What creating a heap establishes. -/
structure Fresh (h : Heap) : Prop where
  shaped : Shaped h
  half : HalfActive h
  front : h.allocFront = h.heapStart
  used : h.usedBytes = 0
  map : h.allocMap = List.replicate (h.size / 1024) 0
  zero : ∀ address, h.mem address = 0

theorem fresh_of_booted {h : Heap} (booted : Booted h) : Fresh h := by
  obtain ⟨bytes, unsafeStack, gcThreshold, block, made⟩ := booted
  unfold hInit at made
  split at made
  · cases made
  rename_i pages
  split at made
  · cases made
  split at made
  · cases made
  split at made
  · cases made
  rename_i large
  dsimp only at made
  generalize converted : toInt32 (bytes / spaceSize) = numberOfSpaces at made
  split at made
  · cases made
  rename_i positive
  obtain ⟨even, two, fits⟩ := numberOfSpaces_spec converted positive (by omega)
  generalize numberOfSpaces.toNat = count at made even two fits
  obtain ⟨table, spaces, made⟩ := bind_ok_iff.mp made
  obtain ⟨front, read, same⟩ := bind_ok_iff.mp made
  obtain rfl := Option.some.inj (Except.ok.inj same)
  obtain ⟨bounds, rfl⟩ := spaceTable_ok spaces
  have frontEq : front = block.address := by
    have found := (readArray_eq_ok_iff.mp read).2
    rw [Int.toNat_zero, List.getElem?_map, List.getElem?_range (by omega)] at found
    simpa using found.symm
  have flags := getElem?_repeat_activateSpaces (List.replicate count false) (count / 2) (count / 2)
  refine ⟨?_, ?_, frontEq, rfl, ?_, fun _ => rfl⟩
  · refine ⟨block.nonnull, block.aligned, Nat.le_of_not_lt large, block.bounded, block.fits, by simpa using pages, two,
      even, ?_, fits, ?_, ?_, ?_⟩
    · have last := bounds (count - 1) (by omega)
      simp only [spaceSize] at last ⊢
      omega
    · simp only [Nat.zero_add]
    · exact (flags 0).2.trans List.length_replicate
    · simp only [List.length_replicate, Nat.div_div_eq_div_mul]
  · intro i bound
    rw [(flags i).1, List.length_replicate]
    by_cases early : i < count / 2
    · rw [if_pos ⟨by omega, early, bound⟩, decide_eq_true early]
    · rw [if_neg (by omega), List.getElem?_replicate, if_pos bound, decide_eq_false early]
  · simp only [Nat.div_div_eq_div_mul]

/-- No segment of a fresh heap is marked. -/
theorem Fresh.not_marked {h : Heap} (fresh : Fresh h) (i : ℕ) : ¬ Marked h.allocMap i := by
  rintro ⟨word, found, bit⟩
  rw [fresh.map, List.getElem?_replicate] at found
  split at found
  · cases found
    simp at bit
  · contradiction

/-- A block for the smallest heap. -/
def smallBlock : CallocBlock 8192 := ⟨65536, by decide, by decide, by decide, by decide⟩

/-- The smallest heap, with four spaces. -/
def smallHeap : Heap where
  heapStart := 65536
  size := 8192
  allocFront := 65536
  spaces := [65536, 67584, 69632, 71680]
  numberOfSpaces := 4
  spaceIsActive := [true, true, false, false]
  allocMap := List.replicate 8 0
  unsafeStack := false
  usedBytes := 0
  mem := fun _ => 0

theorem booted_smallHeap : Booted smallHeap := ⟨8192, false, .finite 1, smallBlock, rfl⟩

end GarbageCollector.Proofs
