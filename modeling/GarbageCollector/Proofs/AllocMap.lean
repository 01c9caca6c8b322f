import GarbageCollector.Model.Session

/-! # The allocation map as a set of segments

`Marked map i` says that the bit of the 16-byte segment `i` is set. Both marking loops set exactly
a run of consecutive segments and clear none; `markObject` is the first loop from its own starting
point. `Shaped` records what `h_init` builds and no later operation changes: the table of spaces,
the length of the three arrays and the place of the block; under it `validatePtr` reads one bit.
-/

namespace GarbageCollector.Proofs

open Model

/-- The bit of segment `i` is set. -/
def Marked (map : List Word) (i : ℕ) : Prop :=
  ∃ word, map[i / 64]? = some word ∧ word.getMsbD (i % 64) = true

instance (map : List Word) (i : ℕ) : Decidable (Marked map i) :=
  match found : map[i / 64]? with
  | none => isFalse fun ⟨_, present, _⟩ => by simp [found] at present
  | some word => decidable_of_iff (word.getMsbD (i % 64) = true) (by simp [Marked, found])

theorem bind_ok_iff {α β : Type} {result : Except Fault α} {next : α → Except Fault β} {value : β} :
    (result >>= next) = .ok value ↔ ∃ middle, result = .ok middle ∧ next middle = .ok value :=
  Machine.bind_ok_iff

theorem setMapBit_ok_iff {map next : List Word} {mapIndex bitIndex : ℕ} :
    setMapBit map mapIndex bitIndex = .ok next ↔ ∃ word, map[mapIndex]? = some word ∧
      next = map.set mapIndex (setBitAtIndexFromMsb word bitIndex true) := by
  unfold setMapBit
  cases map[mapIndex]? with
  | none => simp
  | some word => simp [eq_comm]

theorem length_setMapBit {map next : List Word} {mapIndex bitIndex : ℕ}
    (ok : setMapBit map mapIndex bitIndex = .ok next) : next.length = map.length := by
  obtain ⟨_, _, rfl⟩ := setMapBit_ok_iff.mp ok
  exact List.length_set

theorem marked_setMapBit {map next : List Word} {mapIndex bitIndex : ℕ} (bound : bitIndex < 64)
    (ok : setMapBit map mapIndex bitIndex = .ok next) (i : ℕ) :
    Marked next i ↔ i = mapIndex * 64 + bitIndex ∨ Marked map i := by
  obtain ⟨word, found, rfl⟩ := setMapBit_ok_iff.mp ok
  have small : i % 64 < 64 := Nat.mod_lt _ (by omega)
  by_cases here : mapIndex = i / 64
  · have inside : i / 64 < map.length := here ▸ (List.getElem?_eq_some_iff.mp found).1
    rw [here] at found
    simp only [Marked, here, List.getElem?_set_self inside, found, Option.some.injEq, exists_eq_left',
      getMsbD_setBitAtIndexFromMsb bound small]
    by_cases same : i % 64 = bitIndex
    · simp only [same, if_true, true_iff]
      left
      omega
    · rw [if_neg same]
      refine ⟨.inr, fun cases => cases.resolve_left ?_⟩
      omega
  · simp only [Marked, List.getElem?_set_ne here]
    refine ⟨.inr, fun cases => cases.resolve_left ?_⟩
    omega

theorem setMapBit_exists {map : List Word} {mapIndex : ℕ} (inside : mapIndex < map.length)
    (bitIndex : ℕ) :
    ∃ next, setMapBit map mapIndex bitIndex = .ok next :=
  ⟨_, setMapBit_ok_iff.mpr ⟨_, List.getElem?_eq_getElem inside, rfl⟩⟩

theorem length_markSegments {map next : List Word} {first count : ℕ}
    (ok : markSegments map first count = .ok next) : next.length = map.length := by
  induction count generalizing map first with
  | zero => cases ok; rfl
  | succ count ih =>
    obtain ⟨middle, stepped, rest⟩ := bind_ok_iff.mp ok
    exact (ih rest).trans (length_setMapBit stepped)

/-- The loop of `set_alloc_map` sets a run of segments and no other bit. -/
theorem marked_markSegments {map next : List Word} {first count : ℕ}
    (ok : markSegments map first count = .ok next) (i : ℕ) :
    Marked next i ↔ (first ≤ i ∧ i < first + count) ∨ Marked map i := by
  induction count generalizing map first with
  | zero =>
    cases ok
    exact ⟨.inr, fun cases => cases.resolve_left (by omega)⟩
  | succ count ih =>
    obtain ⟨middle, stepped, rest⟩ := bind_ok_iff.mp ok
    rw [ih rest, marked_setMapBit (Nat.mod_lt _ (by omega)) stepped, ← or_assoc]
    apply or_congr_left
    omega

theorem markSegments_exists {map : List Word} {first count : ℕ}
    (inside : first + count ≤ 64 * map.length) : ∃ next, markSegments map first count = .ok next := by
  induction count generalizing map first with
  | zero => exact ⟨map, rfl⟩
  | succ count ih =>
    have here : first / 64 < map.length := by omega
    obtain ⟨middle, stepped⟩ := setMapBit_exists here (first % 64)
    have later : first + 1 + count ≤ 64 * middle.length := by
      rw [length_setMapBit stepped]
      omega
    obtain ⟨next, rest⟩ := ih later
    exact ⟨next, bind_ok_iff.mpr ⟨middle, stepped, rest⟩⟩

/-- The second marking loop is the first one, started at its own pair of indices. -/
theorem markObject_eq_markSegments {map : List Word} {mapIndex bitIndex count : ℕ}
    (bound : bitIndex ≤ 64) :
    markObject map mapIndex bitIndex count = markSegments map (mapIndex * 64 + bitIndex) count := by
  induction count generalizing map mapIndex bitIndex with
  | zero => rfl
  | succ count ih =>
    by_cases crossed : 63 < bitIndex
    · obtain rfl : bitIndex = 64 := by omega
      have word : (mapIndex * 64 + 64) / 64 = mapIndex + 1 := by omega
      have bit : (mapIndex * 64 + 64) % 64 = 0 := by omega
      have later : (mapIndex + 1) * 64 + (0 + 1) = mapIndex * 64 + 64 + 1 := by omega
      simp only [markObject, markSegments, crossed, if_true, word, bit, ih (show 0 + 1 ≤ 64 by omega), later]
    · have word : (mapIndex * 64 + bitIndex) / 64 = mapIndex := by omega
      have bit : (mapIndex * 64 + bitIndex) % 64 = bitIndex := by omega
      simp only [markObject, markSegments, crossed, if_false, word, bit,
        ih (show bitIndex + 1 ≤ 64 by omega), Nat.add_assoc]

/-- Wherever the second loop starts, it clears no bit. -/
theorem Marked.markObject {map next : List Word} {mapIndex bitIndex count i : ℕ} (marked : Marked map i)
    (ok : markObject map mapIndex bitIndex count = .ok next) : Marked next i := by
  induction count generalizing map mapIndex bitIndex with
  | zero => cases ok; exact marked
  | succ count ih =>
    obtain ⟨middle, stepped, rest⟩ := bind_ok_iff.mp ok
    apply ih _ rest
    apply (marked_setMapBit _ stepped i).mpr (.inr marked)
    split <;> omega

theorem length_markObject {map next : List Word} {mapIndex bitIndex count : ℕ}
    (ok : markObject map mapIndex bitIndex count = .ok next) : next.length = map.length := by
  induction count generalizing map mapIndex bitIndex with
  | zero => cases ok; rfl
  | succ count ih =>
    obtain ⟨middle, stepped, rest⟩ := bind_ok_iff.mp ok
    exact (ih rest).trans (length_setMapBit stepped)

/-- What `h_init` builds and nothing changes afterwards. -/
structure Shaped (h : Heap) : Prop where
  nonnull : 0 < h.heapStart
  aligned : h.heapStart % 16 = 0
  large : 8192 ≤ h.size
  bounded : h.size < 2 ^ 63
  inAddressSpace : h.heapStart + h.size ≤ 2 ^ 64
  wholePages : h.size % (spaceSize * 2) = 0
  someSpaces : 2 ≤ h.numberOfSpaces
  evenSpaces : h.numberOfSpaces % 2 = 0
  fewSpaces : h.numberOfSpaces ≤ 2 ^ 20
  spacesFit : h.numberOfSpaces * spaceSize ≤ h.size
  spaces : h.spaces = (List.range h.numberOfSpaces).map fun i => h.heapStart + i * spaceSize
  flagCount : h.spaceIsActive.length = h.numberOfSpaces
  mapLength : h.allocMap.length = h.size / 1024

/-- A table of 2048-byte spaces, one behind the other from the start of the heap, with a flag for each;
their number is an `int`. -/
structure Tiled (h : Heap) : Prop where
  count : h.numberOfSpaces < 2 ^ 31
  spaces : h.spaces = (List.range h.numberOfSpaces).map fun i => h.heapStart + i * spaceSize
  flagCount : h.spaceIsActive.length = h.numberOfSpaces

/-- The first half of the spaces is active, the second is not. -/
def HalfActive (h : Heap) : Prop :=
  ∀ i < h.numberOfSpaces, h.spaceIsActive[i]? = some (decide (i < h.numberOfSpaces / 2))

section Spaces

variable {h : Heap} {i : ℕ}

namespace Tiled

theorem space (tiled : Tiled h) (bound : i < h.numberOfSpaces) :
    h.spaces[i]? = some (h.heapStart + i * spaceSize) := by
  simp [tiled.spaces, bound]

theorem space_eq {space : ℕ} (tiled : Tiled h) (found : h.spaces[i]? = some space) :
    i < h.numberOfSpaces ∧ space = h.heapStart + i * spaceSize := by
  simp only [tiled.spaces, List.getElem?_map, Option.map_eq_some_iff] at found
  obtain ⟨j, present, rfl⟩ := found
  obtain ⟨bound, rfl⟩ := List.getElem?_eq_some_iff.mp present
  simp only [List.length_range] at bound
  simp [bound]

theorem firstSpace (tiled : Tiled h) (some : 0 < h.numberOfSpaces) : readArray h.spaces 0 = .ok h.heapStart := by
  simpa using readArray_natCast (tiled.space some)

end Tiled

theorem Shaped.tiled (shaped : Shaped h) : Tiled h :=
  ⟨shaped.fewSpaces.trans_lt (by decide), shaped.spaces, shaped.flagCount⟩

end Spaces

namespace Shaped

variable {h : Heap}

theorem space (shaped : Shaped h) {i : ℕ} (bound : i < h.numberOfSpaces) :
    h.spaces[i]? = some (h.heapStart + i * spaceSize) :=
  shaped.tiled.space bound

theorem space_eq (shaped : Shaped h) {i space : ℕ} (found : h.spaces[i]? = some space) :
    i < h.numberOfSpaces ∧ space = h.heapStart + i * spaceSize :=
  shaped.tiled.space_eq found

theorem firstSpace (shaped : Shaped h) : readArray h.spaces 0 = .ok h.heapStart :=
  shaped.tiled.firstSpace (by have := shaped.someSpaces; omega)

/-- `validate_ptr` tests the range up to the end of the last space, and then reads one bit of the map. -/
theorem validatePtr_eq (shaped : Shaped h) (ptr : ℕ) :
    h.validatePtr ptr =
      if ptr < h.heapStart ∨ h.heapStart + h.numberOfSpaces * spaceSize < ptr then .ok false
      else readArray h.allocMap ((ptr - h.heapStart) / 16 / 64 : ℕ) >>= fun word =>
        .ok (getBitAtIndexFromMsb word ((ptr - h.heapStart) / 16 % 64) != 0) := by
  have some := shaped.someSpaces
  have last := readArray_natCast (shaped.space (i := h.numberOfSpaces - 1) (by omega))
  have heapEnd : h.heapStart + (h.numberOfSpaces - 1) * spaceSize + spaceSize =
      h.heapStart + h.numberOfSpaces * spaceSize := by
    rw [Nat.add_assoc, ← Nat.succ_mul]
    congr 2
    omega
  rw [Heap.validatePtr, shaped.firstSpace, last, ← heapEnd]
  rfl

/-- `validate_ptr` accepts exactly the addresses up to the end of the last space whose segment is
marked. -/
theorem validatePtr_iff (shaped : Shaped h) (ptr : ℕ) :
    h.validatePtr ptr = .ok true ↔ h.heapStart ≤ ptr ∧
      ptr ≤ h.heapStart + h.numberOfSpaces * spaceSize ∧
      Marked h.allocMap ((ptr - h.heapStart) / 16) := by
  rw [validatePtr_eq shaped]
  by_cases outside : ptr < h.heapStart ∨ h.heapStart + h.numberOfSpaces * spaceSize < ptr
  · rw [if_pos outside]
    simp only [Except.ok.injEq, Bool.false_eq_true, false_iff]
    omega
  · rw [if_neg outside]
    simp only [bind_ok_iff, readArray_eq_ok_iff, Int.toNat_natCast, Except.ok.injEq, bne_iff_ne,
      Marked, getBitAtIndexFromMsb_ne_zero (Nat.mod_lt _ (show 0 < 64 by omega))]
    constructor
    · rintro ⟨word, ⟨_, found⟩, bit⟩
      exact ⟨by omega, by omega, word, found, bit⟩
    · rintro ⟨_, _, word, found, bit⟩
      exact ⟨word, ⟨by omega, found⟩, bit⟩

end Shaped

end GarbageCollector.Proofs
