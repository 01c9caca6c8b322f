import GarbageCollector.Proofs.NameHash

/-! # The index that `hash_string_sum` returns

The loop of `hash_string_sum` adds a character before it looks for the terminator, and takes the absolute value
of an `int` sum. It stays in the string and returns an index below the capacity for every string but the
empty one and those whose sum is the least `int`, which has no absolute value.
-/

namespace GarbageCollector.Soundness

open Model Proofs

variable {name : CString} {capacity : ℕ}

/-- `hash_string_sum` reads no byte behind the terminator and returns an index below the capacity. -/
def SafeIndex (name : CString) (capacity : ℕ) : Prop :=
  ∃ index, hashStringSum name capacity = .ok index ∧ 0 ≤ index ∧ index < capacity

/-- The index is safe exactly for a string of at least one character whose sum is not the least `int`, or is
divided by the capacity. -/
theorem safeIndex_iff (positive : 0 < capacity) (small : capacity < 2 ^ 31) : SafeIndex name capacity ↔
    name.chars ≠ [] ∧ (toInt32 (name.chars.map BitVec.toInt).sum = -2 ^ 31 → capacity ∣ 2 ^ 31) := by
  have exact_capacity : toInt32 capacity = capacity := toInt32_of_lt small
  by_cases empty : name.chars = []
  · have reads : hashStringSum name capacity = .error .outOfBounds := by
      rw [hashStringSum, empty]
      rfl
    simp [SafeIndex, reads, empty]
  · obtain ⟨lower, upper⟩ := toInt32_range (name.chars.map BitVec.toInt).sum
    have hashed : hashStringSum name capacity =
        .ok ((toInt32 |toInt32 (name.chars.map BitVec.toInt).sum|).tmod capacity) := by
      rw [hashStringSum, sumString_chars empty, exact_capacity]
      rfl
    simp only [SafeIndex, hashed, Except.ok.injEq, exists_eq_left', ne_eq, empty, not_false_eq_true, true_and]
    have below (value : ℤ) : value.tmod capacity < capacity := Int.tmod_lt_of_pos _ (by omega)
    by_cases least : toInt32 (name.chars.map BitVec.toInt).sum = -2 ^ 31
    · rw [least, show toInt32 |(-2 ^ 31 : ℤ)| = -2 ^ 31 by decide, leastInt_tmod_iff]
      exact ⟨fun safe _ => safe.1, fun divides => ⟨divides rfl, below _⟩⟩
    · have bounded : |toInt32 (name.chars.map BitVec.toInt).sum| < 2 ^ 31 :=
        abs_lt.mpr ⟨lt_of_le_of_ne lower (Ne.symm least), upper⟩
      rw [toInt32_of_range (le_trans (by decide) (abs_nonneg _)) bounded]
      exact ⟨fun _ same => absurd same least, fun _ => ⟨Int.tmod_nonneg _ (abs_nonneg _), below _⟩⟩

/-- The string `a` and the capacity of a new table. -/
theorem safeIndex_iff_letter : SafeIndex ⟨[97], by decide⟩ 17 ↔
    ([97] : List (BitVec 8)) ≠ [] ∧ (toInt32 (([97] : List (BitVec 8)).map BitVec.toInt).sum = -2 ^ 31 → 17 ∣ 2 ^ 31) :=
  safeIndex_iff (by decide) (by decide)

/-- The empty string is read behind its terminator. -/
theorem not_safeIndex_empty : hashStringSum ⟨[], List.not_mem_nil⟩ 17 = .error .outOfBounds ∧
    ¬ SafeIndex ⟨[], List.not_mem_nil⟩ 17 := by
  refine ⟨rfl, ?_⟩
  rintro ⟨index, hashed, _⟩
  cases hashed

end GarbageCollector.Soundness
