import GarbageCollector.Proofs.StoreTables

/-! # Strings that can be hashed

`hash_string_sum` adds up the characters of a string, as far as an `int` tells, unless there is none. So the
names that a table of the store can hash are the strings of at least one character whose sum is not the
least `int`, and no capacity of a store makes an exception: a key that selects a bucket can be hashed.
-/

namespace GarbageCollector.Proofs

open Model

variable {full : ℕ → ℕ → Bool} {name : CString} {capacity index : ℕ} {chars : List (BitVec 8)}

theorem sumString_eq {start : ℤ} (filled : chars ≠ []) (terminated : 0#8 ∉ chars) :
    sumString (chars ++ [0]) start = .ok (toInt32 (start + (chars.map BitVec.toInt).sum)) := by
  induction chars generalizing start with
  | nil => exact absurd rfl filled
  | cons str rest ih =>
    cases rest with
    | nil => simp [sumString]
    | cons next others =>
      have later : 0#8 ∉ next :: others := fun member => terminated (List.mem_cons_of_mem _ member)
      have more : next ≠ 0 := fun zero => later (zero ▸ List.mem_cons_self)
      have tail := @ih (toInt32 (start + str.toInt)) (by simp) later
      rw [toInt32_toInt32_add, add_assoc] at tail
      rw [List.cons_append, List.cons_append, sumString, if_neg more, List.map_cons, List.sum_cons]
      exact tail

/-- The sum of a string of at least one character. -/
theorem sumString_chars (filled : name.chars ≠ []) :
    sumString (name.chars ++ [0]) 0 = .ok (toInt32 (name.chars.map BitVec.toInt).sum) := by
  rw [sumString_eq filled name.terminated, zero_add]

theorem hashableName_iff : HashableName name ↔
    name.chars ≠ [] ∧ toInt32 (name.chars.map BitVec.toInt).sum ≠ -2 ^ 31 := by
  by_cases empty : name.chars = []
  · simp [HashableName, empty, sumString]
  · rw [HashableName, sumString_chars empty]
    simp [empty]

/-- The remainder of the least `int` is not negative exactly when there is none. -/
theorem leastInt_tmod_iff : 0 ≤ (-2 ^ 31 : ℤ).tmod capacity ↔ capacity ∣ 2 ^ 31 := by
  have opposite : (-2 ^ 31 : ℤ).tmod capacity = -(2 ^ 31 : ℤ).tmod capacity := Int.neg_tmod _ _
  have nonNegative : 0 ≤ (2 ^ 31 : ℤ).tmod capacity := Int.tmod_nonneg _ (by decide)
  have divides : (capacity : ℤ) ∣ 2 ^ 31 ↔ capacity ∣ 2 ^ 31 := by exact_mod_cast Int.natCast_dvd_natCast
  rw [opposite, ← divides, Int.dvd_iff_tmod_eq_zero]
  omega

/-- No capacity of a store divides the least `int`. -/
theorem not_dvd_of_mem_primes : ∀ capacity ∈ primes, ¬ capacity ∣ 2 ^ 31 := by decide

theorem findNextCapacity_mem (capacity : ℕ) : findNextCapacity capacity ∈ primes := by
  rw [findNextCapacity]
  cases found : primes.find? fun prime => capacity < prime with
  | none => decide
  | some prime => exact List.mem_of_find?_eq_some found

theorem fitsInt_of_mem_primes (usable : capacity ∈ primes) : FitsInt capacity := by
  have all : ∀ prime ∈ primes, 0 < prime ∧ prime < 2 ^ 31 := by decide
  exact all capacity usable

/-- A name that cannot be hashed selects no bucket of a table of the store. -/
theorem index_of_not_hashable (unhashable : ¬ HashableName name) (usable : capacity ∈ primes) :
    (stringFunctions full).index name capacity = .error .outOfBounds := by
  by_cases empty : name.chars = []
  · simp only [TableFunctions.index, stringFunctions, hashStringSum, empty]
    rfl
  · have least : toInt32 (name.chars.map BitVec.toInt).sum = -2 ^ 31 := by
      by_contra other
      exact unhashable (hashableName_iff.mpr ⟨empty, other⟩)
    have outside : ¬ (0 ≤ (-2 ^ 31 : ℤ).tmod capacity ∧ (-2 ^ 31 : ℤ).tmod capacity < capacity) := by
      rintro ⟨nonNegative, _⟩
      apply not_dvd_of_mem_primes capacity usable
      exact leastInt_tmod_iff.mp nonNegative
    simp only [TableFunctions.index, stringFunctions, hashStringSum, sumString_chars empty, least,
      show toInt32 |(-2 ^ 31 : ℤ)| = -2 ^ 31 by decide, toInt32_of_lt (fitsInt_of_mem_primes usable).2,
      if_neg outside, bind, Except.bind]

end GarbageCollector.Proofs
