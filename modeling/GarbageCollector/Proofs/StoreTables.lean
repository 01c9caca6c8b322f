import GarbageCollector.Proofs.HashTable
import GarbageCollector.Proofs.Shelves

/-! # The tables of the store

Strings are compared by their bytes and numbers by their values, so a table of the store maps keys
themselves. Every number selects a bucket at every capacity that fits an `int`, and so does every string
that `hash_string_sum` reads without passing the terminator and whose sum is not the least `int`.
-/

namespace GarbageCollector.Proofs

open Model

variable {full : ℕ → ℕ → Bool} {first second name : CString} {key : ℤ}

/-- The capacities of the tables of a store. -/
def FitsInt (capacity : ℕ) : Prop := 0 < capacity ∧ capacity < 2 ^ 31

theorem findNextCapacity_lt (capacity : ℕ) : findNextCapacity capacity < 2 ^ 31 := by
  have primes_lt : ∀ prime ∈ primes, prime < 2 ^ 31 := by decide
  rw [findNextCapacity]
  cases found : primes.find? fun prime => capacity < prime with
  | none => rw [Option.getD_none]; omega
  | some prime => exact primes_lt prime (List.mem_of_find?_eq_some found)

theorem fitsInt_capacities : Capacities FitsInt :=
  ⟨And.left, fun capacity => ⟨findNextCapacity_pos capacity, findNextCapacity_lt capacity⟩⟩

theorem compareString_iff : compareString first second = true ↔ first = second := by
  cases first
  cases second
  simp [compareString]

theorem compareString_comparison : KeyedList.IsComparison compareString := by
  simp only [KeyedList.IsComparison, compareString_iff]
  exact eq_equivalence

theorem compareInt_iff {first second : ℤ} : compareInt first second = true ↔ first = second := beq_iff_eq

theorem compareInt_comparison : KeyedList.IsComparison compareInt := by
  simp only [KeyedList.IsComparison, compareInt_iff]
  exact eq_equivalence

theorem stringFunctions_compares (full : ℕ → ℕ → Bool) : ComparesKeys (stringFunctions full) :=
  ⟨compareString_comparison, fun _ _ _ agree => by rw [compareString_iff.mp agree]⟩

theorem intFunctions_compares (full : ℕ → ℕ → Bool) : ComparesKeys (intFunctions full) :=
  ⟨compareInt_comparison, fun _ _ _ agree => by rw [compareInt_iff.mp agree]⟩

theorem intFunctions_inRange (full : ℕ → ℕ → Bool) (key : ℤ) :
    HashesInRange (intFunctions full) FitsInt key := by
  rintro capacity ⟨positive, small⟩
  have exact_capacity : toInt32 capacity = capacity := toInt32_of_lt small
  have upper := Int.tmod_lt_of_pos key (show (0 : ℤ) < capacity by omega)
  have lower := Int.lt_tmod_of_pos key (show (0 : ℤ) < capacity by omega)
  have inside : 0 ≤ hashInt key capacity ∧ hashInt key capacity < capacity := by
    simp only [hashInt, exact_capacity]
    split <;> omega
  refine ⟨(hashInt key capacity).toNat, ?_⟩
  simp only [TableFunctions.index, intFunctions, if_pos inside, bind, Except.bind]

/-- `hash_string_sum` stays inside the name, and its sum has an absolute value. -/
def HashableName (name : CString) : Prop :=
  match sumString (name.chars ++ [0]) 0 with
  | .ok sum => sum ≠ -2 ^ 31
  | .error _ => False

theorem sumString_range {bytes : List (BitVec 8)} {start sum : ℤ} (summed : sumString bytes start = .ok sum) :
    -2 ^ 31 ≤ sum ∧ sum < 2 ^ 31 := by
  fun_induction sumString bytes start with
  | case1 start str rest =>
    cases summed
    exact toInt32_range _
  | case2 start str next rest more ih => exact ih summed
  | case3 => cases summed

theorem stringFunctions_inRange (full : ℕ → ℕ → Bool) (hashable : HashableName name) :
    HashesInRange (stringFunctions full) FitsInt name := by
  rintro capacity ⟨positive, small⟩
  have exact_capacity : toInt32 capacity = capacity := toInt32_of_lt small
  rw [HashableName] at hashable
  split at hashable
  · next sum summed =>
    obtain ⟨lower, upper⟩ := sumString_range summed
    have bounded : |sum| < 2 ^ 31 := abs_lt.mpr ⟨lt_of_le_of_ne lower (Ne.symm hashable), upper⟩
    have exact_sum : toInt32 |sum| = |sum| :=
      toInt32_of_range (le_trans (by decide) (abs_nonneg sum)) bounded
    have inside : 0 ≤ |sum|.tmod capacity ∧ |sum|.tmod capacity < capacity :=
      ⟨Int.tmod_nonneg _ (abs_nonneg sum), Int.tmod_lt_of_pos _ (by omega)⟩
    refine ⟨(|sum|.tmod capacity).toNat, ?_⟩
    simp only [TableFunctions.index, stringFunctions, hashStringSum, summed, exact_sum, exact_capacity,
      if_pos inside, bind, Except.bind]
  · exact hashable.elim

section Tables

variable {V : Type} {table : HashTable CString V} {numbers : HashTable ℤ V} {contents : List (CString × V)}
  {listed : List (ℤ × V)}

theorem Holds.distinctString (holds : Holds (stringFunctions full) FitsInt table contents) :
    KeyedList.Distinct compareString contents :=
  holds.distinct (stringFunctions_compares full)

theorem Holds.distinctInt (holds : Holds (intFunctions full) FitsInt numbers listed) :
    KeyedList.Distinct compareInt listed :=
  holds.distinct (intFunctions_compares full)

theorem Holds.lookupString (holds : Holds (stringFunctions full) FitsInt table contents)
    (hashable : HashableName name) :
    table.lookup (stringFunctions full) name = .ok (KeyedList.find compareString contents name) :=
  holds.lookup (stringFunctions_compares full) (stringFunctions_inRange full hashable)

theorem Holds.lookupInt (holds : Holds (intFunctions full) FitsInt numbers listed) (key : ℤ) :
    numbers.lookup (intFunctions full) key = .ok (KeyedList.find compareInt listed key) :=
  holds.lookup (intFunctions_compares full) (intFunctions_inRange full key)

theorem Holds.removeString (holds : Holds (stringFunctions full) FitsInt table contents)
    (hashable : HashableName name) : ∃ table', table.remove (stringFunctions full) name =
        .ok (KeyedList.find compareString contents name, table') ∧
      Holds (stringFunctions full) FitsInt table' (KeyedList.erase compareString contents name) :=
  holds.remove (stringFunctions_compares full) (stringFunctions_inRange full hashable)

theorem Holds.removeInt (holds : Holds (intFunctions full) FitsInt numbers listed) (key : ℤ) :
    ∃ numbers', numbers.remove (intFunctions full) key =
        .ok (KeyedList.find compareInt listed key, numbers') ∧
      Holds (intFunctions full) FitsInt numbers' (KeyedList.erase compareInt listed key) :=
  holds.remove (intFunctions_compares full) (intFunctions_inRange full key)

theorem Holds.insertString (holds : Holds (stringFunctions full) FitsInt table contents)
    (hashable : HashableName name)
    (stored : ∀ entry ∈ contents, HashableName entry.1) (value : V) :
    ∃ table', table.insert (stringFunctions full) name (some value) = .ok table' ∧
      Holds (stringFunctions full) FitsInt table'
        ((name, value) :: KeyedList.erase compareString contents name) := by
  obtain ⟨table', key', inserted, agree, holds'⟩ := holds.insert (stringFunctions_compares full)
    fitsInt_capacities (stringFunctions_inRange full hashable)
    (fun entry member => stringFunctions_inRange full (stored entry member)) value
  obtain rfl := compareString_iff.mp agree
  exact ⟨table', inserted, holds'⟩

theorem Holds.insertInt (holds : Holds (intFunctions full) FitsInt numbers listed) (key : ℤ) (value : V) :
    ∃ numbers', numbers.insert (intFunctions full) key (some value) = .ok numbers' ∧
      Holds (intFunctions full) FitsInt numbers' ((key, value) :: KeyedList.erase compareInt listed key) := by
  obtain ⟨numbers', key', inserted, agree, holds'⟩ := holds.insert (intFunctions_compares full)
    fitsInt_capacities (intFunctions_inRange full key)
    (fun entry _ => intFunctions_inRange full entry.1) value
  obtain rfl := compareInt_iff.mp agree
  exact ⟨numbers', inserted, holds'⟩

/-- A loop that sums over the values of a table. -/
theorem Holds.sum_values {K V : Type} {f : TableFunctions K} {usable : ℕ → Prop} {ht : HashTable K V}
    {contents : List (K × V)} {wrap : ℤ → ℤ} {body : ℤ → Option V → Except DemoFault ℤ}
    (holds : Holds f usable ht contents) (read : V → ℤ) (compares : ComparesKeys f)
    (room : contents.length < 2 ^ 31) (wraps : ∀ first second, wrap (wrap first + second) = wrap (first + second))
    (adds : ∀ sum, ∀ entry ∈ contents, body sum (some entry.2) = .ok (wrap (sum + read entry.2))) :
    (do
      let list ← ht.values
      list.iterate body (wrap 0)) = .ok (wrap (contents.map fun entry => read entry.2).sum) := by
  obtain ⟨list, listed, collected, stores, perm⟩ := holds.values compares room
  have reads : (listed.map fun entry => some entry.2).map (fun value => (value.map read).getD 0) =
      listed.map fun entry => read entry.2 := by
    rw [List.map_map]
    rfl
  have adds' : ∀ sum, ∀ value ∈ listed.map fun entry => some entry.2,
      body sum value = .ok (wrap (sum + (value.map read).getD 0)) := by
    intro sum value member
    obtain ⟨entry, inside, rfl⟩ := List.mem_map.mp member
    exact adds sum entry (perm.mem_iff.mp inside)
  have summed := foldlM_sum wraps adds' 0
  rw [reads, zero_add, (perm.map fun entry => read entry.2).sum_eq] at summed
  rw [collected]
  exact (stores.iterate _ _).trans summed

end Tables

end GarbageCollector.Proofs
