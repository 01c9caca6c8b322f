import GarbageCollector.Proofs.NameHash

/-! # Tables of names and of numbers

A table of the store has one of the primes as its capacity. A table of names then stores only names that can
be hashed, and no other name selects a bucket of it: what returns was given a name that can be hashed, and
what is given one returns.
-/

namespace GarbageCollector.Proofs

open Model

variable {V : Type} {full : ℕ → ℕ → Bool} {table : HashTable CString V} {contents : List (CString × V)}
  {numbers : HashTable ℤ V} {listed : List (ℤ × V)} {name : CString} {value : V}

theorem capacities_primes : Capacities (· ∈ primes) :=
  ⟨fun usable => (fitsInt_of_mem_primes usable).1, findNextCapacity_mem⟩

theorem stringFunctions_primes (full : ℕ → ℕ → Bool) (hashable : HashableName name) :
    HashesInRange (stringFunctions full) (· ∈ primes) name :=
  fun capacity usable => stringFunctions_inRange full hashable capacity (fitsInt_of_mem_primes usable)

theorem intFunctions_primes (full : ℕ → ℕ → Bool) (key : ℤ) :
    HashesInRange (intFunctions full) (· ∈ primes) key :=
  fun capacity usable => intFunctions_inRange full key capacity (fitsInt_of_mem_primes usable)

/-- A table of the store that stores values for names. -/
structure HoldsNames (full : ℕ → ℕ → Bool) (table : HashTable CString V) (contents : List (CString × V)) :
    Prop where
  holds : Holds (stringFunctions full) (· ∈ primes) table contents
  hashable : ∀ entry ∈ contents, HashableName entry.1

/-- A table of the store that stores values for numbers. -/
abbrev HoldsNumbers (full : ℕ → ℕ → Bool) (numbers : HashTable ℤ V) (listed : List (ℤ × V)) : Prop :=
  Holds (intFunctions full) (· ∈ primes) numbers listed

namespace HoldsNames

theorem create : HoldsNames full (HashTable.create noBuckets : HashTable CString V) [] :=
  ⟨Holds.of_empty (show noBuckets ∈ primes by decide) (fun _ _ => rfl) rfl,
    fun _ member => absurd member List.not_mem_nil⟩

theorem distinct (names : HoldsNames full table contents) : KeyedList.Distinct compareString contents :=
  names.holds.distinct (stringFunctions_compares full)

theorem lookup (names : HoldsNames full table contents) (hashable : HashableName name) :
    table.lookup (stringFunctions full) name = .ok (KeyedList.find compareString contents name) :=
  names.holds.lookup (stringFunctions_compares full) (stringFunctions_primes full hashable)

theorem lookup_of_not_hashable (names : HoldsNames full table contents) (unhashable : ¬ HashableName name) :
    table.lookup (stringFunctions full) name = .error .outOfBounds := by
  obtain ⟨chains, arranged, _⟩ := names.holds.arranged
  rw [HashTable.lookup, index_of_not_hashable unhashable arranged.usable]
  rfl

/-- A lookup that returns was given a name that can be hashed. -/
theorem of_lookup {found : Option V} (names : HoldsNames full table contents)
    (looked : table.lookup (stringFunctions full) name = .ok found) :
    HashableName name ∧ KeyedList.find compareString contents name = found := by
  refine ⟨?_, names.holds.find_of_lookup (stringFunctions_compares full) looked⟩
  by_contra unhashable
  rw [names.lookup_of_not_hashable unhashable] at looked
  cases looked

theorem insert (names : HoldsNames full table contents) (hashable : HashableName name) (value : V) :
    ∃ table', table.insert (stringFunctions full) name (some value) = .ok table' ∧
      HoldsNames full table' ((name, value) :: KeyedList.erase compareString contents name) := by
  obtain ⟨table', key, inserted, agree, holds⟩ := names.holds.insert (stringFunctions_compares full)
    capacities_primes (stringFunctions_primes full hashable)
    (fun entry member => stringFunctions_primes full (names.hashable entry member)) value
  obtain rfl := compareString_iff.mp agree
  refine ⟨table', inserted, holds, fun entry member => ?_⟩
  rcases List.mem_cons.mp member with rfl | later
  · exact hashable
  · exact names.hashable entry (List.mem_filter.mp later).1

theorem remove (names : HoldsNames full table contents) (hashable : HashableName name) :
    ∃ table', table.remove (stringFunctions full) name =
        .ok (KeyedList.find compareString contents name, table') ∧
      HoldsNames full table' (KeyedList.erase compareString contents name) := by
  obtain ⟨table', removed, holds⟩ :=
    names.holds.remove (stringFunctions_compares full) (stringFunctions_primes full hashable)
  exact ⟨table', removed, holds, fun entry member => names.hashable entry (List.mem_filter.mp member).1⟩

end HoldsNames

namespace HoldsNumbers

theorem create : HoldsNumbers full (HashTable.create noBuckets : HashTable ℤ V) [] :=
  Holds.of_empty (show noBuckets ∈ primes by decide) (fun _ _ => rfl) rfl

theorem distinct (holds : HoldsNumbers full numbers listed) : KeyedList.Distinct compareInt listed :=
  Holds.distinct (intFunctions_compares full) holds

theorem lookup (holds : HoldsNumbers full numbers listed) (key : ℤ) :
    numbers.lookup (intFunctions full) key = .ok (KeyedList.find compareInt listed key) :=
  Holds.lookup (intFunctions_compares full) holds (intFunctions_primes full key)

theorem insert (holds : HoldsNumbers full numbers listed) (key : ℤ) (value : V) :
    ∃ numbers', numbers.insert (intFunctions full) key (some value) = .ok numbers' ∧
      HoldsNumbers full numbers' ((key, value) :: KeyedList.erase compareInt listed key) := by
  obtain ⟨numbers', stored, inserted, agree, holds'⟩ := Holds.insert (intFunctions_compares full) holds
    capacities_primes (intFunctions_primes full key) (fun entry _ => intFunctions_primes full entry.1) value
  obtain rfl := compareInt_iff.mp agree
  exact ⟨numbers', inserted, holds'⟩

theorem remove (holds : HoldsNumbers full numbers listed) (key : ℤ) :
    ∃ numbers', numbers.remove (intFunctions full) key =
        .ok (KeyedList.find compareInt listed key, numbers') ∧
      HoldsNumbers full numbers' (KeyedList.erase compareInt listed key) :=
  Holds.remove (intFunctions_compares full) holds (intFunctions_primes full key)

end HoldsNumbers

end GarbageCollector.Proofs
