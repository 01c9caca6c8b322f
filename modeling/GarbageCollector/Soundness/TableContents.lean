import GarbageCollector.Machine.Run
import GarbageCollector.Proofs.HashTable

/-! # The hash table against the finite map

A table of any positive capacity and a finite map from classes of keys take the same calls. They agree,
through every growth, as long as `ioopm_hash_table_clear` is not called on a table of `2 ^ 31` buckets or
more: its loop compares an `int` with the capacity, where every other loop over the buckets that the
calls use has a `size_t`.
-/

namespace GarbageCollector.Soundness

open Model Proofs

variable {K V : Type}

/-- A table may have every positive capacity. -/
theorem anyCapacity : Capacities (0 < ·) := ⟨id, findNextCapacity_pos⟩

/-- A call on a table; the values that are stored are not null. -/
inductive TableCall (K V : Type) where
  | insert (key : K) (value : V)
  | remove (key : K)
  | lookup (key : K)
  | clear

/-- A table and the map that it should store. -/
structure PairedTable (K V : Type) where
  table : HashTable K V
  map : K → Option V

namespace PairedTable

/-- The empty table and the empty map. -/
def start (capacity : ℕ) : PairedTable K V := ⟨HashTable.create capacity, fun _ => none⟩

def step (f : TableFunctions K) (p : PairedTable K V) : TableCall K V → Except DemoFault (PairedTable K V)
  | .insert key value => do
    let table ← p.table.insert f key (some value)
    .ok ⟨table, fun query => if f.cmp key query then some value else p.map query⟩
  | .remove key => do
    let (_, table) ← p.table.remove f key
    .ok ⟨table, fun query => if f.cmp key query then none else p.map query⟩
  | .lookup key => do
    let _ ← p.table.lookup f key
    .ok p
  | .clear => do
    let table ← p.table.clear
    .ok ⟨table, fun _ => none⟩

/-- An `int` can count the buckets of a table that is cleared. -/
def Countable (p : PairedTable K V) : TableCall K V → Prop
  | .clear => p.table.capacity < 2 ^ 31
  | _ => True

instance (p : PairedTable K V) : DecidablePred p.Countable := fun call => by
  cases call <;> unfold Countable <;> infer_instance

end PairedTable

/-- The number of classes of keys for which a map stores a value. -/
def CountsKeys (f : TableFunctions K) (map : K → Option V) (size : ℕ) : Prop :=
  ∃ keys : List K, keys.Pairwise (fun first second => f.cmp first second = false) ∧
    (∀ query, (map query).isSome ↔ ∃ key ∈ keys, f.cmp key query = true) ∧ size = keys.length

/-- Lookups and size are those of the map, no key has two entries, and each entry is in its bucket. -/
structure SameMap (f : TableFunctions K) (table : HashTable K V) (map : K → Option V) : Prop where
  lookup : ∀ key, table.lookup f key = .ok (map key)
  size : CountsKeys f map table.size
  arranged : ∃ chains, Arranged f (0 < ·) table chains

/-- The call returns, a removal and a lookup return what the map stores, and table and map agree again. -/
def RefinesMap (f : TableFunctions K) (p : PairedTable K V) (call : TableCall K V) : Prop :=
  ∃ next, p.step f call = .ok next ∧ SameMap f next.table next.map ∧
    (∀ key, call = .remove key → ∃ table, p.table.remove f key = .ok (p.map key, table)) ∧
    ∀ key, call = .lookup key → p.table.lookup f key = .ok (p.map key)

/-- The table holds entries that make up the map. -/
def PairedTable.Intact (f : TableFunctions K) (p : PairedTable K V) : Prop :=
  ∃ contents, Holds f (0 < ·) p.table contents ∧ ∀ key, p.map key = KeyedList.find f.cmp contents key

variable {f : TableFunctions K} {p next : PairedTable K V} {call : TableCall K V}

theorem PairedTable.Intact.start {capacity : ℕ} (positive : 0 < capacity) :
    (PairedTable.start capacity : PairedTable K V).Intact f :=
  ⟨[], Holds.of_empty positive (fun _ _ => rfl) rfl, fun _ => rfl⟩

theorem PairedTable.Intact.sameMap (compares : ComparesKeys f) (hashable : ∀ key, HashesInRange f (0 < ·) key)
    (intact : p.Intact f) : SameMap f p.table p.map := by
  obtain ⟨contents, holds, same⟩ := intact
  refine ⟨fun key => same key ▸ holds.lookup compares (hashable key),
    ⟨contents.map Prod.fst, ?_, fun query => ?_, ?_⟩, ?_⟩
  · exact List.pairwise_map.mpr (holds.distinct compares)
  · rw [same, KeyedList.find, Option.isSome_map, List.find?_isSome]
    simp
  · rw [holds.size, List.length_map]
  · obtain ⟨chains, arranged, _⟩ := holds.arranged
    exact ⟨chains, arranged⟩

/-- A call that can count its buckets returns and keeps the invariant. -/
theorem PairedTable.Intact.advance (compares : ComparesKeys f) (hashable : ∀ key, HashesInRange f (0 < ·) key)
    (intact : p.Intact f) (countable : p.Countable call) :
    ∃ next, p.step f call = .ok next ∧ next.Intact f ∧
      ∀ key, call = .remove key → ∃ table, p.table.remove f key = .ok (p.map key, table) := by
  obtain ⟨contents, holds, same⟩ := intact
  cases call with
  | insert key value =>
    obtain ⟨table, stored, ran, agree, holds'⟩ :=
      holds.insert compares anyCapacity (hashable key) (fun entry _ => hashable entry.1) value
    refine ⟨⟨table, fun query => if f.cmp key query then some value else p.map query⟩, ?_,
      ⟨_, holds', fun query => ?_⟩, by simp⟩
    · simp only [PairedTable.step, ran, bind, Except.bind]
    · rw [KeyedList.find_cons_erase compares.comparison agree, ← same]
  | remove key =>
    obtain ⟨table, ran, holds'⟩ := holds.remove compares (hashable key)
    refine ⟨⟨table, fun query => if f.cmp key query then none else p.map query⟩, ?_,
      ⟨_, holds', fun query => ?_⟩, ?_⟩
    · simp only [PairedTable.step, ran, bind, Except.bind]
    · rw [KeyedList.find_erase compares.comparison, ← same]
    · rintro _ ⟨⟩
      exact ⟨table, same key ▸ ran⟩
  | lookup key =>
    refine ⟨p, ?_, ⟨contents, holds, same⟩, by simp⟩
    simp only [PairedTable.step, holds.lookup compares (hashable key), bind, Except.bind]
  | clear =>
    obtain ⟨table, ran, holds'⟩ := holds.clear anyCapacity countable
    refine ⟨⟨table, fun _ => none⟩, ?_, ⟨[], holds', fun _ => rfl⟩, by simp⟩
    simp only [PairedTable.step, ran, bind, Except.bind]

/-- The loop of `ioopm_hash_table_clear` overflows on every other table. -/
theorem PairedTable.countable_of_refines (refines : RefinesMap f p call) : p.Countable call := by
  obtain ⟨next, stepped, _⟩ := refines
  cases call with
  | clear =>
    rcases Nat.lt_or_ge p.table.capacity (2 ^ 31) with small | large
    · exact small
    · rw [PairedTable.step, HashTable.clear,
        clearFrom_overflow _ _ (Nat.two_pow_pos 31) (by omega)] at stepped
      cases stepped
  | _ => trivial

/-- Along any sequence of calls, the table agrees with the map exactly when no table of `2 ^ 31` buckets or
more is cleared. -/
theorem tableContents_iff (compares : ComparesKeys f)
    (hashable : ∀ key, HashesInRange f (0 < ·) key) {capacity : ℕ}
    (positive : 0 < capacity) {calls : List (TableCall K V)} :
    Machine.Along (PairedTable.step f) (RefinesMap f) (PairedTable.start capacity) calls ↔
      Machine.Along (PairedTable.step f) PairedTable.Countable (PairedTable.start capacity) calls := by
  have any : Machine.Along (PairedTable.step f) (fun _ _ => True) (PairedTable.start capacity) calls :=
    Machine.along_of_forall fun _ _ _ => trivial
  apply Machine.along_iff_of_kept (PairedTable.Intact f) ?_ ?_ any (PairedTable.Intact.start positive)
  · intro p call intact _
    refine ⟨PairedTable.countable_of_refines, fun countable => ?_⟩
    obtain ⟨next, stepped, intact', removed⟩ := intact.advance compares hashable countable
    refine ⟨next, stepped, intact'.sameMap compares hashable, removed, fun key _ => ?_⟩
    exact (intact.sameMap compares hashable).lookup key
  · intro p call next intact _ refines stepped
    obtain ⟨other, stepped', intact', _⟩ :=
      intact.advance compares hashable (PairedTable.countable_of_refines refines)
    cases stepped.symm.trans stepped'
    exact intact'

/-- Numbers as keys, hashed by their remainder, with the load factor `0.75`. -/
def remainderFunctions : TableFunctions ℕ where
  hash key capacity := .ok (key % capacity : ℕ)
  cmp first second := first == second
  full size capacity := decide (3 * capacity ≤ 4 * (size + 1))

theorem remainderFunctions_compares : ComparesKeys remainderFunctions where
  comparison := by
    simp only [KeyedList.IsComparison, remainderFunctions, beq_iff_eq]
    exact eq_equivalence
  congr first second capacity agree := by
    obtain rfl : first = second := by simpa [remainderFunctions] using agree
    rfl

theorem remainderFunctions_inRange (key : ℕ) : HashesInRange remainderFunctions (0 < ·) key := by
  intro capacity positive
  have inside := Nat.mod_lt key positive
  refine ⟨key % capacity, ?_⟩
  simp only [TableFunctions.index, remainderFunctions, bind, Except.bind]
  rw [if_pos (by omega), Int.toNat_natCast]

/-- Clearing a table of `2 ^ 31` buckets overflows the `int` that counts them. -/
theorem tableContents_overflow :
    ComparesKeys remainderFunctions ∧ (∀ key, HashesInRange remainderFunctions (0 < ·) key) ∧
      (PairedTable.start (2 ^ 31) : PairedTable ℕ ℕ).step remainderFunctions .clear =
        .error .signedOverflow ∧
      ¬ Machine.Along (PairedTable.step remainderFunctions) (RefinesMap remainderFunctions)
        (PairedTable.start (2 ^ 31) : PairedTable ℕ ℕ) [.clear] := by
  have faults : (PairedTable.start (2 ^ 31) : PairedTable ℕ ℕ).step remainderFunctions .clear =
      .error .signedOverflow := by
    have large : 2 ^ 31 ≤ 0 + (PairedTable.start (2 ^ 31) : PairedTable ℕ ℕ).table.capacity :=
      Nat.le_add_left _ 0
    rw [PairedTable.step, HashTable.clear, clearFrom_overflow _ _ (Nat.two_pow_pos 31) large]
    rfl
  refine ⟨remainderFunctions_compares, remainderFunctions_inRange, faults, fun along => ?_⟩
  obtain ⟨next, stepped, _⟩ := along.1
  rw [faults] at stepped
  cases stepped

/-- Two colliding keys in a table that grows at the first insertion, and then a removal. -/
theorem tableContents_colliding :
    Machine.Along (PairedTable.step remainderFunctions) (RefinesMap remainderFunctions)
      (PairedTable.start 1 : PairedTable ℕ ℕ)
      [.insert 3 30, .insert 20 200, .insert 37 370, .remove 20, .lookup 3, .clear] :=
  (tableContents_iff remainderFunctions_compares remainderFunctions_inRange Nat.one_pos).mpr (by decide)

end GarbageCollector.Soundness
