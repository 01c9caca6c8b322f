import GarbageCollector.Proofs.Scans
import GarbageCollector.Proofs.StoreTables

/-! # What a table answers

Insertions, removals, clearing and functions that are applied to all values are edits of a list of entries
with distinct keys. Every other function of the table answers from that list: lookups, the size, the
predicates over all entries, and the lists of keys and of values.
-/

namespace GarbageCollector.Soundness

open Model Proofs

variable {K V α : Type} {f : TableFunctions K} {table : HashTable K V} {contents : List (K × V)}
  {list : LinkedList α} {values : List α}

/-- A call that writes to a table. -/
inductive TableWrite (K V : Type) where
  | insert (key : K) (value : V)
  | remove (key : K)
  | applyToAll (change : K → V → V)
  | clear

namespace TableWrite

/-- The call itself. -/
def write (f : TableFunctions K) (ht : HashTable K V) : TableWrite K V → Except DemoFault (HashTable K V)
  | insert key value => ht.insert f key (some value)
  | remove key => (ht.remove f key).map Prod.snd
  | applyToAll change => ht.applyToAll fun key value => value.map (change key)
  | clear => ht.clear

/-- What the call is for. -/
def edit (f : TableFunctions K) (contents : List (K × V)) : TableWrite K V → List (K × V)
  | insert key value => (key, value) :: KeyedList.erase f.cmp contents key
  | remove key => KeyedList.erase f.cmp contents key
  | applyToAll change => contents.map fun entry => (entry.1, change entry.1 entry.2)
  | clear => []

/-- Its key selects a bucket. -/
def Hashes (f : TableFunctions K) : TableWrite K V → Prop
  | insert key _ => HashesInRange f FitsInt key
  | remove key => HashesInRange f FitsInt key
  | _ => True

end TableWrite

/-- The list answers as these values do. -/
structure Lists (list : LinkedList α) (values : List α) : Prop where
  size : list.size = values.length
  isEmpty : list.isEmpty = values.isEmpty
  any : ∀ prop, list.any prop = .ok (values.any prop)
  all : ∀ prop, list.all prop = .ok (values.all prop)

/-- The table answers as these entries do. -/
structure Observed (f : TableFunctions K) (table : HashTable K V) (contents : List (K × V)) : Prop where
  distinct : contents.Pairwise fun first second => f.cmp first.1 second.1 = false
  lookup : ∀ key, HashesInRange f FitsInt key →
    table.lookup f key = .ok (KeyedList.find f.cmp contents key)
  size : table.size = contents.length
  isEmpty : table.isEmpty = contents.isEmpty
  any : ∀ pred, table.any pred = .ok (contents.any fun entry => pred entry.1 (some entry.2))
  all : ∀ pred, table.all pred = .ok (contents.all fun entry => pred entry.1 (some entry.2))
  hasKey : ∀ key, table.tableHasKey f key = .ok (contents.any fun entry => f.cmp entry.1 key)
  hasValue : ∀ cmpValue value, table.tableHasValue cmpValue value =
    .ok (contents.any fun entry => cmpValue (some entry.2) value)
  keys : contents.length < 2 ^ 31 → ∃ list, table.keys = .ok list ∧ Lists list (contents.map Prod.fst)
  values : contents.length < 2 ^ 31 →
    ∃ list, table.values = .ok list ∧ Lists list (contents.map fun entry => some entry.2)

theorem Lists.of_stores {stored : List α} (stores : Stores list stored) (same : stored.Perm values) :
    Lists list values := by
  have size : list.size = values.length := by rw [stores.size, same.length_eq]
  refine ⟨size, ?_, fun prop => ?_, fun prop => ?_⟩
  · rw [LinkedList.isEmpty, size]
    cases values with
    | nil => rfl
    | cons head tail =>
      apply decide_eq_false
      rw [List.length_cons]
      omega
  · rw [stores.any, same.any_eq]
  · rw [stores.all, same.all_eq]

/-- A table that holds entries answers from them. -/
theorem Observed.of_holds (compares : ComparesKeys f) (holds : Holds f FitsInt table contents) :
    Observed f table contents where
  distinct := holds.distinct compares
  lookup key hashes := holds.lookup compares hashes
  size := holds.size
  isEmpty := by
    rw [HashTable.isEmpty, holds.size]
    cases contents <;> simp
  any := holds.any compares
  all := by
    obtain ⟨chains, arranged, _⟩ := holds.arranged
    exact holds.all compares arranged.usable.2
  hasKey key := holds.any compares _
  hasValue cmpValue value := holds.any compares _
  keys room := by
    obtain ⟨list, listed, collected, stores, perm⟩ := holds.keys compares room
    exact ⟨list, collected, Lists.of_stores stores (perm.map Prod.fst)⟩
  values room := by
    obtain ⟨list, listed, collected, stores, perm⟩ := holds.values compares room
    exact ⟨list, collected, Lists.of_stores stores (perm.map fun entry => some entry.2)⟩

/-- The table holds the entries, and every key of theirs can be hashed. -/
def HoldsHashed (f : TableFunctions K) (table : HashTable K V) (contents : List (K × V)) : Prop :=
  Holds f FitsInt table contents ∧ ∀ entry ∈ contents, HashesInRange f FitsInt entry.1

/-- A call writes what it is for. -/
theorem HoldsHashed.write (compares : ComparesKeys f)
    (same : ∀ first second, f.cmp first second = true → first = second)
    {call : TableWrite K V} (holds : HoldsHashed f table contents) (hashes : call.Hashes f) :
    ∃ table', call.write f table = .ok table' ∧ HoldsHashed f table' (call.edit f contents) := by
  obtain ⟨holds, hashed⟩ := holds
  cases call with
  | insert key value =>
    obtain ⟨table', stored, inserted, agree, holds'⟩ :=
      holds.insert compares fitsInt_capacities hashes hashed value
    obtain rfl := same _ _ agree
    refine ⟨table', inserted, holds', fun entry member => ?_⟩
    rcases List.mem_cons.mp member with rfl | later
    · exact hashes
    · exact hashed entry (List.mem_filter.mp later).1
  | remove key =>
    obtain ⟨table', removed, holds'⟩ := holds.remove compares hashes
    refine ⟨table', ?_, holds', fun entry member => hashed entry (List.mem_filter.mp member).1⟩
    rw [TableWrite.write, removed]
    rfl
  | applyToAll change =>
    have applies (key : K) (value : V) : (some value).map (change key) = some (change key value) := rfl
    obtain ⟨table', applied, holds'⟩ := holds.applyToAll compares applies
    refine ⟨table', applied, holds', fun entry member => ?_⟩
    obtain ⟨stored, inside, rfl⟩ := List.mem_map.mp member
    exact hashed stored inside
  | clear =>
    obtain ⟨chains, arranged, _⟩ := holds.arranged
    obtain ⟨table', cleared, holds'⟩ := holds.clear fitsInt_capacities arranged.usable.2
    exact ⟨table', cleared, holds', fun _ member => absurd member List.not_mem_nil⟩

theorem HoldsHashed.run (compares : ComparesKeys f)
    (same : ∀ first second, f.cmp first second = true → first = second) {calls : List (TableWrite K V)}
    (holds : HoldsHashed f table contents) (hashes : ∀ call ∈ calls, call.Hashes f) : ∃ table',
      Machine.run (TableWrite.write f) table calls = .ok table' ∧
        HoldsHashed f table' (calls.foldl (TableWrite.edit f) contents) := by
  induction calls generalizing table contents with
  | nil => exact ⟨table, rfl, holds⟩
  | cons call rest ih =>
    obtain ⟨next, written, holds'⟩ := holds.write compares same (hashes call List.mem_cons_self)
    obtain ⟨table', ran, holds''⟩ := ih holds' fun other member => hashes other (List.mem_cons_of_mem _ member)
    exact ⟨table', Machine.run_cons_ok_iff.mpr ⟨next, written, ran⟩, holds''⟩

/-- Any calls that write return, and leave a table that answers as the edited entries do. -/
theorem table_observed (compares : ComparesKeys f)
    (same : ∀ first second, f.cmp first second = true → first = second) {capacity : ℕ} (positive : 0 < capacity)
    (small : capacity < 2 ^ 31) {calls : List (TableWrite K V)} (hashes : ∀ call ∈ calls, call.Hashes f) :
    ∃ table, Machine.run (TableWrite.write f) (HashTable.create capacity) calls = .ok table ∧
      Observed f table (calls.foldl (TableWrite.edit f) []) := by
  have created : HoldsHashed f (HashTable.create capacity : HashTable K V) [] :=
    ⟨Holds.of_empty ⟨positive, small⟩ (fun _ _ => rfl) rfl, fun _ member => absurd member List.not_mem_nil⟩
  obtain ⟨table, ran, holds, _⟩ := created.run compares same hashes
  exact ⟨table, ran, Observed.of_holds compares holds⟩

/-- Numbers under numbers, of which two collide until the table grows. -/
theorem table_observed_doubled : ∃ table, Machine.run (TableWrite.write (intFunctions fun _ _ => true))
      (HashTable.create noBuckets)
      [.insert 1 10, .insert 18 180, .applyToAll fun _ value => 2 * value, .remove 1] =
        .ok table ∧ Observed (intFunctions fun _ _ => true) table
      ([.insert 1 10, .insert 18 180, .applyToAll fun _ value => 2 * value, .remove 1].foldl
        (TableWrite.edit (intFunctions fun _ _ => true)) ([] : List (ℤ × ℕ))) := by
  apply table_observed (intFunctions_compares _) (fun _ _ agree => compareInt_iff.mp agree) (by decide) (by decide)
  intro call member
  cases call with
  | insert key value => exact intFunctions_inRange _ key
  | remove key => exact intFunctions_inRange _ key
  | applyToAll change => trivial
  | clear => trivial

end GarbageCollector.Soundness
