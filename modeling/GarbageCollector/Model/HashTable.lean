import GarbageCollector.Model.LinkedList
import Mathlib.Logic.Function.Basic

/-! # The hash table of the demo program

The entries of a table are kept in the order of their allocation, and the address of an entry is its
place there; a removed entry stays, as memory that nothing points to. The block behind `buckets` is as
large as the capacity asks for. What `ioopm_hash_table_create_dynamic` stores once and for all is an
argument: the hash function, the comparison and the test against the load factor. `size` counts entries
that lie in memory, so a `size_t` holds it. A `while` loop over a chain gets as much fuel as there
are entries, and one more.
-/

namespace GarbageCollector.Model

/-- A `struct entry`; a value that is the null pointer is `none`. -/
structure Entry (K V : Type) where
  key : K
  value : Option V
  next : Option ℕ
deriving DecidableEq, Repr

/-- The functions that a table is created with. -/
structure TableFunctions (K : Type) where
  /-- `hash_function`, which may read outside its key. -/
  hash : K → ℕ → Except DemoFault ℤ
  /-- `cmp`, the comparison of keys. -/
  cmp : K → K → Bool
  /-- `(float)(size + 1) / capacity >= load_factor`. -/
  full : ℕ → ℕ → Bool

/-- A `struct hash_table` with the memory of its entries. -/
structure HashTable (K V : Type) where
  entries : List (Entry K V)
  buckets : ℕ → Option ℕ
  size : ℕ
  capacity : ℕ

variable {K V : Type}

/-- The index into a block of `capacity` buckets that a key selects. -/
def TableFunctions.index (f : TableFunctions K) (key : K) (capacity : ℕ) : Except DemoFault ℕ := do
  let index ← f.hash key capacity
  if 0 ≤ index ∧ index < capacity then .ok index.toNat else .error .outOfBounds

/-- Read the entry behind a pointer. -/
def readEntry (entries : List (Entry K V)) (pointer : Option ℕ) : Except DemoFault (Entry K V) :=
  match pointer with
  | none => .error .nullDereference
  | some address =>
    match entries[address]? with
    | none => .error .outOfBounds
    | some entry => .ok entry

/-- Write the entry behind a pointer. -/
def writeEntry (entries : List (Entry K V)) (pointer : Option ℕ) (entry : Entry K V) :
    Except DemoFault (List (Entry K V)) :=
  match pointer with
  | none => .error .nullDereference
  | some address =>
    if address < entries.length then .ok (entries.set address entry) else .error .outOfBounds

/-- A `ioopm_entry_t **`: where a pointer to an entry is stored. -/
inductive Slot where
  /-- `&ht->buckets[index]`. -/
  | bucket (index : ℕ)
  /-- `&entry->next`. -/
  | next (address : ℕ)
deriving DecidableEq, Repr

/-- The primes of `find_next_capacity`. -/
def primes : List ℕ := [17, 31, 67, 127, 257, 509, 1021, 2053, 4099, 8191, 16381]

/-- `find_next_capacity`. -/
def findNextCapacity (capacity : ℕ) : ℕ :=
  (primes.find? fun prime => capacity < prime).getD 16381

namespace HashTable

/-- `ioopm_hash_table_create_dynamic`. -/
def create (capacity : ℕ) : HashTable K V := ⟨[], fun _ => none, 0, capacity⟩

variable (f : TableFunctions K) (ht : HashTable K V)

/-- `*slot`. -/
def read : Slot → Except DemoFault (Option ℕ)
  | .bucket index => .ok (ht.buckets index)
  | .next address => do
    let entry ← readEntry ht.entries (some address)
    .ok entry.next

/-- The loop of `find_previous_entry_for_key`. -/
def findFrom (key : K) (prev : Option Slot) (current : Slot) : ℕ → Except DemoFault (Option Slot)
  | 0 => .error .diverges
  | fuel + 1 => do
    match ← ht.read current with
    | none => .ok none
    | some address => do
      let entry ← readEntry ht.entries (some address)
      if f.cmp entry.key key then .ok prev
      else findFrom key (some current) (.next address) fuel

/-- `find_previous_entry_for_key`. -/
def findPreviousEntryForKey (entry : Slot) (key : K) : Except DemoFault (Option Slot) :=
  ht.findFrom f key none entry (ht.entries.length + 1)

/-- The inner loop of `hash_table_grow`: the entries of one chain move to the new buckets. -/
def relinkChain (newCapacity : ℕ) : ℕ → List (Entry K V) × (ℕ → Option ℕ) → Option ℕ →
    Except DemoFault (List (Entry K V) × (ℕ → Option ℕ))
  | _, memory, none => .ok memory
  | 0, _, some _ => .error .diverges
  | fuel + 1, (entries, newBuckets), some address => do
    let entry ← readEntry entries (some address)
    let newIndex ← f.index entry.key newCapacity
    let entries ← writeEntry entries (some address) { entry with next := newBuckets newIndex }
    relinkChain newCapacity fuel
      (entries, Function.update newBuckets newIndex (some address)) entry.next

/-- `hash_table_grow`. -/
def grow : Except DemoFault (HashTable K V) := do
  let newCapacity := findNextCapacity ht.capacity
  let (entries, newBuckets) ← (List.range ht.capacity).foldlM
    (fun memory i => relinkChain f newCapacity (ht.entries.length + 1) memory (ht.buckets i))
    (ht.entries, fun _ => none)
  .ok { ht with entries, buckets := newBuckets, capacity := newCapacity }

/-- `(*prev)->next`, or the first entry of the bucket when `prev` is null. -/
def behind (bucket : ℕ) (prev : Option Slot) : Except DemoFault (Option ℕ) :=
  match prev with
  | none => .ok (ht.buckets bucket)
  | some slot => do
    let entry ← readEntry ht.entries (← ht.read slot)
    .ok entry.next

/-- Write to `(*prev)->next`, or to the bucket when `prev` is null. -/
def link (bucket : ℕ) (prev : Option Slot) (pointer : Option ℕ) : Except DemoFault (HashTable K V) :=
  match prev with
  | none => .ok { ht with buckets := Function.update ht.buckets bucket pointer }
  | some slot => do
    let previous ← ht.read slot
    let entry ← readEntry ht.entries previous
    let entries ← writeEntry ht.entries previous { entry with next := pointer }
    .ok { ht with entries }

/-- `pointer != NULL && ht->cmp(pointer->key, key)`. -/
def hasKey (pointer : Option ℕ) (key : K) : Except DemoFault Bool :=
  match pointer with
  | none => .ok false
  | some address => do
    let entry ← readEntry ht.entries (some address)
    .ok (f.cmp entry.key key)

/-- `entry_create`, whose result is the address after the last. -/
def entryCreate (entry : Entry K V) : HashTable K V := { ht with entries := ht.entries ++ [entry] }

/-- What `ioopm_hash_table_insert` does after its test for growth. -/
def put (key : K) (value : Option V) : Except DemoFault (HashTable K V) := do
  let bucket ← f.index key ht.capacity
  let prev ← ht.findPreviousEntryForKey f (.bucket bucket) key
  let current ← ht.behind bucket prev
  if ← ht.hasKey f current key then
    let entry ← readEntry ht.entries current
    let entries ← writeEntry ht.entries current { entry with value }
    .ok { ht with entries }
  else
    let newEntry := some ht.entries.length
    let ht ← (ht.entryCreate ⟨key, value, current⟩).link bucket prev newEntry
    .ok { ht with size := ht.size + 1 }

/-- `ioopm_hash_table_insert`. -/
def insert (key : K) (value : Option V) : Except DemoFault (HashTable K V) := do
  let ht ← if f.full ht.size ht.capacity then ht.grow f else .ok ht
  ht.put f key value

/-- `ioopm_hash_table_lookup`; the two tests of the source read the entry behind `tmp`. -/
def lookup (key : K) : Except DemoFault (Option V) := do
  let bucket ← f.index key ht.capacity
  if ht.buckets bucket = none then .ok none
  else do
    let tmp ← ht.findPreviousEntryForKey f (.bucket bucket) key
    let current ← ht.behind bucket tmp
    if ← ht.hasKey f current key then
      let entry ← readEntry ht.entries current
      .ok entry.value
    else .ok none

/-- `ioopm_hash_table_remove`; a first entry that is removed leaves its `next` in the bucket, null or not. -/
def remove (key : K) : Except DemoFault (Option V × HashTable K V) := do
  let bucket ← f.index key ht.capacity
  if (← ht.lookup f key) = none then .ok (none, ht)
  else do
    let ht := { ht with size := ht.size - 1 }
    let prev ← ht.findPreviousEntryForKey f (.bucket bucket) key
    match prev with
    | none =>
      if ← ht.hasKey f (ht.buckets bucket) key then
        let remove ← readEntry ht.entries (ht.buckets bucket)
        let ht ← ht.link bucket none remove.next
        .ok (remove.value, ht)
      else .ok (none, ht)
    | some slot => do
      let toRemove ← readEntry ht.entries (← ht.behind bucket (some slot))
      let ht ← ht.link bucket (some slot) toRemove.next
      .ok (toRemove.value, ht)

/-- A field of the entries of one chain is appended to a list. -/
def collectChain {β : Type} (field : Entry K V → β) (entries : List (Entry K V)) :
    ℕ → Option ℕ → LinkedList β → Except DemoFault (LinkedList β)
  | _, none, list => .ok list
  | 0, some _, _ => .error .diverges
  | fuel + 1, some address, list => do
    let entry ← readEntry entries (some address)
    let list ← list.append (field entry)
    collectChain field entries fuel entry.next list

/-- The common text of `ioopm_hash_table_keys` and `ioopm_hash_table_values`. -/
def collect {β : Type} (field : Entry K V → β) : Except DemoFault (LinkedList β) :=
  (List.range ht.capacity).foldlM
    (fun list i => collectChain field ht.entries (ht.entries.length + 1) (ht.buckets i) list)
    LinkedList.create

/-- `ioopm_hash_table_keys`. -/
def keys : Except DemoFault (LinkedList K) := ht.collect Entry.key

/-- `ioopm_hash_table_values`. -/
def values : Except DemoFault (LinkedList (Option V)) := ht.collect Entry.value

/-- The loop of `ioopm_hash_table_clear` from the `int` `i`, with this many buckets to go. -/
def clearFrom (ht : HashTable K V) (i : ℕ) : ℕ → Except DemoFault (HashTable K V)
  | 0 => .ok ht
  | count + 1 => do
    let _ ← checkedInt (i + 1)
    clearFrom { ht with buckets := Function.update ht.buckets i none, size := 0 } (i + 1) count

/-- `ioopm_hash_table_clear`. -/
def clear : Except DemoFault (HashTable K V) := ht.clearFrom 0 ht.capacity

end HashTable

end GarbageCollector.Model
