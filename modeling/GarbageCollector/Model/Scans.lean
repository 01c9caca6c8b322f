import GarbageCollector.Model.HashTable

/-! # Predicates and functions over whole lists and tables

The functions of `linked_list.c` and `hash_table-dynamic.c` that pass every element to a function of the
caller. What the caller passes is a function that has been given the comparisons and the extra argument: the
argument itself for `ioopm_hash_table_any`, and its address for `ioopm_hash_table_all` and
`ioopm_hash_table_apply_to_all`. An applied function may write the value and nothing else.
-/

namespace GarbageCollector.Model

namespace LinkedList

variable {α : Type} (list : LinkedList α)

/-- `ioopm_linked_list_is_empty`. -/
def isEmpty : Bool := list.size = 0

/-- The loop of `ioopm_linked_list_all` with this many links to go. -/
def allFrom (prop : α → Bool) (currentLink : Option ℕ) : ℕ → Except DemoFault Bool
  | 0 => .ok true
  | count + 1 => do
    let link ← list.link currentLink
    if !prop link.value then .ok false
    else allFrom prop link.next count

/-- `ioopm_linked_list_all`. -/
def all (prop : α → Bool) : Except DemoFault Bool := list.allFrom prop list.first list.size.toNat

/-- The loop of `ioopm_linked_list_any` with this many links to go. -/
def anyFrom (prop : α → Bool) (currentLink : Option ℕ) : ℕ → Except DemoFault Bool
  | 0 => .ok false
  | count + 1 => do
    let link ← list.link currentLink
    if prop link.value then .ok true
    else anyFrom prop link.next count

/-- `ioopm_linked_list_any`. -/
def any (prop : α → Bool) : Except DemoFault Bool := list.anyFrom prop list.first list.size.toNat

/-- The loop of `ioopm_linked_list_apply_to_all` with this many links to go. -/
def applyFrom (change : α → α) (list : LinkedList α) (currentLink : Option ℕ) :
    ℕ → Except DemoFault (LinkedList α)
  | 0 => .ok list
  | count + 1 => do
    let link ← list.link currentLink
    let list ← list.setLink currentLink { link with value := change link.value }
    applyFrom change list link.next count

/-- `ioopm_linked_list_apply_to_all`. -/
def applyToAll (change : α → α) : Except DemoFault (LinkedList α) :=
  applyFrom change list list.first list.size.toNat

end LinkedList

namespace HashTable

variable {K V : Type} (ht : HashTable K V)

/-- `ioopm_hash_table_is_empty`. -/
def isEmpty : Bool := ht.size = 0

/-- The loop of `ioopm_hash_table_any` over one chain. -/
def anyChain (pred : K → Option V → Bool) (entries : List (Entry K V)) : ℕ → Option ℕ → Except DemoFault Bool
  | _, none => .ok false
  | 0, some _ => .error .diverges
  | fuel + 1, some address => do
    let entry ← readEntry entries (some address)
    if pred entry.key entry.value then .ok true
    else anyChain pred entries fuel entry.next

/-- The loop of `ioopm_hash_table_any` over the buckets from `i` on, with this many to go. -/
def anyFrom (pred : K → Option V → Bool) (i : ℕ) : ℕ → Except DemoFault Bool
  | 0 => .ok false
  | count + 1 => do
    if ← anyChain pred ht.entries (ht.entries.length + 1) (ht.buckets i) then .ok true
    else anyFrom pred (i + 1) count

/-- `ioopm_hash_table_any`. -/
def any (pred : K → Option V → Bool) : Except DemoFault Bool := ht.anyFrom pred 0 ht.capacity

/-- `key_equiv`. -/
def keyEquiv (cmp : K → K → Bool) (otherKey : K) (key : K) (_ : Option V) : Bool := cmp key otherKey

/-- `ioopm_hash_table_has_key`. -/
def tableHasKey (f : TableFunctions K) (key : K) : Except DemoFault Bool := ht.any (keyEquiv f.cmp key)

/-- `value_equiv`. -/
def valueEquiv (cmpValue : Option V → Option V → Bool) (otherValue : Option V) (_ : K) (value : Option V) : Bool :=
  cmpValue value otherValue

/-- `ioopm_hash_table_has_value`. -/
def tableHasValue (cmpValue : Option V → Option V → Bool) (value : Option V) : Except DemoFault Bool :=
  ht.any (valueEquiv cmpValue value)

/-- The loop of `ioopm_hash_table_all` over one chain. -/
def allChain (pred : K → Option V → Bool) (entries : List (Entry K V)) : ℕ → Option ℕ → Except DemoFault Bool
  | _, none => .ok true
  | 0, some _ => .error .diverges
  | fuel + 1, some address => do
    let entry ← readEntry entries (some address)
    if !pred entry.key entry.value then .ok false
    else allChain pred entries fuel entry.next

/-- The loop of `ioopm_hash_table_all` from the `int` `i`, with this many buckets to go. -/
def allFrom (pred : K → Option V → Bool) (i : ℕ) : ℕ → Except DemoFault Bool
  | 0 => .ok true
  | count + 1 => do
    if !(← allChain pred ht.entries (ht.entries.length + 1) (ht.buckets i)) then .ok false
    else do
      let _ ← checkedInt (i + 1)
      allFrom pred (i + 1) count

/-- `ioopm_hash_table_all`. -/
def all (pred : K → Option V → Bool) : Except DemoFault Bool := ht.allFrom pred 0 ht.capacity

/-- The loop of `ioopm_hash_table_apply_to_all` over one chain. -/
def applyChain (applyFun : K → Option V → Option V) :
    ℕ → List (Entry K V) → Option ℕ → Except DemoFault (List (Entry K V))
  | _, entries, none => .ok entries
  | 0, _, some _ => .error .diverges
  | fuel + 1, entries, some address => do
    let entry ← readEntry entries (some address)
    let entries ← writeEntry entries (some address) { entry with value := applyFun entry.key entry.value }
    applyChain applyFun fuel entries entry.next

/-- `ioopm_hash_table_apply_to_all`. -/
def applyToAll (applyFun : K → Option V → Option V) : Except DemoFault (HashTable K V) := do
  let entries ← (List.range ht.capacity).foldlM
    (fun entries i => applyChain applyFun (ht.entries.length + 1) entries (ht.buckets i)) ht.entries
  .ok { ht with entries }

end HashTable

end GarbageCollector.Model
