import GarbageCollector.Model.FormatStr
import GarbageCollector.Model.HashTable

/-! # The block behind the buckets

`ioopm_hash_table_create_dynamic` and `hash_table_grow` allocate the block of the buckets with layouts that are
written in them, next to the capacity. Here a table carries the layout that its block was allocated
with; what the calls do to the entries is as before.
-/

namespace GarbageCollector.Model

/-- A table and the layout of the block behind its `buckets`. -/
structure BlockTable (K V : Type) where
  table : HashTable K V
  bucketsFs : List Char

/-- The data size of a block that `h_alloc_struct` allocates with a layout. -/
def dataSize (layout : List Char) : ℕ :=
  match createFormatStr layout with
  | .ok (some str) => formatStrBytes str
  | _ => 0

namespace BlockTable

variable {K V : Type} (f : TableFunctions K) (ht : BlockTable K V)

/-- `ioopm_hash_table_create_dynamic`. -/
def createDynamic (capacity : ℕ) : BlockTable K V := ⟨HashTable.create capacity, "17*".toList⟩

/-- `hash_table_grow`. -/
def grow : Except DemoFault (BlockTable K V) := do
  let table ← ht.table.grow f
  .ok ⟨table, "3*".toList⟩

/-- `ioopm_hash_table_insert`. -/
def insert (key : K) (value : Option V) : Except DemoFault (BlockTable K V) := do
  let ht ← if f.full ht.table.size ht.table.capacity then ht.grow f else .ok ht
  let table ← ht.table.put f key value
  .ok { ht with table }

/-- `ioopm_hash_table_remove`. -/
def remove (key : K) : Except DemoFault (Option V × BlockTable K V) := do
  let (value, table) ← ht.table.remove f key
  .ok (value, { ht with table })

/-- `ioopm_hash_table_clear`. -/
def clear : Except DemoFault (BlockTable K V) := do
  let table ← ht.table.clear
  .ok { ht with table }

/-- The entries of the table are those of a table without a block. -/
theorem insert_table (key : K) (value : Option V) :
    (ht.insert f key value).map BlockTable.table = ht.table.insert f key value := by
  rw [insert, HashTable.insert]
  split
  · rw [grow]
    cases ht.table.grow f with
    | error fault => rfl
    | ok grown =>
      simp only [bind, Except.bind]
      cases grown.put f key value <;> rfl
  · simp only [bind, Except.bind]
    cases ht.table.put f key value <;> rfl

end BlockTable

end GarbageCollector.Model
