import GarbageCollector.Model.BucketBlock
import GarbageCollector.Soundness.TableContents

/-! # The room for the buckets

A table is created with a block for 17 pointers, whatever its capacity is, and a table that grows gets a block
for 3. So every bucket lies in the block exactly as long as a table of at most 17 buckets does not grow.
-/

namespace GarbageCollector.Soundness

open Model Proofs

variable {K V : Type}

/-- The block behind the buckets holds a pointer for each of them. -/
def Roomy (ht : BlockTable K V) : Prop := ht.table.capacity * 8 ≤ dataSize ht.bucketsFs

instance (ht : BlockTable K V) : Decidable (Roomy ht) := inferInstanceAs (Decidable (_ ≤ _))

/-- A call on a table with its block. -/
def blockStep (f : TableFunctions K) (ht : BlockTable K V) : TableCall K V → Except DemoFault (BlockTable K V)
  | .insert key value => ht.insert f key (some value)
  | .remove key => do
    let (_, ht) ← ht.remove f key
    .ok ht
  | .lookup key => do
    let _ ← ht.table.lookup f key
    .ok ht
  | .clear => ht.clear

/-- The call is an insertion that finds the table full. -/
def Grows (f : TableFunctions K) (ht : BlockTable K V) (call : TableCall K V) : Prop :=
  f.full ht.table.size ht.table.capacity = true ∧ ∃ key value, call = .insert key value

/-- The new buckets of `hash_table_grow` from their allocation on, with the capacity by which they are
indexed. -/
def newBuckets (ht : BlockTable K V) : BlockTable K V :=
  ⟨{ ht.table with capacity := findNextCapacity ht.table.capacity }, "3*".toList⟩

/-- The buckets that a call works on: those that it returns with, and for an insertion that grows the table
also the new ones while they are filled, and as the growth leaves them, whatever the insertion does then. -/
inductive WorksOn (f : TableFunctions K) (ht : BlockTable K V) (call : TableCall K V) : BlockTable K V → Prop
  | filled (grows : Grows f ht call) : WorksOn f ht call (newBuckets ht)
  | grown {next : BlockTable K V} (grows : Grows f ht call) (ran : ht.grow f = .ok next) : WorksOn f ht call next
  | returned {next : BlockTable K V} (ran : blockStep f ht call = .ok next) : WorksOn f ht call next

/-- All buckets that the call works on have room. -/
def StaysRoomy (f : TableFunctions K) (ht : BlockTable K V) (call : TableCall K V) : Prop :=
  ∀ buckets, WorksOn f ht call buckets → Roomy buckets

/-- The table has the block that it was created with, and room in it. -/
structure Original (ht : BlockTable K V) : Prop where
  layout : ht.bucketsFs = "17*".toList
  capacity : ht.table.capacity ≤ 17

section Capacity

variable {f : TableFunctions K} {ht ht' : HashTable K V} {key : K} {value : Option V}

theorem capacity_grow (grown : ht.grow f = .ok ht') : ht'.capacity = findNextCapacity ht.capacity := by
  rw [HashTable.grow] at grown
  obtain ⟨memory, _, grown⟩ := Machine.bind_ok_iff.mp grown
  cases grown
  rfl

theorem capacity_link {bucket : ℕ} {prev : Option Slot} {pointer : Option ℕ}
    (linked : ht.link bucket prev pointer = .ok ht') : ht'.capacity = ht.capacity := by
  cases prev with
  | none =>
    cases linked
    rfl
  | some slot =>
    rw [HashTable.link] at linked
    obtain ⟨_, _, linked⟩ := Machine.bind_ok_iff.mp linked
    obtain ⟨_, _, linked⟩ := Machine.bind_ok_iff.mp linked
    obtain ⟨_, _, linked⟩ := Machine.bind_ok_iff.mp linked
    cases linked
    rfl

theorem capacity_put (ran : ht.put f key value = .ok ht') : ht'.capacity = ht.capacity := by
  rw [HashTable.put] at ran
  obtain ⟨_, _, ran⟩ := Machine.bind_ok_iff.mp ran
  obtain ⟨_, _, ran⟩ := Machine.bind_ok_iff.mp ran
  obtain ⟨current, _, ran⟩ := Machine.bind_ok_iff.mp ran
  obtain ⟨_, _, ran⟩ := Machine.bind_ok_iff.mp ran
  split at ran
  · obtain ⟨_, _, ran⟩ := Machine.bind_ok_iff.mp ran
    obtain ⟨_, _, ran⟩ := Machine.bind_ok_iff.mp ran
    cases ran
    rfl
  · obtain ⟨linked, attached, ran⟩ := Machine.bind_ok_iff.mp ran
    cases ran
    have same := capacity_link attached
    exact same

theorem capacity_remove {removed : Option V} (ran : ht.remove f key = .ok (removed, ht')) :
    ht'.capacity = ht.capacity := by
  rw [HashTable.remove] at ran
  obtain ⟨_, _, ran⟩ := Machine.bind_ok_iff.mp ran
  obtain ⟨_, _, ran⟩ := Machine.bind_ok_iff.mp ran
  split at ran
  · cases ran
    rfl
  · obtain ⟨_, _, ran⟩ := Machine.bind_ok_iff.mp ran
    split at ran
    · obtain ⟨_, _, ran⟩ := Machine.bind_ok_iff.mp ran
      split at ran
      · obtain ⟨_, _, ran⟩ := Machine.bind_ok_iff.mp ran
        obtain ⟨_, linked, ran⟩ := Machine.bind_ok_iff.mp ran
        cases ran
        have same := capacity_link linked
        exact same
      · cases ran
        rfl
    · obtain ⟨_, _, ran⟩ := Machine.bind_ok_iff.mp ran
      obtain ⟨_, _, ran⟩ := Machine.bind_ok_iff.mp ran
      obtain ⟨_, linked, ran⟩ := Machine.bind_ok_iff.mp ran
      cases ran
      have same := capacity_link linked
      exact same

theorem capacity_clearFrom {index count : ℕ} (ran : ht.clearFrom index count = .ok ht') :
    ht'.capacity = ht.capacity := by
  induction count generalizing ht index with
  | zero =>
    cases ran
    rfl
  | succ count ih =>
    rw [HashTable.clearFrom] at ran
    obtain ⟨_, _, ran⟩ := Machine.bind_ok_iff.mp ran
    have same := ih ran
    exact same

theorem le_findNextCapacity (capacity : ℕ) : 17 ≤ findNextCapacity capacity := by
  have all : ∀ prime ∈ primes, 17 ≤ prime := by decide
  rw [findNextCapacity]
  cases found : primes.find? fun prime => capacity < prime with
  | none => decide
  | some prime => exact all prime (List.mem_of_find?_eq_some found)

end Capacity

variable {f : TableFunctions K} {ht next : BlockTable K V} {call : TableCall K V} {calls : List (TableCall K V)}

/-- A call does to the entries what it does to those of a table without a block. -/
theorem step_table {p : PairedTable K V} (same : ht.table = p.table) :
    (blockStep f ht call).map BlockTable.table = (p.step f call).map PairedTable.table := by
  obtain ⟨table, map⟩ := p
  subst same
  cases call with
  | insert key value =>
    rw [blockStep, BlockTable.insert_table, PairedTable.step]
    cases ht.table.insert f key (some value) <;> rfl
  | remove key =>
    rw [blockStep, BlockTable.remove, PairedTable.step]
    cases ht.table.remove f key <;> rfl
  | lookup key =>
    rw [blockStep, PairedTable.step]
    cases ht.table.lookup f key <;> rfl
  | clear =>
    rw [blockStep, BlockTable.clear, PairedTable.step]
    cases ht.table.clear <;> rfl

/-- So do runs of calls. -/
theorem run_table {p : PairedTable K V} (same : ht.table = p.table) :
    (Machine.run (blockStep f) ht calls).map BlockTable.table =
      (Machine.run (PairedTable.step f) p calls).map PairedTable.table := by
  apply Machine.run_map_eq BlockTable.table PairedTable.table ?_ same
  intro ht p call same
  exact step_table same

theorem Original.roomy (original : Original ht) : Roomy ht := by
  have size : dataSize "17*".toList = 136 := by decide +kernel
  have capacity := original.capacity
  rw [Roomy, original.layout, size]
  omega

/-- A growth that returns leaves the new buckets with their capacity. -/
theorem newBuckets_of_grow (grown : ht.grow f = .ok next) :
    next.bucketsFs = (newBuckets ht).bucketsFs ∧ next.table.capacity = (newBuckets ht).table.capacity := by
  obtain ⟨table, grew, same⟩ := Machine.bind_ok_iff.mp grown
  cases same
  exact ⟨rfl, capacity_grow grew⟩

/-- A block for three pointers has no room for the buckets of a table that has grown. -/
theorem not_roomy_of_grown (layout : ht.bucketsFs = "3*".toList) (capacity : 17 ≤ ht.table.capacity) :
    ¬ Roomy ht := by
  have size : dataSize "3*".toList = 24 := by decide +kernel
  rw [Roomy, layout, size]
  omega

/-- A call that does not grow the table keeps block and capacity. -/
theorem Original.step (original : Original ht) (grows : ¬ Grows f ht call)
    (ran : blockStep f ht call = .ok next) : Original next := by
  cases call with
  | insert key value =>
    rw [blockStep, BlockTable.insert] at ran
    split at ran
    · next full => exact absurd ⟨full, key, value, rfl⟩ grows
    · obtain ⟨same, kept, ran⟩ := Machine.bind_ok_iff.mp ran
      cases kept
      obtain ⟨table, put, ran⟩ := Machine.bind_ok_iff.mp ran
      cases ran
      exact ⟨original.layout, (capacity_put put).le.trans original.capacity⟩
  | remove key =>
    obtain ⟨⟨value, removed⟩, ran, same⟩ := Machine.bind_ok_iff.mp ran
    cases same
    obtain ⟨⟨value', table⟩, removes, same⟩ := Machine.bind_ok_iff.mp ran
    cases same
    exact ⟨original.layout, (capacity_remove removes).le.trans original.capacity⟩
  | lookup key =>
    obtain ⟨_, _, same⟩ := Machine.bind_ok_iff.mp ran
    cases same
    exact original
  | clear =>
    obtain ⟨table, cleared, same⟩ := Machine.bind_ok_iff.mp ran
    cases same
    exact ⟨original.layout, (capacity_clearFrom cleared).le.trans original.capacity⟩

/-- An insertion that grows the table has no room for the new buckets. -/
theorem not_staysRoomy_of_grows (grows : Grows f ht call) : ¬ StaysRoomy f ht call := by
  intro stays
  exact not_roomy_of_grown rfl (le_findNextCapacity _) (stays _ (.filled grows))

/-- A call that does not grow the table works on the buckets that it returns with. -/
theorem Original.staysRoomy (original : Original ht) (grows : ¬ Grows f ht call) : StaysRoomy f ht call := by
  intro buckets works
  cases works with
  | filled grown => exact absurd grown grows
  | grown grown => exact absurd grown grows
  | returned ran => exact (original.step grows ran).roomy

/-- A table and all buckets that a sequence of calls works on have room exactly when the table is created with
at most 17 and no call grows it. -/
theorem roomy_iff {capacity : ℕ} :
    (Roomy (BlockTable.createDynamic capacity : BlockTable K V) ∧
        Machine.Along (blockStep f) (StaysRoomy f) (BlockTable.createDynamic capacity) calls) ↔
      capacity ≤ 17 ∧
        Machine.Along (blockStep f) (fun ht call => ¬ Grows f ht call) (BlockTable.createDynamic capacity) calls := by
  have created : Roomy (BlockTable.createDynamic capacity : BlockTable K V) ↔ capacity ≤ 17 := by
    have size : dataSize "17*".toList = 136 := by decide +kernel
    simp only [Roomy, BlockTable.createDynamic, HashTable.create, size]
    omega
  have any : Machine.Along (blockStep f) (fun _ _ => True) (BlockTable.createDynamic capacity) calls :=
    Machine.along_of_forall fun _ _ _ => trivial
  rw [created]
  apply and_congr_right
  intro small
  apply Machine.along_iff_of_kept Original ?_ ?_ any ⟨rfl, small⟩
  · intro ht call original _
    exact ⟨fun stays grows => not_staysRoomy_of_grows grows stays, original.staysRoomy⟩
  · intro ht call next original _ stays ran
    exact original.step (fun grows => not_staysRoomy_of_grows grows stays) ran

/-- Thirteen insertions into a table that `ioopm_hash_table_create` made: the last one grows it to 31 buckets. -/
theorem not_roomy_thirteen : Roomy (BlockTable.createDynamic 17 : BlockTable ℕ ℕ) ∧
    ¬ Machine.Along (blockStep remainderFunctions) (StaysRoomy remainderFunctions)
      (BlockTable.createDynamic 17 : BlockTable ℕ ℕ) ((List.range 13).map fun key => .insert key key) := by
  have seen : ((Machine.run (blockStep remainderFunctions) (BlockTable.createDynamic 17 : BlockTable ℕ ℕ)
      ((List.range 12).map fun key => .insert key key)).bind fun ht =>
        (blockStep remainderFunctions ht (.insert 12 12)).map fun next =>
          (next.table.capacity, decide (Roomy next))) = .ok (31, false) := by decide +kernel
  refine ⟨by decide +kernel, fun along => ?_⟩
  obtain ⟨ht, ran, seen⟩ := Machine.bind_ok_iff.mp seen
  have split : (List.range 13).map (fun key => (.insert key key : TableCall ℕ ℕ)) =
      (List.range 12).map (fun key => .insert key key) ++ [.insert 12 12] := rfl
  rw [split] at along
  have last := ((Machine.along_append_iff.mp along).2 ht ran).1
  cases stepped : blockStep remainderFunctions ht (.insert 12 12) with
  | error fault =>
    rw [stepped] at seen
    cases seen
  | ok next =>
    rw [stepped] at seen
    have cramped : decide (Roomy next) = false := congrArg Prod.snd (Except.ok.inj seen)
    exact of_decide_eq_false cramped (last next (.returned stepped))

end GarbageCollector.Soundness
