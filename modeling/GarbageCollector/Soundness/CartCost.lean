import GarbageCollector.Proofs.StoreRuns
import GarbageCollector.Soundness.Replenished

/-! # What a cart costs

`calculate_cost` counts the entries of the cart but never moves its iterator, so it adds up the cost of the
entry that is listed first as many times as there are entries.
-/

namespace GarbageCollector.Soundness

open Model Proofs

section Costs

variable (full : ℕ → ℕ → Bool) (db : Database)

/-- The amount of an entry times the price of its merchandise. -/
def pairCost (value : Option CartPair) : Except DemoFault ℤ := do
  let cartPair ← deref value
  let merch ← db.merch cartPair.merch
  .ok (cartPair.amountInCart * merch.price)

/-- The costs of the entries of a cart, as they are listed. -/
def pairCosts (cart : HashTable CString CartPair) : Except DemoFault (List ℤ) := do
  let cartPairs ← cart.values
  let pairs ← cartPairs.valuesFrom cartPairs.first cartPairs.size.toNat
  pairs.mapM (pairCost db)

/-- `calculate_cost` returns the sum of the costs and leaves the store as it is. -/
def SumsUp (cartKey : ℤ) (costs : List ℤ) : Prop := db.calculateCost full cartKey = .ok (costs.sum, db)

end Costs

variable {full : ℕ → ℕ → Bool} {meets : ℤ → Prop} {db : Database} {v : View} {cartKey : ℤ} {address : ℕ}
  {table : HashTable CString CartPair} {calls : List StoreCall} {cartPairs : LinkedList (Option CartPair)}
  {value : Option CartPair} {values : List (Option CartPair)} {start next : Option ℕ} {cost : ℤ} {costs : List ℤ}

/-- The loop reads the same entry in every round. -/
theorem costFrom_ok (read : cartPairs.link start = .ok ⟨value, next⟩) (priced : pairCost db value = .ok cost)
    (count : ℕ) (total : ℤ) :
    db.costFrom cartPairs start count (toInt32 total) = .ok (toInt32 (total + count * cost)) := by
  induction count generalizing total with
  | zero =>
    rw [Database.costFrom, Nat.cast_zero, zero_mul, add_zero]
  | succ count ih =>
    obtain ⟨cartPair, held, priced'⟩ := Machine.bind_ok_iff.mp priced
    obtain ⟨merch, found, same⟩ := Machine.bind_ok_iff.mp priced'
    cases same
    rw [Database.costFrom]
    simp only [read, held, found, bind, Except.bind, toInt32_toInt32_add]
    rw [ih]
    push_cast
    ring_nf

/-- `calculate_cost` leaves the store as it is. -/
theorem calculateCost_keeps {db' : Database} {total : ℤ}
    (returned : db.calculateCost full cartKey = .ok (total, db')) : db' = db := by
  rw [Database.calculateCost] at returned
  obtain ⟨found, _, returned⟩ := Machine.bind_ok_iff.mp returned
  cases found with
  | none =>
    cases returned
    rfl
  | some address =>
    obtain ⟨_, _, returned⟩ := Machine.bind_ok_iff.mp returned
    obtain ⟨_, _, returned⟩ := Machine.bind_ok_iff.mp returned
    obtain ⟨_, _, returned⟩ := Machine.bind_ok_iff.mp returned
    cases returned
    rfl

/-- Every entry has a cost. -/
theorem exists_mapM_pairCost (priced : ∀ value ∈ values, ∃ cost, pairCost db value = .ok cost) :
    ∃ costs, values.mapM (pairCost db) = .ok costs ∧
      List.Forall₂ (fun value cost => pairCost db value = .ok cost) values costs := by
  induction values with
  | nil => exact ⟨[], rfl, .nil⟩
  | cons value values ih =>
    obtain ⟨cost, first⟩ := priced value List.mem_cons_self
    obtain ⟨costs, rest, each⟩ := ih fun other member => priced other (List.mem_cons_of_mem _ member)
    refine ⟨cost :: costs, ?_, .cons first each⟩
    rw [List.mapM_cons, first, rest]
    rfl

/-- The entries cost as much as if each cost what the first does, but for their deviations from it. -/
theorem sum_deviations (costs : List ℤ) (first : ℤ) :
    (costs.map fun cost => cost - first).sum = costs.sum - costs.length * first := by
  induction costs with
  | nil => simp
  | cons cost costs ih =>
    rw [List.map_cons, List.sum_cons, ih, List.sum_cons, List.length_cons]
    push_cast
    ring

theorem toInt32_eq_iff {amount sum : ℤ} (int : IsInt sum) : toInt32 amount = sum ↔ 2 ^ 32 ∣ sum - amount := by
  obtain ⟨lower, upper⟩ := int
  simp only [toInt32, Int.bmod]
  split <;> omega

/-- What the loop returns for a list of entries. -/
theorem costFrom_reads (reads : Reads cartPairs values)
    (each : List.Forall₂ (fun value cost => pairCost db value = .ok cost) values costs) :
    db.costFrom cartPairs cartPairs.first cartPairs.size.toNat 0 =
      .ok (toInt32 (costs.length * costs.headD 0)) := by
  rw [reads.size, Int.toNat_natCast, each.length_eq]
  cases each with
  | nil => rfl
  | cons first rest =>
    obtain ⟨next, read⟩ := reads.link_first
    have ran := costFrom_ok read first
    exact (ran _ 0).trans (by rw [zero_add, List.headD_cons])

/-- Whatever the store has been through, `calculate_cost` leaves it as it is, and returns the sum of the costs
exactly when their deviations from the first of them add up to a multiple of `2 ^ 32`. -/
theorem sumsUp_iff (ran : Machine.run (Database.step full) Database.create calls = .ok db)
    (looked : db.allCarts.lookup (intFunctions full) cartKey = .ok (some address))
    (read : db.cart address = .ok table) (count : table.size < 2 ^ 31) :
    ∃ costs total, pairCosts db table = .ok costs ∧ db.calculateCost full cartKey = .ok (total, db) ∧
      (IsInt costs.sum →
        (SumsUp full db cartKey costs ↔ 2 ^ 32 ∣ (costs.map fun cost => cost - costs.headD 0).sum)) := by
  obtain ⟨v, kept⟩ := kept_of_run ran
  have member := kept.lookupCart_iff.mp looked
  obtain ⟨_, read', names⟩ := kept.readCart member
  cases read.symm.trans read'
  have room : (v.entries address).length < 2 ^ 31 := by
    have size := names.holds.size
    omega
  obtain ⟨cartPairs, listed, collected, stores, perm⟩ := names.holds.values (stringFunctions_compares full) room
  have priced : ∀ value ∈ listed.map fun entry => some entry.2, ∃ cost, pairCost db value = .ok cost := by
    intro value inside
    obtain ⟨entry, among, rfl⟩ := List.mem_map.mp inside
    have bound := (kept.entries _ member _ (perm.mem_iff.mp among)).1
    refine ⟨entry.2.amountInCart * db.merchs[entry.2.merch].price, ?_⟩
    simp only [pairCost, deref, Database.merch, List.getElem?_eq_getElem bound, bind, Except.bind]
  obtain ⟨costs, mapped, each⟩ := exists_mapM_pairCost priced
  have returned : db.calculateCost full cartKey = .ok (toInt32 (costs.length * costs.headD 0), db) := by
    rw [Database.calculateCost, looked]
    simp only [read, collected, costFrom_reads stores.reads each, bind, Except.bind]
  refine ⟨costs, _, ?_, returned, fun int => ?_⟩
  · rw [pairCosts]
    simp only [collected, stores.reads.values_eq, mapped, bind, Except.bind]
  · rw [SumsUp, returned, sum_deviations, Except.ok.injEq, Prod.mk.injEq, and_iff_left rfl, toInt32_eq_iff int]

/-- Three entries, of which the one that is listed first costs as much as they do on average. -/
def averageFirst : List StoreCall :=
  [.addMerchandise apple apple 4, .replenish apple shelfA 4, .addMerchandise banana banana 4,
    .replenish banana shelfB 4, .addMerchandise shelfA apple 6, .replenish shelfA shelfA 4, .createCart 1,
    .addToCart 1 apple 2, .addToCart 1 banana 1, .addToCart 1 shelfA 1]

theorem sumsUp_averageFirst :
    ∃ db, Machine.run (Database.step loadFactor) Database.create averageFirst = .ok db ∧
      SumsUp loadFactor db 1 [6, 8, 4] := by
  have seen : ((Machine.run (Database.step loadFactor) Database.create averageFirst).bind fun db => do
      let address ← db.allCarts.lookup (intFunctions loadFactor) 1
      let table ← db.cart 0
      let costs ← pairCosts db table
      .ok ([address], [table.size], costs)) = .ok ([some 0], [3], [6, 8, 4]) := by decide +kernel
  obtain ⟨db, ran, seen⟩ := Machine.bind_ok_iff.mp seen
  obtain ⟨address, looked, seen⟩ := Machine.bind_ok_iff.mp seen
  obtain ⟨table, read, seen⟩ := Machine.bind_ok_iff.mp seen
  obtain ⟨costs, priced, seen⟩ := Machine.bind_ok_iff.mp seen
  simp only [Except.ok.injEq, Prod.mk.injEq, List.cons.injEq, and_true] at seen
  obtain ⟨rfl, size, rfl⟩ := seen
  obtain ⟨_, _, priced', _, sums⟩ := sumsUp_iff ran looked read (by rw [size]; decide)
  cases priced.symm.trans priced'
  exact ⟨db, ran, (sums ⟨by decide, by decide⟩).mpr (by decide)⟩

/-- An apple for five and a banana for seven are in the cart, and the cost of the apple is counted twice. -/
theorem not_sumsUp_two_prices :
    ∃ db table, Machine.run (Database.step loadFactor) Database.create
        [.addMerchandise apple apple 5, .replenish apple shelfA 4, .addMerchandise banana banana 7,
          .replenish banana shelfB 4, .createCart 1, .addToCart 1 apple 1, .addToCart 1 banana 1] = .ok db ∧
      db.allCarts.lookup (intFunctions loadFactor) 1 = .ok (some 0) ∧ db.cart 0 = .ok table ∧
      pairCosts db table = .ok [5, 7] ∧ db.calculateCost loadFactor 1 = .ok (10, db) ∧
      ¬ SumsUp loadFactor db 1 [5, 7] := by
  have seen : ((Machine.run (Database.step loadFactor) Database.create
      [.addMerchandise apple apple 5, .replenish apple shelfA 4, .addMerchandise banana banana 7,
        .replenish banana shelfB 4, .createCart 1, .addToCart 1 apple 1, .addToCart 1 banana 1]).bind
        fun db => do
          let address ← db.allCarts.lookup (intFunctions loadFactor) 1
          let table ← db.cart 0
          let costs ← pairCosts db table
          let returned ← db.calculateCost loadFactor 1
          .ok ([address], costs, returned.1)) = .ok ([some 0], [5, 7], 10) := by decide +kernel
  obtain ⟨db, ran, seen⟩ := Machine.bind_ok_iff.mp seen
  obtain ⟨address, looked, seen⟩ := Machine.bind_ok_iff.mp seen
  obtain ⟨table, read, seen⟩ := Machine.bind_ok_iff.mp seen
  obtain ⟨costs, priced, seen⟩ := Machine.bind_ok_iff.mp seen
  obtain ⟨⟨total, db'⟩, returned, seen⟩ := Machine.bind_ok_iff.mp seen
  simp only [Except.ok.injEq, Prod.mk.injEq, List.cons.injEq, and_true] at seen
  obtain ⟨rfl, rfl, rfl⟩ := seen
  obtain rfl : db' = db := calculateCost_keeps returned
  refine ⟨db', table, ran, looked, read, priced, returned, fun sums => ?_⟩
  cases returned.symm.trans sums

end GarbageCollector.Soundness
