import GarbageCollector.Proofs.ShelfLists
import GarbageCollector.Soundness.StockCovers

/-! # What replenishing adds

`replenish` takes the pair of a known shelf out of the list, and appends a new pair with the sum. In a run
that never replenishes the last of several shelves, the shelf grows by exactly the amount and the others
keep theirs. The last of several shelves is not unlinked, and the new pair is out of reach behind it.
-/

namespace GarbageCollector.Soundness

open Model Proofs

/-- The shelves that the links of a list lead to. -/
def shelvesOf (shelfs : LinkedList ShelfPair) : Except DemoFault (List ShelfPair) :=
  shelfs.valuesFrom shelfs.first shelfs.size.toNat

/-- The amount on a shelf. -/
def amountOn (shelves : List ShelfPair) (shelf : CString) : Option ℤ :=
  KeyedList.find compareString (shelfAmounts shelves) shelf

def IsInt (value : ℤ) : Prop := -2 ^ 31 ≤ value ∧ value < 2 ^ 31

/-- An `int` holds what is then on the shelf, what is then on all shelves, and their number. -/
structure Fits (shelves : List ShelfPair) (num : ℤ) (shelf : CString) (amount : ℤ) : Prop where
  shelved : IsInt ((amountOn shelves shelf).getD 0 + amount)
  summed : IsInt (num + amount)
  counted : amountOn shelves shelf = none → shelves.length + 1 < 2 ^ 31

/-- One shelf has grown by the amount, a new one from 0. -/
structure Grown (before after : List ShelfPair) (shelf : CString) (amount : ℤ) : Prop where
  grown : amountOn after shelf = some ((amountOn before shelf).getD 0 + amount)
  kept : ∀ other, other ≠ shelf → amountOn after other = amountOn before other
  apart : (after.map ShelfPair.shelfName).Nodup

/-- `replenish` on a merchandise of the store adds exactly the amount. -/
def Replenishes (full : ℕ → ℕ → Bool) (db : Database) (name shelf : CString) (amount : ℤ) : Prop :=
  ∀ address, db.allMerch.lookup (stringFunctions full) name = .ok (some address) → isShelf shelf → 0 ≤ amount →
    ∃ merch before num, db.merch address = .ok merch ∧ shelvesOf merch.shelfs = .ok before ∧
      numForShelfs merch.shelfs = .ok num ∧ (Fits before num shelf amount →
        ∃ db' merch' after, db.replenish full name shelf amount = .ok db' ∧ db'.merch address = .ok merch' ∧
          shelvesOf merch'.shelfs = .ok after ∧ Grown before after shelf amount ∧
          numForShelfs merch'.shelfs = .ok (num + amount))

/-- The call does not replenish the last of several shelves. -/
def Spares (full : ℕ → ℕ → Bool) (db : Database) : StoreCall → Prop
  | .replenish name shelf _ =>
    Returns (db.allMerch.lookup (stringFunctions full) name) fun found => ∀ address ∈ found, isShelf shelf →
      Returns (db.merch address) fun merch =>
        Returns (shelvesOf merch.shelfs) fun shelves => SparesLast shelves shelf
  | _ => True

instance (full : ℕ → ℕ → Bool) (db : Database) : DecidablePred (Spares full db)
  | .replenish name _ _ =>
    inferInstanceAs (Decidable (Returns (db.allMerch.lookup (stringFunctions full) name) _))
  | .addMerchandise _ _ _ | .removeMerchandise _ | .editMerchandise _ _ _ _ | .createCart _ | .removeCart _
  | .addToCart _ _ _ | .removeFromCart _ _ _ | .checkout _ => isTrue trivial

variable {full : ℕ → ℕ → Bool} {db db' : Database} {name shelf : CString} {amount num : ℤ} {address : ℕ}
  {merch : Merch} {shelves : List ShelfPair} {call : StoreCall} {calls : List StoreCall}

/-- The links of a merchandise's shelves lead to another one last. -/
theorem Spares.sparesLast (spares : Spares full db (.replenish name shelf amount))
    (looked : db.allMerch.lookup (stringFunctions full) name = .ok (some address)) (valid : isShelf shelf)
    (read : db.merch address = .ok merch) (stores : Stores merch.shelfs shelves) : SparesLast shelves shelf :=
  spares _ looked address rfl valid _ read _ stores.values_eq

/-- A call that spares the last of several shelves keeps the lists of shelves. -/
theorem stocked_step (stocked : Stocked db) (spares : Spares full db call)
    (ran : db.step full call = .ok db') : Stocked db' := by
  cases call with
  | addMerchandise name description price => exact stocked.addMerchandise ran
  | removeMerchandise name => exact stocked.removeMerchandise ran
  | editMerchandise name newName description price => exact stocked.editMerchandise ran
  | replenish name shelf amount =>
    exact stocked.replenish (fun valid _ looked _ _ read stores => spares.sparesLast looked valid read stores) ran
  | createCart cartKey => exact stocked.createCart ran
  | removeCart cartKey => exact stocked.removeCart ran
  | addToCart cartKey name quantity => exact stocked.addToCart ran
  | removeFromCart cartKey name quantity => exact stocked.removeFromCart ran
  | checkout cartKey => exact stocked.checkout ran

/-- The edit of the shelves is exact where `int`s hold its sums. -/
theorem grown_restocked (apart : (shelves.map ShelfPair.shelfName).Nodup)
    (fits : Fits shelves num shelf amount) : Grown shelves (restocked shelves shelf amount) shelf amount := by
  have exact_sum (held : ℤ) (found : KeyedList.find compareString (shelfAmounts shelves) shelf = some held) :
      toInt32 (held + amount) = held + amount := by
    have fit := fits.shelved
    rw [amountOn, found, Option.getD_some] at fit
    exact toInt32_of_range fit.1 fit.2
  have found (other : CString) : amountOn (restocked shelves shelf amount) other =
      if shelf = other then some ((amountOn shelves shelf).getD 0 + amount) else amountOn shelves other :=
    find_restocked apart exact_sum
  refine ⟨?_, fun other different => ?_, nodup_restocked apart⟩
  · rw [found, if_pos rfl]
  · rw [found, if_neg (Ne.symm different)]

/-- An `int` counts the shelves afterwards. -/
theorem length_restocked_lt (fits : Fits shelves num shelf amount) (count : shelves.length < 2 ^ 31) :
    (restocked shelves shelf amount).length < 2 ^ 31 := by
  rw [length_restocked]
  split
  · exact count
  · next fresh => exact fits.counted (find_shelfAmounts_eq_none_iff.mpr fresh)

/-- The sum that `num_for_shelfs` returns grows by the amount. -/
theorem numForShelfs_restocked {shelfs shelfs' : LinkedList ShelfPair} (stores : Stores shelfs shelves)
    (stores' : Stores shelfs' (restocked shelves shelf amount)) (counted : numForShelfs shelfs = .ok num)
    (fits : Fits shelves num shelf amount) : numForShelfs shelfs' = .ok (num + amount) := by
  rw [numForShelfs_ok stores.reads] at counted
  cases counted
  rw [numForShelfs_ok stores'.reads, toInt32_stockOf_restocked, ← toInt32_toInt32_add,
    toInt32_of_range fits.summed.1 fits.summed.2]

/-- In a store with linked lists of shelves, `replenish` is exact on a shelf that is not the last of several. -/
theorem replenishes_of_stocked (stocked : Stocked db)
    (spares : Spares full db (.replenish name shelf amount)) : Replenishes full db name shelf amount := by
  intro address looked valid lower
  obtain ⟨merch, read, shelves, stores, apart, count⟩ := stocked.read looked
  refine ⟨merch, shelves, _, read, stores.values_eq, numForShelfs_ok stores.reads, fun fits => ?_⟩
  obtain ⟨shelfs', stores', result⟩ :=
    replenish_eq amount looked valid read stores count (spares.sparesLast looked valid read stores).unlinks
  have room : (restocked shelves shelf amount).length < 2 ^ 31 := length_restocked_lt fits count
  rw [checkedInt_ok (by omega) (by omega)] at result
  have inside : address < db.merchs.length := (List.getElem?_eq_some_iff.mp (getElem?_of_merch read)).1
  refine ⟨_, { merch with shelfs := shelfs' }, _, result, ?_, stores'.values_eq, grown_restocked apart fits,
    numForShelfs_restocked stores stores' (numForShelfs_ok stores.reads) fits⟩
  simp only [Database.merch, List.getElem?_set_self inside]

/-- In every state of a run that never replenishes the last of several shelves, `replenish` of another shelf
adds exactly the amount. -/
theorem replenishes_of_spares (along : Machine.Along (Database.step full) (Spares full) Database.create calls)
    (ran : Machine.run (Database.step full) Database.create calls = .ok db)
    (spares : Spares full db (.replenish name shelf amount)) : Replenishes full db name shelf amount := by
  have stocked : Stocked db := Machine.run_invariant Stocked
    (fun stocked spares stepped => stocked_step stocked spares stepped) along Stocked.create ran
  exact replenishes_of_stocked stocked spares

/-- A merchandise with stock on two shelves, of which the first in the list is `b11`. -/
def twoShelves : List StoreCall :=
  [.addMerchandise apple apple 5, .replenish apple shelfA 3, .replenish apple shelfB 4]

/-- The first of two shelves is replenished and so becomes the last, and then the other one is. -/
theorem replenishes_of_spares_both :
    ∃ db, Machine.run (Database.step loadFactor) Database.create
        (twoShelves ++ [.replenish apple shelfB 1]) = .ok db ∧
      db.allMerch.lookup (stringFunctions loadFactor) apple = .ok (some 0) ∧
      Replenishes loadFactor db apple shelfA 2 := by
  have seen : ((Machine.run (Database.step loadFactor) Database.create
      (twoShelves ++ [.replenish apple shelfB 1])).bind fun db =>
        db.allMerch.lookup (stringFunctions loadFactor) apple) = .ok (some 0) := by decide +kernel
  have along : Machine.Along (Database.step loadFactor) (Spares loadFactor) Database.create
      ((twoShelves ++ [.replenish apple shelfB 1]) ++ [.replenish apple shelfA 2]) := by decide +kernel
  obtain ⟨db, ran, looked⟩ := Machine.bind_ok_iff.mp seen
  obtain ⟨along, last⟩ := Machine.along_append_iff.mp along
  exact ⟨db, ran, looked, replenishes_of_spares along ran (last db ran).1⟩

/-- The last of the two shelves is replenished, and holds what it has held. -/
theorem not_replenishes_last :
    ∃ db, Machine.run (Database.step loadFactor) Database.create twoShelves = .ok db ∧
      ¬ Replenishes loadFactor db apple shelfA 1 := by
  have seen : ((Machine.run (Database.step loadFactor) Database.create twoShelves).bind fun db => do
      let found ← db.allMerch.lookup (stringFunctions loadFactor) apple
      let merch ← db.merch 0
      let before ← shelvesOf merch.shelfs
      let num ← numForShelfs merch.shelfs
      let db' ← db.replenish loadFactor apple shelfA 1
      let merch' ← db'.merch 0
      let after ← shelvesOf merch'.shelfs
      .ok (found, [amountOn before shelfA, amountOn after shelfA], num)) =
        .ok (some 0, [some 3, some 3], 7) := by decide +kernel
  obtain ⟨db, ran, seen⟩ := Machine.bind_ok_iff.mp seen
  refine ⟨db, ran, fun replenishes => ?_⟩
  obtain ⟨found, looked, seen⟩ := Machine.bind_ok_iff.mp seen
  obtain ⟨merch, read, seen⟩ := Machine.bind_ok_iff.mp seen
  obtain ⟨before, listed, seen⟩ := Machine.bind_ok_iff.mp seen
  obtain ⟨num, counted, seen⟩ := Machine.bind_ok_iff.mp seen
  obtain ⟨db', replenished, seen⟩ := Machine.bind_ok_iff.mp seen
  obtain ⟨merch', read', seen⟩ := Machine.bind_ok_iff.mp seen
  obtain ⟨after, listed', seen⟩ := Machine.bind_ok_iff.mp seen
  simp only [Except.ok.injEq, Prod.mk.injEq, List.cons.injEq, and_true] at seen
  obtain ⟨rfl, ⟨old, unchanged⟩, rfl⟩ := seen
  obtain ⟨_, _, _, same_merch, same_list, same_num, exact_if⟩ := replenishes 0 looked (by decide) (by decide)
  cases read.symm.trans same_merch
  cases listed.symm.trans same_list
  cases counted.symm.trans same_num
  have fits : Fits before 7 shelfA 1 := by
    constructor
    · rw [old]
      exact ⟨by decide, by decide⟩
    · exact ⟨by decide, by decide⟩
    · rw [old]
      exact fun absent => nomatch absent
  obtain ⟨_, _, _, same_db, same_merch', same_list', grown, _⟩ := exact_if fits
  cases replenished.symm.trans same_db
  cases read'.symm.trans same_merch'
  cases listed'.symm.trans same_list'
  have amount := grown.grown
  rw [old, unchanged] at amount
  exact absurd amount (by decide)

end GarbageCollector.Soundness
