import GarbageCollector.Proofs.StoreRuns
import GarbageCollector.Soundness.Replenished

/-! # Which requests a cart accepts

`add_to_cart` compares the stock of one merchandise with the quantity and everything in all carts, and then
with the quantity and what the cart itself holds. What it accepts is stored exactly. It accepts what the
stock has room for unless other merchandise in the carts is in the way, or negative amounts are.
-/

namespace GarbageCollector.Soundness

open Model Proofs

section Counting

variable (full : ℕ → ℕ → Bool) (db : Database)

/-- The pair that a cart stores for a name. -/
def pairAt (cartKey : ℤ) (name : CString) : Except DemoFault (Option CartPair) := do
  match ← db.allCarts.lookup (intFunctions full) cartKey with
  | none => .ok none
  | some address => do
    let cart ← db.cart address
    cart.lookup (stringFunctions full) name

/-- The amount that a pair stands for; no pair stands for nothing. -/
def amountIn (pair : Option CartPair) : ℤ := (pair.map CartPair.amountInCart).getD 0

/-- The sum of a count over all carts. -/
def overCarts (count : HashTable CString CartPair → Except DemoFault ℤ) : Except DemoFault ℤ := do
  let carts ← db.allCarts.values
  carts.iterate (fun sum value => do
    let cart ← db.cart (← deref value)
    let amount ← count cart
    .ok (sum + amount)) 0

/-- The amount under a name in a cart. -/
def countName (name : CString) (cart : HashTable CString CartPair) : Except DemoFault ℤ := do
  let pair ← cart.lookup (stringFunctions full) name
  .ok (amountIn pair)

/-- The amount of everything in a cart. -/
def countAll (cart : HashTable CString CartPair) : Except DemoFault ℤ := do
  let pairs ← cart.values
  pairs.iterate (fun sum value => do
    let pair ← deref value
    .ok (sum + pair.amountInCart)) 0

/-- `int`s count the carts and the entries of each cart. -/
def Counted : Prop :=
  db.allCarts.size < 2 ^ 31 ∧ ∀ cartKey address cart,
    db.allCarts.lookup (intFunctions full) cartKey = .ok (some address) → db.cart address = .ok cart →
      cart.size < 2 ^ 31

end Counting

/-- `add_to_cart` accepts the request exactly when the stock has room for it, and then the cart has the
quantity more of the merchandise and all else is as before. -/
def Judges (full : ℕ → ℕ → Bool) (db : Database) (cartKey : ℤ) (name : CString)
    (quantity already inCarts num : ℤ) : Prop :=
  ∃ outcome db', db.addToCartOutcome full cartKey name quantity = .ok (outcome, db') ∧
    db.addToCart full cartKey name quantity = .ok db' ∧
    (outcome = .added ↔ quantity + inCarts ≤ num) ∧
    (outcome = .added →
      (∃ pair, pairAt full db' cartKey name = .ok (some pair) ∧ pair.amountInCart = already + quantity) ∧
      ∀ key other, (key, other) ≠ (cartKey, name) → pairAt full db' key other = pairAt full db key other)

/-- What else is in the carts, or what the cart holds, is in the way of a request that the stock has room
for, or lets one pass that it has no room for. -/
def Misjudged (quantity already inCarts total num : ℤ) : Prop :=
  quantity + inCarts ≤ num ∧ (num < quantity + total ∨ num < quantity + already) ∨
    num < quantity + inCarts ∧ quantity + total ≤ num ∧ quantity + already ≤ num

variable {full : ℕ → ℕ → Bool} {meets meets' : ℤ → Prop} {db db' : Database} {v : View} {name other : CString}
  {cartKey key quantity already inCarts total num : ℤ} {address merch : ℕ}
  {entries : List (CString × CartPair)} {table : HashTable CString CartPair} {calls : List StoreCall}

theorem pairAt_of_mem (kept : Kept full meets db v) (member : (cartKey, address) ∈ v.carts)
    (hashable : HashableName name) :
    pairAt full db cartKey name = .ok (KeyedList.find compareString (v.entries address) name) := by
  obtain ⟨table, read, names⟩ := kept.readCart member
  rw [pairAt, kept.allCarts.lookup, kept.carts_iff.mpr member]
  simp only [read, names.lookup hashable, bind, Except.bind]

/-- Writing under one name to one cart changes no other pair. -/
theorem pairAt_setEntries (kept : Kept full meets db v) (kept' : Kept full meets' db' (v.setEntries address entries))
    (member : (cartKey, address) ∈ v.carts)
    (same : ∀ query, query ≠ name →
      KeyedList.find compareString entries query = KeyedList.find compareString (v.entries address) query)
    (different : (key, other) ≠ (cartKey, name)) : pairAt full db' key other = pairAt full db key other := by
  rw [pairAt, pairAt, kept.allCarts.lookup, kept'.allCarts.lookup]
  dsimp only [View.setEntries]
  cases found : KeyedList.find compareInt v.carts key with
  | none => rfl
  | some here =>
    have inside := kept.carts_iff.mp found
    obtain ⟨table, read, names⟩ := kept.readCart inside
    have inside' : (key, here) ∈ (v.setEntries address entries).carts := inside
    obtain ⟨table', read', names'⟩ := kept'.readCart inside'
    simp only [read, read', bind, Except.bind]
    by_cases hashable : HashableName other
    · rw [names.lookup hashable, names'.lookup hashable]
      dsimp only [View.setEntries]
      rcases eq_or_ne here address with rfl | apart
      · have cart : (key, here) = (cartKey, here) := List.inj_on_of_nodup_map kept.cartsApart inside member rfl
        rw [Function.update_self, same other fun named => different (by rw [named, (Prod.mk.inj cart).1])]
      · rw [Function.update_of_ne apart]
    · rw [names.lookup_of_not_hashable hashable, names'.lookup_of_not_hashable hashable]

theorem Counted.counts (counted : Counted full db) (kept : Kept full meets db v) :
    v.carts.length < 2 ^ 31 ∧ ∀ cart ∈ v.carts, (v.entries cart.2).length < 2 ^ 31 := by
  refine ⟨?_, fun ⟨key, address⟩ member => ?_⟩
  · rw [← kept.allCarts.size]
    exact counted.1
  · obtain ⟨table, read, names⟩ := kept.readCart member
    rw [← names.holds.size]
    exact counted.2 key address table (kept.lookupCart_iff.mpr member) read

/-- A count that is right for every cart is right for all of them. -/
theorem overCarts_ok {count : HashTable CString CartPair → Except DemoFault ℤ}
    (measure : List (CString × CartPair) → ℤ) (kept : Kept full meets db v) (room : v.carts.length < 2 ^ 31)
    (counts : ∀ cart ∈ v.carts, ∀ table, HoldsNames full table (v.entries cart.2) →
      count table = .ok (measure (v.entries cart.2))) :
    overCarts db count = .ok (v.carts.map fun cart => measure (v.entries cart.2)).sum := by
  apply Holds.sum_values kept.allCarts (fun address => measure (v.entries address)) (intFunctions_compares full)
    room (fun _ _ => rfl)
  intro sum cart member
  obtain ⟨table, read, names⟩ := kept.readCart member
  simp only [deref, bind, Except.bind, read, counts cart member table names]

theorem countName_ok (names : HoldsNames full table entries) (hashable : HashableName name) :
    countName full name table = .ok (amountOf entries name) := by
  rw [countName, names.lookup hashable]
  rfl

theorem countAll_ok (names : HoldsNames full table entries) (room : entries.length < 2 ^ 31) :
    countAll table = .ok (cartTotal entries) :=
  names.holds.sum_values CartPair.amountInCart (stringFunctions_compares full) room
    (fun _ _ => rfl) fun _ _ _ => rfl

/-- A pair that is stored for a name is found there, and all others are as before. -/
theorem pairAt_stored {pair : CartPair} (kept : Kept full meets db v) (hashable : HashableName name)
    (kept' : Kept full meets' db'
      (v.setEntries address ((name, pair) :: KeyedList.erase compareString (v.entries address) name)))
    (member : (cartKey, address) ∈ v.carts) : pairAt full db' cartKey name = .ok (some pair) ∧
      ∀ key other, (key, other) ≠ (cartKey, name) → pairAt full db' key other = pairAt full db key other := by
  constructor
  · rw [pairAt_of_mem kept' member hashable]
    dsimp only [View.setEntries]
    rw [Function.update_self, KeyedList.find_cons, if_pos (compareString_iff.mpr rfl)]
  · intro key other different
    apply pairAt_setEntries kept kept' member _ different
    intro query apart
    rw [KeyedList.find_cons_erase compareString_comparison (compareString_iff.mpr rfl),
      if_neg fun same => apart (compareString_iff.mp same).symm]

/-- What is accepted is stored as an integer, where an `int` holds it. -/
theorem judges_iff_of_kept (kept : Kept full meets db v) (ints : ∀ amount, meets (toInt32 amount))
    (known : (name, merch) ∈ v.names) (member : (cartKey, address) ∈ v.carts) (counted : Counted full db)
    (summed : IsInt (quantity + v.total)) (held : IsInt (quantity + amountOf (v.entries address) name)) :
    Judges full db cartKey name quantity (amountOf (v.entries address) name) inCarts
        (toInt32 (stockOf (v.shelves merch))) ↔
      ¬ Misjudged quantity (amountOf (v.entries address) name) inCarts v.total
        (toInt32 (stockOf (v.shelves merch))) := by
  have hashable : HashableName name := kept.allMerch.hashable _ known
  obtain ⟨count, counts⟩ := counted.counts kept
  have sum : toInt32 (quantity + toInt32 v.total) = quantity + v.total := by
    rw [toInt32_add_toInt32, toInt32_of_range summed.1 summed.2]
  have exact_amount := toInt32_of_range held.1 held.2
  obtain ⟨outcome, entries, db', put, ran, _, _, kept'⟩ :=
    kept.addToCartOutcome known member (kept.numOfMerchInCarts count counts) quantity
  have reported : (putIn (v.entries address) name merch quantity (toInt32 v.total)
      (toInt32 (stockOf (v.shelves merch)))).1 = outcome := by rw [put]
  have accepts : outcome = .added ↔ quantity + v.total ≤ toInt32 (stockOf (v.shelves merch)) ∧
      quantity + amountOf (v.entries address) name ≤ toInt32 (stockOf (v.shelves merch)) := by
    rw [← reported, putIn_added_iff, sum, exact_amount]
  have stores : outcome = .added →
      (∃ pair, pairAt full db' cartKey name = .ok (some pair) ∧
        pair.amountInCart = amountOf (v.entries address) name + quantity) ∧
      ∀ key other, (key, other) ≠ (cartKey, name) → pairAt full db' key other = pairAt full db key other := by
    intro added
    have kept₁ := kept' fun _ => ints _
    have stored := putIn_added (reported.trans added)
    rw [put] at stored
    dsimp only at stored
    rw [stored] at kept₁
    obtain ⟨here, others⟩ := pairAt_stored kept hashable kept₁ member
    refine ⟨⟨_, here, ?_⟩, others⟩
    dsimp only
    rw [exact_amount, add_comm]
  have added : db.addToCart full cartKey name quantity = .ok db' := by
    rw [Database.addToCart, ran]
    rfl
  have judged : Judges full db cartKey name quantity (amountOf (v.entries address) name) inCarts
      (toInt32 (stockOf (v.shelves merch))) ↔
        (outcome = .added ↔ quantity + inCarts ≤ toInt32 (stockOf (v.shelves merch))) := by
    constructor
    · rintro ⟨_, _, ran', _, judges, _⟩
      cases ran.symm.trans ran'
      exact judges
    · intro judges
      exact ⟨outcome, db', ran, added, judges, stores⟩
  rw [judged, accepts, Misjudged]
  omega

/-- Without negative amounts, only what else is in the carts is in the way. -/
theorem misjudged_iff (kept : Kept full meets db v) (member : (cartKey, address) ∈ v.carts)
    (nonNegative : ∀ key other pair, pairAt full db key other = .ok (some pair) → 0 ≤ pair.amountInCart) :
    Misjudged quantity (amountOf (v.entries address) name) (v.inCarts name) v.total num ↔
      quantity + v.inCarts name ≤ num ∧ num < quantity + v.total := by
  have amounts : ∀ cart ∈ v.carts, KeyedList.Distinct compareString (v.entries cart.2) ∧
      ∀ entry ∈ v.entries cart.2, 0 ≤ entry.2.amountInCart := by
    rintro ⟨key, here⟩ inside
    obtain ⟨table, _, names⟩ := kept.readCart inside
    refine ⟨names.distinct, fun ⟨other, pair⟩ stored => nonNegative key other pair ?_⟩
    rw [pairAt_of_mem kept inside (names.hashable _ stored), (find_string_iff names.distinct).mpr stored]
  have part : amountOf (v.entries address) name ≤ v.inCarts name :=
    le_sum (fun entries => amountOf entries name) (fun cart inside => amountOf_nonneg (amounts cart inside).2 name)
      member
  have whole : v.inCarts name ≤ v.total := by
    apply List.sum_le_sum
    intro cart inside
    exact amountOf_le_cartTotal (amounts cart inside).1 (amounts cart inside).2 name
  rw [Misjudged]
  omega

/-- In every store that calls have built, `add_to_cart` judges a request right exactly when neither what else
is in the carts nor what the cart holds changes the answer; in a store without negative amounts, when not
only what else is in the carts leaves no room for it. -/
theorem judges_iff (ran : Machine.run (Database.step full) Database.create calls = .ok db)
    (looked : db.allMerch.lookup (stringFunctions full) name = .ok (some merch))
    (cart : db.allCarts.lookup (intFunctions full) cartKey = .ok (some address)) (counted : Counted full db) :
    ∃ object num pair inCarts total, db.merch merch = .ok object ∧ numForShelfs object.shelfs = .ok num ∧
      pairAt full db cartKey name = .ok pair ∧ overCarts db (countName full name) = .ok inCarts ∧
      overCarts db countAll = .ok total ∧
      (IsInt (quantity + total) → IsInt (quantity + amountIn pair) →
        (Judges full db cartKey name quantity (amountIn pair) inCarts num ↔
          ¬ Misjudged quantity (amountIn pair) inCarts total num) ∧
        ((∀ key other pair, pairAt full db key other = .ok (some pair) → 0 ≤ pair.amountInCart) →
          (Misjudged quantity (amountIn pair) inCarts total num ↔
            quantity + inCarts ≤ num ∧ num < quantity + total))) := by
  obtain ⟨v, kept⟩ := kept_of_run ran
  have known := kept.lookupMerch_iff.mp looked
  have hashable : HashableName name := kept.allMerch.hashable _ known
  have member := kept.lookupCart_iff.mp cart
  obtain ⟨object, read, _, stock⟩ := kept.numForShelfs known
  obtain ⟨count, counts⟩ := counted.counts kept
  refine ⟨object, _, _, v.inCarts name, v.total, read, stock, pairAt_of_mem kept member hashable, ?_, ?_, ?_⟩
  · apply overCarts_ok (fun entries => amountOf entries name) kept count
    intro _ _ _ names
    exact countName_ok names hashable
  · apply overCarts_ok cartTotal kept count
    intro cart inside _ names
    exact countAll_ok names (counts cart inside)
  · intro summed held
    exact ⟨judges_iff_of_kept kept (fun amount => toInt32_range amount) known member counted summed held,
      misjudged_iff kept member⟩

/-- Three of nine apples and three of nine bananas are in two carts. -/
def sharedStock : List StoreCall :=
  [.addMerchandise apple apple 5, .replenish apple shelfA 9, .addMerchandise banana banana 7,
    .replenish banana shelfB 9, .createCart 1, .createCart 2, .addToCart 1 apple 2, .addToCart 2 apple 1,
    .addToCart 2 banana 3]

/-- A cart with two apples asks for two more. -/
theorem judges_sharedStock : ∃ db, Machine.run (Database.step loadFactor) Database.create sharedStock = .ok db ∧
    Judges loadFactor db 1 apple 2 2 3 9 := by
  have seen : ((Machine.run (Database.step loadFactor) Database.create sharedStock).bind fun db => do
      let found ← db.allMerch.lookup (stringFunctions loadFactor) apple
      let cart ← db.allCarts.lookup (intFunctions loadFactor) 1
      let merch ← db.merch 0
      let num ← numForShelfs merch.shelfs
      let pair ← pairAt loadFactor db 1 apple
      let inCarts ← overCarts db (countName loadFactor apple)
      let total ← overCarts db countAll
      .ok ([found, cart], [num, inCarts, total], pair, db.allCarts.size :: db.carts.map HashTable.size)) =
        .ok ([some 0, some 0], [9, 3, 6], some ⟨0, 2⟩, [2, 1, 2]) := by decide +kernel
  obtain ⟨db, ran, seen⟩ := Machine.bind_ok_iff.mp seen
  obtain ⟨found, looked, seen⟩ := Machine.bind_ok_iff.mp seen
  obtain ⟨cart, lookedCart, seen⟩ := Machine.bind_ok_iff.mp seen
  obtain ⟨merch, read, seen⟩ := Machine.bind_ok_iff.mp seen
  obtain ⟨num, stock, seen⟩ := Machine.bind_ok_iff.mp seen
  obtain ⟨pair, held, seen⟩ := Machine.bind_ok_iff.mp seen
  obtain ⟨inCarts, named, seen⟩ := Machine.bind_ok_iff.mp seen
  obtain ⟨total, all, seen⟩ := Machine.bind_ok_iff.mp seen
  simp only [Except.ok.injEq, Prod.mk.injEq, List.cons.injEq, and_true] at seen
  obtain ⟨⟨rfl, rfl⟩, ⟨rfl, rfl, rfl⟩, rfl, carts, sizes⟩ := seen
  have counted : Counted loadFactor db := by
    refine ⟨by rw [carts]; decide, fun _ address table _ here => ?_⟩
    rw [Database.cart] at here
    split at here
    · cases here
    · next there =>
      cases here
      have member := List.mem_map_of_mem (f := HashTable.size) (List.mem_of_getElem? there)
      have few : ∀ size ∈ [1, 2], size < 2 ^ 31 := by decide
      exact few _ (sizes ▸ member)
  obtain ⟨_, _, _, _, _, read', stock', held', named', all', judges⟩ :=
    @judges_iff loadFactor db apple 1 2 _ _ _ ran looked lookedCart counted
  cases read.symm.trans read'
  cases stock.symm.trans stock'
  cases held.symm.trans held'
  cases named.symm.trans named'
  cases all.symm.trans all'
  refine ⟨db, ran, (judges ⟨by decide, by decide⟩ ⟨by decide, by decide⟩).1.mpr ?_⟩
  rw [Misjudged]
  decide

/-- Four of the five apples are in a cart, and none of the five bananas. -/
def otherMerchandise : List StoreCall :=
  [.addMerchandise apple apple 5, .replenish apple shelfA 5, .addMerchandise banana banana 5,
    .replenish banana shelfB 5, .createCart 1, .addToCart 1 apple 4]

/-- A request for two bananas is refused, because there are apples in the cart. -/
theorem not_judges_other_merchandise :
    ∃ db merch, Machine.run (Database.step loadFactor) Database.create otherMerchandise = .ok db ∧
      db.allMerch.lookup (stringFunctions loadFactor) banana = .ok (some 1) ∧ db.merch 1 = .ok merch ∧
      numForShelfs merch.shelfs = .ok 5 ∧ db.allCarts.lookup (intFunctions loadFactor) 1 = .ok (some 0) ∧
      pairAt loadFactor db 1 banana = .ok none ∧ overCarts db (countName loadFactor banana) = .ok 0 ∧
      ¬ Judges loadFactor db 1 banana 2 0 0 5 := by
  have seen : ((Machine.run (Database.step loadFactor) Database.create otherMerchandise).bind fun db => do
      let found ← db.allMerch.lookup (stringFunctions loadFactor) banana
      let merch ← db.merch 1
      let num ← numForShelfs merch.shelfs
      let cart ← db.allCarts.lookup (intFunctions loadFactor) 1
      let pair ← pairAt loadFactor db 1 banana
      let inCarts ← overCarts db (countName loadFactor banana)
      let (outcome, _) ← db.addToCartOutcome loadFactor 1 banana 2
      .ok ([found, cart], [num, inCarts], pair, outcome)) =
        .ok ([some 1, some 0], [5, 0], none, .notEnoughLeft) := by decide +kernel
  obtain ⟨db, ran, seen⟩ := Machine.bind_ok_iff.mp seen
  obtain ⟨found, looked, seen⟩ := Machine.bind_ok_iff.mp seen
  obtain ⟨merch, read, seen⟩ := Machine.bind_ok_iff.mp seen
  obtain ⟨num, stock, seen⟩ := Machine.bind_ok_iff.mp seen
  obtain ⟨cart, lookedCart, seen⟩ := Machine.bind_ok_iff.mp seen
  obtain ⟨pair, held, seen⟩ := Machine.bind_ok_iff.mp seen
  obtain ⟨inCarts, named, seen⟩ := Machine.bind_ok_iff.mp seen
  obtain ⟨⟨outcome, _⟩, reported, seen⟩ := Machine.bind_ok_iff.mp seen
  simp only [Except.ok.injEq, Prod.mk.injEq, List.cons.injEq, and_true] at seen
  obtain ⟨⟨rfl, rfl⟩, ⟨rfl, rfl⟩, rfl, rfl⟩ := seen
  refine ⟨db, merch, ran, looked, read, stock, lookedCart, held, named, ?_⟩
  rintro ⟨_, _, reported', _, judges, _⟩
  cases reported.symm.trans reported'
  exact nomatch judges.mpr (by decide)

end GarbageCollector.Soundness
