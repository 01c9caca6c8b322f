import GarbageCollector.Machine.Run
import GarbageCollector.Proofs.StoreCarts

/-! # The stock covers the carts

The amounts of a merchandise in all carts add up to no more than `num_for_shelfs` of its shelves, so that
every checkout ends. The operations keep this except for renaming a merchandise to one of which the carts
hold more, replenishing the last of several shelves, and sums and sizes that no `int` holds.
-/

namespace GarbageCollector.Soundness

open Model Proofs

/-- The amount of the merchandise at an address in a cart. -/
def amountInCart (cart : HashTable CString CartPair) (address : ℕ) : Except DemoFault ℤ := do
  let pairs ← cart.values
  pairs.iterate (fun sum value => do
    let pair ← deref value
    .ok (sum + if pair.merch = address then pair.amountInCart else 0)) 0

/-- The amount of the merchandise at an address in all carts. -/
def amountInCarts (db : Database) (address : ℕ) : Except DemoFault ℤ := do
  let carts ← db.allCarts.values
  carts.iterate (fun sum value => do
    let cart ← db.cart (← deref value)
    let amount ← amountInCart cart address
    .ok (sum + amount)) 0

/-- The stock of every merchandise of the store covers what all carts hold of it. -/
def StockCovers (full : ℕ → ℕ → Bool) (db : Database) : Prop :=
  ∀ name address, db.allMerch.lookup (stringFunctions full) name = .ok (some address) →
    ∃ merch num sum, db.merch address = .ok merch ∧ numForShelfs merch.shelfs = .ok num ∧
      amountInCarts db address = .ok sum ∧ sum ≤ num

/-- The amount that a call passes on is an `int` and not negative. -/
def NonNegativeAmount : StoreCall → Prop
  | .replenish _ _ amount | .addToCart _ _ amount | .removeFromCart _ _ amount => 0 ≤ amount ∧ amount < 2 ^ 31
  | _ => True

instance : DecidablePred NonNegativeAmount := fun call => by
  cases call <;> unfold NonNegativeAmount <;> infer_instance

/-- What the computation returns meets the condition. -/
def Returns {α : Type} (result : Except DemoFault α) (condition : α → Prop) : Prop :=
  ∀ value, result = .ok value → condition value

instance {α : Type} (result : Except DemoFault α) (condition : α → Prop) [DecidablePred condition] :
    Decidable (Returns result condition) :=
  match result with
  | .error _ => isTrue fun _ same => nomatch same
  | .ok value => decidable_of_iff (condition value) (by simp [Returns])

section Safe

variable (full : ℕ → ℕ → Bool) (db : Database)

/-- The carts hold no more of the new name than there is on the shelves that it gets. -/
def Renames (newName : CString) (address : ℕ) : Prop :=
  Returns (db.allMerch.lookup (stringFunctions full) newName) fun found => ∀ other ∈ found,
    Returns (amountInCarts db other) fun sum => Returns (db.merch address) fun merch =>
      Returns (numForShelfs merch.shelfs) fun num => sum ≤ num

/-- The shelf is new, the first, or not the last, and an `int` holds the new stock. -/
def Restocks (shelf : CString) (amount : ℤ) (address : ℕ) : Prop :=
  Returns (db.merch address) fun merch =>
    Returns (numForShelfs merch.shelfs) (fun num => num + amount < 2 ^ 31) ∧
      Returns (indexForShelfPair merch.shelfs shelf) fun index =>
        if index < 0 then merch.shelfs.size + 1 < 2 ^ 31 else index = 0 ∨ index + 1 < merch.shelfs.size

/-- An `int` holds what all carts hold with the amount, and the size of the cart with a new entry. -/
def Fills (name : CString) (quantity : ℤ) (address : ℕ) : Prop :=
  Returns db.numOfMerchInCarts (fun inCarts => inCarts + quantity < 2 ^ 31) ∧
    Returns (db.cart address) fun cart => Returns (cart.lookup (stringFunctions full) name) fun pair =>
      pair = none → cart.size + 1 < 2 ^ 31

/-- The call hashes its names without leaving them, and keeps the stock above the carts. -/
def Safe : StoreCall → Prop
  | .addMerchandise name _ _ | .removeMerchandise name => HashableName name
  | .editMerchandise name newName _ _ =>
    HashableName name ∧ Returns (db.allMerch.lookup (stringFunctions full) name) fun found =>
      ∀ address ∈ found, HashableName newName ∧ Renames full db newName address
  | .replenish name shelf amount =>
    HashableName name ∧ Returns (db.allMerch.lookup (stringFunctions full) name) fun found =>
      ∀ address ∈ found, isShelf shelf → Restocks db shelf amount address
  | .createCart cartKey =>
    Returns (db.allCarts.lookup (intFunctions full) cartKey) fun found =>
      found = none → db.allCarts.size + 1 < 2 ^ 31
  | .addToCart cartKey name quantity =>
    HashableName name ∧ Returns (db.allMerch.lookup (stringFunctions full) name) fun merch => merch.isSome →
      Returns (db.allCarts.lookup (intFunctions full) cartKey) fun found =>
        ∀ address ∈ found, Fills full db name quantity address
  | .removeFromCart cartKey name _ =>
    Returns (db.allCarts.lookup (intFunctions full) cartKey) fun found => found.isSome → HashableName name
  | .removeCart _ | .checkout _ => True

instance : DecidablePred HashableName := fun name =>
  match summed : sumString (name.chars ++ [0]) 0 with
  | .ok sum => decidable_of_iff (sum ≠ -2 ^ 31) (by rw [HashableName, summed])
  | .error _ => isFalse (by rw [HashableName, summed]; exact not_false)

instance : DecidablePred (Safe full db) := fun call => by
  cases call <;> unfold Safe <;> unfold Renames Restocks Fills <;> infer_instance

end Safe

variable {full : ℕ → ℕ → Bool} {db : Database} {v : View} {name : CString} {merch : ℕ}
  {table : HashTable CString CartPair} {entries : List (CString × CartPair)} {call : StoreCall}

/-- Counting by addresses is counting by names. -/
theorem sum_soldAt (once : (entries.map fun entry => entry.2.merch).Nodup) :
    (entries.map fun entry => if entry.2.merch = merch then entry.2.amountInCart else 0).sum =
      soldAt entries merch := by
  induction entries with
  | nil => rfl
  | cons entry rest ih =>
    obtain ⟨fresh, once⟩ := List.nodup_cons.mp once
    rw [List.map_cons, List.sum_cons, ih once, soldAt_cons]
    split
    · next same => rw [soldAt_of_not_mem (same ▸ fresh), add_zero]
    · rw [zero_add]

theorem amountInCart_ok (holds : Holds (stringFunctions full) FitsInt table entries)
    (cart : CartSound v.names entries) (sound : v.Sound) (known : (name, merch) ∈ v.names) :
    amountInCart table merch = .ok (amountOf entries name) := by
  rw [← soldAt_eq cart sound known, ← sum_soldAt (cart.merchApart sound)]
  exact holds.sum_values (fun pair => if pair.merch = merch then pair.amountInCart else 0)
    (stringFunctions_compares full) cart.count (fun _ _ => rfl) fun _ _ _ => rfl

theorem amountInCarts_ok (shows : Shows full db v) (sound : v.Sound) (known : (name, merch) ∈ v.names) :
    amountInCarts db merch = .ok (v.inCarts name) := by
  refine shows.allCarts.sum_values (fun address => amountOf (v.entries address) name)
    (intFunctions_compares full) sound.cartsCount (fun _ _ => rfl) fun sum cart member => ?_
  obtain ⟨table, read, holds⟩ := shows.readCart member
  simp only [deref, bind, Except.bind, read, amountInCart_ok holds (sound.cart cart member) sound known]

/-- In a sound store, the stock covers the carts. -/
theorem stockCovers_of_sound (shows : Shows full db v) (sound : v.Sound) : StockCovers full db := by
  intro name merch looked
  have known := sound.names_iff.mp
    (shows.allMerch.find_of_lookup (stringFunctions_compares full) looked)
  obtain ⟨object, read, _, _, counted⟩ := shows.numForShelfs sound known
  exact ⟨object, _, _, read, counted, amountInCarts_ok shows sound known, sound.covered _ known⟩

/-- The store of `create_database` holds nothing. -/
theorem shows_create (full : ℕ → ℕ → Bool) : Shows full Database.create ⟨[], [], fun _ => [], fun _ => []⟩ where
  allMerch := Holds.of_empty ⟨by decide, by decide⟩ (fun _ _ => rfl) rfl
  allCarts := Holds.of_empty ⟨by decide, by decide⟩ (fun _ _ => rfl) rfl
  merch _ member := absurd member List.not_mem_nil
  cart _ member := absurd member List.not_mem_nil

theorem sound_create : View.Sound ⟨[], [], fun _ => [], fun _ => []⟩ where
  hashable _ member := absurd member List.not_mem_nil
  namesDistinct := List.Pairwise.nil
  merchApart := List.nodup_nil
  shelves _ member := absurd member List.not_mem_nil
  cartsDistinct := List.Pairwise.nil
  cartsApart := List.nodup_nil
  cartsCount := by decide
  cart _ member := absurd member List.not_mem_nil
  total := by decide
  covered _ member := absurd member List.not_mem_nil

/-- A merchandise may take the shelves of the renamed one. -/
theorem Renames.covered {newName : CString} (renames : Renames full db newName merch) (shows : Shows full db v)
    (sound : v.Sound) (hashable : HashableName newName) (member : (name, merch) ∈ v.names) :
    v.inCarts newName ≤ stockOf (v.shelves merch) := by
  obtain ⟨object, read, _, _, counted⟩ := shows.numForShelfs sound member
  cases other : KeyedList.find compareString v.names newName with
  | none =>
    rw [sound.inCarts_eq_zero other]
    exact stockOf_nonneg (sound.shelves _ member).nonNegative
  | some merch' =>
    have known := sound.names_iff.mp other
    have summed := amountInCarts_ok shows sound known
    exact renames _ (shows.lookupMerch hashable) merch' other _ summed _ read _ counted

/-- The shelf that is replenished is new, or is unlinked without a stale last link. -/
theorem Restocks.room {shelf : CString} {amount : ℤ} (restocks : Restocks db shelf amount merch)
    (shows : Shows full db v) (sound : v.Sound) (member : (name, merch) ∈ v.names) :
    stockOf (v.shelves merch) + amount < 2 ^ 31 ∧
      (restocked (v.shelves merch) shelf amount).length < 2 ^ 31 ∧ Unlinks (v.shelves merch) shelf := by
  obtain ⟨object, read, _, stores, counted⟩ := shows.numForShelfs sound member
  have count : (v.shelves merch).length < 2 ^ 31 := (sound.shelves _ member).count
  obtain ⟨small, place⟩ := restocks _ read
  have unlinked := place _ (indexForShelfPair_ok stores)
  rw [stores.size] at unlinked
  refine ⟨small _ counted, ?_⟩
  cases found : (v.shelves merch).findIdx? fun pair => compareString pair.shelfName shelf with
  | none =>
    simp only [found, if_pos (show (-1 : ℤ) < 0 by decide)] at unlinked
    refine ⟨?_, fun index other => ?_⟩
    · rw [restocked_of_new found, List.length_cons]
      omega
    · rw [found] at other
      cases other
  | some index =>
    obtain ⟨held, here⟩ := findIdx_shelf found
    simp only [found, if_neg (show ¬ (index : ℤ) < 0 by omega)] at unlinked
    refine ⟨?_, fun other same => ?_⟩
    · have bound := (List.getElem?_eq_some_iff.mp here).1
      rw [restocked_of_found found here, List.length_append, List.length_singleton,
        List.length_eraseIdx_add_one bound]
      exact count
    · cases found.symm.trans same
      omega

/-- An `int` holds the sums and the size that `add_to_cart` computes. -/
theorem Fills.room {cartKey quantity : ℤ} {address : ℕ} (fills : Fills full db name quantity address)
    (shows : Shows full db v) (sound : v.Sound) (hashable : HashableName name)
    (member : (cartKey, address) ∈ v.carts) :
    v.total + quantity < 2 ^ 31 ∧ (KeyedList.find compareString (v.entries address) name = none →
      (v.entries address).length + 1 < 2 ^ 31) := by
  obtain ⟨table, read, holds⟩ := shows.readCart member
  have total := sound.total_nonneg
  have counted := shows.numOfMerchInCarts sound
  rw [toInt32_of_range (by omega) sound.total] at counted
  refine ⟨fills.1 _ counted, fun absent => ?_⟩
  rw [← holds.size]
  exact fills.2 table read _ (holds.lookupString hashable) absent

/-- A safe call returns and keeps the store sound. -/
theorem step_sound (shows : Shows full db v) (sound : v.Sound) (amount : NonNegativeAmount call)
    (safe : Safe full db call) : ∃ db' v', db.step full call = .ok db' ∧ Shows full db' v' ∧ v'.Sound := by
  cases call with
  | addMerchandise name description price =>
    obtain ⟨db', v', _, ran, shows', sound', _⟩ := shows.addMerchandise sound safe description price
    exact ⟨db', v', ran, shows', sound'⟩
  | removeMerchandise name =>
    obtain ⟨db', ran, shows'⟩ := shows.removeMerchandise sound safe
    exact ⟨db', _, ran, shows', sound.without name⟩
  | editMerchandise name newName description price =>
    obtain ⟨hashable, renames⟩ := safe
    have looked := shows.lookupMerch hashable
    refine shows.editMerchandise sound hashable description price (fun found => ?_) fun _ merch member => ?_
    · obtain ⟨merch, found⟩ := Option.isSome_iff_exists.mp found
      exact (renames _ looked merch found).1
    · obtain ⟨hashable', covers⟩ := renames _ looked merch (sound.names_iff.mpr member)
      exact covers.covered shows sound hashable' member
  | replenish name shelf amount =>
    obtain ⟨hashable, restocks⟩ := safe
    apply shows.replenish sound hashable amount.1
    intro valid merch member
    have looked := sound.names_iff.mpr member
    exact (restocks _ (shows.lookupMerch hashable) merch looked valid).room shows sound member
  | createCart cartKey =>
    apply shows.createCart sound
    cases found : KeyedList.find compareInt v.carts cartKey with
    | none =>
      rw [KeyedList.erase_of_find_eq_none found, ← shows.allCarts.size]
      exact safe _ (shows.lookupCart cartKey) found
    | some address =>
      rw [KeyedList.length_erase compareInt_comparison sound.cartsDistinct found]
      exact sound.cartsCount
  | removeCart cartKey =>
    obtain ⟨db', ran, shows'⟩ := shows.removeCart cartKey
    exact ⟨db', _, ran, shows', sound.dropCart cartKey⟩
  | addToCart cartKey name quantity =>
    obtain ⟨hashable, fills⟩ := safe
    apply shows.addToCart sound hashable amount.1
    intro found address member
    have looked := sound.carts_iff.mpr member
    exact (fills _ (shows.lookupMerch hashable) found _ (shows.lookupCart cartKey) address looked).room
      shows sound hashable member
  | removeFromCart cartKey name quantity =>
    cases found : KeyedList.find compareInt v.carts cartKey with
    | none => exact ⟨db, v, shows.removeFromCart_absent found, shows, sound⟩
    | some address =>
      have member := sound.carts_iff.mp found
      have hashable := safe _ (shows.lookupCart cartKey) (Option.isSome_of_eq_some found)
      obtain ⟨db', ran, shows'⟩ := shows.removeFromCart member hashable (sound.cartFits member) amount.1 amount.2
      exact ⟨db', _, ran, shows', sound.takeOut member amount.1⟩
  | checkout cartKey => exact shows.checkout sound cartKey

/-- After any sequence of safe calls with amounts that are not negative, the stock covers the carts, and
every checkout returns. -/
theorem stockCovers_of_safe {calls : List StoreCall} (amounts : ∀ call ∈ calls, NonNegativeAmount call)
    (safe : Machine.Along (Database.step full) (Safe full) Database.create calls) :
    ∃ db, Machine.run (Database.step full) Database.create calls = .ok db ∧ StockCovers full db ∧
      ∀ cartKey, ∃ db', db.checkout full cartKey = .ok db' := by
  have along := safe.and (Machine.along_of_forall fun _ => amounts)
  have runs : ∃ db, Machine.run (Database.step full) Database.create calls = .ok db ∧
      ∃ v, Shows full db v ∧ v.Sound := by
    apply Machine.exists_run (fun db => ∃ v, Shows full db v ∧ v.Sound) ?_ along
      ⟨_, shows_create full, sound_create⟩
    rintro _ _ ⟨_, shows, sound⟩ ⟨safe, amount⟩
    obtain ⟨db', v', stepped, shows', sound'⟩ := step_sound shows sound amount safe
    exact ⟨db', stepped, v', shows', sound'⟩
  obtain ⟨db, ran, v, shows, sound⟩ := runs
  refine ⟨db, ran, stockCovers_of_sound shows sound, fun cartKey => ?_⟩
  obtain ⟨db', _, returned, _⟩ := shows.checkout sound cartKey
  exact ⟨db', returned⟩

/-- The load factor `0.75`. -/
def loadFactor (size capacity : ℕ) : Bool := 3 * capacity ≤ 4 * (size + 1)

def apple : CString := ⟨[65], by decide⟩

def banana : CString := ⟨[66], by decide⟩

def shelfA : CString := ⟨[97, 49, 49], by decide⟩

def shelfB : CString := ⟨[98, 49, 49], by decide⟩

/-- A merchandise with stock on two shelves is renamed, put into two carts and sold. -/
theorem stockCovers_ordinary :
    ∃ db, Machine.run (Database.step loadFactor) Database.create
        [.addMerchandise apple apple 5, .replenish apple shelfA 3, .replenish apple shelfB 4,
          .replenish apple shelfB 1, .editMerchandise apple banana apple 6, .createCart 1,
          .addToCart 1 banana 5, .removeFromCart 1 banana 1, .createCart 2, .addToCart 2 banana 4,
          .checkout 1, .removeCart 2, .removeMerchandise banana] = .ok db ∧
      StockCovers loadFactor db ∧ ∀ cartKey, ∃ db', db.checkout loadFactor cartKey = .ok db' :=
  stockCovers_of_safe (by decide) (by decide +kernel)

/-- A merchandise takes the name of another one, of which a cart holds more. -/
def nameTaken : List StoreCall :=
  [.addMerchandise apple apple 5, .addMerchandise banana banana 5, .replenish apple shelfA 1,
    .replenish banana shelfA 10, .createCart 1, .addToCart 1 banana 10,
    .editMerchandise apple banana apple 5]

/-- The stock no longer covers the cart, and its checkout does not end. -/
theorem stockCovers_renamed : (∀ call ∈ nameTaken, NonNegativeAmount call) ∧
    ∃ db, Machine.run (Database.step loadFactor) Database.create nameTaken = .ok db ∧
      ¬ StockCovers loadFactor db ∧ db.checkout loadFactor 1 = .error .diverges := by
  have seen : ((Machine.run (Database.step loadFactor) Database.create nameTaken).bind fun db => do
      let found ← db.allMerch.lookup (stringFunctions loadFactor) banana
      let merch ← db.merch 1
      let num ← numForShelfs merch.shelfs
      let sum ← amountInCarts db 1
      .ok (found, num, sum)) = .ok (some 1, 1, 10) := by decide +kernel
  have stuck : ((Machine.run (Database.step loadFactor) Database.create nameTaken).bind fun db =>
      (db.checkout loadFactor 1).map fun _ => ()) = .error .diverges := by decide +kernel
  obtain ⟨db, ran, seen⟩ := Machine.bind_ok_iff.mp seen
  refine ⟨by decide, db, ran, fun covers => ?_, ?_⟩
  · obtain ⟨found, looked, seen⟩ := Machine.bind_ok_iff.mp seen
    obtain ⟨merch, read, seen⟩ := Machine.bind_ok_iff.mp seen
    obtain ⟨num, counted, seen⟩ := Machine.bind_ok_iff.mp seen
    obtain ⟨sum, added, seen⟩ := Machine.bind_ok_iff.mp seen
    cases seen
    obtain ⟨merch', num, sum, read', counted', added', covered⟩ := covers banana 1 looked
    cases read.symm.trans read'
    cases counted.symm.trans counted'
    cases added.symm.trans added'
    exact absurd covered (by decide)
  · rw [ran] at stuck
    cases outcome : db.checkout loadFactor 1 with
    | error fault =>
      rw [Except.bind, outcome] at stuck
      cases stuck
      rfl
    | ok next =>
      rw [Except.bind, outcome] at stuck
      cases stuck

end GarbageCollector.Soundness
