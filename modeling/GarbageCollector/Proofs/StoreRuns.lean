import GarbageCollector.Proofs.StoreKept

/-! # Runs of the store

The calls on carts and on shelves keep a store as the calls on merchandise do, so every run that returns
leaves a store that shows some view. `add_to_cart` is told in full by what it counts: it reports, and
leaves of the cart, what `putIn` says.
-/

namespace GarbageCollector.Proofs

open Model

variable {full : ℕ → ℕ → Bool} {meets : ℤ → Prop} {db db' : Database} {v : View} {name shelf : CString}
  {key amount quantity inCarts : ℤ} {address merch : ℕ} {table : HashTable CString CartPair}
  {outcome : AddOutcome} {call : StoreCall} {calls : List StoreCall}

theorem setCart_self (read : db.cart address = .ok table) : db.setCart address table = db := by
  rw [Database.cart] at read
  split at read
  · cases read
  · next found =>
    cases read
    obtain ⟨bound, same⟩ := List.getElem?_eq_some_iff.mp found
    rw [Database.setCart, ← same, List.set_getElem_self]

namespace Kept

/-- Amounts that meet one condition meet any that follows from it. -/
theorem mono {weaker : ℤ → Prop} (kept : Kept full meets db v) (follows : ∀ amount, meets amount → weaker amount) :
    Kept full weaker db v :=
  { kept with
    entries := fun cart member entry inside =>
      ⟨(kept.entries cart member entry inside).1, follows _ (kept.entries cart member entry inside).2⟩ }

variable (kept : Kept full meets db v)
include kept

/-- `replenish`, when it returns. -/
theorem of_replenish (ran : db.replenish full name shelf amount = .ok db') :
    ∃ v', Kept full meets db' v' := by
  rw [Database.replenish] at ran
  obtain ⟨found, looked, ran⟩ := Machine.bind_ok_iff.mp ran
  cases found with
  | none =>
    cases ran
    exact ⟨v, kept⟩
  | some merch =>
    dsimp only at ran
    split at ran
    · have member := kept.lookupMerch_iff.mp looked
      obtain ⟨object, read', _, reads, count⟩ := kept.readMerch member
      obtain ⟨_, read, ran⟩ := Machine.bind_ok_iff.mp ran
      cases read'.symm.trans read
      obtain ⟨index, indexed, ran⟩ := Machine.bind_ok_iff.mp ran
      split at ran
      · obtain ⟨shelfs, prepended, ran⟩ := Machine.bind_ok_iff.mp ran
        obtain ⟨longer, reads', result⟩ := reads.prepend_eq ⟨shelf, amount⟩
        rw [result] at prepended
        obtain ⟨⟨_, room⟩, rfl⟩ := checkedInt_map_ok_iff.mp prepended
        exact ⟨_, kept.setShelfs reads' (by rw [List.length_cons]; omega) ran⟩
      · next known =>
        have inside := (indexFrom_range indexed).resolve_left fun absent => known (by omega)
        rw [reads.size, Int.toNat_natCast] at inside
        obtain ⟨place, rfl⟩ := Int.eq_ofNat_of_zero_le inside.1
        have bound : place < (v.shelves merch).length := by omega
        obtain ⟨⟨pair, shorter⟩, removed, ran⟩ := Machine.bind_ok_iff.mp ran
        obtain ⟨_, removed', reads₁⟩ := reads.remove (List.getElem?_eq_getElem bound) count.le
        cases removed'.symm.trans removed
        obtain ⟨shelfs, appended, ran⟩ := Machine.bind_ok_iff.mp ran
        obtain ⟨longer, final, reads₂, result⟩ := reads₁.append_eq _
        rw [result] at appended
        obtain ⟨⟨_, room⟩, rfl⟩ := checkedInt_map_ok_iff.mp appended
        exact ⟨_, kept.setShelfs reads₂ (by rw [List.length_append, List.length_singleton]; omega) ran⟩
    · cases ran
      exact ⟨v, kept⟩

/-- `create_cart`. -/
theorem createCart (key : ℤ) : ∃ db', db.createCart full key = .ok db' ∧ Kept full meets db' { v with
    carts := (key, db.carts.length) :: KeyedList.erase compareInt v.carts key
    entries := Function.update v.entries db.carts.length [] } := by
  have listed {cart : ℤ × ℕ} (member : cart ∈ KeyedList.erase compareInt v.carts key) : cart ∈ v.carts :=
    (List.mem_filter.mp member).1
  have different {cart : ℤ × ℕ} (member : cart ∈ KeyedList.erase compareInt v.carts key) :
      cart.2 ≠ db.carts.length := (kept.cart_lt (listed member)).ne
  obtain ⟨allCarts, inserted, numbers⟩ := kept.allCarts.insert key db.carts.length
  rw [Database.createCart, inserted]
  refine ⟨_, rfl, kept.allMerch, numbers, kept.merch, kept.merchApart, kept.shelves, fun cart member => ?_, ?_,
    fun cart member => ?_⟩
  · dsimp only
    rcases List.mem_cons.mp member with rfl | later
    · rw [Function.update_self, List.getElem?_concat_length]
      exact ⟨_, rfl, HoldsNames.create⟩
    · rw [Function.update_of_ne (different later), List.getElem?_append_left (kept.cart_lt (listed later))]
      exact kept.cart cart (listed later)
  · refine List.nodup_cons.mpr ⟨fun member => ?_, kept.cartsApart.sublist (List.Sublist.map _ List.filter_sublist)⟩
    obtain ⟨cart, later, same⟩ := List.mem_map.mp member
    exact different later same
  · dsimp only
    rcases List.mem_cons.mp member with rfl | later
    · rw [Function.update_self]
      exact fun _ inside => absurd inside List.not_mem_nil
    · rw [Function.update_of_ne (different later)]
      exact kept.entries cart (listed later)

/-- `remove_cart`. -/
theorem removeCart (key : ℤ) : ∃ db', db.removeCart full key = .ok db' ∧
    Kept full meets db' { v with carts := KeyedList.erase compareInt v.carts key } := by
  rw [Database.removeCart, kept.allCarts.lookup]
  cases found : KeyedList.find compareInt v.carts key with
  | none =>
    rw [KeyedList.erase_of_find_eq_none found]
    exact ⟨db, rfl, kept⟩
  | some address =>
    obtain ⟨allCarts, removed, numbers⟩ := kept.allCarts.remove key
    simp only [removed, bind, Except.bind]
    exact ⟨_, rfl, kept.allMerch, numbers, kept.merch, kept.merchApart, kept.shelves,
      fun cart member => kept.cart cart (List.mem_filter.mp member).1,
      kept.cartsApart.sublist (List.Sublist.map _ List.filter_sublist),
      fun cart member => kept.entries cart (List.mem_filter.mp member).1⟩

/-- `remove_from_cart`, when it returns. -/
theorem of_removeFromCart (positive : ∀ amount, 0 < amount → amount < 2 ^ 31 → meets amount)
    (ran : db.removeFromCart full key name quantity = .ok db') : ∃ v', Kept full meets db' v' := by
  have hashable : ∀ address, (key, address) ∈ v.carts → HashableName name := by
    intro address member
    obtain ⟨table, read, names⟩ := kept.readCart member
    rw [Database.removeFromCart] at ran
    obtain ⟨_, looked, ran⟩ := Machine.bind_ok_iff.mp ran
    cases (kept.lookupCart_iff.mpr member).symm.trans looked
    obtain ⟨_, read', ran⟩ := Machine.bind_ok_iff.mp ran
    cases read.symm.trans read'
    obtain ⟨_, found, _⟩ := Machine.bind_ok_iff.mp ran
    exact (names.of_lookup found).1
  obtain ⟨_, entries, ran', _, kept'⟩ := kept.removeFromCart positive hashable quantity
  cases ran.symm.trans ran'
  exact ⟨_, kept'⟩

/-- `decrease_stock`, when it returns. -/
theorem of_decreaseStock (ran : db.decreaseStock merch amount = .ok db') : ∃ v', Kept full meets db' v' := by
  rw [Database.decreaseStock] at ran
  obtain ⟨object, read, ran⟩ := Machine.bind_ok_iff.mp ran
  obtain ⟨shelfs, decreased, ran⟩ := Machine.bind_ok_iff.mp ran
  obtain ⟨reads, count⟩ := kept.shelves merch object (getElem?_of_merch read)
  obtain ⟨shelves, reads', same⟩ := decreaseFrom_reads reads decreased
  exact ⟨_, kept.setShelfs reads' (same.trans_lt count) ran⟩

/-- `checkout`, when it returns. -/
theorem of_checkout (ran : db.checkout full key = .ok db') : ∃ v', Kept full meets db' v' := by
  rw [Database.checkout] at ran
  obtain ⟨found, _, ran⟩ := Machine.bind_ok_iff.mp ran
  cases found with
  | none =>
    cases ran
    exact ⟨v, kept⟩
  | some address =>
    obtain ⟨cart, _, ran⟩ := Machine.bind_ok_iff.mp ran
    obtain ⟨cartPairs, _, ran⟩ := Machine.bind_ok_iff.mp ran
    obtain ⟨paid, decreased, ran⟩ := Machine.bind_ok_iff.mp ran
    have sold : ∃ v', Kept full meets paid v' := by
      apply iterateFrom_invariant (fun state => ∃ v', Kept full meets state v') ?_ ⟨v, kept⟩ decreased
      rintro _ _ _ ⟨_, kept⟩ ran
      obtain ⟨pair, _, ran⟩ := Machine.bind_ok_iff.mp ran
      exact kept.of_decreaseStock ran
    obtain ⟨v₁, kept₁⟩ := sold
    obtain ⟨_, ran', kept'⟩ := kept₁.removeCart key
    cases ran.symm.trans ran'
    exact ⟨_, kept'⟩

/-- `num_of_merch_in_carts` counts everything in the carts, modulo `2 ^ 32`, where `int`s count them. -/
theorem numOfMerchInCarts (count : v.carts.length < 2 ^ 31)
    (counts : ∀ cart ∈ v.carts, (v.entries cart.2).length < 2 ^ 31) :
    db.numOfMerchInCarts = .ok (toInt32 v.total) := by
  apply Holds.sum_values kept.allCarts (fun address => cartTotal (v.entries address)) (intFunctions_compares full)
    count (fun _ _ => toInt32_toInt32_add)
  intro total cart member
  obtain ⟨table, read, names⟩ := kept.readCart member
  simp only [deref, bind, Except.bind, read, numOfMerchInOneCart_ok names.holds (counts cart member),
    toInt32_add_toInt32]

/-- The end of `add_to_cart`, on the cart without the entry of the merchandise. -/
theorem refill {num : ℤ} {unheld : Prop} (known : (name, merch) ∈ v.names) (member : (key, address) ∈ v.carts)
    (names : HoldsNames full table (KeyedList.erase compareString (v.entries address) name))
    (same : unheld → db.setCart address table = db) : ∃ outcome entries db',
      (if num < amount then
          (AddOutcome.notEnoughInStock num, KeyedList.erase compareString (v.entries address) name)
        else (.added, (name, ⟨merch, amount⟩) :: KeyedList.erase compareString (v.entries address) name)) =
        (outcome, entries) ∧
      (if amount ≤ num then
          (table.insert (stringFunctions full) name (some ⟨merch, amount⟩)).bind fun cart =>
            .ok (AddOutcome.added, db.setCart address cart)
        else .ok (.notEnoughInStock num, db.setCart address table)) = .ok (outcome, db') ∧
      (outcome = .notEnoughLeft → db' = db) ∧ (outcome ≠ .added → unheld → db' = db) ∧
      ((outcome = .added → meets amount) → Kept full meets db' (v.setEntries address entries)) := by
  have erased : ∀ entry ∈ KeyedList.erase compareString (v.entries address) name,
      entry.2.merch < db.merchs.length ∧ meets entry.2.amountInCart :=
    fun entry inside => kept.entries _ member entry (List.mem_filter.mp inside).1
  rcases lt_or_ge num amount with short | enough
  · rw [if_pos short, if_neg (not_le.mpr short)]
    exact ⟨_, _, _, rfl, rfl, nofun, fun _ => same, fun _ => kept.setCart names erased⟩
  · obtain ⟨filled, inserted, names'⟩ := names.insert (kept.allMerch.hashable _ known) ⟨merch, amount⟩
    rw [KeyedList.erase_of_find_eq_none (KeyedList.find_erase_self compareString_comparison)] at names'
    rw [if_neg (not_lt.mpr enough), if_pos enough, inserted]
    refine ⟨_, _, _, rfl, rfl, nofun, fun rejected => absurd rfl rejected, fun met =>
      kept.setCart names' fun entry inside => ?_⟩
    rcases List.mem_cons.mp inside with rfl | later
    · exact ⟨kept.merch_lt known, met rfl⟩
    · exact erased entry later

/-- `add_to_cart` to a cart of the store, by what it counts. -/
theorem addToCartOutcome (known : (name, merch) ∈ v.names) (member : (key, address) ∈ v.carts)
    (counted : db.numOfMerchInCarts = .ok inCarts) (quantity : ℤ) : ∃ outcome entries db',
      putIn (v.entries address) name merch quantity inCarts (toInt32 (stockOf (v.shelves merch))) =
        (outcome, entries) ∧
      db.addToCartOutcome full key name quantity = .ok (outcome, db') ∧
      (outcome = .notEnoughLeft → db' = db) ∧
      (outcome ≠ .added → KeyedList.find compareString (v.entries address) name = none → db' = db) ∧
      ((outcome = .added → meets (toInt32 (quantity + amountOf (v.entries address) name))) →
        Kept full meets db' (v.setEntries address entries)) := by
  have hashable : HashableName name := kept.allMerch.hashable _ known
  obtain ⟨object, readMerch, named, num⟩ := kept.numForShelfs known
  obtain ⟨table, read, names⟩ := kept.readCart member
  obtain ⟨emptied, removed, names₁⟩ := names.remove hashable
  rw [Database.addToCartOutcome, kept.allMerch.lookup hashable, kept.names_iff.mpr known]
  simp only [kept.allCarts.lookup, kept.carts_iff.mpr member, read, names.lookup hashable, counted, readMerch,
    num, named, removed, bind, Except.bind]
  rw [putIn]
  rcases lt_or_ge (toInt32 (stockOf (v.shelves merch))) (toInt32 (quantity + inCarts)) with short | enough
  · rw [if_pos short, if_neg (not_le.mpr short)]
    refine ⟨_, _, _, rfl, rfl, fun _ => rfl, fun _ _ => rfl, fun _ => ?_⟩
    rwa [View.setEntries_self]
  · rw [if_neg (not_lt.mpr enough), if_pos enough]
    cases held : KeyedList.find compareString (v.entries address) name with
    | none =>
      rw [amountOf_of_find_eq_none held]
      have unheld := (KeyedList.erase_of_find_eq_none held).symm ▸ names
      exact kept.refill known member unheld fun _ => setCart_self read
    | some pair =>
      have already : amountOf (v.entries address) name = pair.amountInCart := by
        rw [amountOf, held, Option.map_some, Option.getD_some]
      rw [already]
      exact kept.refill known member names₁ fun absent => absurd absent (Option.some_ne_none pair)

/-- `add_to_cart`, when it returns. -/
theorem of_addToCartOutcome (ran : db.addToCartOutcome full key name quantity = .ok (outcome, db')) :
    HashableName name ∧ ((KeyedList.find compareString v.names name = none ∨
        KeyedList.find compareInt v.carts key = none) ∧ outcome ≠ .added ∧ db' = db ∨
      ∃ merch address inCarts, (name, merch) ∈ v.names ∧ (key, address) ∈ v.carts ∧
        db.numOfMerchInCarts = .ok inCarts) := by
  rw [Database.addToCartOutcome] at ran
  obtain ⟨found, looked, ran⟩ := Machine.bind_ok_iff.mp ran
  obtain ⟨hashable, same⟩ := kept.allMerch.of_lookup looked
  refine ⟨hashable, ?_⟩
  cases found with
  | none =>
    cases ran
    exact .inl ⟨.inl same, by decide, rfl⟩
  | some merch =>
    obtain ⟨found', looked', ran⟩ := Machine.bind_ok_iff.mp ran
    cases (kept.allCarts.lookup key).symm.trans looked'
    cases carts : KeyedList.find compareInt v.carts key with
    | none =>
      rw [carts] at ran
      cases ran
      exact .inl ⟨.inr rfl, by decide, rfl⟩
    | some address =>
      rw [carts] at ran
      obtain ⟨_, _, ran⟩ := Machine.bind_ok_iff.mp ran
      obtain ⟨_, _, ran⟩ := Machine.bind_ok_iff.mp ran
      obtain ⟨inCarts, counted, _⟩ := Machine.bind_ok_iff.mp ran
      exact .inr ⟨merch, address, inCarts, kept.names_iff.mp same, kept.carts_iff.mp carts, counted⟩

/-- `add_to_cart`, when it returns and stores only amounts that meet the condition. -/
theorem of_addToCart (stores : ∀ address db', db.addToCartOutcome full key name quantity = .ok (.added, db') →
      (key, address) ∈ v.carts → meets (toInt32 (quantity + amountOf (v.entries address) name)))
    (ran : db.addToCart full key name quantity = .ok db') : ∃ v', Kept full meets db' v' := by
  rw [Database.addToCart] at ran
  obtain ⟨⟨outcome, _⟩, reported, rfl⟩ := Machine.map_ok_iff.mp ran
  rcases (kept.of_addToCartOutcome reported).2 with
    ⟨_, _, same⟩ | ⟨merch, address, inCarts, known, member, counted⟩
  · exact ⟨v, same ▸ kept⟩
  · obtain ⟨outcome', entries, _, _, reported', _, _, kept'⟩ :=
      kept.addToCartOutcome known member counted quantity
    cases reported.symm.trans reported'
    refine ⟨_, kept' fun added => ?_⟩
    subst added
    exact stores address _ reported member

end Kept

/-- A call keeps a store, if `add_to_cart` stores only amounts that meet the condition. -/
theorem kept_step (kept : Kept full meets db v)
    (positive : ∀ amount, 0 < amount → amount < 2 ^ 31 → meets amount)
    (stores : ∀ key name quantity, call = .addToCart key name quantity → ∀ address db',
      db.addToCartOutcome full key name quantity = .ok (.added, db') → (key, address) ∈ v.carts →
        meets (toInt32 (quantity + amountOf (v.entries address) name)))
    (ran : db.step full call = .ok db') : ∃ v', Kept full meets db' v' := by
  cases call with
  | addMerchandise name description price =>
    have inverted := ran
    rw [Database.step, Database.addMerchandise] at inverted
    obtain ⟨found, looked, _⟩ := Machine.bind_ok_iff.mp inverted
    obtain ⟨hashable, same⟩ := kept.allMerch.of_lookup looked
    cases found with
    | none =>
      obtain ⟨_, ran', _, kept'⟩ := kept.addMerchandise_new hashable same description price
      cases ran.symm.trans ran'
      exact ⟨_, kept'⟩
    | some merch =>
      cases ran.symm.trans (kept.addMerchandise_known (kept.names_iff.mp same))
      exact ⟨v, kept⟩
  | removeMerchandise name =>
    obtain ⟨_, _, entries, _, kept'⟩ := kept.of_removeMerchandise positive ran
    exact ⟨_, kept'⟩
  | editMerchandise name newName description price => exact (kept.of_editMerchandise positive ran).2.2
  | replenish name shelf amount => exact kept.of_replenish ran
  | createCart cartKey =>
    obtain ⟨_, ran', kept'⟩ := kept.createCart cartKey
    cases ran.symm.trans ran'
    exact ⟨_, kept'⟩
  | removeCart cartKey =>
    obtain ⟨_, ran', kept'⟩ := kept.removeCart cartKey
    cases ran.symm.trans ran'
    exact ⟨_, kept'⟩
  | addToCart cartKey name quantity => exact kept.of_addToCart (stores cartKey name quantity rfl) ran
  | removeFromCart cartKey name quantity => exact kept.of_removeFromCart positive ran
  | checkout cartKey => exact kept.of_checkout ran

/-- Every run that returns leaves a store that shows some view, with `int`s in its carts. -/
theorem kept_of_run (ran : Machine.run (Database.step full) Database.create calls = .ok db) :
    ∃ v, Kept full (fun amount => -2 ^ 31 ≤ amount ∧ amount < 2 ^ 31) db v := by
  apply Machine.run_preserves (fun db => ∃ v, Kept full (fun amount => -2 ^ 31 ≤ amount ∧ amount < 2 ^ 31) db v)
    ?_ ⟨_, Kept.create⟩ ran
  rintro db call db' ⟨_, kept⟩ ran
  apply kept_step kept ?_ ?_ ran
  · intro amount lower upper
    exact ⟨by omega, upper⟩
  · intro _ _ _ _ _ _ _ _
    exact toInt32_range _

end GarbageCollector.Proofs
