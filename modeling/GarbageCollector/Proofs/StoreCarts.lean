import GarbageCollector.Proofs.StoreSteps

/-! # Carts and checkouts

What the operations on carts do to a view. The carts are counted exactly as long as their amounts fit an
`int` together. A checkout drains, for each entry of the cart, the shelves of its merchandise, which hold
enough, so that every loop of `decrease_stock` ends.
-/

namespace GarbageCollector.Proofs

open Model

variable {full : ℕ → ℕ → Bool} {db : Database} {v : View} {name : CString} {key amount quantity : ℤ}
  {merch address : ℕ} {table : HashTable CString CartPair} {entries : List (CString × CartPair)}

namespace Shows

/-- `num_of_merch_in_carts` counts everything in the carts, modulo `2 ^ 32`. -/
theorem numOfMerchInCarts (shows : Shows full db v) (sound : v.Sound) :
    db.numOfMerchInCarts = .ok (toInt32 v.total) := by
  refine shows.allCarts.sum_values (fun address => cartTotal (v.entries address))
    (intFunctions_compares full) sound.cartsCount (fun _ _ => toInt32_toInt32_add) fun total cart member => ?_
  obtain ⟨table, read, holds⟩ := shows.readCart member
  simp only [deref, bind, Except.bind, read, numOfMerchInOneCart_ok holds (sound.cart cart member).count,
    toInt32_add_toInt32]

/-- `create_cart`. -/
theorem createCart (shows : Shows full db v) (sound : v.Sound)
    (room : (KeyedList.erase compareInt v.carts key).length + 1 < 2 ^ 31) :
    ∃ db' v', db.createCart full key = .ok db' ∧ Shows full db' v' ∧ v'.Sound := by
  have inside {cart : ℤ × ℕ} (member : cart ∈ KeyedList.erase compareInt v.carts key) :
      cart.2 < db.carts.length := shows.cart_lt (List.mem_filter.mp member).1
  have fresh : db.carts.length ∉ (KeyedList.erase compareInt v.carts key).map Prod.snd :=
    View.Sound.fresh_of_lt fun _ member => inside member
  have absent : KeyedList.find compareInt (KeyedList.erase compareInt v.carts key) key = none :=
    KeyedList.find_erase_self compareInt_comparison
  obtain ⟨allCarts, inserted, holds⟩ := shows.allCarts.insertInt key db.carts.length
  rw [Database.createCart]
  simp only [inserted, bind, Except.bind]
  refine ⟨_, { v with
    carts := (key, db.carts.length) :: KeyedList.erase compareInt v.carts key
    entries := Function.update v.entries db.carts.length [] }, rfl,
    ⟨shows.allMerch, holds, shows.merch, fun cart member => ?_⟩, (sound.dropCart key).addCart absent fresh room⟩
  dsimp only
  rcases List.mem_cons.mp member with rfl | later
  · rw [Function.update_self, List.getElem?_concat_length]
    exact ⟨_, rfl, Holds.of_empty ⟨by decide, by decide⟩ (fun _ _ => rfl) rfl⟩
  · rw [Function.update_of_ne (View.Sound.ne_of_fresh fresh later),
      List.getElem?_append_left (inside later)]
    exact shows.cart cart (List.mem_filter.mp later).1

/-- `remove_cart`. -/
theorem removeCart (shows : Shows full db v) (key : ℤ) : ∃ db', db.removeCart full key = .ok db' ∧
    Shows full db' { v with carts := KeyedList.erase compareInt v.carts key } := by
  rw [Database.removeCart, shows.lookupCart]
  cases found : KeyedList.find compareInt v.carts key with
  | none =>
    rw [KeyedList.erase_of_find_eq_none found]
    exact ⟨db, rfl, shows⟩
  | some address =>
    obtain ⟨allCarts, removed, holds⟩ := shows.allCarts.removeInt key
    simp only [removed, bind, Except.bind]
    exact ⟨_, rfl, shows.allMerch, holds, shows.merch,
      fun cart member => shows.cart cart (List.mem_filter.mp member).1⟩

/-- The end of `add_to_cart`, with the entry of the merchandise already taken out. -/
theorem refill (shows : Shows full db v) (sound : v.Sound) (known : (name, merch) ∈ v.names)
    (member : (key, address) ∈ v.carts) (lower : 0 ≤ quantity) (room : v.total + quantity < 2 ^ 31)
    (enough : quantity + v.total ≤ stockOf (v.shelves merch))
    (entryRoom : KeyedList.find compareString (v.entries address) name = none →
      (v.entries address).length + 1 < 2 ^ 31)
    (holds : Holds (stringFunctions full) FitsInt table (KeyedList.erase compareString (v.entries address) name)) :
    ∃ cart v', table.insert (stringFunctions full) name
        (some ⟨merch, quantity + amountOf (v.entries address) name⟩) = .ok cart ∧
      Shows full (db.setCart address cart) v' ∧ v'.Sound := by
  have cart : CartSound v.names (v.entries address) := sound.cart _ member
  have amount := amountOf_nonneg cart.nonNegative name
  obtain ⟨table', inserted, holds'⟩ := holds.insertString (show HashableName name from sound.hashable _ known)
    (fun entry inside => sound.hashable _ (cart.known entry (List.mem_filter.mp inside).1))
    ⟨merch, quantity + amountOf (v.entries address) name⟩
  have erased : KeyedList.erase compareString (KeyedList.erase compareString (v.entries address) name) name =
      KeyedList.erase compareString (v.entries address) name :=
    KeyedList.erase_of_find_eq_none (KeyedList.find_erase_self compareString_comparison)
  rw [erased] at holds'
  refine ⟨table', _, inserted, shows.setCart holds', sound.setEntries member
    (cart.cons_erase (by dsimp only; omega) known entryRoom) ?_ fun entry inside => ?_⟩
  · rw [cartTotal_cons, cartTotal_erase cart.distinct]
    dsimp only
    omega
  · rw [amountOf_cons_erase]
    have covered := sound.covered entry inside
    split
    · next same =>
      obtain rfl : entry.2 = merch := by
        have listed : (name, entry.2) ∈ v.names := same ▸ inside
        have one := sound.names_iff.mpr listed
        rw [sound.names_iff.mpr known] at one
        exact (Option.some.inj one).symm
      have most := sound.inCarts_le_total name
      rw [← same]
      dsimp only
      omega
    · omega

/-- `add_to_cart`, where an `int` can count what the carts hold afterwards. -/
theorem addToCart (shows : Shows full db v) (sound : v.Sound) (hashable : HashableName name) (lower : 0 ≤ quantity)
    (fills : (KeyedList.find compareString v.names name).isSome → ∀ address, (key, address) ∈ v.carts →
      v.total + quantity < 2 ^ 31 ∧ (KeyedList.find compareString (v.entries address) name = none →
        (v.entries address).length + 1 < 2 ^ 31)) :
    ∃ db' v', db.addToCart full key name quantity = .ok db' ∧ Shows full db' v' ∧ v'.Sound := by
  rw [Database.addToCart, Database.addToCartOutcome]
  simp only [shows.lookupMerch hashable, bind, Except.bind]
  cases found : KeyedList.find compareString v.names name with
  | none => exact ⟨db, v, rfl, shows, sound⟩
  | some merch =>
    simp only [shows.lookupCart]
    cases looked : KeyedList.find compareInt v.carts key with
    | none => exact ⟨db, v, rfl, shows, sound⟩
    | some address =>
      have known := sound.names_iff.mp found
      have member := sound.carts_iff.mp looked
      have cart : CartSound v.names (v.entries address) := sound.cart _ member
      obtain ⟨room, entryRoom⟩ := fills (Option.isSome_of_eq_some found) address member
      have total := sound.total_nonneg
      have amount := amountOf_nonneg cart.nonNegative name
      have within := (sound.amount_le member name).trans (sound.inCarts_le_total name)
      have exact_sum : toInt32 (quantity + amountOf (v.entries address) name) =
          quantity + amountOf (v.entries address) name := toInt32_of_range (by omega) (by omega)
      obtain ⟨object, read, named, _, counted⟩ := shows.numForShelfs sound known
      obtain ⟨table, readTable, holds⟩ := shows.readCart member
      simp only [readTable, holds.lookupString hashable, shows.numOfMerchInCarts sound, read, counted, named,
        toInt32_of_range (show -2 ^ 31 ≤ v.total by omega) sound.total,
        toInt32_of_range (show -2 ^ 31 ≤ quantity + v.total by omega) (by omega)]
      rcases le_or_gt (quantity + v.total) (stockOf (v.shelves merch)) with enough | short
      · have fits : quantity + amountOf (v.entries address) name ≤ stockOf (v.shelves merch) := by omega
        have already : amountOf (v.entries address) name =
            ((KeyedList.find compareString (v.entries address) name).map CartPair.amountInCart).getD 0 := rfl
        obtain ⟨table', removed, holds'⟩ := holds.removeString hashable
        cases held : KeyedList.find compareString (v.entries address) name with
        | none =>
          rw [held, Option.map_none, Option.getD_none] at already
          have unheld := (KeyedList.erase_of_find_eq_none held).symm ▸ holds
          obtain ⟨table₂, v', inserted, shows', sound'⟩ :=
            shows.refill sound known member lower room enough entryRoom unheld
          simp only [if_pos enough, ← already, exact_sum, if_pos fits, inserted]
          exact ⟨_, v', rfl, shows', sound'⟩
        | some pair =>
          rw [held, Option.map_some, Option.getD_some] at already
          obtain ⟨table₂, v', inserted, shows', sound'⟩ :=
            shows.refill sound known member lower room enough entryRoom holds'
          simp only [if_pos enough, removed, ← already, exact_sum, if_pos fits, inserted]
          exact ⟨_, v', rfl, shows', sound'⟩
      · simp only [if_neg (not_le.mpr short)]
        exact ⟨db, v, rfl, shows, sound⟩

/-- `decrease_stock` by no more than the stock. -/
theorem decreaseStock (shows : Shows full db v) (apart : (v.names.map Prod.snd).Nodup)
    (member : (name, merch) ∈ v.names) (shelves : ShelvesSound (v.shelves merch)) (lower : 0 ≤ amount)
    (upper : amount ≤ stockOf (v.shelves merch)) : ∃ db', db.decreaseStock merch amount = .ok db' ∧
      Shows full db' (v.setShelves merch (drain (v.shelves merch) amount)) := by
  obtain ⟨object, read, _, cells, laid, same⟩ := shows.readMerch member
  rw [← same] at shelves upper ⊢
  have first : cells ≠ [] → object.shelfs.first = (cells.map Prod.fst).head? := by
    intro filled
    obtain ⟨cell, rest, rfl⟩ := List.exists_cons_of_ne_nil filled
    exact laid.chain.start_eq
  obtain ⟨shelfs', ran, stores⟩ := decreaseFrom_ok (show LaidOut object.shelfs ([] ++ cells) from laid)
    shelves.nonNegative first lower upper (upper.trans_lt shelves.stock)
    (fun pair member => (shelves.le_stock member).trans_lt shelves.stock)
    (show cells.length ≤ object.shelfs.links.length + 1 from Nat.le_succ_of_le laid.length_le)
  obtain ⟨db', written, shows'⟩ := shows.setShelfs apart member stores
  refine ⟨db', ?_, shows'⟩
  rw [Database.decreaseStock]
  simp only [read, ran, written, bind, Except.bind]

end Shows

/-- What a cart holds of the merchandise at an address. -/
def soldAt (entries : List (CString × CartPair)) (merch : ℕ) : ℤ :=
  ((entries.find? fun entry => entry.2.merch == merch).map fun entry => entry.2.amountInCart).getD 0

/-- In a sound cart, merchandise is found by its address as by its name. -/
theorem soldAt_eq (cart : CartSound v.names entries) (sound : v.Sound) (known : (name, merch) ∈ v.names) :
    soldAt entries merch = amountOf entries name := by
  have predicates : ∀ entry ∈ entries, (entry.2.merch == merch) = compareString entry.1 name := by
    intro entry member
    have listed := cart.known entry member
    rw [Bool.eq_iff_iff, beq_iff_eq, compareString_iff]
    constructor
    · intro same
      exact congrArg Prod.fst (List.inj_on_of_nodup_map sound.merchApart listed known same)
    · intro same
      rw [same] at listed
      have found := sound.names_iff.mpr listed
      rw [sound.names_iff.mpr known] at found
      exact (Option.some.inj found).symm
  rw [soldAt, amountOf, KeyedList.find, List.find?_congr predicates, Option.map_map]
  rfl

/-- A sound cart has one entry for each merchandise. -/
theorem CartSound.merchApart (cart : CartSound v.names entries) (sound : v.Sound) :
    (entries.map fun entry => entry.2.merch).Nodup := by
  apply List.pairwise_map.mpr (List.Pairwise.imp_of_mem ?_ cart.distinct)
  intro first second member member' apart same
  have named := congrArg Prod.fst
    (List.inj_on_of_nodup_map sound.merchApart (cart.known first member) (cart.known second member') same)
  rw [compareString_iff.mpr named] at apart
  cases apart

theorem drain_zero (shelves : List ShelfPair) : drain shelves 0 = shelves := by
  cases shelves with
  | nil => rfl
  | cons pair rest => rw [drain, if_pos (le_refl 0)]

theorem soldAt_cons {entry : CString × CartPair} {rest : List (CString × CartPair)} :
    soldAt (entry :: rest) merch = if entry.2.merch = merch then entry.2.amountInCart else soldAt rest merch := by
  rw [soldAt, List.find?_cons]
  split <;> rename_i agree
  · rw [if_pos (beq_iff_eq.mp agree)]
    rfl
  · rw [if_neg (beq_eq_false_iff_ne.mp agree), soldAt]

theorem soldAt_of_not_mem (absent : merch ∉ entries.map fun entry => entry.2.merch) :
    soldAt entries merch = 0 := by
  have unfound : entries.find? (fun entry => entry.2.merch == merch) = none := by
    apply List.find?_eq_none.mpr
    intro entry member same
    exact absent (List.mem_map.mpr ⟨entry, member, beq_iff_eq.mp same⟩)
  rw [soldAt, unfound, Option.map_none, Option.getD_none]

namespace Shows

/-- The loop of `checkout`, over entries whose amounts are on the shelves. -/
theorem decreaseStocks {listed : List (CString × CartPair)} (shows : Shows full db v)
    (apart : (v.names.map Prod.snd).Nodup) (once : (listed.map fun entry => entry.2.merch).Nodup)
    (sells : ∀ entry ∈ listed, (entry.1, entry.2.merch) ∈ v.names ∧ 0 ≤ entry.2.amountInCart ∧
      ShelvesSound (v.shelves entry.2.merch) ∧ entry.2.amountInCart ≤ stockOf (v.shelves entry.2.merch)) :
    ∃ db', (listed.map fun entry => some entry.2).foldlM (fun db value => do
        let pair ← deref value
        db.decreaseStock pair.merch pair.amountInCart) db = .ok db' ∧
      Shows full db' { v with
        shelves := fun merch => drain (v.shelves merch) (soldAt listed merch) } := by
  induction listed generalizing db v with
  | nil => exact ⟨db, rfl, by
      simpa only [soldAt, List.find?_nil, Option.map_none, Option.getD_none, drain_zero] using shows⟩
  | cons entry rest ih =>
    obtain ⟨fresh, once⟩ := List.nodup_cons.mp once
    obtain ⟨known, lower, shelves, upper⟩ := sells entry List.mem_cons_self
    obtain ⟨db₁, decreased, shows₁⟩ := shows.decreaseStock apart known shelves lower upper
    have others {other : CString × CartPair} (member : other ∈ rest) :
        (v.setShelves entry.2.merch (drain (v.shelves entry.2.merch) entry.2.amountInCart)).shelves
          other.2.merch = v.shelves other.2.merch :=
      Function.update_of_ne (fun same => fresh (List.mem_map.mpr ⟨other, member, same⟩)) _ _
    obtain ⟨db', ran, shows'⟩ := ih shows₁ apart once fun other member => by
      rw [others member]
      exact sells other (List.mem_cons_of_mem _ member)
    refine ⟨db', ?_, ?_⟩
    · rw [List.map_cons, List.foldlM_cons]
      simp only [deref, decreased, bind, Except.bind]
      exact ran
    · have same : (fun merch => drain ((v.setShelves entry.2.merch
          (drain (v.shelves entry.2.merch) entry.2.amountInCart)).shelves merch) (soldAt rest merch)) =
            fun merch => drain (v.shelves merch) (soldAt (entry :: rest) merch) := by
        funext merch
        dsimp only [View.setShelves]
        rw [soldAt_cons]
        rcases eq_or_ne entry.2.merch merch with rfl | different
        · rw [if_pos rfl, Function.update_self, soldAt_of_not_mem fresh, drain_zero]
        · rw [if_neg different, Function.update_of_ne (Ne.symm different)]
      rw [same] at shows'
      exact shows'

/-- `checkout`. -/
theorem checkout (shows : Shows full db v) (sound : v.Sound) (key : ℤ) :
    ∃ db' v', db.checkout full key = .ok db' ∧ Shows full db' v' ∧ v'.Sound := by
  rw [Database.checkout, shows.lookupCart]
  cases looked : KeyedList.find compareInt v.carts key with
  | none => exact ⟨db, v, rfl, shows, sound⟩
  | some address =>
    have member := sound.carts_iff.mp looked
    have cart : CartSound v.names (v.entries address) := sound.cart _ member
    obtain ⟨table, read, holds⟩ := shows.readCart member
    obtain ⟨pairs, listed, collected, stores, perm⟩ := holds.values (stringFunctions_compares full) cart.count
    have sells : ∀ entry ∈ listed, (entry.1, entry.2.merch) ∈ v.names ∧ 0 ≤ entry.2.amountInCart ∧
        ShelvesSound (v.shelves entry.2.merch) ∧ entry.2.amountInCart ≤ stockOf (v.shelves entry.2.merch) := by
      intro entry inside
      have held := perm.mem_iff.mp inside
      have known := cart.known entry held
      have amount := sound.amount_le member entry.1
      rw [amountOf_of_mem cart.distinct held] at amount
      exact ⟨known, cart.nonNegative entry held, sound.shelves _ known, amount.trans (sound.covered _ known)⟩
    obtain ⟨db₁, ran, shows₁⟩ :=
      shows.decreaseStocks sound.merchApart ((cart.perm perm.symm).merchApart sound) sells
    obtain ⟨db', removed, shows'⟩ := shows₁.removeCart key
    refine ⟨db', _, ?_, shows', sound.checkout member fun entry known => ?_⟩
    · have looped := (stores.iterate _ db).trans ran
      simp only [bind, Except.bind] at looped
      simp only [read, collected, looped, removed, bind, Except.bind]
    · dsimp only
      rw [soldAt_eq (cart.perm perm.symm) sound known, amountOf, amountOf,
        KeyedList.find_perm compareString_comparison cart.distinct perm.symm]

end Shows

end GarbageCollector.Proofs
