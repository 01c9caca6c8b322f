import GarbageCollector.Proofs.StoreSound

/-! # What the operations of the store do to a view

A database shows a view when its tables hold the names, the carts and the entries of the view and every
list of shelves stores the shelves of the view. Each operation leads from a database that shows a view to
one that shows the edited view.
-/

namespace GarbageCollector.Proofs

open Model

/-- The tables and lists of a database hold what the view says. -/
structure Shows (full : ℕ → ℕ → Bool) (db : Database) (v : View) : Prop where
  allMerch : Holds (stringFunctions full) FitsInt db.allMerch v.names
  allCarts : Holds (intFunctions full) FitsInt db.allCarts v.carts
  merch : ∀ entry ∈ v.names, ∃ merch, db.merchs[entry.2]? = some merch ∧ merch.name = entry.1 ∧
    Stores merch.shelfs (v.shelves entry.2)
  cart : ∀ cart ∈ v.carts, ∃ table, db.carts[cart.2]? = some table ∧
    Holds (stringFunctions full) FitsInt table (v.entries cart.2)

variable {full : ℕ → ℕ → Bool} {db : Database} {v : View} {name : CString} {key amount quantity : ℤ}
  {merch address : ℕ} {shelfs : LinkedList ShelfPair} {shelves : List ShelfPair}
  {table : HashTable CString CartPair} {entries : List (CString × CartPair)}

namespace Shows

theorem lookupMerch (shows : Shows full db v) (hashable : HashableName name) :
    db.allMerch.lookup (stringFunctions full) name = .ok (KeyedList.find compareString v.names name) :=
  shows.allMerch.lookupString hashable

theorem lookupCart (shows : Shows full db v) (key : ℤ) :
    db.allCarts.lookup (intFunctions full) key = .ok (KeyedList.find compareInt v.carts key) :=
  shows.allCarts.lookupInt key

theorem readMerch (shows : Shows full db v) (member : (name, merch) ∈ v.names) :
    ∃ object, db.merch merch = .ok object ∧ object.name = name ∧ Stores object.shelfs (v.shelves merch) := by
  obtain ⟨object, found, named, stores⟩ := shows.merch _ member
  dsimp only at found
  exact ⟨object, by simp only [Database.merch, found], named, stores⟩

theorem readCart (shows : Shows full db v) (member : (key, address) ∈ v.carts) :
    ∃ table, db.cart address = .ok table ∧ Holds (stringFunctions full) FitsInt table (v.entries address) := by
  obtain ⟨table, found, holds⟩ := shows.cart _ member
  dsimp only at found
  exact ⟨table, by simp only [Database.cart, found], holds⟩

theorem merch_lt (shows : Shows full db v) {entry : CString × ℕ} (member : entry ∈ v.names) :
    entry.2 < db.merchs.length := by
  obtain ⟨_, found, _⟩ := shows.merch entry member
  exact (List.getElem?_eq_some_iff.mp found).1

theorem cart_lt (shows : Shows full db v) {cart : ℤ × ℕ} (member : cart ∈ v.carts) :
    cart.2 < db.carts.length := by
  obtain ⟨_, found, _⟩ := shows.cart cart member
  exact (List.getElem?_eq_some_iff.mp found).1

/-- Only what is held at the listed addresses is shown. -/
theorem congr (shows : Shows full db v) {entries : ℕ → List (CString × CartPair)}
    (same : ∀ cart ∈ v.carts, entries cart.2 = v.entries cart.2) : Shows full db { v with entries } :=
  ⟨shows.allMerch, shows.allCarts, shows.merch, fun cart member => by
    dsimp only
    rw [same cart member]
    exact shows.cart cart member⟩

/-- A cart is written. -/
theorem setCart (shows : Shows full db v)
    (holds : Holds (stringFunctions full) FitsInt table entries) :
    Shows full (db.setCart address table) (v.setEntries address entries) where
  allMerch := shows.allMerch
  allCarts := shows.allCarts
  merch := shows.merch
  cart other inside := by
    obtain ⟨table', found, holds'⟩ := shows.cart other inside
    dsimp only [Database.setCart, View.setEntries]
    rcases eq_or_ne other.2 address with same | different
    · rw [same] at found ⊢
      have bound := (List.getElem?_eq_some_iff.mp found).1
      exact ⟨table, List.getElem?_set_self bound, by rwa [Function.update_self]⟩
    · refine ⟨table', ?_, by rwa [Function.update_of_ne different]⟩
      rwa [List.getElem?_set_ne (Ne.symm different)]

/-- The shelves of a merchandise are written. -/
theorem setShelfs (shows : Shows full db v) (apart : (v.names.map Prod.snd).Nodup)
    (member : (name, merch) ∈ v.names) (stores : Stores shelfs shelves) :
    ∃ db', db.setShelfs merch shelfs = .ok db' ∧ Shows full db' (v.setShelves merch shelves) := by
  obtain ⟨object, found, named, _⟩ := shows.merch _ member
  dsimp only at found named
  refine ⟨{ db with merchs := db.merchs.set merch { object with shelfs } }, ?_,
    shows.allMerch, shows.allCarts, fun entry inside => ?_, shows.cart⟩
  · simp only [Database.setShelfs, Database.merch, found, bind, Except.bind]
  · dsimp only [View.setShelves]
    rcases eq_or_ne entry.2 merch with same | different
    · obtain rfl : entry = (name, merch) := List.inj_on_of_nodup_map apart inside member same
      have bound := (List.getElem?_eq_some_iff.mp found).1
      exact ⟨_, List.getElem?_set_self bound, named, by rwa [Function.update_self]⟩
    · obtain ⟨other, found', named', stores'⟩ := shows.merch entry inside
      refine ⟨other, ?_, named', by rwa [Function.update_of_ne different]⟩
      rwa [List.getElem?_set_ne (Ne.symm different)]

end Shows

/-- What `remove_from_cart` leaves of a cart. -/
def takeOut (entries : List (CString × CartPair)) (name : CString) (quantity : ℤ) :
    List (CString × CartPair) :=
  match KeyedList.find compareString entries name with
  | none => entries
  | some pair =>
    if pair.amountInCart - quantity ≤ 0 then KeyedList.erase compareString entries name
    else (name, ⟨pair.merch, pair.amountInCart - quantity⟩) :: KeyedList.erase compareString entries name

/-- A cart may lose some of a merchandise. -/
theorem View.Sound.takeOut (sound : v.Sound) (member : (key, address) ∈ v.carts) (lower : 0 ≤ quantity) :
    (v.setEntries address (takeOut (v.entries address) name quantity)).Sound := by
  have cart : CartSound v.names (v.entries address) := sound.cart _ member
  rw [Proofs.takeOut]
  cases found : KeyedList.find compareString (v.entries address) name with
  | none =>
    rw [View.setEntries_self]
    exact sound
  | some pair =>
    have held := (find_string_iff cart.distinct).mp found
    have amount := amountOf_of_mem cart.distinct held
    have holding := cart.nonNegative _ held
    dsimp only at holding ⊢
    split
    · refine sound.setEntries_less member (cart.erase name) ?_ fun query => ?_
      · rw [cartTotal_erase cart.distinct]
        omega
      · rw [amountOf_erase]
        split
        · exact amountOf_nonneg cart.nonNegative query
        · exact le_refl _
    · next left =>
      refine sound.setEntries_less member (cart.cons_erase (by dsimp only; omega) (cart.known _ held)
        fun absent => ?_) ?_ fun query => ?_
      · rw [found] at absent
        cases absent
      · rw [cartTotal_cons, cartTotal_erase cart.distinct]
        dsimp only
        omega
      · rw [amountOf_cons_erase]
        split
        · next same =>
          rw [← same, amount]
          dsimp only
          omega
        · exact le_refl _

/-- The names in a cart can be hashed, and its amounts fit an `int`. -/
def CartFits (entries : List (CString × CartPair)) : Prop :=
  ∀ entry ∈ entries, HashableName entry.1 ∧ 0 ≤ entry.2.amountInCart ∧ entry.2.amountInCart < 2 ^ 31

theorem View.Sound.cartFits (sound : v.Sound) (member : (key, address) ∈ v.carts) :
    CartFits (v.entries address) := by
  intro entry inside
  have cart := sound.cart _ member
  refine ⟨sound.hashable _ (cart.known entry inside), cart.nonNegative entry inside, ?_⟩
  have here := cart.amount_le_total entry.1
  rw [amountOf_of_mem cart.distinct inside] at here
  exact (here.trans (sound.cartTotal_le member)).trans_lt sound.total

namespace Shows

theorem lookupCart_of_mem (shows : Shows full db v) (member : (key, address) ∈ v.carts) :
    db.allCarts.lookup (intFunctions full) key = .ok (some address) := by
  rw [shows.lookupCart, (find_int_iff shows.allCarts.distinctInt).mpr member]

/-- `remove_from_cart` on a cart of the store. -/
theorem removeFromCart (shows : Shows full db v) (member : (key, address) ∈ v.carts)
    (hashable : HashableName name) (fits : CartFits (v.entries address)) (lower : 0 ≤ quantity)
    (upper : quantity < 2 ^ 31) : ∃ db', db.removeFromCart full key name quantity = .ok db' ∧
      Shows full db' (v.setEntries address (takeOut (v.entries address) name quantity)) := by
  obtain ⟨cart, read, holds⟩ := shows.readCart member
  rw [Database.removeFromCart, takeOut]
  simp only [shows.lookupCart_of_mem member, read, holds.lookupString hashable, bind, Except.bind]
  cases found : KeyedList.find compareString (v.entries address) name with
  | none =>
    rw [View.setEntries_self]
    exact ⟨db, rfl, shows⟩
  | some pair =>
    obtain ⟨_, positive, small⟩ := fits _ ((find_string_iff holds.distinctString).mp found)
    dsimp only at positive small ⊢
    rw [toInt32_of_range (show -2 ^ 31 ≤ pair.amountInCart - quantity by omega) (by omega)]
    rcases le_or_gt (pair.amountInCart - quantity) 0 with emptied | left
    · obtain ⟨cart', removed, holds'⟩ := holds.removeString hashable
      simp only [if_pos emptied, removed]
      exact ⟨_, rfl, shows.setCart holds'⟩
    · obtain ⟨cart', inserted, holds'⟩ := holds.insertString hashable
        (fun entry inside => (fits entry inside).1) ⟨pair.merch, pair.amountInCart - quantity⟩
      simp only [if_neg (not_le.mpr left), inserted]
      exact ⟨_, rfl, shows.setCart holds'⟩

/-- A cart that the store does not have. -/
theorem removeFromCart_absent (shows : Shows full db v) (absent : KeyedList.find compareInt v.carts key = none) :
    db.removeFromCart full key name quantity = .ok db := by
  rw [Database.removeFromCart, shows.lookupCart, absent]
  rfl

/-- The loop of `remove_merchandise_all_carts` over some of the carts. -/
theorem removeFromCarts {listed : List (ℤ × ℕ)} (shows : Shows full db v)
    (inside : ∀ cart ∈ listed, cart ∈ v.carts)
    (apart : (listed.map Prod.snd).Nodup) (hashable : HashableName name)
    (fits : ∀ cart ∈ listed, CartFits (v.entries cart.2)) (lower : 0 ≤ quantity) (upper : quantity < 2 ^ 31) :
    ∃ db', (listed.map Prod.fst).foldlM
        (fun db cartKey => db.removeFromCart full cartKey name quantity) db = .ok db' ∧
      Shows full db' { v with
        entries := fun address =>
          if address ∈ listed.map Prod.snd then takeOut (v.entries address) name quantity
          else v.entries address } := by
  induction listed generalizing db v with
  | nil => exact ⟨db, rfl, by simpa using shows⟩
  | cons cart rest ih =>
    obtain ⟨key, address⟩ := cart
    obtain ⟨fresh, apart⟩ := List.nodup_cons.mp apart
    obtain ⟨db₁, removed, shows₁⟩ := shows.removeFromCart (inside _ List.mem_cons_self) hashable
      (fits _ List.mem_cons_self) lower upper
    have others {cart : ℤ × ℕ} (member : cart ∈ rest) :
        (v.setEntries address (takeOut (v.entries address) name quantity)).entries cart.2 = v.entries cart.2 := by
      dsimp only [View.setEntries]
      rw [Function.update_of_ne (View.Sound.ne_of_fresh fresh member)]
    have fits₁ : ∀ cart ∈ rest,
        CartFits ((v.setEntries address (takeOut (v.entries address) name quantity)).entries cart.2) := by
      intro cart member
      rw [others member]
      exact fits cart (List.mem_cons_of_mem _ member)
    obtain ⟨db', ran, shows'⟩ := ih shows₁ (fun cart member => inside cart (List.mem_cons_of_mem _ member))
      apart fits₁
    refine ⟨db', ?_, shows'.congr fun cart member => ?_⟩
    · rw [List.map_cons, List.foldlM_cons, removed]
      exact ran
    · dsimp only [View.setEntries]
      rw [List.map_cons]
      rcases eq_or_ne cart.2 address with same | different
      · rw [same, if_pos List.mem_cons_self, if_neg fresh, Function.update_self]
      · rw [Function.update_of_ne different]
        simp only [List.mem_cons, different, false_or]

/-- `remove_merchandise_all_carts` with an amount that no cart exceeds. -/
theorem removeMerchandiseAllCarts (shows : Shows full db v) (sound : v.Sound) (hashable : HashableName name)
    (lower : 0 ≤ quantity) (upper : quantity < 2 ^ 31)
    (enough : ∀ cart ∈ v.carts, amountOf (v.entries cart.2) name ≤ quantity) :
    ∃ db', db.removeMerchandiseAllCarts full name quantity = .ok db' ∧ Shows full db' { v with
      entries := fun address => KeyedList.erase compareString (v.entries address) name } := by
  obtain ⟨keys, listed, collected, stores, perm⟩ :=
    shows.allCarts.keys (intFunctions_compares full) sound.cartsCount
  obtain ⟨db', ran, shows'⟩ := shows.removeFromCarts (fun cart member => perm.mem_iff.mp member)
    ((perm.map Prod.snd).nodup_iff.mpr sound.cartsApart) hashable
    (fun cart member => sound.cartFits (perm.mem_iff.mp member)) lower upper
  refine ⟨db', ?_, shows'.congr fun cart member => ?_⟩
  · rw [Database.removeMerchandiseAllCarts, collected]
    exact (stores.iterate _ _).trans ran
  · dsimp only
    rw [if_pos (List.mem_map_of_mem (perm.mem_iff.mpr member)), takeOut]
    cases found : KeyedList.find compareString (v.entries cart.2) name with
    | none => exact KeyedList.erase_of_find_eq_none found
    | some pair =>
      have amount := enough cart member
      rw [amountOf, found, Option.map_some, Option.getD_some] at amount
      dsimp only
      rw [if_pos (by omega)]

/-- The stock of a merchandise is what `num_for_shelfs` returns. -/
theorem numForShelfs (shows : Shows full db v) (sound : v.Sound) (member : (name, merch) ∈ v.names) :
    ∃ object, db.merch merch = .ok object ∧ object.name = name ∧ Stores object.shelfs (v.shelves merch) ∧
      Model.numForShelfs object.shelfs = .ok (stockOf (v.shelves merch)) := by
  obtain ⟨object, read, named, stores⟩ := shows.readMerch member
  have shelves := sound.shelves _ member
  have nonNegative := stockOf_nonneg shelves.nonNegative
  refine ⟨object, read, named, stores, ?_⟩
  rw [numForShelfs_ok stores.reads, toInt32_of_range (by omega) shelves.stock]

/-- `remove_merchandise`. -/
theorem removeMerchandise (shows : Shows full db v) (sound : v.Sound) (hashable : HashableName name) :
    ∃ db', db.removeMerchandise full name = .ok db' ∧ Shows full db' (v.without name) := by
  rw [Database.removeMerchandise]
  simp only [shows.lookupMerch hashable, bind, Except.bind]
  cases found : KeyedList.find compareString v.names name with
  | none =>
    rw [View.without, KeyedList.erase_of_find_eq_none found]
    exact ⟨db, rfl, shows.congr fun cart member =>
      KeyedList.erase_of_find_eq_none ((sound.cart cart member).find_eq_none found)⟩
  | some merch =>
    have member := sound.names_iff.mp found
    have shelves := sound.shelves _ member
    obtain ⟨object, read, _, _, counted⟩ := shows.numForShelfs sound member
    obtain ⟨db₁, removed, shows₁⟩ := shows.removeMerchandiseAllCarts sound hashable
      (stockOf_nonneg shelves.nonNegative) shelves.stock
      fun cart inside => (sound.amount_le inside name).trans (sound.covered _ member)
    obtain ⟨allMerch, erased, holds⟩ := shows₁.allMerch.removeString hashable
    simp only [read, counted, removed, erased]
    exact ⟨_, rfl, holds, shows₁.allCarts,
      fun entry inside => shows₁.merch entry (List.mem_filter.mp inside).1, shows₁.cart⟩

/-- `add_merchandise`. -/
theorem addMerchandise (shows : Shows full db v) (sound : v.Sound)
    (hashable : HashableName name) (description : CString) (price : ℤ) :
    ∃ db' v' merch, db.addMerchandise full name description price = .ok db' ∧
      Shows full db' v' ∧ v'.Sound ∧ (name, merch) ∈ v'.names ∧ v'.inCarts = v.inCarts := by
  rw [Database.addMerchandise]
  simp only [shows.lookupMerch hashable, bind, Except.bind]
  cases found : KeyedList.find compareString v.names name with
  | some merch =>
    exact ⟨db, v, merch, rfl, shows, sound, sound.names_iff.mp found, rfl⟩
  | none =>
    have fresh : db.merchs.length ∉ v.names.map Prod.snd :=
      View.Sound.fresh_of_lt fun _ member => shows.merch_lt member
    obtain ⟨allMerch, inserted, holds⟩ := shows.allMerch.insertString hashable sound.hashable db.merchs.length
    rw [KeyedList.erase_of_find_eq_none found] at holds
    simp only [inserted]
    refine ⟨_, { v with
      names := (name, db.merchs.length) :: v.names
      shelves := Function.update v.shelves db.merchs.length [] }, _, rfl,
      ⟨holds, shows.allCarts, fun entry member => ?_, shows.cart⟩,
      sound.addName hashable found fresh, List.mem_cons_self, rfl⟩
    dsimp only
    rcases List.mem_cons.mp member with rfl | later
    · rw [Function.update_self, List.getElem?_concat_length]
      exact ⟨_, rfl, rfl, Stores.create⟩
    · rw [Function.update_of_ne (View.Sound.ne_of_fresh fresh later),
        List.getElem?_append_left (shows.merch_lt later)]
      exact shows.merch entry later

/-- `edit_merchandise`, where the carts hold no more of the merchandise with the new name than there is of
the edited one. -/
theorem editMerchandise {newName : CString} (shows : Shows full db v) (sound : v.Sound)
    (hashable : HashableName name) (description : CString) (price : ℤ)
    (renamable : (KeyedList.find compareString v.names name).isSome → HashableName newName)
    (enough : newName ≠ name → ∀ merch, (name, merch) ∈ v.names →
      v.inCarts newName ≤ stockOf (v.shelves merch)) :
    ∃ db' v', db.editMerchandise full name newName description price = .ok db' ∧
      Shows full db' v' ∧ v'.Sound := by
  rw [Database.editMerchandise]
  simp only [shows.lookupMerch hashable, bind, Except.bind]
  cases found : KeyedList.find compareString v.names name with
  | none => exact ⟨db, v, rfl, shows, sound⟩
  | some merch =>
    have member := sound.names_iff.mp found
    have shelves := sound.shelves _ member
    have hashable' := renamable (Option.isSome_of_eq_some found)
    obtain ⟨object, read, _, stores⟩ := shows.readMerch member
    obtain ⟨newShelfs, copied, storesNew⟩ := copyShelfs_ok stores.reads shelves.count
    obtain ⟨db₁, removed, shows₁⟩ := shows.removeMerchandise sound hashable
    obtain ⟨db₂, v₂, address, added, shows₂, sound₂, member₂, kept⟩ :=
      shows₁.addMerchandise (sound.without name) hashable' description price
    obtain ⟨db₃, written, shows₃⟩ := shows₂.setShelfs sound₂.merchApart member₂ storesNew
    have same : stockOf (v.shelves merch).reverse = stockOf (v.shelves merch) :=
      stockOf_perm (List.reverse_perm _)
    have reversed : ShelvesSound (v.shelves merch).reverse := by
      refine ⟨fun pair inside => shelves.nonNegative pair (List.mem_reverse.mp inside), ?_, ?_⟩
      · rw [same]
        exact shelves.stock
      · rw [List.length_reverse]
        exact shelves.count
    refine ⟨db₃, _, ?_, shows₃, sound₂.setShelves member₂ reversed ?_⟩
    · simp only [read, copied, removed, added, shows₂.lookupMerch hashable',
        sound₂.names_iff.mpr member₂, deref, written]
    · rw [kept, View.inCarts_without, same]
      split
      · exact stockOf_nonneg shelves.nonNegative
      · next different => exact enough (Ne.symm different) merch member

/-- `replenish`, where a known shelf can be unlinked. -/
theorem replenish {shelf : CString} (shows : Shows full db v) (sound : v.Sound) (hashable : HashableName name)
    (lower : 0 ≤ amount) (room : isShelf shelf = true → ∀ merch, (name, merch) ∈ v.names →
      stockOf (v.shelves merch) + amount < 2 ^ 31 ∧
        (restocked (v.shelves merch) shelf amount).length < 2 ^ 31 ∧ Unlinks (v.shelves merch) shelf) :
    ∃ db' v', db.replenish full name shelf amount = .ok db' ∧ Shows full db' v' ∧ v'.Sound := by
  have looked := shows.lookupMerch hashable
  cases found : KeyedList.find compareString v.names name with
  | none =>
    refine ⟨db, v, ?_, shows, sound⟩
    simp only [Database.replenish, looked, found, bind, Except.bind]
  | some merch =>
    rw [found] at looked
    by_cases valid : isShelf shelf = true
    · have member := sound.names_iff.mp found
      have shelves : ShelvesSound (v.shelves merch) := sound.shelves _ member
      obtain ⟨object, read, _, stores⟩ := shows.readMerch member
      obtain ⟨small, count, unlinks⟩ := room valid merch member
      obtain ⟨shelfs', stores', result⟩ :=
        replenish_eq amount looked valid read stores shelves.count unlinks
      obtain ⟨db', written, shows'⟩ := shows.setShelfs sound.merchApart member stores'
      rw [Database.setShelfs, read] at written
      rw [checkedInt_ok (by omega) (by omega)] at result
      refine ⟨db', _, result.trans written, shows', sound.setShelves member (shelves.restock lower small count) ?_⟩
      rw [shelves.stockOf_restocked lower small]
      exact (sound.covered _ member).trans (le_add_of_nonneg_right lower)
    · refine ⟨db, v, ?_, shows, sound⟩
      simp only [Database.replenish, looked, if_neg valid, bind, Except.bind]

end Shows

end GarbageCollector.Proofs
