import GarbageCollector.Proofs.NameTables
import GarbageCollector.Proofs.ShelfLists
import GarbageCollector.Proofs.StoreView

/-! # What every call keeps

Whatever calls have built a store, its tables hold the names, the carts and the entries of some view, every
name and every cart has an address of its own, and every list of shelves counts shelves that its chain
starts with. The amounts in the carts meet any condition that positive `int`s meet, if `add_to_cart` stores
only amounts that do.
-/

namespace GarbageCollector.Proofs

open Model

/-- The tables and lists of a database, as any calls leave them. -/
structure Kept (full : ℕ → ℕ → Bool) (meets : ℤ → Prop) (db : Database) (v : View) : Prop where
  allMerch : HoldsNames full db.allMerch v.names
  allCarts : HoldsNumbers full db.allCarts v.carts
  merch : ∀ entry ∈ v.names, ∃ merch, db.merchs[entry.2]? = some merch ∧ merch.name = entry.1
  merchApart : (v.names.map Prod.snd).Nodup
  shelves : ∀ address merch, db.merchs[address]? = some merch →
    Reads merch.shelfs (v.shelves address) ∧ (v.shelves address).length < 2 ^ 31
  cart : ∀ cart ∈ v.carts, ∃ table, db.carts[cart.2]? = some table ∧ HoldsNames full table (v.entries cart.2)
  cartsApart : (v.carts.map Prod.snd).Nodup
  entries : ∀ cart ∈ v.carts, ∀ entry ∈ v.entries cart.2,
    entry.2.merch < db.merchs.length ∧ meets entry.2.amountInCart

/-- What `add_to_cart` reports and leaves of a cart, when it counts `inCarts` in all carts and `num` on the
shelves. -/
def putIn (entries : List (CString × CartPair)) (name : CString) (merch : ℕ) (quantity inCarts num : ℤ) :
    AddOutcome × List (CString × CartPair) :=
  if num < toInt32 (quantity + inCarts) then (.notEnoughLeft, entries)
  else if num < toInt32 (quantity + amountOf entries name) then
    (.notEnoughInStock num, KeyedList.erase compareString entries name)
  else (.added, (name, ⟨merch, toInt32 (quantity + amountOf entries name)⟩) ::
    KeyedList.erase compareString entries name)

variable {full : ℕ → ℕ → Bool} {meets : ℤ → Prop} {db db' : Database} {v : View} {name shelf : CString}
  {key amount quantity inCarts : ℤ} {address merch fuel : ℕ} {shelfs shelfs' : LinkedList ShelfPair}
  {shelves : List ShelfPair} {table : HashTable CString CartPair} {entries : List (CString × CartPair)}
  {current : Option ℕ} {outcome : AddOutcome}

/-- A pair is stored when the stock has room for the quantity with each of the two counts. -/
theorem putIn_added_iff {num : ℤ} : (putIn entries name merch quantity inCarts num).1 = .added ↔
    toInt32 (quantity + inCarts) ≤ num ∧ toInt32 (quantity + amountOf entries name) ≤ num := by
  rw [putIn, ← not_lt, ← not_lt]
  split
  · next short => exact ⟨(fun other => nomatch other), fun enough => absurd short enough.1⟩
  · next enough =>
    split
    · next short => exact ⟨(fun other => nomatch other), fun enough => absurd short enough.2⟩
    · next enough' => exact ⟨fun _ => ⟨enough, enough'⟩, fun _ => rfl⟩

/-- What is stored takes the place of the entry. -/
theorem putIn_added {num : ℤ} (added : (putIn entries name merch quantity inCarts num).1 = .added) :
    (putIn entries name merch quantity inCarts num).2 =
      (name, ⟨merch, toInt32 (quantity + amountOf entries name)⟩) :: KeyedList.erase compareString entries name := by
  obtain ⟨enough, enough'⟩ := putIn_added_iff.mp added
  rw [putIn, if_neg (not_lt.mpr enough), if_neg (not_lt.mpr enough')]

/-- The loop of `index_for_shelf_pair` returns an index that it has counted, or -1. -/
theorem indexFrom_range {count : ℕ} {i index : ℤ} (ran : indexFrom shelfs name current i count = .ok index) :
    index = -1 ∨ i ≤ index ∧ index < i + count := by
  induction count generalizing current i with
  | zero =>
    cases ran
    exact .inl rfl
  | succ count ih =>
    rw [indexFrom] at ran
    obtain ⟨link, _, ran⟩ := Machine.bind_ok_iff.mp ran
    split at ran
    · cases ran
      refine .inr ⟨le_refl _, ?_⟩
      omega
    · obtain ⟨next, _, ran⟩ := Machine.bind_ok_iff.mp ran
      rcases ih ran with absent | ⟨lower, upper⟩
      · exact .inl absent
      · exact .inr ⟨by omega, by omega⟩

/-- The loop of `decrease_stock` leaves as many shelves. -/
theorem decreaseFrom_reads (reads : Reads shelfs shelves)
    (ran : decreaseFrom shelfs current amount fuel = .ok shelfs') :
    ∃ shelves', Reads shelfs' shelves' ∧ shelves'.length = shelves.length := by
  induction fuel generalizing shelfs shelves current amount with
  | zero =>
    rw [decreaseFrom] at ran
    split at ran
    · cases ran
      exact ⟨shelves, reads, rfl⟩
    · cases ran
  | succ fuel ih =>
    rw [decreaseFrom] at ran
    split at ran
    · cases ran
      exact ⟨shelves, reads, rfl⟩
    · obtain ⟨link, read, ran⟩ := Machine.bind_ok_iff.mp ran
      obtain ⟨emptier, written, ran⟩ := Machine.bind_ok_iff.mp ran
      obtain ⟨next, _, ran⟩ := Machine.bind_ok_iff.mp ran
      obtain ⟨shelves₁, reads₁, length₁⟩ := reads.overwrite read written
      obtain ⟨shelves', reads', length'⟩ := ih reads₁ ran
      exact ⟨shelves', reads', length'.trans length₁⟩

namespace Kept

theorem create : Kept full meets Database.create ⟨[], [], fun _ => [], fun _ => []⟩ where
  allMerch := HoldsNames.create
  allCarts := HoldsNumbers.create
  merch _ member := absurd member List.not_mem_nil
  merchApart := List.nodup_nil
  shelves _ _ found := nomatch found
  cart _ member := absurd member List.not_mem_nil
  cartsApart := List.nodup_nil
  entries _ member := absurd member List.not_mem_nil

section Reading

variable (kept : Kept full meets db v)
include kept

theorem names_iff : KeyedList.find compareString v.names name = some merch ↔ (name, merch) ∈ v.names :=
  find_string_iff kept.allMerch.distinct

theorem carts_iff : KeyedList.find compareInt v.carts key = some address ↔ (key, address) ∈ v.carts :=
  find_int_iff kept.allCarts.distinct

theorem lookupMerch_iff : db.allMerch.lookup (stringFunctions full) name = .ok (some merch) ↔
    (name, merch) ∈ v.names := by
  constructor
  · intro looked
    exact kept.names_iff.mp (kept.allMerch.of_lookup looked).2
  · intro member
    rw [kept.allMerch.lookup (kept.allMerch.hashable _ member), kept.names_iff.mpr member]

theorem lookupCart_iff : db.allCarts.lookup (intFunctions full) key = .ok (some address) ↔
    (key, address) ∈ v.carts := by
  rw [kept.allCarts.lookup, Except.ok.injEq, kept.carts_iff]

theorem readMerch (member : (name, merch) ∈ v.names) : ∃ object, db.merch merch = .ok object ∧
    object.name = name ∧ Reads object.shelfs (v.shelves merch) ∧ (v.shelves merch).length < 2 ^ 31 := by
  obtain ⟨object, found, named⟩ := kept.merch _ member
  obtain ⟨reads, count⟩ := kept.shelves _ object found
  dsimp only at found
  exact ⟨object, by simp only [Database.merch, found], named, reads, count⟩

theorem readCart (member : (key, address) ∈ v.carts) :
    ∃ table, db.cart address = .ok table ∧ HoldsNames full table (v.entries address) := by
  obtain ⟨table, found, names⟩ := kept.cart _ member
  dsimp only at found
  exact ⟨table, by simp only [Database.cart, found], names⟩

theorem pair_meets {pair : CartPair} (member : (key, address) ∈ v.carts)
    (held : KeyedList.find compareString (v.entries address) name = some pair) :
    pair.merch < db.merchs.length ∧ meets pair.amountInCart := by
  obtain ⟨table, _, names⟩ := kept.readCart member
  exact kept.entries _ member _ ((find_string_iff names.distinct).mp held)

theorem merch_lt (member : (name, merch) ∈ v.names) : merch < db.merchs.length := by
  obtain ⟨_, found, _⟩ := kept.merch _ member
  exact (List.getElem?_eq_some_iff.mp found).1

theorem cart_lt (member : (key, address) ∈ v.carts) : address < db.carts.length := by
  obtain ⟨_, found, _⟩ := kept.cart _ member
  exact (List.getElem?_eq_some_iff.mp found).1

theorem numForShelfs (member : (name, merch) ∈ v.names) : ∃ object, db.merch merch = .ok object ∧
    object.name = name ∧ Model.numForShelfs object.shelfs = .ok (toInt32 (stockOf (v.shelves merch))) := by
  obtain ⟨object, read, named, reads, _⟩ := kept.readMerch member
  exact ⟨object, read, named, numForShelfs_ok reads⟩

end Reading

/-- A cart is written. -/
theorem setCart (kept : Kept full meets db v) (names : HoldsNames full table entries)
    (stored : ∀ entry ∈ entries, entry.2.merch < db.merchs.length ∧ meets entry.2.amountInCart) :
    Kept full meets (db.setCart address table) (v.setEntries address entries) where
  allMerch := kept.allMerch
  allCarts := kept.allCarts
  merch := kept.merch
  merchApart := kept.merchApart
  shelves := kept.shelves
  cart other inside := by
    obtain ⟨table', found, names'⟩ := kept.cart other inside
    dsimp only [Database.setCart, View.setEntries]
    rcases eq_or_ne other.2 address with same | different
    · rw [same] at found ⊢
      have bound := (List.getElem?_eq_some_iff.mp found).1
      exact ⟨table, List.getElem?_set_self bound, by rwa [Function.update_self]⟩
    · refine ⟨table', ?_, by rwa [Function.update_of_ne different]⟩
      rwa [List.getElem?_set_ne (Ne.symm different)]
  cartsApart := kept.cartsApart
  entries other inside := by
    dsimp only [Database.setCart, View.setEntries]
    rcases eq_or_ne other.2 address with same | different
    · rw [same, Function.update_self]
      exact stored
    · rw [Function.update_of_ne different]
      exact kept.entries other inside

/-- The shelves of a merchandise are written. -/
theorem setShelfs (kept : Kept full meets db v) (reads : Reads shelfs shelves) (count : shelves.length < 2 ^ 31)
    (ran : db.setShelfs address shelfs = .ok db') : Kept full meets db' (v.setShelves address shelves) := by
  rw [Database.setShelfs] at ran
  obtain ⟨object, read, ran⟩ := Machine.bind_ok_iff.mp ran
  cases ran
  have found := getElem?_of_merch read
  have bound := (List.getElem?_eq_some_iff.mp found).1
  refine ⟨kept.allMerch, kept.allCarts, fun entry member => ?_, kept.merchApart, fun other object' found' => ?_,
    kept.cart, kept.cartsApart, fun cart member entry inside => ?_⟩
  · obtain ⟨object', found', named⟩ := kept.merch entry member
    dsimp only
    rcases eq_or_ne entry.2 address with same | different
    · rw [same] at found' ⊢
      cases found.symm.trans found'
      exact ⟨_, List.getElem?_set_self bound, named⟩
    · refine ⟨object', ?_, named⟩
      rwa [List.getElem?_set_ne (Ne.symm different)]
  · dsimp only [View.setShelves] at found' ⊢
    rcases eq_or_ne other address with rfl | different
    · rw [List.getElem?_set_self bound] at found'
      cases found'
      rw [Function.update_self]
      exact ⟨reads, count⟩
    · rw [List.getElem?_set_ne (Ne.symm different)] at found'
      rw [Function.update_of_ne different]
      exact kept.shelves other object' found'
  · dsimp only
    rw [List.length_set]
    exact kept.entries cart member entry inside

/-- `add_merchandise` with a known name. -/
theorem addMerchandise_known {description : CString} {price : ℤ} (kept : Kept full meets db v)
    (member : (name, merch) ∈ v.names) : db.addMerchandise full name description price = .ok db := by
  have hashable : HashableName name := kept.allMerch.hashable _ member
  rw [Database.addMerchandise, kept.allMerch.lookup hashable, kept.names_iff.mpr member]
  rfl

/-- `add_merchandise` with a new name. -/
theorem addMerchandise_new (kept : Kept full meets db v) (hashable : HashableName name)
    (absent : KeyedList.find compareString v.names name = none) (description : CString) (price : ℤ) :
    ∃ db', db.addMerchandise full name description price = .ok db' ∧
      db'.merchs = db.merchs ++ [makeMerch name description price] ∧ Kept full meets db' { v with
        names := (name, db.merchs.length) :: v.names
        shelves := Function.update v.shelves db.merchs.length [] } := by
  obtain ⟨allMerch, inserted, names⟩ := kept.allMerch.insert hashable db.merchs.length
  rw [KeyedList.erase_of_find_eq_none absent] at names
  rw [Database.addMerchandise, kept.allMerch.lookup hashable, absent]
  simp only [inserted, bind, Except.bind]
  refine ⟨_, rfl, rfl, names, kept.allCarts, fun entry member => ?_, ?_, fun address object found => ?_,
    kept.cart, kept.cartsApart, fun cart member entry inside => ?_⟩
  · rcases List.mem_cons.mp member with rfl | later
    · exact ⟨_, List.getElem?_concat_length, rfl⟩
    · obtain ⟨object, found, named⟩ := kept.merch entry later
      exact ⟨object, by rwa [List.getElem?_append_left (kept.merch_lt later)], named⟩
  · refine List.nodup_cons.mpr ⟨fun member => ?_, kept.merchApart⟩
    obtain ⟨⟨other, _⟩, inside, rfl⟩ := List.mem_map.mp member
    exact absurd (kept.merch_lt inside) (Nat.lt_irrefl _)
  · dsimp only at found ⊢
    rcases eq_or_ne address db.merchs.length with rfl | different
    · rw [List.getElem?_concat_length] at found
      cases found
      rw [Function.update_self]
      exact ⟨Reads.create, by decide⟩
    · have bound := (List.getElem?_eq_some_iff.mp found).1
      rw [List.length_append, List.length_singleton] at bound
      rw [List.getElem?_append_left (by omega)] at found
      rw [Function.update_of_ne different]
      exact kept.shelves address object found
  · obtain ⟨bound, met⟩ := kept.entries cart member entry inside
    dsimp only
    rw [List.length_append]
    exact ⟨Nat.lt_add_right _ bound, met⟩

/-- `remove_from_cart`. -/
theorem removeFromCart (kept : Kept full meets db v)
    (positive : ∀ amount, 0 < amount → amount < 2 ^ 31 → meets amount)
    (hashable : ∀ address, (key, address) ∈ v.carts → HashableName name) (quantity : ℤ) :
    ∃ db' entries, db.removeFromCart full key name quantity = .ok db' ∧ db'.merchs = db.merchs ∧
      Kept full meets db' { v with entries } := by
  rw [Database.removeFromCart, kept.allCarts.lookup]
  cases found : KeyedList.find compareInt v.carts key with
  | none => exact ⟨db, v.entries, rfl, rfl, kept⟩
  | some address =>
    have member := kept.carts_iff.mp found
    have hashable' := hashable address member
    obtain ⟨table, read, names⟩ := kept.readCart member
    simp only [read, names.lookup hashable', bind, Except.bind]
    cases held : KeyedList.find compareString (v.entries address) name with
    | none => exact ⟨db, v.entries, rfl, rfl, kept⟩
    | some pair =>
      have stored := kept.entries _ member
      obtain ⟨known, _⟩ := stored _ ((find_string_iff names.distinct).mp held)
      have erased : ∀ entry ∈ KeyedList.erase compareString (v.entries address) name,
          entry.2.merch < db.merchs.length ∧ meets entry.2.amountInCart :=
        fun entry inside => stored entry (List.mem_filter.mp inside).1
      dsimp only
      split
      · obtain ⟨table', removed, names'⟩ := names.remove hashable'
        simp only [removed]
        exact ⟨_, _, rfl, rfl, kept.setCart names' erased⟩
      · next left =>
        obtain ⟨table', inserted, names'⟩ := names.insert hashable'
          ⟨pair.merch, toInt32 (pair.amountInCart - quantity)⟩
        simp only [inserted]
        refine ⟨_, _, rfl, rfl, kept.setCart names' fun entry inside => ?_⟩
        rcases List.mem_cons.mp inside with rfl | later
        · exact ⟨known, positive _ (not_le.mp left) (toInt32_range _).2⟩
        · exact erased entry later

section Removing

variable (kept : Kept full meets db v) (positive : ∀ amount, 0 < amount → amount < 2 ^ 31 → meets amount)
include kept positive

/-- `remove_merchandise_all_carts`. -/
theorem removeMerchandiseAllCarts (hashable : HashableName name) (count : v.carts.length < 2 ^ 31) (quantity : ℤ) :
    ∃ db' entries, db.removeMerchandiseAllCarts full name quantity = .ok db' ∧ db'.merchs = db.merchs ∧
      Kept full meets db' { v with entries } := by
  obtain ⟨keys, listed, collected, stores, _⟩ := Holds.keys (intFunctions_compares full) kept.allCarts count
  have advances : ∀ state : Database, ∀ cartKey ∈ listed.map Prod.fst,
      (state.merchs = db.merchs ∧ ∃ entries, Kept full meets state { v with entries }) →
        ∃ next, state.removeFromCart full cartKey name quantity = .ok next ∧
          next.merchs = db.merchs ∧ ∃ entries, Kept full meets next { v with entries } := by
    rintro state cartKey _ ⟨same, entries, kept₁⟩
    obtain ⟨next, entries', removed, same', kept₂⟩ :=
      kept₁.removeFromCart positive (fun _ _ => hashable) quantity
    exact ⟨next, removed, same'.trans same, entries', kept₂⟩
  obtain ⟨db', ran, same, entries, kept'⟩ := exists_foldlM _ advances ⟨rfl, v.entries, kept⟩
  refine ⟨db', entries, ?_, same, kept'⟩
  rw [Database.removeMerchandiseAllCarts, collected]
  exact (stores.iterate _ _).trans ran

/-- `remove_merchandise`, where an `int` counts the carts. -/
theorem removeMerchandise (hashable : HashableName name)
    (count : ∀ merch, (name, merch) ∈ v.names → v.carts.length < 2 ^ 31) :
    ∃ db' entries, db.removeMerchandise full name = .ok db' ∧ db'.merchs = db.merchs ∧
      Kept full meets db' { v with names := KeyedList.erase compareString v.names name, entries } := by
  rw [Database.removeMerchandise, kept.allMerch.lookup hashable]
  cases found : KeyedList.find compareString v.names name with
  | none =>
    rw [KeyedList.erase_of_find_eq_none found]
    exact ⟨db, v.entries, rfl, rfl, kept⟩
  | some merch =>
    have member := kept.names_iff.mp found
    obtain ⟨object, read, _, counted⟩ := kept.numForShelfs member
    obtain ⟨db₁, entries, removed, same, kept₁⟩ := kept.removeMerchandiseAllCarts positive hashable
      (count merch member) (toInt32 (stockOf (v.shelves merch)))
    obtain ⟨allMerch, erased, names⟩ := kept₁.allMerch.remove hashable
    simp only [read, counted, removed, erased, bind, Except.bind]
    refine ⟨_, entries, rfl, same, names, kept₁.allCarts, fun entry inside => ?_, ?_, kept₁.shelves, kept₁.cart,
      kept₁.cartsApart, kept₁.entries⟩
    · exact kept₁.merch entry (List.mem_filter.mp inside).1
    · exact kept₁.merchApart.sublist (List.Sublist.map _ List.filter_sublist)

/-- `remove_merchandise`, when it returns. -/
theorem of_removeMerchandise (ran : db.removeMerchandise full name = .ok db') :
    HashableName name ∧ (∀ merch, (name, merch) ∈ v.names → v.carts.length < 2 ^ 31) ∧
      ∃ entries, db'.merchs = db.merchs ∧ Kept full meets db' { v with
        names := KeyedList.erase compareString v.names name
        entries } := by
  have inverted := ran
  rw [Database.removeMerchandise] at inverted
  obtain ⟨found, looked, inverted⟩ := Machine.bind_ok_iff.mp inverted
  obtain ⟨hashable, same⟩ := kept.allMerch.of_lookup looked
  have count : ∀ merch, (name, merch) ∈ v.names → v.carts.length < 2 ^ 31 := by
    intro merch member
    rw [kept.names_iff.mpr member] at same
    subst same
    obtain ⟨_, _, inverted⟩ := Machine.bind_ok_iff.mp inverted
    obtain ⟨num, _, inverted⟩ := Machine.bind_ok_iff.mp inverted
    obtain ⟨_, removed, _⟩ := Machine.bind_ok_iff.mp inverted
    rw [Database.removeMerchandiseAllCarts] at removed
    obtain ⟨_, collected, _⟩ := Machine.bind_ok_iff.mp removed
    exact kept.allCarts.room_of_collect collected
  obtain ⟨_, entries, ran', same, kept'⟩ := kept.removeMerchandise positive hashable count
  cases ran.symm.trans ran'
  exact ⟨hashable, count, entries, same, kept'⟩

/-- `edit_merchandise` of a merchandise of the store: the copied shelves go to a new merchandise, or to
the one that has the new name. -/
theorem editMerchandise {newName : CString} (member : (name, merch) ∈ v.names) (count : v.carts.length < 2 ^ 31)
    (hashable : HashableName newName) (description : CString) (price : ℤ) :
    ∃ db' entries newShelfs, db.editMerchandise full name newName description price = .ok db' ∧
      Reads newShelfs (v.shelves merch).reverse ∧
      ((KeyedList.find compareString (KeyedList.erase compareString v.names name) newName = none ∧
          db'.merchs = db.merchs ++ [{ makeMerch newName description price with shelfs := newShelfs }] ∧
          Kept full meets db' { v with
            names := (newName, db.merchs.length) :: KeyedList.erase compareString v.names name
            shelves := Function.update v.shelves db.merchs.length (v.shelves merch).reverse
            entries }) ∨
        ∃ other object, (newName, other) ∈ KeyedList.erase compareString v.names name ∧
          db.merchs[other]? = some object ∧
          db'.merchs = db.merchs.set other { object with shelfs := newShelfs } ∧
          Kept full meets db' { v with
            names := KeyedList.erase compareString v.names name
            shelves := Function.update v.shelves other (v.shelves merch).reverse
            entries }) := by
  have known : HashableName name := kept.allMerch.hashable _ member
  obtain ⟨object, read, _, reads, small⟩ := kept.readMerch member
  obtain ⟨newShelfs, copied, stores⟩ := copyShelfs_ok reads small
  have small' : (v.shelves merch).reverse.length < 2 ^ 31 := by rwa [List.length_reverse]
  obtain ⟨db₁, entries, removed, same, kept₁⟩ := kept.removeMerchandise positive known fun _ _ => count
  rw [Database.editMerchandise, kept.allMerch.lookup known, kept.names_iff.mpr member]
  simp only [read, copied, removed, bind, Except.bind]
  cases found : KeyedList.find compareString (KeyedList.erase compareString v.names name) newName with
  | none =>
    obtain ⟨db₂, added, merchs, kept₂⟩ := kept₁.addMerchandise_new hashable found description price
    have looked := kept₂.allMerch.lookup hashable
    dsimp only at looked
    rw [KeyedList.find_cons, if_pos (compareString_iff.mpr rfl)] at looked
    have last : db₂.merchs[db₁.merchs.length]? = some (makeMerch newName description price) := by
      rw [merchs]
      exact List.getElem?_concat_length
    have written : db₂.setShelfs db₁.merchs.length newShelfs = .ok { db₂ with
        merchs := db₂.merchs.set db₁.merchs.length
          { makeMerch newName description price with shelfs := newShelfs } } := by
      simp only [Database.setShelfs, Database.merch, last, bind, Except.bind]
    have kept₃ := kept₂.setShelfs stores.reads small' written
    simp only [View.setShelves, Function.update_idem, same] at kept₃
    rw [merchs, same] at written kept₃
    simp only [added, looked, deref, same, written]
    exact ⟨_, entries, newShelfs, rfl, stores.reads, .inl ⟨trivial, by simp, kept₃⟩⟩
  | some other =>
    have there := kept₁.names_iff.mp found
    obtain ⟨object', found', _⟩ := kept₁.merch _ there
    have written : db₁.setShelfs other newShelfs =
        .ok { db₁ with merchs := db₁.merchs.set other { object' with shelfs := newShelfs } } := by
      simp only [Database.setShelfs, Database.merch, found', bind, Except.bind]
    have kept₃ := kept₁.setShelfs stores.reads small' written
    simp only [kept₁.addMerchandise_known there, kept₁.allMerch.lookup hashable, found, deref, written]
    refine ⟨_, entries, newShelfs, rfl, stores.reads, .inr ⟨other, object', there, ?_, ?_, kept₃⟩⟩
    · rw [← same]
      exact found'
    · rw [← same]

/-- `edit_merchandise`, when it returns. -/
theorem of_editMerchandise {newName description : CString} {price : ℤ}
    (ran : db.editMerchandise full name newName description price = .ok db') :
    HashableName name ∧
      (∀ merch, (name, merch) ∈ v.names → v.carts.length < 2 ^ 31 ∧ HashableName newName) ∧
      ∃ v', Kept full meets db' v' := by
  have inverted := ran
  rw [Database.editMerchandise] at inverted
  obtain ⟨found, looked, inverted⟩ := Machine.bind_ok_iff.mp inverted
  obtain ⟨hashable, same⟩ := kept.allMerch.of_lookup looked
  cases found with
  | none =>
    cases inverted
    refine ⟨hashable, fun merch member => ?_, v, kept⟩
    rw [kept.names_iff.mpr member] at same
    cases same
  | some merch =>
    have member := kept.names_iff.mp same
    obtain ⟨_, _, inverted⟩ := Machine.bind_ok_iff.mp inverted
    obtain ⟨_, _, inverted⟩ := Machine.bind_ok_iff.mp inverted
    obtain ⟨db₁, removed, inverted⟩ := Machine.bind_ok_iff.mp inverted
    obtain ⟨db₂, added, _⟩ := Machine.bind_ok_iff.mp inverted
    obtain ⟨_, counted, _, _, kept₁⟩ := kept.of_removeMerchandise positive removed
    rw [Database.addMerchandise] at added
    obtain ⟨_, looked', _⟩ := Machine.bind_ok_iff.mp added
    have hashable' := (kept₁.allMerch.of_lookup looked').1
    have count := counted merch member
    refine ⟨hashable, fun _ _ => ⟨count, hashable'⟩, ?_⟩
    obtain ⟨_, _, _, ran', _, ⟨_, _, kept'⟩ | ⟨_, _, _, _, _, kept'⟩⟩ :=
      kept.editMerchandise positive member count hashable' description price
    · cases ran.symm.trans ran'
      exact ⟨_, kept'⟩
    · cases ran.symm.trans ran'
      exact ⟨_, kept'⟩

end Removing

end Kept

end GarbageCollector.Proofs
