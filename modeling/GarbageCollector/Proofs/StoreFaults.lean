import GarbageCollector.Proofs.ClosedLists

/-! # How the calls of the store fail

Where its names can be hashed, a call returns, or an `int` that counts the keys, the values or the shelves in a
list leaves its range. Only `checkout` can fail in another way: `decrease_stock` may find no shelf to take from,
or may not end. No call reads or writes outside a table, a list or a string.
-/

namespace GarbageCollector.Proofs

open Model

variable {full : ℕ → ℕ → Bool} {meets : ℤ → Prop} {db : Database} {v : View} {name newName shelf : CString}
  {key : ℤ} {call : StoreCall}

/-- An `int` leaves its range. -/
def Overflow (fault : DemoFault) : Prop := fault = .signedOverflow

/-- The faults that a call may stop with. -/
def Faults (call : StoreCall) (fault : DemoFault) : Prop :=
  Overflow fault ∨ (∃ cartKey, call = .checkout cartKey) ∧ (fault = .nullDereference ∨ fault = .diverges)

/-- The names that the call may look up. -/
def hashedNames : StoreCall → List CString
  | .addMerchandise name _ _ => [name]
  | .removeMerchandise name => [name]
  | .editMerchandise name newName _ _ => [name, newName]
  | .replenish name _ _ => [name]
  | .createCart _ => []
  | .removeCart _ => []
  | .addToCart _ merchName _ => [merchName]
  | .removeFromCart _ merchName _ => [merchName]
  | .checkout _ => []

theorem overflow_of_ends {α : Type} {result : Except DemoFault α} {small : Prop}
    (ends : Machine.Ends Overflow (fun _ => small) result) (large : ¬ small) :
    result = .error .signedOverflow := by
  cases ends with
  | ok small => exact absurd small large
  | error overflow => exact congrArg Except.error overflow

theorem ends_of_exists {α : Type} {allowed : DemoFault → Prop} {post : α → Prop} {result : Except DemoFault α}
    (returns : ∃ value, result = .ok value ∧ post value) : Machine.Ends allowed post result := by
  obtain ⟨value, rfl, holds⟩ := returns
  exact .ok holds

section Collect

variable {K V β : Type} {f : TableFunctions K} {usable : ℕ → Prop} {ht : HashTable K V} {contents : List (K × V)}
  {entries : List (Entry K V)} {field : Entry K V → β} {read : K × V → β} {list : LinkedList β} {values : List β}
  {start : Option ℕ} {cells : List (ℕ × (K × V))} {fuel : ℕ}

/-- A chain is appended, unless there are too many links. -/
theorem collectChain_ends (segment : Segment (arenaCell entryView entries) start cells none)
    (stores : Stores list values) (fueled : cells.length ≤ fuel) :
    Machine.Ends Overflow (fun list' => ∃ values', Stores list' values')
      (HashTable.collectChain field entries fuel start list) := by
  induction cells generalizing start list values fuel with
  | nil =>
    obtain rfl := Segment.nil_iff.mp segment
    cases fuel <;> exact .ok ⟨values, stores⟩
  | cons head rest ih =>
    obtain ⟨fuel, rfl⟩ := Nat.exists_eq_succ_of_ne_zero (Nat.ne_of_gt (Nat.zero_lt_of_lt fueled))
    obtain ⟨address, key, value⟩ := head
    obtain ⟨rfl, next, found, tail⟩ := segment
    rw [HashTable.collectChain, readEntry_some found, Machine.ok_bind]
    obtain ⟨list', stores', appended⟩ := stores.append_eq (field ⟨key, some value, next⟩)
    rw [appended]
    have counted := checkedInt_cases ((values.length : ℤ) + 1)
    cases counted with
    | inl fits =>
      rw [fits.1]
      exact ih tail stores' (Nat.le_of_succ_le_succ fueled)
    | inr overflows =>
      rw [overflows]
      exact .error rfl

/-- The keys or the values of a table are listed, unless there are too many. -/
theorem Holds.collect_ends (compares : ComparesKeys f) (holds : Holds f usable ht contents) :
    Machine.Ends Overflow (fun _ => contents.length < 2 ^ 31) (ht.collect field) := by
  have ends : Machine.Ends Overflow (fun list => ∃ values, Stores list values) (ht.collect field) := by
    obtain ⟨chains, arranged, perm⟩ := holds.arranged
    apply Machine.ends_foldlM (fun list => ∃ values, Stores list values)
    · rintro list index member ⟨values, stores⟩
      exact collectChain_ends (arranged.chain index (List.mem_range.mp member)) stores
        (arranged.length_lt compares (List.mem_range.mp member)).le
    · exact ⟨[], Stores.create⟩
  cases ran : ht.collect field with
  | error fault =>
    rw [ran] at ends
    exact ends.of_error
  | ok list => exact .ok (holds.room_of_collect ran)

/-- A loop over the values of a table keeps what its body keeps. -/
theorem Holds.values_ends {State : Type} {allowed : DemoFault → Prop}
    {body : State → Option V → Except DemoFault State}
    {state : State} (compares : ComparesKeys f) (holds : Holds f usable ht contents) (invariant : State → Prop)
    (overflow : ∀ fault, Overflow fault → allowed fault)
    (kept : ∀ state, ∀ entry ∈ contents, invariant state →
      Machine.Ends allowed invariant (body state (some entry.2)))
    (initial : invariant state) : Machine.Ends allowed invariant (do
      let values ← ht.values
      values.iterate body state) := by
  have ends : Machine.Ends Overflow (fun _ => contents.length < 2 ^ 31) ht.values := holds.collect_ends compares
  by_cases room : contents.length < 2 ^ 31
  · obtain ⟨list, listed, collected, stores, perm⟩ := holds.values compares room
    rw [collected, Machine.ok_bind, stores.iterate]
    apply Machine.ends_foldlM invariant _ initial
    intro state value member invariant
    obtain ⟨entry, inside, rfl⟩ := List.mem_map.mp member
    exact kept state entry (perm.mem_iff.mp inside) invariant
  · rw [overflow_of_ends ends room]
    exact .error (overflow _ rfl)

end Collect

section Lists

variable {α : Type} {list : LinkedList α} {values : List α}

theorem checkedInt_map_cases {value : ℤ} {grown : α} :
    (∃ grown', (checkedInt value).map (fun _ => grown) = .ok grown') ∨
    (checkedInt value).map (fun _ => grown) = .error .signedOverflow := by
  have counted := checkedInt_cases value
  cases counted with
  | inl fits => exact .inl ⟨grown, by rw [fits.1]; rfl⟩
  | inr overflows => exact .inr (by rw [overflows]; rfl)

theorem Reads.prepend_cases (reads : Reads list values) (value : α) :
    (∃ longer, list.prepend value = .ok longer) ∨ list.prepend value = .error .signedOverflow := by
  obtain ⟨longer, _, result⟩ := reads.prepend_eq value
  rw [result]
  exact checkedInt_map_cases

theorem Reads.append_cases (reads : Reads list values) (value : α) :
    (∃ longer, list.append value = .ok longer) ∨ list.append value = .error .signedOverflow := by
  obtain ⟨longer, _, _, result⟩ := reads.append_eq value
  rw [result]
  exact checkedInt_map_cases

end Lists

/-- `index_for_shelf_pair` returns some index. -/
theorem indexFrom_segment {shelfs : LinkedList ShelfPair} {front back : List (ℕ × ShelfPair)} {start : Option ℕ}
    (segment : Segment (arenaCell linkView shelfs.links) start (front ++ back) none) (i : ℤ) :
    ∃ index, indexFrom shelfs name start i front.length = .ok index := by
  induction front generalizing start i with
  | nil => exact ⟨-1, rfl⟩
  | cons head rest ih =>
    obtain ⟨address, pair⟩ := head
    obtain ⟨rfl, next, found, tail⟩ := segment
    rw [List.length_cons, indexFrom, link_some found, Machine.ok_bind]
    split
    · exact ⟨i, rfl⟩
    · rw [iteratorNext_segment found tail, Machine.ok_bind]
      cases next with
      | none =>
        obtain ⟨rfl, _⟩ := List.append_eq_nil_iff.mp tail.eq_nil_of_none
        exact ⟨-1, rfl⟩
      | some following => exact ih tail (i + 1)

theorem indexForShelfPair_reads {shelfs : LinkedList ShelfPair} {shelves : List ShelfPair}
    (reads : Reads shelfs shelves) : ∃ index, indexForShelfPair shelfs shelf = .ok index := by
  obtain ⟨front, back, laid, _, size⟩ := reads
  have chain : Segment (arenaCell linkView shelfs.links) shelfs.first (front ++ back) none := laid.chain
  rw [indexForShelfPair, size, Int.toNat_natCast]
  exact indexFrom_segment chain 0

namespace Kept

variable (kept : Kept full meets db v)
include kept

theorem addMerchandise (hashable : HashableName name) (description : CString) (price : ℤ) :
    ∃ db', db.addMerchandise full name description price = .ok db' := by
  cases found : KeyedList.find compareString v.names name with
  | none =>
    obtain ⟨db', added, _⟩ := kept.addMerchandise_new hashable found description price
    exact ⟨db', added⟩
  | some merch => exact ⟨db, kept.addMerchandise_known (kept.names_iff.mp found)⟩

/-- The keys of too many carts are not listed. -/
theorem removeMerchandise_overflow {merch : ℕ} (member : (name, merch) ∈ v.names)
    (large : ¬ v.carts.length < 2 ^ 31) :
    db.removeMerchandise full name = .error .signedOverflow := by
  have hashable : HashableName name := kept.allMerch.hashable _ member
  obtain ⟨object, read, _, counted⟩ := kept.numForShelfs member
  have keys : db.allCarts.keys = .error .signedOverflow :=
    overflow_of_ends (Holds.collect_ends (intFunctions_compares full) kept.allCarts) large
  rw [Database.removeMerchandise, kept.allMerch.lookup hashable, kept.names_iff.mpr member]
  simp only [read, counted, Machine.ok_bind, Database.removeMerchandiseAllCarts, keys]
  rfl

section Removing

variable (positive : ∀ amount, 0 < amount → amount < 2 ^ 31 → meets amount)
include positive

theorem removeMerchandise_ends (hashable : HashableName name) :
    Machine.Ends Overflow (fun _ => True) (db.removeMerchandise full name) := by
  by_cases count : ∀ merch, (name, merch) ∈ v.names → v.carts.length < 2 ^ 31
  · obtain ⟨db', _, removed, _⟩ := kept.removeMerchandise positive hashable count
    exact ends_of_exists ⟨db', removed, trivial⟩
  · push Not at count
    obtain ⟨merch, member, large⟩ := count
    rw [kept.removeMerchandise_overflow member (by omega)]
    exact .error rfl

theorem editMerchandise_ends (hashable : HashableName name) (hashable' : HashableName newName)
    (description : CString) (price : ℤ) :
    Machine.Ends Overflow (fun _ => True) (db.editMerchandise full name newName description price) := by
  cases found : KeyedList.find compareString v.names name with
  | none =>
    rw [Database.editMerchandise, kept.allMerch.lookup hashable, found]
    exact .ok trivial
  | some merch =>
    have member := kept.names_iff.mp found
    by_cases count : v.carts.length < 2 ^ 31
    · obtain ⟨db', _, _, edited, _⟩ := kept.editMerchandise positive member count hashable' description price
      exact ends_of_exists ⟨db', edited, trivial⟩
    · obtain ⟨object, read, _, reads, small⟩ := kept.readMerch member
      obtain ⟨newShelfs, copied, _⟩ := copyShelfs_ok reads small
      rw [Database.editMerchandise, kept.allMerch.lookup hashable, found]
      simp only [read, copied, kept.removeMerchandise_overflow member count, Machine.ok_bind]
      exact .error rfl

end Removing

theorem setShelfs_ends {merch : ℕ} (member : (name, merch) ∈ v.names) (shelfs : LinkedList ShelfPair) :
    Machine.Ends Overflow (fun _ => True) (db.setShelfs merch shelfs) := by
  obtain ⟨object, read, _⟩ := kept.readMerch member
  rw [Database.setShelfs, read]
  exact .ok trivial

theorem replenish_ends (hashable : HashableName name) (shelf : CString) (amount : ℤ) :
    Machine.Ends Overflow (fun _ => True) (db.replenish full name shelf amount) := by
  rw [Database.replenish, kept.allMerch.lookup hashable]
  cases found : KeyedList.find compareString v.names name with
  | none => exact .ok trivial
  | some merch =>
    have member := kept.names_iff.mp found
    obtain ⟨object, read, _, reads, count⟩ := kept.readMerch member
    rw [Machine.ok_bind]
    dsimp only
    split
    · rw [read, Machine.ok_bind]
      obtain ⟨index, indexed⟩ : ∃ index, indexForShelfPair object.shelfs shelf = .ok index :=
        indexForShelfPair_reads reads
      rw [indexed, Machine.ok_bind]
      split
      · rcases reads.prepend_cases ⟨shelf, amount⟩ with ⟨longer, ran⟩ | overflows
        · rw [ran, Machine.ok_bind]
          exact kept.setShelfs_ends member longer
        · rw [overflows]
          exact .error rfl
      · next known =>
        have inside := (indexFrom_range indexed).resolve_left fun absent => known (by omega)
        rw [reads.size, Int.toNat_natCast] at inside
        obtain ⟨place, rfl⟩ := Int.eq_ofNat_of_zero_le inside.1
        have bound : place < (v.shelves merch).length := by omega
        obtain ⟨_, removed, reads₁⟩ := reads.remove (List.getElem?_eq_getElem bound) count.le
        rw [removed, Machine.ok_bind]
        dsimp only
        rcases reads₁.append_cases _ with ⟨longer, ran⟩ | overflows
        · rw [ran, Machine.ok_bind]
          exact kept.setShelfs_ends member longer
        · rw [overflows]
          exact .error rfl
    · exact .ok trivial

theorem numOfMerchInCarts_ends : Machine.Ends Overflow (fun _ => True) db.numOfMerchInCarts := by
  rw [Database.numOfMerchInCarts]
  apply Holds.values_ends (intFunctions_compares full) kept.allCarts (fun _ => True) (fun _ faulty => faulty) _
    trivial
  intro total cart member _
  obtain ⟨table, read, names⟩ := kept.readCart member
  simp only [deref, Machine.ok_bind, read]
  have counted : Machine.Ends Overflow (fun _ => True) (numOfMerchInOneCart table) := by
    rw [numOfMerchInOneCart]
    apply names.holds.values_ends (stringFunctions_compares full) (fun _ => True) (fun _ faulty => faulty) _
      trivial
    intro counter entry _ _
    exact .ok trivial
  apply counted.bind
  intro counter _
  exact .ok trivial

theorem addToCart_ends (hashable : HashableName name) (key quantity : ℤ) :
    Machine.Ends Overflow (fun _ => True) (db.addToCart full key name quantity) := by
  have looked := kept.allMerch.lookup hashable
  cases found : KeyedList.find compareString v.names name with
  | none =>
    rw [Database.addToCart, Database.addToCartOutcome, looked, found]
    exact .ok trivial
  | some merch =>
    cases carts : KeyedList.find compareInt v.carts key with
    | none =>
      rw [Database.addToCart, Database.addToCartOutcome, looked, found, kept.allCarts.lookup, carts]
      exact .ok trivial
    | some address =>
      have known := kept.names_iff.mp found
      have member := kept.carts_iff.mp carts
      have ends := kept.numOfMerchInCarts_ends
      cases counted : db.numOfMerchInCarts with
      | error fault =>
        rw [counted] at ends
        obtain ⟨table, read, names⟩ := kept.readCart member
        rw [Database.addToCart, Database.addToCartOutcome, looked, found, kept.allCarts.lookup, carts]
        simp only [Machine.ok_bind, read, names.lookup hashable, counted]
        exact ends.of_error
      | ok inCarts =>
        obtain ⟨_, _, db', _, reported, _⟩ := kept.addToCartOutcome known member counted quantity
        rw [Database.addToCart, reported]
        exact .ok trivial

/-- `decrease_stock` of a merchandise of the store. -/
theorem decreaseStock_ends {merch : ℕ} (enclosed : Enclosed db) (bound : merch < db.merchs.length) (amount : ℤ) :
    Machine.Ends (fun fault => fault = .nullDereference ∨ fault = .diverges)
      (fun db' => Enclosed db' ∧ db'.merchs.length = db.merchs.length ∧ ∃ v', Kept full meets db' v')
      (db.decreaseStock merch amount) := by
  have read : db.merch merch = .ok db.merchs[merch] := by
    simp only [Database.merch, List.getElem?_eq_getElem bound]
  have closed := enclosed.read read
  have ends := closed.decreaseFrom closed.first amount (db.merchs[merch].shelfs.links.length + 1)
  cases ran : db.decreaseStock merch amount with
  | ok db' =>
    refine .ok ⟨enclosed.decreaseStock ran, ?_, kept.of_decreaseStock ran⟩
    rw [Database.decreaseStock] at ran
    obtain ⟨_, _, ran⟩ := Machine.bind_ok_iff.mp ran
    obtain ⟨_, _, ran⟩ := Machine.bind_ok_iff.mp ran
    obtain ⟨_, _, ran⟩ := Machine.bind_ok_iff.mp ran
    cases ran
    exact List.length_set
  | error fault =>
    rw [Database.decreaseStock, read, Machine.ok_bind] at ran
    cases decreased : decreaseFrom db.merchs[merch].shelfs db.merchs[merch].shelfs.first amount
        (db.merchs[merch].shelfs.links.length + 1) with
    | error fault' =>
      rw [decreased] at ran ends
      cases ran
      exact ends.of_error
    | ok shelfs =>
      rw [decreased, Machine.ok_bind, Database.setShelfs, read] at ran
      cases ran

theorem checkout_ends (enclosed : Enclosed db) (key : ℤ) :
    Machine.Ends (Faults (.checkout key)) (fun _ => True) (db.checkout full key) := by
  rw [Database.checkout, kept.allCarts.lookup]
  cases carts : KeyedList.find compareInt v.carts key with
  | none => exact .ok trivial
  | some address =>
    have member := kept.carts_iff.mp carts
    obtain ⟨table, read, names⟩ := kept.readCart member
    rw [Machine.ok_bind]
    dsimp only
    rw [read, Machine.ok_bind, ← bind_assoc]
    have sells : Machine.Ends (Faults (.checkout key))
        (fun state => Enclosed state ∧ state.merchs.length = db.merchs.length ∧ ∃ v', Kept full meets state v') (do
          let cartPairs ← table.values
          cartPairs.iterate (fun db value => do
            let pair ← deref value
            db.decreaseStock pair.merch pair.amountInCart) db) := by
      apply names.holds.values_ends (stringFunctions_compares full) _ (fun _ faulty => .inl faulty) _
        ⟨enclosed, rfl, v, kept⟩
      rintro state entry inside ⟨enclosed', length, v', kept'⟩
      have bound := (kept.entries _ member entry inside).1
      have ends := kept'.decreaseStock_ends enclosed' (length ▸ bound) entry.2.amountInCart
      apply Machine.Ends.mono ends
      · rintro next ⟨enclosed₁, length₁, kept₁⟩
        exact ⟨enclosed₁, length₁.trans length, kept₁⟩
      · intro fault faulty
        exact .inr ⟨⟨key, rfl⟩, faulty⟩
    apply sells.bind
    rintro paid ⟨_, _, v', kept'⟩
    obtain ⟨db', removed, _⟩ := kept'.removeCart key
    rw [removed]
    exact .ok trivial

end Kept

/-- How a call on names that can be hashed ends. -/
theorem step_ends (kept : Kept full meets db v) (enclosed : Enclosed db)
    (positive : ∀ amount, 0 < amount → amount < 2 ^ 31 → meets amount)
    (hashable : ∀ name ∈ hashedNames call, HashableName name) :
    Machine.Ends (Faults call) (fun _ => True) (db.step full call) := by
  have counts (ends : Machine.Ends Overflow (fun _ => True) (db.step full call)) :
      Machine.Ends (Faults call) (fun _ => True) (db.step full call) :=
    ends.mono (fun _ holds => holds) fun _ faulty => .inl faulty
  cases call with
  | addMerchandise name description price =>
    obtain ⟨db', added⟩ := kept.addMerchandise (hashable name List.mem_cons_self) description price
    exact ends_of_exists ⟨db', added, trivial⟩
  | removeMerchandise name =>
    exact counts (kept.removeMerchandise_ends positive (hashable name List.mem_cons_self))
  | editMerchandise name newName description price =>
    have hashable' := hashable newName (List.mem_cons_of_mem _ List.mem_cons_self)
    have edits := kept.editMerchandise_ends positive (hashable name List.mem_cons_self) hashable' description price
    exact counts edits
  | replenish name shelf merchInput =>
    exact counts (kept.replenish_ends (hashable name List.mem_cons_self) shelf merchInput)
  | createCart cartKey =>
    obtain ⟨db', created, _⟩ := kept.createCart cartKey
    exact ends_of_exists ⟨db', created, trivial⟩
  | removeCart cartKey =>
    obtain ⟨db', removed, _⟩ := kept.removeCart cartKey
    exact ends_of_exists ⟨db', removed, trivial⟩
  | addToCart cartKey merchName quantity =>
    exact counts (kept.addToCart_ends (hashable merchName List.mem_cons_self) cartKey quantity)
  | removeFromCart cartKey merchName quantity =>
    obtain ⟨db', _, removed, _⟩ :=
      kept.removeFromCart positive (fun _ _ => hashable merchName List.mem_cons_self) quantity
    exact ends_of_exists ⟨db', removed, trivial⟩
  | checkout cartKey => exact kept.checkout_ends enclosed cartKey

end GarbageCollector.Proofs
