import GarbageCollector.Proofs.Restock
import GarbageCollector.Proofs.TableValues

/-! # The lists of shelves under every call

In a store that calls have built, the names lead to merchandise, and each list of shelves is linked, is
counted by an `int` and has no name twice. Every call that returns keeps this, whatever its amounts are and
whatever its carts hold, if a replenished shelf is not the last of several.
-/

namespace GarbageCollector.Proofs

open Model

/-- There is one shelf at most, or another one is the last. -/
def SparesLast (shelves : List ShelfPair) (shelf : CString) : Prop :=
  shelves.length ≤ 1 ∨ ∀ last ∈ shelves.getLast?, last.shelfName ≠ shelf

instance (shelves : List ShelfPair) (shelf : CString) : Decidable (SparesLast shelves shelf) := by
  unfold SparesLast
  infer_instance

/-- A linked list of shelves, each of its own name. -/
def Shelved (shelfs : LinkedList ShelfPair) : Prop :=
  ∃ shelves, Stores shelfs shelves ∧ (shelves.map ShelfPair.shelfName).Nodup ∧ shelves.length < 2 ^ 31

/-- The shelves of every merchandise, and the merchandise behind every name. -/
structure Stocked (db : Database) : Prop where
  shelved : ∀ merch ∈ db.merchs, Shelved merch.shelfs
  names : ValuesMeet (· < db.merchs.length) db.allMerch.entries

variable {full : ℕ → ℕ → Bool} {db db' : Database} {name shelf : CString} {amount key : ℤ} {address fuel : ℕ}
  {shelfs shelfs' : LinkedList ShelfPair} {shelves : List ShelfPair} {current : Option ℕ} {merch : Merch}

/-- A known shelf that is spared can be unlinked. -/
theorem SparesLast.unlinks (spares : SparesLast shelves shelf) : Unlinks shelves shelf := by
  intro index found
  obtain ⟨held, here⟩ := findIdx_shelf found
  obtain ⟨bound, _⟩ := List.getElem?_eq_some_iff.mp here
  by_contra last
  have position : shelves.length - 1 = index := by omega
  rcases spares with single | other
  · omega
  · refine other ⟨shelf, held⟩ ?_ rfl
    rw [Option.mem_def, List.getLast?_eq_getElem?, position, here]

namespace Shelved

theorem create : Shelved LinkedList.create := ⟨[], Stores.create, List.nodup_nil, by decide⟩

/-- A copy has the same shelves in reverse order. -/
theorem copy (shelved : Shelved shelfs) (copied : copyShelfs shelfs = .ok shelfs') : Shelved shelfs' := by
  obtain ⟨shelves, stores, apart, count⟩ := shelved
  obtain ⟨copy, copied', stores'⟩ := copyShelfs_ok stores.reads count
  cases copied.symm.trans copied'
  refine ⟨shelves.reverse, stores', ?_, by rwa [List.length_reverse]⟩
  rw [List.map_reverse, List.nodup_reverse]
  exact apart

/-- The amount on a shelf is overwritten. -/
theorem setStock {link : Link ShelfPair} {left : ℤ} (shelved : Shelved shelfs)
    (read : shelfs.link current = .ok link)
    (written : shelfs.setLink current { link with value := { link.value with numOfMerch := left } } =
      .ok shelfs') : Shelved shelfs' := by
  obtain ⟨shelves, stores, apart, count⟩ := shelved
  have alike : ShelfPair.shelfName { link.value with numOfMerch := left } = link.value.shelfName := rfl
  obtain ⟨shelves', stores', names⟩ := stores.overwrite ShelfPair.shelfName read alike written
  refine ⟨shelves', stores', ?_, ?_⟩
  · rwa [names]
  · have lengths := congrArg List.length names
    rw [List.length_map, List.length_map] at lengths
    rwa [lengths]

/-- The loop of `decrease_stock` with any amount. -/
theorem decreaseFrom (shelved : Shelved shelfs)
    (ran : Model.decreaseFrom shelfs current amount fuel = .ok shelfs') : Shelved shelfs' := by
  induction fuel generalizing shelfs current amount with
  | zero =>
    rw [Model.decreaseFrom] at ran
    split at ran
    · cases ran
      exact shelved
    · cases ran
  | succ fuel ih =>
    rw [Model.decreaseFrom] at ran
    split at ran
    · cases ran
      exact shelved
    · obtain ⟨link, read, ran⟩ := Machine.bind_ok_iff.mp ran
      obtain ⟨emptier, written, ran⟩ := Machine.bind_ok_iff.mp ran
      obtain ⟨next, _, ran⟩ := Machine.bind_ok_iff.mp ran
      exact ih (shelved.setStock read written) ran

end Shelved

theorem getElem?_of_merch (read : db.merch address = .ok merch) : db.merchs[address]? = some merch := by
  rw [Database.merch] at read
  split at read
  · cases read
  · next found =>
    cases read
    exact found

namespace Stocked

theorem create : Stocked Database.create where
  shelved _ member := absurd member List.not_mem_nil
  names _ member := absurd member List.not_mem_nil

/-- A name that is found leads to merchandise. -/
theorem read (stocked : Stocked db)
    (looked : db.allMerch.lookup (stringFunctions full) name = .ok (some address)) :
    ∃ merch, db.merch address = .ok merch ∧ Shelved merch.shelfs := by
  have inside : address < db.merchs.length := stocked.names.of_lookup looked
  have found := List.getElem?_eq_getElem inside
  exact ⟨_, by simp only [Database.merch, found], stocked.shelved _ (List.getElem_mem inside)⟩

/-- The shelves of a merchandise are written. -/
theorem set (stocked : Stocked db) (shelved : Shelved shelfs) :
    Stocked { db with merchs := db.merchs.set address { merch with shelfs } } where
  shelved other member := by
    rcases List.mem_or_eq_of_mem_set member with before | rfl
    · exact stocked.shelved other before
    · exact shelved
  names := by
    rw [List.length_set]
    exact stocked.names

theorem setShelfs (stocked : Stocked db) (shelved : Shelved shelfs)
    (ran : db.setShelfs address shelfs = .ok db') : Stocked db' := by
  rw [Database.setShelfs] at ran
  obtain ⟨merch, read, ran⟩ := Machine.bind_ok_iff.mp ran
  cases ran
  exact stocked.set shelved

theorem addMerchandise {description : CString} {price : ℤ} (stocked : Stocked db)
    (ran : db.addMerchandise full name description price = .ok db') : Stocked db' := by
  rw [Database.addMerchandise] at ran
  obtain ⟨found, _, ran⟩ := Machine.bind_ok_iff.mp ran
  cases found with
  | some address =>
    cases ran
    exact stocked
  | none =>
    obtain ⟨allMerch, inserted, ran⟩ := Machine.bind_ok_iff.mp ran
    cases ran
    constructor
    · intro merch member
      rcases List.mem_append.mp member with before | new
      · exact stocked.shelved merch before
      · rw [List.mem_singleton.mp new]
        exact Shelved.create
    · rw [List.length_append, List.length_singleton]
      have wider : ValuesMeet (· < db.merchs.length + 1) db.allMerch.entries :=
        fun entry member value inside => Nat.lt_succ_of_lt (stocked.names entry member value inside)
      exact wider.insert (fun value same => by cases same; exact Nat.lt_succ_self _) inserted

theorem removeFromCart (stocked : Stocked db) (ran : db.removeFromCart full key name amount = .ok db') :
    Stocked db' := by
  rw [Database.removeFromCart] at ran
  obtain ⟨found, _, ran⟩ := Machine.bind_ok_iff.mp ran
  cases found with
  | none =>
    cases ran
    exact stocked
  | some address =>
    obtain ⟨cart, _, ran⟩ := Machine.bind_ok_iff.mp ran
    obtain ⟨pair, _, ran⟩ := Machine.bind_ok_iff.mp ran
    cases pair with
    | none =>
      cases ran
      exact stocked
    | some pair =>
      dsimp only at ran
      split at ran
      · obtain ⟨removed, _, ran⟩ := Machine.bind_ok_iff.mp ran
        cases ran
        exact ⟨stocked.shelved, stocked.names⟩
      · obtain ⟨inserted, _, ran⟩ := Machine.bind_ok_iff.mp ran
        cases ran
        exact ⟨stocked.shelved, stocked.names⟩

theorem removeMerchandiseAllCarts (stocked : Stocked db)
    (ran : db.removeMerchandiseAllCarts full name amount = .ok db') : Stocked db' := by
  rw [Database.removeMerchandiseAllCarts] at ran
  obtain ⟨allCartKeys, _, ran⟩ := Machine.bind_ok_iff.mp ran
  exact iterateFrom_invariant Stocked (fun _ _ _ kept removed => kept.removeFromCart removed) stocked ran

theorem removeMerchandise (stocked : Stocked db) (ran : db.removeMerchandise full name = .ok db') :
    Stocked db' := by
  rw [Database.removeMerchandise] at ran
  obtain ⟨found, _, ran⟩ := Machine.bind_ok_iff.mp ran
  cases found with
  | none =>
    cases ran
    exact stocked
  | some address =>
    obtain ⟨merch, _, ran⟩ := Machine.bind_ok_iff.mp ran
    obtain ⟨num, _, ran⟩ := Machine.bind_ok_iff.mp ran
    obtain ⟨emptied, removed, ran⟩ := Machine.bind_ok_iff.mp ran
    obtain ⟨⟨_, allMerch⟩, erased, ran⟩ := Machine.bind_ok_iff.mp ran
    cases ran
    have kept := stocked.removeMerchandiseAllCarts removed
    exact ⟨kept.shelved, kept.names.remove erased⟩

theorem editMerchandise {newName description : CString} {price : ℤ} (stocked : Stocked db)
    (ran : db.editMerchandise full name newName description price = .ok db') : Stocked db' := by
  rw [Database.editMerchandise] at ran
  obtain ⟨found, looked, ran⟩ := Machine.bind_ok_iff.mp ran
  cases found with
  | none =>
    cases ran
    exact stocked
  | some address =>
    obtain ⟨merch, read, ran⟩ := Machine.bind_ok_iff.mp ran
    obtain ⟨newShelfs, copied, ran⟩ := Machine.bind_ok_iff.mp ran
    obtain ⟨without, removed, ran⟩ := Machine.bind_ok_iff.mp ran
    obtain ⟨renamed, added, ran⟩ := Machine.bind_ok_iff.mp ran
    obtain ⟨found', _, ran⟩ := Machine.bind_ok_iff.mp ran
    obtain ⟨newMerch, _, ran⟩ := Machine.bind_ok_iff.mp ran
    have shelved := stocked.shelved merch (List.mem_of_getElem? (getElem?_of_merch read))
    exact ((stocked.removeMerchandise removed).addMerchandise added).setShelfs (shelved.copy copied) ran

/-- `replenish` of another shelf than the last of several. -/
theorem replenish (stocked : Stocked db) (spares : isShelf shelf = true → ∀ address,
      db.allMerch.lookup (stringFunctions full) name = .ok (some address) → ∀ merch shelves,
        db.merch address = .ok merch → Stores merch.shelfs shelves → SparesLast shelves shelf)
    (ran : db.replenish full name shelf amount = .ok db') : Stocked db' := by
  have ran' := ran
  rw [Database.replenish] at ran
  obtain ⟨found, looked, ran⟩ := Machine.bind_ok_iff.mp ran
  cases found with
  | none =>
    cases ran
    exact stocked
  | some address =>
    dsimp only at ran
    split at ran
    · next valid =>
      obtain ⟨merch, read, shelves, stores, apart, count⟩ := stocked.read looked
      obtain ⟨shelfs', stores', result⟩ :=
        replenish_eq amount looked valid read stores count
          (spares valid address looked merch shelves read stores).unlinks
      rw [result] at ran'
      rcases lt_or_ge (restocked shelves shelf amount).length (2 ^ 31) with room | overflows
      · rw [checkedInt_ok (by omega) (by omega)] at ran'
        cases ran'
        exact stocked.set ⟨_, stores', nodup_restocked apart, room⟩
      · rw [checkedInt_overflow (by omega)] at ran'
        cases ran'
    · cases ran
      exact stocked

theorem createCart (stocked : Stocked db) (ran : db.createCart full key = .ok db') : Stocked db' := by
  rw [Database.createCart] at ran
  obtain ⟨allCarts, _, ran⟩ := Machine.bind_ok_iff.mp ran
  cases ran
  exact ⟨stocked.shelved, stocked.names⟩

theorem removeCart (stocked : Stocked db) (ran : db.removeCart full key = .ok db') : Stocked db' := by
  rw [Database.removeCart] at ran
  obtain ⟨found, _, ran⟩ := Machine.bind_ok_iff.mp ran
  cases found with
  | none =>
    cases ran
    exact stocked
  | some address =>
    obtain ⟨removed, _, ran⟩ := Machine.bind_ok_iff.mp ran
    cases ran
    exact ⟨stocked.shelved, stocked.names⟩

/-- The last test of `add_to_cart`. -/
theorem putInCart {quantity : ℤ} {cart : HashTable CString CartPair} {num : Except DemoFault ℤ}
    {inserted : Except DemoFault (HashTable CString CartPair)} {outcome : AddOutcome} (stocked : Stocked db)
    (ran : (do
      let numForMerch ← num
      if quantity ≤ numForMerch then do
        let cart ← inserted
        .ok (AddOutcome.added, db.setCart address cart)
      else .ok (AddOutcome.notEnoughInStock numForMerch, db.setCart address cart)) = .ok (outcome, db')) :
    Stocked db' := by
  obtain ⟨numForMerch, _, ran⟩ := Machine.bind_ok_iff.mp ran
  split at ran
  · obtain ⟨filled, _, ran⟩ := Machine.bind_ok_iff.mp ran
    cases ran
    exact ⟨stocked.shelved, stocked.names⟩
  · cases ran
    exact ⟨stocked.shelved, stocked.names⟩

theorem addToCart (stocked : Stocked db) (ran : db.addToCart full key name amount = .ok db') : Stocked db' := by
  rw [Database.addToCart] at ran
  obtain ⟨⟨outcome, _⟩, reported, rfl⟩ := Machine.map_ok_iff.mp ran
  rw [Database.addToCartOutcome] at reported
  obtain ⟨found, _, ran⟩ := Machine.bind_ok_iff.mp reported
  cases found with
  | none =>
    cases ran
    exact stocked
  | some merchAddress =>
    obtain ⟨found, _, ran⟩ := Machine.bind_ok_iff.mp ran
    cases found with
    | none =>
      cases ran
      exact stocked
    | some address =>
      obtain ⟨cart, _, ran⟩ := Machine.bind_ok_iff.mp ran
      obtain ⟨pair, _, ran⟩ := Machine.bind_ok_iff.mp ran
      obtain ⟨inCarts, _, ran⟩ := Machine.bind_ok_iff.mp ran
      obtain ⟨merch, _, ran⟩ := Machine.bind_ok_iff.mp ran
      obtain ⟨stock, _, ran⟩ := Machine.bind_ok_iff.mp ran
      split at ran
      · cases pair with
        | none => exact stocked.putInCart ran
        | some pair =>
          obtain ⟨removed, _, ran⟩ := Machine.bind_ok_iff.mp ran
          exact stocked.putInCart ran
      · cases ran
        exact stocked

theorem decreaseStock (stocked : Stocked db) (ran : db.decreaseStock address amount = .ok db') : Stocked db' := by
  rw [Database.decreaseStock] at ran
  obtain ⟨merch, read, ran⟩ := Machine.bind_ok_iff.mp ran
  obtain ⟨shelfs, decreased, ran⟩ := Machine.bind_ok_iff.mp ran
  have shelved := stocked.shelved merch (List.mem_of_getElem? (getElem?_of_merch read))
  exact stocked.setShelfs (shelved.decreaseFrom decreased) ran

theorem checkout (stocked : Stocked db) (ran : db.checkout full key = .ok db') : Stocked db' := by
  rw [Database.checkout] at ran
  obtain ⟨found, _, ran⟩ := Machine.bind_ok_iff.mp ran
  cases found with
  | none =>
    cases ran
    exact stocked
  | some address =>
    obtain ⟨cart, _, ran⟩ := Machine.bind_ok_iff.mp ran
    obtain ⟨cartPairs, _, ran⟩ := Machine.bind_ok_iff.mp ran
    obtain ⟨paid, decreased, ran⟩ := Machine.bind_ok_iff.mp ran
    have kept : Stocked paid := by
      apply iterateFrom_invariant Stocked ?_ stocked decreased
      intro _ _ _ kept ran
      obtain ⟨pair, _, ran⟩ := Machine.bind_ok_iff.mp ran
      exact kept.decreaseStock ran
    exact kept.removeCart ran

end Stocked

end GarbageCollector.Proofs
