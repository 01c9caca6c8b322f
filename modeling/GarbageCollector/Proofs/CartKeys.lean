import GarbageCollector.Machine.Outcome
import GarbageCollector.Proofs.StoreRuns

/-! # The keys of the carts

Only `create_cart`, `remove_cart` and `checkout` write to the table of carts, and only the first adds a key. So
every cart of a store has a key under which some call created it.
-/

namespace GarbageCollector.Proofs

open Model

variable {full : ℕ → ℕ → Bool} {db db' : Database} {calls : List StoreCall} {call : StoreCall} {keys : List ℤ}
  {result : Except DemoFault Database} {γ : Type} {field : Database → γ}

/-- The result has the field of the database. -/
def Keeps (field : Database → γ) (db : Database) (result : Except DemoFault Database) : Prop :=
  Machine.Ends (fun _ => True) (fun db' => field db' = field db) result

namespace Keeps

theorem self : Keeps field db (.ok db) := .ok rfl

theorem eq (keeps : Keeps field db (.ok db')) : field db' = field db := by
  cases keeps with
  | ok same => exact same

/-- What is read along the way does not matter. -/
theorem after {α : Type} {read : Except DemoFault α} {next : α → Except DemoFault Database}
    (continues : ∀ value, Keeps field db (next value)) : Keeps field db (read >>= next) :=
  Machine.Ends.bind Machine.ends_trivial fun value _ => continues value

/-- Nor when the result comes with something else. -/
theorem afterwards {α β : Type} {read : Except DemoFault α} {next : α → Except DemoFault (β × Database)}
    (continues : ∀ value, Keeps field db ((next value).map Prod.snd)) :
    Keeps field db ((read >>= next).map Prod.snd) := by
  cases read with
  | error fault => exact .error trivial
  | ok value => exact continues value

theorem before {next : Database → Except DemoFault Database} (keeps : Keeps field db result)
    (continues : ∀ db', Keeps field db' (next db')) : Keeps field db (result >>= next) := by
  apply Machine.Ends.bind keeps
  intro db' same
  rw [← same]
  exact continues db'

theorem iterateFrom {α : Type} {list : LinkedList α} {body : Database → α → Except DemoFault Database}
    (keeps : ∀ db value, Keeps field db (body db value)) (current : Option ℕ) (count : ℕ) :
    Keeps field db (list.iterateFrom body current count db) := by
  induction count generalizing current db with
  | zero => exact self
  | succ count ih =>
    rw [LinkedList.iterateFrom]
    apply after
    intro link
    apply before (keeps db link.value)
    intro db'
    apply after
    intro current
    exact ih current

section Carts

variable (writes : ∀ (db : Database) address cart, field (db.setCart address cart) = field db)
include writes

theorem removeFromCart (cartKey : ℤ) (merchName : CString) (quantity : ℤ) :
    Keeps field db (db.removeFromCart full cartKey merchName quantity) := by
  rw [Database.removeFromCart]
  apply after
  intro found
  cases found with
  | none => exact self
  | some address =>
    apply after
    intro cart
    apply after
    intro pair
    cases pair with
    | none => exact self
    | some pair =>
      dsimp only
      split
      · apply after
        intro removed
        exact .ok (writes db address removed.2)
      · apply after
        intro cart
        exact .ok (writes db address cart)

theorem addToCart (cartKey : ℤ) (merchName : CString) (quantity : ℤ) :
    Keeps field db (db.addToCart full cartKey merchName quantity) := by
  rw [Database.addToCart, Database.addToCartOutcome]
  apply afterwards
  intro merchFound
  cases merchFound with
  | none => exact self
  | some merchAddress =>
    apply afterwards
    intro found
    cases found with
    | none => exact self
    | some address =>
      apply afterwards
      intro cart
      apply afterwards
      intro cartPair
      apply afterwards
      intro inCarts
      apply afterwards
      intro merch
      apply afterwards
      intro stock
      have stored (alreadyInCart : ℤ) (cart : HashTable CString CartPair) : Keeps field db (Except.map Prod.snd (do
          let numForMerch ← numForShelfs merch.shelfs
          if toInt32 (quantity + alreadyInCart) ≤ numForMerch then do
            let cart ← cart.insert (stringFunctions full) merch.name
              (some ⟨merchAddress, toInt32 (quantity + alreadyInCart)⟩)
            .ok (AddOutcome.added, db.setCart address cart)
          else .ok (.notEnoughInStock numForMerch, db.setCart address cart))) := by
        apply afterwards
        intro numForMerch
        split
        · apply afterwards
          intro cart
          exact .ok (writes db address cart)
        · exact .ok (writes db address cart)
      split
      · cases cartPair with
        | none => exact stored 0 cart
        | some pair =>
          apply afterwards
          intro removed
          exact stored pair.amountInCart removed.2
      · exact self

end Carts

theorem setShelfs (address : ℕ) (shelfs : LinkedList ShelfPair) :
    Keeps Database.allCarts db (db.setShelfs address shelfs) := by
  rw [Database.setShelfs]
  apply after
  intro merch
  exact .ok rfl

theorem addMerchandise (name description : CString) (price : ℤ) :
    Keeps Database.allCarts db (db.addMerchandise full name description price) := by
  rw [Database.addMerchandise]
  apply after
  intro found
  cases found with
  | some address => exact self
  | none =>
    apply after
    intro allMerch
    exact .ok rfl

theorem removeMerchandise (name : CString) : Keeps Database.allCarts db (db.removeMerchandise full name) := by
  rw [Database.removeMerchandise]
  apply after
  intro found
  cases found with
  | none => exact self
  | some address =>
    apply after
    intro merch
    apply after
    intro num
    apply before
    · rw [Database.removeMerchandiseAllCarts]
      apply after
      intro allCartKeys
      exact iterateFrom (fun _ cartKey => removeFromCart (fun _ _ _ => rfl) cartKey name num) _ _
    · intro db'
      apply after
      intro removed
      exact .ok rfl

theorem editMerchandise (name newName description : CString) (price : ℤ) :
    Keeps Database.allCarts db (db.editMerchandise full name newName description price) := by
  rw [Database.editMerchandise]
  apply after
  intro found
  cases found with
  | none => exact self
  | some address =>
    apply after
    intro merch
    apply after
    intro newShelfs
    apply before (removeMerchandise name)
    intro db'
    apply before (addMerchandise newName description price)
    intro db''
    apply after
    intro found
    apply after
    intro newMerch
    exact setShelfs newMerch newShelfs

theorem replenish (name shelf : CString) (merchInput : ℤ) :
    Keeps Database.allCarts db (db.replenish full name shelf merchInput) := by
  rw [Database.replenish]
  apply after
  intro found
  cases found with
  | none => exact self
  | some address =>
    dsimp only
    split
    · apply after
      intro merch
      apply after
      intro index
      split
      · apply after
        intro shelfs
        exact setShelfs address shelfs
      · apply after
        intro removed
        apply after
        intro shelfs
        exact setShelfs address shelfs
    · exact self

theorem decreaseStock (address : ℕ) (amountToDecrease : ℤ) :
    Keeps Database.allCarts db (db.decreaseStock address amountToDecrease) := by
  rw [Database.decreaseStock]
  apply after
  intro merch
  apply after
  intro shelfs
  exact setShelfs address shelfs

end Keeps

/-- The key under which a call creates a cart. -/
def createdKey : StoreCall → Option ℤ
  | .createCart cartKey => some cartKey
  | _ => none

/-- The carts of the database have some of the keys. -/
def CartKeys (full : ℕ → ℕ → Bool) (keys : List ℤ) (db : Database) : Prop :=
  ∃ listed, HoldsNumbers full db.allCarts listed ∧ ∀ cart ∈ listed, cart.1 ∈ keys

namespace CartKeys

theorem create : CartKeys full [] Database.create :=
  ⟨[], HoldsNumbers.create, fun _ member => absurd member List.not_mem_nil⟩

theorem of_keeps (held : CartKeys full keys db) (keeps : Keeps Database.allCarts db (.ok db')) :
    CartKeys full keys db' := by
  obtain ⟨listed, numbers, named⟩ := held
  have same := keeps.eq
  exact ⟨listed, same ▸ numbers, named⟩

theorem createCart (held : CartKeys full keys db) {cartKey : ℤ} (ran : db.createCart full cartKey = .ok db') :
    CartKeys full (keys ++ [cartKey]) db' := by
  obtain ⟨listed, numbers, named⟩ := held
  obtain ⟨allCarts, inserted, numbers'⟩ := numbers.insert cartKey db.carts.length
  rw [Database.createCart, inserted] at ran
  cases ran
  refine ⟨_, numbers', fun cart member => ?_⟩
  rcases List.mem_cons.mp member with rfl | kept
  · exact List.mem_append_right _ List.mem_cons_self
  · exact List.mem_append_left _ (named cart (List.mem_filter.mp kept).1)

theorem removeCart (held : CartKeys full keys db) {cartKey : ℤ} (ran : db.removeCart full cartKey = .ok db') :
    CartKeys full keys db' := by
  obtain ⟨listed, numbers, named⟩ := held
  rw [Database.removeCart, numbers.lookup] at ran
  cases found : KeyedList.find compareInt listed cartKey with
  | none =>
    rw [found] at ran
    cases ran
    exact ⟨listed, numbers, named⟩
  | some address =>
    obtain ⟨allCarts, removed, numbers'⟩ := numbers.remove cartKey
    rw [found] at ran
    simp only [removed, bind, Except.bind] at ran
    cases ran
    exact ⟨_, numbers', fun cart member => named cart (List.mem_filter.mp member).1⟩

theorem checkout (held : CartKeys full keys db) {cartKey : ℤ} (ran : db.checkout full cartKey = .ok db') :
    CartKeys full keys db' := by
  rw [Database.checkout] at ran
  obtain ⟨found, _, ran⟩ := Machine.bind_ok_iff.mp ran
  cases found with
  | none =>
    cases ran
    exact held
  | some address =>
    obtain ⟨cart, _, ran⟩ := Machine.bind_ok_iff.mp ran
    obtain ⟨cartPairs, _, ran⟩ := Machine.bind_ok_iff.mp ran
    obtain ⟨sold, looped, ran⟩ := Machine.bind_ok_iff.mp ran
    have keeps : Keeps Database.allCarts db (.ok sold) := by
      rw [← looped]
      apply Keeps.iterateFrom
      intro db value
      apply Keeps.after
      intro pair
      exact Keeps.decreaseStock pair.merch pair.amountInCart
    exact (held.of_keeps keeps).removeCart ran

/-- A call adds the key of the cart that it creates. -/
theorem step (held : CartKeys full keys db) (ran : db.step full call = .ok db') :
    CartKeys full (keys ++ (createdKey call).toList) db' := by
  have kept (keeps : Keeps Database.allCarts db (db.step full call)) : CartKeys full (keys ++ []) db' := by
    rw [List.append_nil]
    rw [ran] at keeps
    exact held.of_keeps keeps
  cases call with
  | addMerchandise name description price => exact kept (.addMerchandise name description price)
  | removeMerchandise name => exact kept (.removeMerchandise name)
  | editMerchandise name newName description price => exact kept (.editMerchandise name newName description price)
  | replenish name shelf merchInput => exact kept (.replenish name shelf merchInput)
  | createCart cartKey => exact held.createCart ran
  | removeCart cartKey =>
    have same := held.removeCart ran
    rwa [← List.append_nil keys] at same
  | addToCart cartKey merchName quantity => exact kept (.addToCart (fun _ _ _ => rfl) cartKey merchName quantity)
  | removeFromCart cartKey merchName quantity =>
    exact kept (.removeFromCart (fun _ _ _ => rfl) cartKey merchName quantity)
  | checkout cartKey =>
    have same := held.checkout ran
    rwa [← List.append_nil keys] at same

end CartKeys

/-- Every cart of a store that some calls have built has a key that one of them created. -/
theorem cartKeys_of_run (ran : Machine.run (Database.step full) Database.create calls = .ok db) :
    CartKeys full (calls.filterMap createdKey) db := by
  induction calls using List.reverseRecOn generalizing db with
  | nil =>
    cases ran
    exact CartKeys.create
  | append_singleton calls call ih =>
    obtain ⟨middle, earlier, last⟩ := Machine.run_append_ok_iff.mp ran
    obtain ⟨db', stepped, same⟩ := Machine.run_cons_ok_iff.mp last
    cases same
    have held := (ih earlier).step stepped
    rw [List.filterMap_append]
    cases created : createdKey call with
    | none => simpa only [List.filterMap_cons, created, List.filterMap_nil, Option.toList_none] using held
    | some key => simpa only [List.filterMap_cons, created, List.filterMap_nil, Option.toList_some] using held

/-- Carts that are created under different keys are new when they are created. -/
theorem along_fresh (distinct : (calls.filterMap createdKey).Nodup) :
    Machine.Along (Database.step full) (fun db call => ∀ cartKey, call = .createCart cartKey →
      db.allCarts.lookup (intFunctions full) cartKey = .ok none) Database.create calls := by
  induction calls using List.reverseRecOn with
  | nil => trivial
  | append_singleton calls call ih =>
    rw [List.filterMap_append] at distinct
    obtain ⟨distinct, _, apart⟩ := List.nodup_append.mp distinct
    rw [Machine.along_append_iff]
    refine ⟨ih distinct, fun middle ran => ⟨?_, fun _ _ => trivial⟩⟩
    rintro cartKey rfl
    obtain ⟨listed, numbers, named⟩ := cartKeys_of_run ran
    rw [numbers.lookup]
    cases found : KeyedList.find compareInt listed cartKey with
    | none => rfl
    | some address =>
      have member := (find_int_iff numbers.distinct).mp found
      exact absurd rfl (apart cartKey (named _ member) cartKey List.mem_cons_self)

end GarbageCollector.Proofs
