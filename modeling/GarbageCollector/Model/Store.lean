import GarbageCollector.Model.HashTable

/-! # The store of the demo program

Merchandise and carts are objects that tables and pairs point to: each kind has a memory of its own, in
which the address of an object is its place. A list of shelves belongs to one merchandise, and a shelf
pair or a cart pair to one link or one entry, so these are stored where they are pointed from. Sums of
amounts wrap modulo `2 ^ 32`; messages to the user are left out, but for those that tell how
`add_to_cart` ended. The test against the load factor of the tables is an argument.
-/

namespace GarbageCollector.Model

/-- A `shelf_pair_t`. -/
structure ShelfPair where
  shelfName : CString
  numOfMerch : ℤ
deriving DecidableEq

/-- A `merch_t`. -/
structure Merch where
  name : CString
  description : CString
  price : ℤ
  shelfs : LinkedList ShelfPair
deriving DecidableEq

/-- A `cart_pair_t`. -/
structure CartPair where
  merch : ℕ
  amountInCart : ℤ
deriving DecidableEq

/-- A `database_t` with the memory of its merchandise and its carts. -/
structure Database where
  merchs : List Merch
  carts : List (HashTable CString CartPair)
  allMerch : HashTable CString ℕ
  allCarts : HashTable ℤ ℕ

/-- The functions of `all_merch` and of the carts. -/
def stringFunctions (full : ℕ → ℕ → Bool) : TableFunctions CString := ⟨hashStringSum, compareString, full⟩

/-- The functions of `all_carts`. -/
def intFunctions (full : ℕ → ℕ → Bool) : TableFunctions ℤ :=
  ⟨fun key capacity => .ok (hashInt key capacity), compareInt, full⟩

/-- `No_Buckets`. -/
def noBuckets : ℕ := 17

/-- The object behind a pointer that a table or a list stores. -/
def deref {α : Type} : Option α → Except DemoFault α
  | none => .error .nullDereference
  | some object => .ok object

/-- `isalpha` in the C locale. -/
def isAlphaByte (char : BitVec 8) : Bool :=
  (65 ≤ char.toNat && char.toNat ≤ 90) || (97 ≤ char.toNat && char.toNat ≤ 122)

/-- `isdigit`. -/
def isDigitByte (char : BitVec 8) : Bool := 48 ≤ char.toNat && char.toNat ≤ 57

/-- `is_shelf`; the second byte may be anything. -/
def isShelf (shelf : CString) : Bool :=
  match shelf.chars with
  | [] => false
  | first :: rest => isAlphaByte first && 3 ≤ shelf.chars.length && (rest.drop 1).all isDigitByte

/-- `make_merch`. -/
def makeMerch (name description : CString) (price : ℤ) : Merch :=
  ⟨name, description, price, LinkedList.create⟩

/-- `num_for_shelfs`. -/
def numForShelfs (shelfs : LinkedList ShelfPair) : Except DemoFault ℤ :=
  shelfs.iterate (fun num pair => .ok (toInt32 (num + pair.numOfMerch))) 0

/-- `copy_shelfs`. -/
def copyShelfs (oldShelfs : LinkedList ShelfPair) : Except DemoFault (LinkedList ShelfPair) :=
  oldShelfs.iterate (fun newShelfs pair => newShelfs.prepend pair) LinkedList.create

/-- The loop of `index_for_shelf_pair` at the index `i`, with this many links to go. -/
def indexFrom (shelfs : LinkedList ShelfPair) (name : CString) (current : Option ℕ) (i : ℤ) :
    ℕ → Except DemoFault ℤ
  | 0 => .ok (-1)
  | count + 1 => do
    let link ← shelfs.link current
    if compareString link.value.shelfName name then .ok i
    else do
      let current ← shelfs.iteratorNext current
      indexFrom shelfs name current (i + 1) count

/-- `index_for_shelf_pair`. -/
def indexForShelfPair (shelfs : LinkedList ShelfPair) (name : CString) : Except DemoFault ℤ :=
  indexFrom shelfs name shelfs.first 0 shelfs.size.toNat

/-- The loop of `decrease_stock`; with a link more than there are, the iterator has come to rest on an
empty last shelf. -/
def decreaseFrom (shelfs : LinkedList ShelfPair) (current : Option ℕ) (amountToDecrease : ℤ) :
    ℕ → Except DemoFault (LinkedList ShelfPair)
  | 0 => if amountToDecrease ≤ 0 then .ok shelfs else .error .diverges
  | fuel + 1 =>
    if amountToDecrease ≤ 0 then .ok shelfs
    else do
      let link ← shelfs.link current
      let stock := link.value.numOfMerch
      let (left, amount) :=
        if stock < amountToDecrease then (0, toInt32 (amountToDecrease - stock))
        else (toInt32 (stock - amountToDecrease), 0)
      let shelfs ← shelfs.setLink current { link with value := { link.value with numOfMerch := left } }
      let current ← shelfs.iteratorNext current
      decreaseFrom shelfs current amount fuel

/-- `num_of_merch_in_one_cart`. -/
def numOfMerchInOneCart (cart : HashTable CString CartPair) : Except DemoFault ℤ := do
  let pairs ← cart.values
  pairs.iterate (fun counter value => do
    let pair ← deref value
    .ok (toInt32 (counter + pair.amountInCart))) 0

/-- What `add_to_cart` reports. -/
inductive AddOutcome where
  /-- That merchandise does not exist. -/
  | noMerchandise
  /-- That cart does not exist. -/
  | noCart
  /-- Not enough merch left in stock! -/
  | notEnoughLeft
  /-- Not enough merch in stock! There are only so many. -/
  | notEnoughInStock (numForMerch : ℤ)
  /-- A cart pair was stored, which is reported by no message. -/
  | added
deriving DecidableEq, Repr

namespace Database

/-- `create_database`. -/
def create : Database := ⟨[], [], HashTable.create noBuckets, HashTable.create noBuckets⟩

variable (full : ℕ → ℕ → Bool) (db : Database)

/-- The merchandise at an address. -/
def merch (address : ℕ) : Except DemoFault Merch :=
  match db.merchs[address]? with
  | none => .error .outOfBounds
  | some merch => .ok merch

/-- The cart at an address. -/
def cart (address : ℕ) : Except DemoFault (HashTable CString CartPair) :=
  match db.carts[address]? with
  | none => .error .outOfBounds
  | some cart => .ok cart

/-- Write to the `shelfs` of the merchandise at an address. -/
def setShelfs (address : ℕ) (shelfs : LinkedList ShelfPair) : Except DemoFault Database := do
  let merch ← db.merch address
  .ok { db with merchs := db.merchs.set address { merch with shelfs } }

/-- Write to the cart at an address. -/
def setCart (address : ℕ) (cart : HashTable CString CartPair) : Database :=
  { db with carts := db.carts.set address cart }

/-- `add_merchandise`. -/
def addMerchandise (name description : CString) (price : ℤ) : Except DemoFault Database := do
  match ← db.allMerch.lookup (stringFunctions full) name with
  | none => do
    let allMerch ← db.allMerch.insert (stringFunctions full) name (some db.merchs.length)
    .ok { db with merchs := db.merchs ++ [makeMerch name description price], allMerch }
  | some _ => .ok db

/-- `remove_from_cart`. -/
def removeFromCart (cartKey : ℤ) (merchName : CString) (quantity : ℤ) : Except DemoFault Database := do
  match ← db.allCarts.lookup (intFunctions full) cartKey with
  | none => .ok db
  | some address => do
    let cart ← db.cart address
    match ← cart.lookup (stringFunctions full) merchName with
    | none => .ok db
    | some pair => do
      let merchAfterRemove := toInt32 (pair.amountInCart - quantity)
      if merchAfterRemove ≤ 0 then do
        let (_, cart) ← cart.remove (stringFunctions full) merchName
        .ok (db.setCart address cart)
      else do
        let cart ← cart.insert (stringFunctions full) merchName (some ⟨pair.merch, merchAfterRemove⟩)
        .ok (db.setCart address cart)

/-- `remove_merchandise_all_carts`. -/
def removeMerchandiseAllCarts (merchName : CString) (quantity : ℤ) : Except DemoFault Database := do
  let allCartKeys ← db.allCarts.keys
  allCartKeys.iterate (fun db cartKey => db.removeFromCart full cartKey merchName quantity) db

/-- `remove_merchandise`. -/
def removeMerchandise (name : CString) : Except DemoFault Database := do
  match ← db.allMerch.lookup (stringFunctions full) name with
  | none => .ok db
  | some address => do
    let merch ← db.merch address
    let num ← numForShelfs merch.shelfs
    let db ← db.removeMerchandiseAllCarts full name num
    let (_, allMerch) ← db.allMerch.remove (stringFunctions full) name
    .ok { db with allMerch }

/-- `edit_merchandise`. -/
def editMerchandise (name newName description : CString) (price : ℤ) : Except DemoFault Database := do
  match ← db.allMerch.lookup (stringFunctions full) name with
  | none => .ok db
  | some address => do
    let merch ← db.merch address
    let newShelfs ← copyShelfs merch.shelfs
    let db ← db.removeMerchandise full name
    let db ← db.addMerchandise full newName description price
    let newMerch ← deref (← db.allMerch.lookup (stringFunctions full) newName)
    db.setShelfs newMerch newShelfs

/-- `replenish`. -/
def replenish (name shelf : CString) (merchInput : ℤ) : Except DemoFault Database := do
  match ← db.allMerch.lookup (stringFunctions full) name with
  | none => .ok db
  | some address =>
    if isShelf shelf then do
      let merch ← db.merch address
      let index ← indexForShelfPair merch.shelfs shelf
      if index < 0 then do
        let shelfs ← merch.shelfs.prepend ⟨shelf, merchInput⟩
        db.setShelfs address shelfs
      else do
        let (pair, shelfs) ← merch.shelfs.remove index
        let shelfs ← shelfs.append ⟨pair.shelfName, toInt32 (pair.numOfMerch + merchInput)⟩
        db.setShelfs address shelfs
    else .ok db

/-- `create_cart`. -/
def createCart (cartKey : ℤ) : Except DemoFault Database := do
  let allCarts ← db.allCarts.insert (intFunctions full) cartKey (some db.carts.length)
  .ok { db with carts := db.carts ++ [HashTable.create noBuckets], allCarts }

/-- `num_of_merch_in_carts`. -/
def numOfMerchInCarts : Except DemoFault ℤ := do
  let carts ← db.allCarts.values
  carts.iterate (fun total value => do
    let cart ← db.cart (← deref value)
    let counter ← numOfMerchInOneCart cart
    .ok (toInt32 (total + counter))) 0

/-- `add_to_cart` with what it reports. -/
def addToCartOutcome (cartKey : ℤ) (merchName : CString) (quantity : ℤ) :
    Except DemoFault (AddOutcome × Database) := do
  match ← db.allMerch.lookup (stringFunctions full) merchName with
  | none => .ok (.noMerchandise, db)
  | some merchAddress => do
    match ← db.allCarts.lookup (intFunctions full) cartKey with
    | none => .ok (.noCart, db)
    | some address => do
      let cart ← db.cart address
      let cartPair ← cart.lookup (stringFunctions full) merchName
      let inCarts ← db.numOfMerchInCarts
      let merch ← db.merch merchAddress
      let stock ← numForShelfs merch.shelfs
      if toInt32 (quantity + inCarts) ≤ stock then do
        let (alreadyInCart, cart) ← match cartPair with
          | none => .ok (0, cart)
          | some pair => do
            let (_, cart) ← cart.remove (stringFunctions full) merchName
            .ok (pair.amountInCart, cart)
        let numForMerch ← numForShelfs merch.shelfs
        if toInt32 (quantity + alreadyInCart) ≤ numForMerch then do
          let cart ← cart.insert (stringFunctions full) merch.name
            (some ⟨merchAddress, toInt32 (quantity + alreadyInCart)⟩)
          .ok (.added, db.setCart address cart)
        else .ok (.notEnoughInStock numForMerch, db.setCart address cart)
      else .ok (.notEnoughLeft, db)

/-- `add_to_cart`. -/
def addToCart (cartKey : ℤ) (merchName : CString) (quantity : ℤ) : Except DemoFault Database :=
  (db.addToCartOutcome full cartKey merchName quantity).map Prod.snd

/-- `remove_cart`. -/
def removeCart (cartKey : ℤ) : Except DemoFault Database := do
  match ← db.allCarts.lookup (intFunctions full) cartKey with
  | none => .ok db
  | some _ => do
    let (_, allCarts) ← db.allCarts.remove (intFunctions full) cartKey
    .ok { db with allCarts }

/-- The loop of `calculate_cost` with this many rounds to go; no round moves the iterator. -/
def costFrom (cartPairs : LinkedList (Option CartPair)) (itCartPairs : Option ℕ) :
    ℕ → ℤ → Except DemoFault ℤ
  | 0, totalCost => .ok totalCost
  | count + 1, totalCost => do
    let current ← cartPairs.link itCartPairs
    let cartPair ← deref current.value
    let merch ← db.merch cartPair.merch
    costFrom cartPairs itCartPairs count (toInt32 (totalCost + cartPair.amountInCart * merch.price))

/-- `calculate_cost`: what it returns, and the store that it leaves. -/
def calculateCost (cartKey : ℤ) : Except DemoFault (ℤ × Database) := do
  match ← db.allCarts.lookup (intFunctions full) cartKey with
  | none => .ok (-1, db)
  | some address => do
    let cart ← db.cart address
    let cartPairs ← cart.values
    let totalCost ← db.costFrom cartPairs cartPairs.first cartPairs.size.toNat 0
    .ok (totalCost, db)

/-- `decrease_stock`. -/
def decreaseStock (address : ℕ) (amountToDecrease : ℤ) : Except DemoFault Database := do
  let merch ← db.merch address
  let shelfs ← decreaseFrom merch.shelfs merch.shelfs.first amountToDecrease (merch.shelfs.links.length + 1)
  db.setShelfs address shelfs

/-- `checkout`. -/
def checkout (cartKey : ℤ) : Except DemoFault Database := do
  match ← db.allCarts.lookup (intFunctions full) cartKey with
  | none => .ok db
  | some address => do
    let cart ← db.cart address
    let cartPairs ← cart.values
    let db ← cartPairs.iterate (fun db value => do
      let pair ← deref value
      db.decreaseStock pair.merch pair.amountInCart) db
    db.removeCart full cartKey

end Database

/-- An operation on the store. -/
inductive StoreCall where
  | addMerchandise (name description : CString) (price : ℤ)
  | removeMerchandise (name : CString)
  | editMerchandise (name newName description : CString) (price : ℤ)
  | replenish (name shelf : CString) (merchInput : ℤ)
  | createCart (cartKey : ℤ)
  | removeCart (cartKey : ℤ)
  | addToCart (cartKey : ℤ) (merchName : CString) (quantity : ℤ)
  | removeFromCart (cartKey : ℤ) (merchName : CString) (quantity : ℤ)
  | checkout (cartKey : ℤ)

def Database.step (full : ℕ → ℕ → Bool) (db : Database) : StoreCall → Except DemoFault Database
  | .addMerchandise name description price => db.addMerchandise full name description price
  | .removeMerchandise name => db.removeMerchandise full name
  | .editMerchandise name newName description price =>
    db.editMerchandise full name newName description price
  | .replenish name shelf merchInput => db.replenish full name shelf merchInput
  | .createCart cartKey => db.createCart full cartKey
  | .removeCart cartKey => db.removeCart full cartKey
  | .addToCart cartKey merchName quantity => db.addToCart full cartKey merchName quantity
  | .removeFromCart cartKey merchName quantity => db.removeFromCart full cartKey merchName quantity
  | .checkout cartKey => db.checkout full cartKey

end GarbageCollector.Model
