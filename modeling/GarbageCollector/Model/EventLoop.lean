import GarbageCollector.Model.Input
import Mathlib.Data.List.Sort

/-! # The event loop of the demo program

`event_loop` of `store.c`, with `list_merchandise` and `show_stock`, which only print. What these two print
is what they return; all other messages are left out, as is the command `u`, which does nothing else. `qsort`
sorts by insertion, and `strcmp` compares bytes as `unsigned char`. The calls that change the store are
recorded in a log that the C code does not keep.
-/

namespace GarbageCollector.Model

/-- `strcmp(first, second) <= 0` on the bytes before the terminators. -/
def strcmpLe : List (BitVec 8) → List (BitVec 8) → Bool
  | [], _ => true
  | _ :: _, [] => false
  | a :: first, b :: second => a.toNat < b.toNat || (a = b && strcmpLe first second)

/-- `cmpstringp`. -/
def cmpStringP (first second : CString) : Prop := strcmpLe first.chars second.chars = true

instance : DecidableRel cmpStringP := fun first second =>
  inferInstanceAs (Decidable (strcmpLe first.chars second.chars = true))

/-- `create_array_from_list`. -/
def createArrayFromList {α : Type} (list : LinkedList α) : Except DemoFault (List α) :=
  list.iterate (fun keys key => .ok (keys ++ [key])) []

/-- `sort_keys` on the first `noKeys` elements of an array. -/
def sortKeys (keys : List CString) (noKeys : ℕ) : Except DemoFault (List CString) :=
  if noKeys ≤ keys.length then .ok ((keys.take noKeys).insertionSort cmpStringP ++ keys.drop noKeys)
  else .error .outOfBounds

/-- The loop of `list_merchandise` over the rest of the array: the names it prints, and the input left. -/
def listFrom (countMerch : ℤ) : List CString → Input → Except DemoFault (List CString × Input)
  | [], input => .ok ([], input)
  | name :: rest, input =>
    if countMerch + 1 = 20 then do
      let (goOn, input) ← confirmation input
      if goOn then do
        let (printed, input) ← listFrom 0 rest input
        .ok (name :: printed, input)
      else .ok ([name], input)
    else do
      let (printed, input) ← listFrom (countMerch + 1) rest input
      .ok (name :: printed, input)

/-- `list_merchandise`. -/
def listMerchandise (allMerch : HashTable CString ℕ) (input : Input) :
    Except DemoFault (List CString × Input) := do
  let merchandise ← allMerch.keys
  let merchArray ← createArrayFromList merchandise
  let merchArray ← sortKeys merchArray allMerch.size
  listFrom 0 (merchArray.take allMerch.size) input

/-- `show_stock`: the shelves that it prints. -/
def Database.showStock (full : ℕ → ℕ → Bool) (db : Database) (name : CString) :
    Except DemoFault (List ShelfPair) := do
  match ← db.allMerch.lookup (stringFunctions full) name with
  | none => .ok []
  | some address => do
    let merch ← db.merch address
    merch.shelfs.iterate (fun printed pair => .ok (printed ++ [pair])) []

/-- The variables of the program between two rounds of `event_loop`. -/
structure Program where
  db : Database
  createdCarts : ℤ
  input : Input
  /-- The calls that may have changed the store, oldest first. -/
  calls : List StoreCall

namespace Program

/-- The program when `event_loop` is called. -/
def start (input : Input) : Program := ⟨Database.create, 0, input, []⟩

variable (full : ℕ → ℕ → Bool)

/-- A call of a function of the store, with the input that is left. -/
def call (p : Program) (input : Input) (storeCall : StoreCall) : Except DemoFault Program := do
  let db ← p.db.step full storeCall
  .ok { p with db, input, calls := p.calls ++ [storeCall] }

/-- The branches of one round, on the first byte of `choice`: whether the loop continues, and the program. -/
def choose (p : Program) (choice : BitVec 8) : Except DemoFault (Bool × Program) :=
  if choice = 97 then do
    let (name, input) ← askQuestionString p.input
    let (description, input) ← askQuestionString input
    let (price, input) ← askQuestionInt input
    let p ← p.call full input (.addMerchandise name description price)
    .ok (true, p)
  else if choice = 100 then do
    let (merchName, input) ← askQuestionString p.input
    let (confirmed, input) ← confirmation input
    if confirmed then do
      let p ← p.call full input (.removeMerchandise merchName)
      .ok (true, p)
    else .ok (true, { p with input })
  else if choice = 101 then do
    let (name, input) ← askQuestionString p.input
    let (newName, input) ← askQuestionString input
    let (description, input) ← askQuestionString input
    let (price, input) ← askQuestionInt input
    let p ← p.call full input (.editMerchandise name newName description price)
    .ok (true, p)
  else if choice = 108 then do
    let (_, input) ← listMerchandise p.db.allMerch p.input
    .ok (true, { p with input })
  else if choice = 115 then do
    let (merchName, input) ← askQuestionString p.input
    let _ ← p.db.showStock full merchName
    .ok (true, { p with input })
  else if choice = 112 then do
    let (merchName, input) ← askQuestionString p.input
    let (shelfName, input) ← askQuestionString input
    let (numOfMerch, input) ← askQuestionInt input
    let p ← p.call full input (.replenish merchName shelfName numOfMerch)
    .ok (true, p)
  else if choice = 99 then do
    let createdCarts ← checkedInt (p.createdCarts + 1)
    let p ← { p with createdCarts }.call full p.input (.createCart createdCarts)
    .ok (true, p)
  else if choice = 121 then do
    let (cartKey, input) ← askQuestionInt p.input
    let (confirmed, input) ← confirmation input
    if confirmed then do
      let p ← p.call full input (.removeCart cartKey)
      .ok (true, p)
    else .ok (true, { p with input })
  else if choice = 43 then do
    let (merchName, input) ← askQuestionString p.input
    let (cartKey, input) ← askQuestionInt input
    let (quantity, input) ← askQuestionInt input
    let p ← p.call full input (.addToCart cartKey merchName quantity)
    .ok (true, p)
  else if choice = 45 then do
    let (merchName, input) ← askQuestionString p.input
    let (cartKey, input) ← askQuestionInt input
    let (quantity, input) ← askQuestionInt input
    let p ← p.call full input (.removeFromCart cartKey merchName quantity)
    .ok (true, p)
  else if choice = 61 then do
    let (cartKey, input) ← askQuestionInt p.input
    let _ ← p.db.calculateCost full cartKey
    .ok (true, { p with input })
  else if choice = 111 then do
    let (cartKey, input) ← askQuestionInt p.input
    let p ← p.call full input (.checkout cartKey)
    .ok (true, p)
  else if choice = 117 then .ok (true, p)
  else if choice = 113 then do
    let (confirmed, input) ← confirmation p.input
    .ok (!confirmed, { p with input })
  else .ok (true, p)

/-- One round of `event_loop`. -/
def round (p : Program) : Except DemoFault (Bool × Program) := do
  let (choice, input) ← askQuestionMenu p.input
  match choice with
  | none => .ok (false, { p with input })
  | some choice => choose full { p with input } (choice.chars.headD 0)

/-- The loop of `event_loop` for as many rounds. -/
def loop : ℕ → Program → Except DemoFault Program
  | 0, _ => .error .diverges
  | fuel + 1, p => do
    let (continueLoop, p) ← p.round full
    if continueLoop then loop fuel p else .ok p

/-- `event_loop`; every round that continues reads some input. -/
def eventLoop (p : Program) : Except DemoFault Program := loop full (p.input.length + 1) p

end Program

end GarbageCollector.Model
