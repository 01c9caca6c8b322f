import GarbageCollector.Model.EventLoop
import Mathlib.Data.Nat.Digits.Defs

/-! # Commands of the demo program

The abstract side of `event_loop`: a command is one choice of the menu with the answers to its questions,
which are names and numbers that the questions accept. `render` is what a user types for a command, and
`step` is its effect on the store, with the input left alone.
-/

namespace GarbageCollector.Model

/-- A string that answers a question. -/
structure Name where
  text : CString
  nonempty : text.chars ≠ []
  short : text.chars.length < 255
  oneLine : newline ∉ text.chars

/-- A number that answers a question. -/
structure Number where
  value : ℕ
  small : value < 2 ^ 31

/-- A choice of the menu with the answers that it asks for. -/
inductive Command where
  | addMerchandise (name description : Name) (price : Number)
  | removeMerchandise (merchName : Name) (confirmed : Bool)
  | editMerchandise (name newName description : Name) (price : Number)
  /-- With an answer for each page that is full. -/
  | listMerchandise (answers : List Bool)
  | showStock (merchName : Name)
  | replenish (merchName shelfName : Name) (numOfMerch : Number)
  | createCart
  | removeCart (cartKey : Number) (confirmed : Bool)
  | addToCart (merchName : Name) (cartKey quantity : Number)
  | removeFromCart (merchName : Name) (cartKey quantity : Number)
  | calculateCost (cartKey : Number)
  | checkout (cartKey : Number)
  | undo
  | quit (confirmed : Bool)

/-- A line of input. -/
def inputLine (text : List (BitVec 8)) : Input := text ++ [newline]

/-- The decimal digits of a number. -/
def Number.digits (number : Number) : List (BitVec 8) :=
  if number.value = 0 then [48]
  else (Nat.digits 10 number.value).reverse.map fun digit => BitVec.ofNat 8 (48 + digit)

def Name.render (name : Name) : Input := inputLine name.text.chars

def Number.render (number : Number) : Input := inputLine number.digits

/-- `y` or `n`. -/
def renderAnswer (answer : Bool) : Input := inputLine [if answer then 121 else 110]

namespace Command

/-- The letter of the menu. -/
def letter : Command → BitVec 8
  | addMerchandise .. => 97
  | removeMerchandise .. => 100
  | editMerchandise .. => 101
  | listMerchandise _ => 108
  | showStock _ => 115
  | replenish .. => 112
  | createCart => 99
  | removeCart .. => 121
  | addToCart .. => 43
  | removeFromCart .. => 45
  | calculateCost _ => 61
  | checkout _ => 111
  | undo => 117
  | quit _ => 113

/-- The answers, in the order of the questions. -/
def renderAnswers : Command → Input
  | addMerchandise name description price => name.render ++ description.render ++ price.render
  | removeMerchandise merchName confirmed => merchName.render ++ renderAnswer confirmed
  | editMerchandise name newName description price =>
    name.render ++ newName.render ++ description.render ++ price.render
  | listMerchandise answers => answers.flatMap renderAnswer
  | showStock merchName => merchName.render
  | replenish merchName shelfName numOfMerch => merchName.render ++ shelfName.render ++ numOfMerch.render
  | createCart => []
  | removeCart cartKey confirmed => cartKey.render ++ renderAnswer confirmed
  | addToCart merchName cartKey quantity => merchName.render ++ cartKey.render ++ quantity.render
  | removeFromCart merchName cartKey quantity => merchName.render ++ cartKey.render ++ quantity.render
  | calculateCost cartKey => cartKey.render
  | checkout cartKey => cartKey.render
  | undo => []
  | quit confirmed => renderAnswer confirmed

/-- What a user types for a command. -/
def render (command : Command) : Input := inputLine [command.letter] ++ command.renderAnswers

/-- The loop goes on after the command. -/
def continues : Command → Bool
  | quit confirmed => !confirmed
  | _ => true

end Command

/-- The names that `list_merchandise` goes through. -/
def sortedNames (allMerch : HashTable CString ℕ) : Except DemoFault (List CString) := do
  let merchandise ← allMerch.keys
  let merchArray ← createArrayFromList merchandise
  let merchArray ← sortKeys merchArray allMerch.size
  .ok (merchArray.take allMerch.size)

/-- These are the answers that are asked for when so many pages are full. -/
def answersFit : ℕ → List Bool → Bool
  | 0, answers => answers = []
  | _ + 1, [] => false
  | _ + 1, false :: answers => answers = []
  | pages + 1, true :: answers => answersFit pages answers

namespace Command

/-- The command answers as many questions as it is asked. -/
def Fits (p : Program) : Command → Prop
  | listMerchandise answers => answersFit (p.db.allMerch.size / 20) answers = true
  | _ => True

instance (p : Program) : DecidablePred (Fits p) := fun command => by
  cases command <;> unfold Fits <;> infer_instance

/-- The effect of a command; a listing, a stock and a cost are computed and not kept. -/
def step (full : ℕ → ℕ → Bool) (p : Program) : Command → Except DemoFault Program
  | addMerchandise name description price =>
    p.call full p.input (.addMerchandise name.text description.text price.value)
  | removeMerchandise merchName confirmed =>
    if confirmed then p.call full p.input (.removeMerchandise merchName.text) else .ok p
  | editMerchandise name newName description price =>
    p.call full p.input (.editMerchandise name.text newName.text description.text price.value)
  | listMerchandise _ => (sortedNames p.db.allMerch).map fun _ => p
  | showStock merchName => (p.db.showStock full merchName.text).map fun _ => p
  | replenish merchName shelfName numOfMerch =>
    p.call full p.input (.replenish merchName.text shelfName.text numOfMerch.value)
  | createCart => do
    let createdCarts ← checkedInt (p.createdCarts + 1)
    { p with createdCarts }.call full p.input (.createCart createdCarts)
  | removeCart cartKey confirmed =>
    if confirmed then p.call full p.input (.removeCart cartKey.value) else .ok p
  | addToCart merchName cartKey quantity =>
    p.call full p.input (.addToCart cartKey.value merchName.text quantity.value)
  | removeFromCart merchName cartKey quantity =>
    p.call full p.input (.removeFromCart cartKey.value merchName.text quantity.value)
  | calculateCost cartKey => (p.db.calculateCost full cartKey.value).map fun _ => p
  | checkout cartKey => p.call full p.input (.checkout cartKey.value)
  | undo => .ok p
  | quit _ => .ok p

end Command

end GarbageCollector.Model
