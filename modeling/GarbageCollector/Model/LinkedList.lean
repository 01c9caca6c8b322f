import GarbageCollector.Model.DemoCommon

/-! # The linked list of the demo program

The links of a list are kept in the order of their allocation, and the address of a link is its place
there; a removed link stays, as memory that nothing points to. `ioopm_linked_list_create` stores the
comparison that only `ioopm_linked_list_contains` reads, so it is an argument here. A link whose
value is a pointer to an object that no other link holds stores the object.
-/

namespace GarbageCollector.Model

/-- A `struct link`. -/
structure Link (α : Type) where
  value : α
  next : Option ℕ
deriving DecidableEq, Repr

/-- A `struct list` with the memory of its links. -/
structure LinkedList (α : Type) where
  links : List (Link α)
  first : Option ℕ
  last : Option ℕ
  size : ℤ
deriving DecidableEq, Repr

namespace LinkedList

variable {α : Type}

/-- `ioopm_linked_list_create`. -/
def create : LinkedList α := ⟨[], none, none, 0⟩

/-- Read the link behind a pointer. -/
def link (list : LinkedList α) (pointer : Option ℕ) : Except DemoFault (Link α) :=
  match pointer with
  | none => .error .nullDereference
  | some address =>
    match list.links[address]? with
    | none => .error .outOfBounds
    | some link => .ok link

/-- Write the link behind a pointer. -/
def setLink (list : LinkedList α) (pointer : Option ℕ) (written : Link α) :
    Except DemoFault (LinkedList α) :=
  match pointer with
  | none => .error .nullDereference
  | some address =>
    if address < list.links.length then .ok { list with links := list.links.set address written }
    else .error .outOfBounds

/-- Follow the `next` pointers a number of times. -/
def follow (list : LinkedList α) (current : Option ℕ) : ℕ → Except DemoFault (Option ℕ)
  | 0 => .ok current
  | count + 1 => do
    let link ← list.link current
    list.follow link.next count

/-- `find_link`, whose loop runs while `i < index`. -/
def findLink (list : LinkedList α) (index : ℤ) : Except DemoFault (Option ℕ) :=
  list.follow list.first index.toNat

/-- A zero-filled link from `h_alloc_struct`, with its value written. -/
def alloc (list : LinkedList α) (value : α) : LinkedList α :=
  { list with links := list.links ++ [⟨value, none⟩] }

/-- `ioopm_linked_list_append`. -/
def append (list : LinkedList α) (value : α) : Except DemoFault (LinkedList α) := do
  let newLink := some list.links.length
  let list := list.alloc value
  let list ←
    if list.size = 0 then .ok { list with first := newLink, last := newLink }
    else do
      let last ← list.link list.last
      let list ← list.setLink list.last { last with next := newLink }
      .ok { list with last := newLink }
  let size ← checkedInt (list.size + 1)
  .ok { list with size }

/-- `ioopm_linked_list_prepend`. -/
def prepend (list : LinkedList α) (value : α) : Except DemoFault (LinkedList α) := do
  let newLink := some list.links.length
  let list := list.alloc value
  let list ←
    if list.size = 0 then .ok { list with first := newLink, last := newLink }
    else do
      let list ← list.setLink newLink ⟨value, list.first⟩
      .ok { list with first := newLink }
  let size ← checkedInt (list.size + 1)
  .ok { list with size }

/-- `ioopm_linked_list_remove`. -/
def remove (list : LinkedList α) (index : ℤ) : Except DemoFault (α × LinkedList α) :=
  if index < 0 then do
    let first ← list.link list.first
    .ok (first.value, list)
  else if list.size - 1 < index then do
    let last ← list.link list.last
    .ok (last.value, list)
  else do
    let currentLink ← list.findLink index
    let current ← list.link currentLink
    let list ←
      if index = 0 then do
        let first ← list.link list.first
        .ok { list with first := first.next }
      else if current.next ≠ none then do
        let prevLink ← list.findLink (index - 1)
        let prev ← list.link prevLink
        list.setLink prevLink { prev with next := current.next }
      else .ok list
    let size ← checkedInt (list.size - 1)
    .ok (current.value, { list with size })

/-- `ioopm_linked_list_get`. -/
def get (list : LinkedList α) (index : ℤ) : Except DemoFault α :=
  if index < 0 then do
    let first ← list.link list.first
    .ok first.value
  else if list.size - 1 < index then do
    let last ← list.link list.last
    .ok last.value
  else do
    let currentLink ← list.findLink index
    let current ← list.link currentLink
    .ok current.value

/-- The loop of `ioopm_linked_list_contains` with this many links to go. -/
def containsFrom (list : LinkedList α) (cmp : α → α → Bool) (element : α) (current : Option ℕ) :
    ℕ → Except DemoFault Bool
  | 0 => .ok false
  | count + 1 => do
    let link ← list.link current
    if cmp link.value element then .ok true
    else list.containsFrom cmp element link.next count

/-- `ioopm_linked_list_contains`. -/
def contains (list : LinkedList α) (cmp : α → α → Bool) (element : α) : Except DemoFault Bool :=
  list.containsFrom cmp element list.first list.size.toNat

/-- `ioopm_iterator_next` on an iterator at `current`: where the iterator is then. -/
def iteratorNext (list : LinkedList α) (current : Option ℕ) : Except DemoFault (Option ℕ) := do
  let link ← list.link current
  if link.next ≠ none then do
    let _ ← list.link link.next
    .ok link.next
  else .ok current

/-- A loop over the size of a list that reads `ioopm_iterator_current`, runs its body, and calls
`ioopm_iterator_next`. -/
def iterateFrom {β : Type} (list : LinkedList α) (body : β → α → Except DemoFault β) (current : Option ℕ) :
    ℕ → β → Except DemoFault β
  | 0, state => .ok state
  | count + 1, state => do
    let link ← list.link current
    let state ← body state link.value
    let current ← list.iteratorNext current
    list.iterateFrom body current count state

/-- Such a loop from `ioopm_list_iterator` on. -/
def iterate {β : Type} (list : LinkedList α) (body : β → α → Except DemoFault β) (state : β) :
    Except DemoFault β :=
  list.iterateFrom body list.first list.size.toNat state

/-- `ioopm_linked_list_clear`. -/
def clear (list : LinkedList α) : LinkedList α := { list with first := none, last := none, size := 0 }

/-- The values met by following a number of links. -/
def valuesFrom (list : LinkedList α) (current : Option ℕ) : ℕ → Except DemoFault (List α)
  | 0 => .ok []
  | count + 1 => do
    let link ← list.link current
    let rest ← list.valuesFrom link.next count
    .ok (link.value :: rest)

end LinkedList

end GarbageCollector.Model
