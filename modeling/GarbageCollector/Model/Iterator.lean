import GarbageCollector.Model.LinkedList

/-! # The iterators of the demo program

The functions of `iterator.h`. An iterator is kept with the list that it points to; a new link from
`h_alloc_struct` is filled with zeros. `ioopm_iterator_remove` removes the element behind the current one, and
`ioopm_iterator_insert` inserts there, as the code does.
-/

namespace GarbageCollector.Model

/-- A `struct iter` with the list that it points to. -/
structure ListIterator (α : Type) where
  list : LinkedList α
  current : Option ℕ
deriving DecidableEq, Repr

/-- `ioopm_list_iterator`. -/
def listIterator {α : Type} (list : LinkedList α) : ListIterator α := ⟨list, list.first⟩

/-- A call of a function of `iterator.h`. -/
inductive IteratorCall (α : Type) where
  | hasNext
  | next
  | reset
  | current
  | remove
  | insert (element : α)

/-- What such a function returns. -/
inductive IteratorAnswer (α : Type) where
  | done
  | bool (answer : Bool)
  | value (value : α)
deriving DecidableEq, Repr

namespace ListIterator

variable {α : Type} (iter : ListIterator α)

/-- `ioopm_iterator_has_next`. -/
def hasNext : Except DemoFault Bool := do
  let current ← iter.list.link iter.current
  .ok (current.next ≠ none)

/-- `ioopm_iterator_next`. -/
def next : Except DemoFault (α × ListIterator α) := do
  let iter ←
    if ← iter.hasNext then do
      let current ← iter.list.link iter.current
      .ok { iter with current := current.next }
    else .ok iter
  let current ← iter.list.link iter.current
  .ok (current.value, iter)

/-- `ioopm_iterator_reset`. -/
def reset : ListIterator α := { iter with current := iter.list.first }

/-- `ioopm_iterator_current`. -/
def currentValue : Except DemoFault α := do
  let current ← iter.list.link iter.current
  .ok current.value

/-- `ioopm_iterator_remove`. -/
def remove : Except DemoFault (α × ListIterator α) := do
  let current ← iter.list.link iter.current
  let toRemove ← iter.list.link current.next
  let list ← iter.list.setLink iter.current { current with next := toRemove.next }
  let size ← checkedInt (list.size - 1)
  .ok (toRemove.value, { iter with list := { list with size } })

/-- `ioopm_iterator_insert`. -/
def insert (element : α) : Except DemoFault (ListIterator α) := do
  let newLink := some iter.list.links.length
  let list := iter.list.alloc element
  let list ←
    if list.size = 0 then .ok { list with first := newLink, last := newLink }
    else if iter.current = list.last then do
      let current ← list.link iter.current
      let list ← list.setLink iter.current { current with next := newLink }
      .ok { list with last := newLink }
    else do
      let current ← list.link iter.current
      let list ← list.setLink iter.current { current with next := newLink }
      list.setLink newLink ⟨element, current.next⟩
  let size ← checkedInt (list.size + 1)
  .ok ⟨{ list with size }, newLink⟩

def step : IteratorCall α → Except DemoFault (IteratorAnswer α × ListIterator α)
  | .hasNext => do
    let answer ← iter.hasNext
    .ok (.bool answer, iter)
  | .next => do
    let (value, iter) ← iter.next
    .ok (.value value, iter)
  | .reset => .ok (.done, iter.reset)
  | .current => do
    let value ← iter.currentValue
    .ok (.value value, iter)
  | .remove => do
    let (value, iter) ← iter.remove
    .ok (.value value, iter)
  | .insert element => do
    let iter ← iter.insert element
    .ok (.done, iter)

end ListIterator

end GarbageCollector.Model
