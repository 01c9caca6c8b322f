import GarbageCollector.Proofs.Iterator

/-! # Iterators follow cursors

Whatever calls are made on an iterator, its answers are those of a cursor in the values of the list, and so are
its faults. The list keeps its values, but its `last` pointer is out of order from the first time that the last
link is removed through the iterator.
-/

namespace GarbageCollector.Soundness

open Model Proofs

variable {α : Type} {list : LinkedList α} {values : List α}

/-- The links of the list hold the values of the cursor, and a list that stores them has not lost `last`. -/
def Agrees (iter : ListIterator α) (walk : Walk α) : Prop :=
  iter.list.valuesFrom iter.list.first iter.list.size.toNat = .ok walk.cursor.values ∧
    (Stores iter.list walk.cursor.values ↔ walk.keepsLast = true)

/-- Any calls on an iterator of a list return what they return on a cursor in its values, and leave the values
of the cursor; the list is in order if and only if no call has removed the last link. -/
theorem iterator_walks (stores : Stores list values) (small : values.length < 2 ^ 31)
    (calls : List (IteratorCall α)) : Machine.Matches Agrees
      (Machine.trace ListIterator.step (listIterator list) calls)
      (Machine.trace Walk.step (Walk.start values) calls) := by
  have traces : Machine.Matches FollowsCursor (Machine.trace ListIterator.step (listIterator list) calls)
      (Machine.trace Walk.step (Walk.start values) calls) := by
    apply Machine.trace_matches
    · intro iter walk call follows
      exact follows.step call
    · exact FollowsCursor.start stores small
  apply traces.mono
  rintro iter walk ⟨front, back, follows⟩
  exact ⟨follows.valuesFrom_ok, follows.stores_iff⟩

/-- An element is inserted behind the first of two, and the last is removed. -/
theorem iterator_walks_two : ∃ list : LinkedList ℕ,
    ((LinkedList.create.append 1).bind fun list => list.append 2) = .ok list ∧
      Machine.Matches Agrees
        (Machine.trace ListIterator.step (listIterator list) [.insert 3, .hasNext, .remove, .next, .reset])
        (Machine.trace Walk.step (Walk.start [1, 2]) [.insert 3, .hasNext, .remove, .next, .reset]) := by
  refine ⟨⟨[⟨1, some 1⟩, ⟨2, none⟩], some 0, some 1, 2⟩, by decide, iterator_walks ?_ (by decide) _⟩
  exact ⟨[(0, 1), (1, 2)], ⟨⟨rfl, some 1, rfl, rfl, none, rfl, rfl⟩, by decide, fun _ => rfl, rfl⟩, rfl⟩

example :
    (Machine.trace Walk.step (Walk.start [1, 2]) [.insert 3, .hasNext, .remove, .next, .reset]).map Prod.fst =
    .ok [.done, .bool true, .value 2, .value 3, .done] := by decide

end GarbageCollector.Soundness
