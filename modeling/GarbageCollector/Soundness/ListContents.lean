import GarbageCollector.Machine.Run
import GarbageCollector.Proofs.LinkedList

/-! # The linked list against the mathematical sequence

A list and a sequence take the same calls. They agree as long as no call removes the final link of
several and the size fits its `int`: `ioopm_linked_list_remove` unlinks every other link, but leaves the
final one in the chain and in `last`, so a later append goes behind a link that is no longer counted.
-/

namespace GarbageCollector.Soundness

open Model Proofs

variable {α : Type}

/-- A call on a list. -/
inductive ListCall (α : Type) where
  | append (value : α)
  | prepend (value : α)
  | remove (index : ℕ)
  | clear

/-- A list and the sequence that it should store. -/
structure PairedList (α : Type) where
  list : LinkedList α
  values : List α

namespace PairedList

/-- The empty list and the empty sequence. -/
def start : PairedList α := ⟨LinkedList.create, []⟩

def step (p : PairedList α) : ListCall α → Except DemoFault (PairedList α)
  | .append value => do
    let list ← p.list.append value
    .ok ⟨list, p.values ++ [value]⟩
  | .prepend value => do
    let list ← p.list.prepend value
    .ok ⟨list, value :: p.values⟩
  | .remove index => do
    let (_, list) ← p.list.remove index
    .ok ⟨list, p.values.eraseIdx index⟩
  | .clear => .ok ⟨p.list.clear, []⟩

/-- A removal is at an index of the sequence. -/
def InRange (p : PairedList α) : ListCall α → Prop
  | .remove index => index < p.values.length
  | _ => True

/-- The calls that keep the list in order. -/
def Unlinks (p : PairedList α) : ListCall α → Prop
  | .append _ => p.values.length + 1 < 2 ^ 31
  | .prepend _ => p.values.length + 1 < 2 ^ 31
  | .remove index => index = 0 ∨ index + 1 < p.values.length
  | .clear => True

instance (p : PairedList α) : DecidablePred p.InRange := fun call => by
  cases call <;> unfold InRange <;> infer_instance

instance (p : PairedList α) : DecidablePred p.Unlinks := fun call => by
  cases call <;> unfold Unlinks <;> infer_instance

end PairedList

/-- Everything that can be read off a list is what the sequence says. -/
structure SameContents (cmp : α → α → Bool) (list : LinkedList α) (values : List α) : Prop where
  size : list.size = values.length
  met : list.valuesFrom list.first list.size.toNat = .ok values
  get : ∀ (index : ℕ) value, values[index]? = some value → list.get index = .ok value
  contains : ∀ element, list.contains cmp element = .ok (values.any fun value => cmp value element)
  last : values ≠ [] → ∃ address,
    list.last = some address ∧ list.findLink (list.size - 1) = .ok (some address)

/-- The call returns, a removal returns the removed value, and the contents agree again. -/
def Refines (cmp : α → α → Bool) (p : PairedList α) (call : ListCall α) : Prop :=
  ∃ next, p.step call = .ok next ∧ SameContents cmp next.list next.values ∧
    ∀ index, call = .remove index →
      ∃ value list, p.values[index]? = some value ∧ p.list.remove index = .ok (value, list)

variable {cmp : α → α → Bool} {p next : PairedList α} {call : ListCall α}

theorem sameContents_of_stores {list : LinkedList α} {values : List α} (stores : Stores list values) :
    SameContents cmp list values :=
  ⟨stores.size, stores.values_eq, fun _ _ => stores.get, stores.contains cmp, stores.last⟩

/-- The list stores the sequence, whose length fits an `int`. -/
structure PairedList.Intact (p : PairedList α) : Prop where
  stores : Stores p.list p.values
  small : p.values.length < 2 ^ 31

/-- A call that keeps the list in order returns and keeps the invariant. -/
theorem PairedList.Intact.advance (intact : p.Intact) (inRange : p.InRange call) (unlinks : p.Unlinks call) :
    ∃ next, p.step call = .ok next ∧ next.Intact ∧ ∀ index, call = .remove index →
      ∃ value list, p.values[index]? = some value ∧ p.list.remove index = .ok (value, list) := by
  cases call with
  | append value =>
    obtain ⟨list, appended, stores⟩ := intact.stores.append value unlinks
    refine ⟨⟨list, p.values ++ [value]⟩, ?_, ⟨stores, ?_⟩, by simp⟩
    · simp only [PairedList.step, appended, bind, Except.bind]
    · rw [List.length_append, List.length_singleton]
      exact unlinks
  | prepend value =>
    obtain ⟨list, prepended, stores⟩ := intact.stores.prepend value unlinks
    refine ⟨⟨list, value :: p.values⟩, ?_, ⟨stores, unlinks⟩, by simp⟩
    simp only [PairedList.step, prepended, bind, Except.bind]
  | remove index =>
    have found := List.getElem?_eq_getElem inRange
    obtain ⟨list, removed, stores⟩ := intact.stores.remove found intact.small unlinks
    refine ⟨⟨list, p.values.eraseIdx index⟩, ?_, ⟨stores, ?_⟩, ?_⟩
    · simp only [PairedList.step, removed, bind, Except.bind]
    · exact (List.length_eraseIdx_le _ _).trans_lt intact.small
    · rintro _ ⟨⟩
      exact ⟨_, list, found, removed⟩
  | clear => exact ⟨_, rfl, ⟨Stores.clear _, by simp⟩, by simp⟩

/-- Every other call faults or leaves a stale `last`. -/
theorem PairedList.Intact.unlinks_of_refines (intact : p.Intact) (inRange : p.InRange call)
    (refines : Refines cmp p call) : p.Unlinks call := by
  obtain ⟨next, stepped, same, _⟩ := refines
  cases call with
  | append value =>
    obtain ⟨list, _, appended⟩ := intact.stores.append_eq value
    rw [PairedList.step, appended] at stepped
    rcases Nat.lt_or_ge (p.values.length + 1) (2 ^ 31) with room | full
    · exact room
    · rw [checkedInt_overflow (by omega)] at stepped
      cases stepped
  | prepend value =>
    obtain ⟨list, _, prepended⟩ := intact.stores.prepend_eq value
    rw [PairedList.step, prepended] at stepped
    rcases Nat.lt_or_ge (p.values.length + 1) (2 ^ 31) with room | full
    · exact room
    · rw [checkedInt_overflow (by omega)] at stepped
      cases stepped
  | remove index =>
    have found := List.getElem?_eq_getElem inRange
    by_contra final
    rw [PairedList.Unlinks, not_or, not_lt] at final
    rw [PairedList.InRange] at inRange
    obtain ⟨list, removed, stale⟩ :=
      intact.stores.remove_last found intact.small (by omega) final.1
    simp only [PairedList.step, removed, bind, Except.bind, Except.ok.injEq] at stepped
    subst stepped
    have filled : p.values.eraseIdx index ≠ [] := by
      rw [← List.length_pos_iff, List.length_eraseIdx_of_lt inRange]
      omega
    obtain ⟨address, last, link⟩ := same.last filled
    exact stale (link.trans (congrArg _ last.symm))
  | clear => trivial

/-- Along any sequence of calls with indices in range, the list agrees with the sequence exactly when no
call removes the final link of several or overflows the size. -/
theorem listContents_iff {calls : List (ListCall α)}
    (inRange : Machine.Along PairedList.step PairedList.InRange PairedList.start calls) :
    Machine.Along PairedList.step (Refines cmp) PairedList.start calls ↔
      Machine.Along PairedList.step PairedList.Unlinks PairedList.start calls := by
  apply Machine.along_iff_of_kept PairedList.Intact ?_ ?_ inRange ⟨Stores.create, Nat.two_pow_pos 31⟩
  · intro p call intact inRange
    refine ⟨intact.unlinks_of_refines inRange, fun unlinks => ?_⟩
    obtain ⟨next, stepped, intact', returned⟩ := intact.advance inRange unlinks
    exact ⟨next, stepped, sameContents_of_stores intact'.stores, returned⟩
  · intro p call next intact inRange refines stepped
    obtain ⟨other, stepped', intact', _⟩ :=
      intact.advance inRange (intact.unlinks_of_refines inRange refines)
    cases stepped.symm.trans stepped'
    exact intact'

/-- Two values appended, the second removed and a third appended: the second is still there. -/
theorem listContents_stale :
    Machine.Along PairedList.step PairedList.InRange PairedList.start
        [.append 1, .append 2, .remove 1, .append 3] ∧
      (∃ p : PairedList ℕ, Machine.run PairedList.step PairedList.start
          [.append 1, .append 2, .remove 1, .append 3] = .ok p ∧
        p.list.valuesFrom p.list.first 2 = .ok [1, 2] ∧ p.values = [1, 3]) ∧
      ¬ Machine.Along PairedList.step (Refines fun first second => first == second) PairedList.start
        [.append 1, .append 2, .remove 1, .append 3] := by
  refine ⟨by decide, ⟨_, rfl, rfl, rfl⟩, fun along => ?_⟩
  obtain ⟨next, stepped, same, _⟩ := ((along.2 _ rfl).2 _ rfl).1
  cases stepped
  obtain ⟨address, last, link⟩ := same.last (by decide)
  cases last
  cases link

/-- The middle one of three values is removed and then the first. -/
theorem listContents_inner :
    Machine.Along PairedList.step (Refines fun first second => first == second) PairedList.start
      [.append 1, .prepend 2, .append 3, .remove 1, .remove 0, .append 4, .clear] :=
  (listContents_iff (by decide)).mpr (by decide)

end GarbageCollector.Soundness
