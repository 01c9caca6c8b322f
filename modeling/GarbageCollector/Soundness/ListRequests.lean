import GarbageCollector.Machine.Trace
import GarbageCollector.Model.Store
import GarbageCollector.Proofs.CountedLists

/-! # A linked list under any calls

All functions of a linked list but its iterator, with any arguments and in any order, also after the last
link has been removed, on a list that has become empty, and at indices that are out of range. They answer as
a list that counts fewer values than it has: `ioopm_linked_list_remove` takes the last link of several from
the size, but not from the chain, where the next `ioopm_linked_list_append` makes it count again.
-/

namespace GarbageCollector.Soundness

open Model Proofs

variable {α : Type}

/-- A call on a list; a comparison, a predicate or a function has been given its extra argument. -/
inductive ListRequest (α : Type) where
  | append (value : α)
  | prepend (value : α)
  | remove (index : ℤ)
  | get (index : ℤ)
  | contains (cmp : α → α → Bool) (element : α)
  | size
  | isEmpty
  | all (prop : α → Bool)
  | any (prop : α → Bool)
  | applyToAll (change : α → α)
  | clear

/-- What a call returns. -/
inductive ListReply (α : Type) where
  | nothing
  | value (value : α)
  | truth (holds : Bool)
  | number (number : ℤ)
deriving DecidableEq, Repr

/-- A call on a linked list. -/
def serve (list : LinkedList α) : ListRequest α → Except DemoFault (ListReply α × LinkedList α)
  | .append value => do
    let list ← list.append value
    .ok (.nothing, list)
  | .prepend value => do
    let list ← list.prepend value
    .ok (.nothing, list)
  | .remove index => do
    let (value, list) ← list.remove index
    .ok (.value value, list)
  | .get index => do
    let value ← list.get index
    .ok (.value value, list)
  | .contains cmp element => do
    let holds ← list.contains cmp element
    .ok (.truth holds, list)
  | .size => .ok (.number list.size, list)
  | .isEmpty => .ok (.truth list.isEmpty, list)
  | .all prop => do
    let holds ← list.all prop
    .ok (.truth holds, list)
  | .any prop => do
    let holds ← list.any prop
    .ok (.truth holds, list)
  | .applyToAll change => do
    let list ← list.applyToAll change
    .ok (.nothing, list)
  | .clear => .ok (.nothing, list.clear)

/-- The value that is asked for: the first of the chain below the range, the final one above it. -/
def asked (c : CountedList α) (index : ℤ) : Option α :=
  if index < 0 then c.values.head?
  else if c.count - 1 < index then c.final
  else c.values[index.toNat]?

/-- A list with one value more, if an `int` counts it. -/
def grown (c : CountedList α) (longer : CountedList α) : Except DemoFault (ListReply α × CountedList α) :=
  if c.count + 1 < 2 ^ 31 then .ok (.nothing, longer) else .error .signedOverflow

/-- The same call on a list that counts. -/
def serveCounted (c : CountedList α) : ListRequest α → Except DemoFault (ListReply α × CountedList α)
  | .append value => grown c (c.append value)
  | .prepend value => grown c (c.prepend value)
  | .remove index => do
    let value ← deref (asked c index)
    .ok (.value value, if inside : index.toNat < c.count ∧ 0 ≤ index then c.remove index.toNat inside.1 else c)
  | .get index => do
    let value ← deref (asked c index)
    .ok (.value value, c)
  | .contains cmp element => .ok (.truth (c.shown.any fun value => cmp value element), c)
  | .size => .ok (.number c.count, c)
  | .isEmpty => .ok (.truth (c.count = 0), c)
  | .all prop => .ok (.truth (c.shown.all prop), c)
  | .any prop => .ok (.truth (c.shown.any prop), c)
  | .applyToAll change => .ok (.nothing, c.change change)
  | .clear => .ok (.nothing, .empty)

/-- The list has the values that count. -/
def ShowsCounted (list : LinkedList α) (c : CountedList α) : Prop :=
  list.valuesFrom list.first list.size.toNat = .ok c.shown ∧ list.size = c.count

variable {list list' : LinkedList α} {c : CountedList α} {value : α} {index : ℤ}

/-- The links, the last pointer and the size of a list that counts. -/
structure Serves (list : LinkedList α) (c : CountedList α) : Prop where
  counts : Counts list c
  final : LeadsToFinal list c
  small : c.count < 2 ^ 31

theorem Serves.create : Serves (LinkedList.create : LinkedList α) .empty := ⟨Counts.create, rfl, Nat.two_pow_pos 31⟩

theorem Serves.shows (serves : Serves list c) : ShowsCounted list c := by
  obtain ⟨_, _, _, size⟩ := serves.counts
  exact ⟨serves.counts.reads.values_eq, size⟩

/-- A list that gets one value more. -/
theorem matches_grown {longer : CountedList α} {result : Except DemoFault (LinkedList α)}
    (counts : Counts list' longer) (filled : longer.values ≠ []) (count : longer.count ≤ c.count + 1)
    (ran : result = (checkedInt (c.count + 1)).map fun _ => list') :
    Machine.Matches Serves (result >>= fun list => .ok (.nothing, list)) (grown c longer) := by
  rcases lt_or_ge (c.count + 1) (2 ^ 31) with room | full
  · rw [ran, grown, if_pos room, checkedInt_ok (by omega) (by omega)]
    exact ⟨rfl, counts, counts.leadsToFinal filled, count.trans_lt room⟩
  · rw [ran, grown, if_neg (not_lt.mpr full), checkedInt_overflow (by omega)]
    exact rfl

theorem matches_append (serves : Serves list c) (value : α) :
    Machine.Matches Serves (serve list (.append value)) (serveCounted c (.append value)) := by
  obtain ⟨list', counts, ran⟩ := serves.counts.append_eq value
  apply matches_grown counts ?_ ?_ ran
  · rw [CountedList.append]
    split <;> simp [CountedList.single]
  · rw [CountedList.append]
    split
    · exact Nat.succ_le_succ (Nat.zero_le _)
    · exact le_refl _

theorem matches_prepend (serves : Serves list c) (value : α) :
    Machine.Matches Serves (serve list (.prepend value)) (serveCounted c (.prepend value)) := by
  obtain ⟨list', counts, ran⟩ := serves.counts.prepend_eq value
  apply matches_grown counts ?_ ?_ ran
  · rw [CountedList.prepend]
    split <;> simp [CountedList.single]
  · rw [CountedList.prepend]
    split
    · exact Nat.succ_le_succ (Nat.zero_le _)
    · exact le_refl _

/-- `ioopm_linked_list_get` and the value of `ioopm_linked_list_remove`, at any index. -/
theorem get_asked (serves : Serves list c) (index : ℤ) : list.get index = deref (asked c index) := by
  obtain ⟨_, _, _, size⟩ := serves.counts
  rw [LinkedList.get, asked, size]
  split
  · rcases serves.counts.link_first with ⟨none_left, first⟩ | ⟨value, next, first, read⟩
    · rw [none_left, first]
      rfl
    · rw [first, read]
      rfl
  · split
    · have final := serves.final
      rw [LeadsToFinal] at final
      cases last : c.final with
      | none =>
        rw [last] at final
        dsimp only at final
        rw [final]
        rfl
      | some value =>
        rw [last] at final
        obtain ⟨next, read⟩ := final
        rw [read]
        rfl
    · next lower upper =>
      have inside : index.toNat < c.values.length := by
        have bound := c.counted
        omega
      have found := List.getElem?_eq_getElem inside
      obtain ⟨next, read⟩ := serves.counts.link_at found
      rw [Int.toNat_of_nonneg (by omega)] at read
      rw [found]
      obtain ⟨link, there, here⟩ := Machine.bind_ok_iff.mp read
      rw [there, Machine.ok_bind, here]
      rfl

/-- Out of range, `ioopm_linked_list_remove` is `ioopm_linked_list_get`. -/
theorem remove_outside (outside : index < 0 ∨ list.size - 1 < index) :
    list.remove index = (list.get index).map fun value => (value, list) := by
  rw [LinkedList.remove, LinkedList.get]
  split
  · cases list.link list.first <;> rfl
  · next lower =>
    rw [if_pos (outside.resolve_left lower), if_pos (outside.resolve_left lower)]
    cases list.link list.last <;> rfl

theorem link_congr (links : list'.links = list.links) (pointer : Option ℕ) :
    list'.link pointer = list.link pointer := by
  cases pointer with
  | none => rfl
  | some address => rw [LinkedList.link, LinkedList.link, links]

/-- The removal of the first link writes no link, and leaves `last`. -/
theorem remove_zero (ran : list.remove 0 = .ok (value, list')) : list'.links = list.links ∧ list'.last = list.last := by
  rw [LinkedList.remove, if_neg (lt_irrefl 0)] at ran
  split at ran
  · obtain ⟨last, _, ran⟩ := Machine.bind_ok_iff.mp ran
    cases ran
    exact ⟨rfl, rfl⟩
  · obtain ⟨currentLink, _, ran⟩ := Machine.bind_ok_iff.mp ran
    obtain ⟨current, _, ran⟩ := Machine.bind_ok_iff.mp ran
    dsimp only at ran
    rw [if_pos rfl] at ran
    obtain ⟨first, _, ran⟩ := Machine.bind_ok_iff.mp ran
    obtain ⟨_, same, ran⟩ := Machine.bind_ok_iff.mp ran
    obtain ⟨size, _, ran⟩ := Machine.bind_ok_iff.mp ran
    cases same
    cases ran
    exact ⟨rfl, rfl⟩

/-- The list after the removal of a link that counts. -/
theorem Serves.removed {place : ℕ} (serves : Serves list c) (inside : place < c.count)
    (counts : Counts list' (c.remove place inside)) (ran : list.remove place = .ok (value, list')) :
    Serves list' (c.remove place inside) := by
  have small := serves.small
  refine ⟨counts, ?_, by rw [CountedList.count_remove]; omega⟩
  rcases eq_or_ne (c.remove place inside).values [] with gone | filled
  · obtain ⟨only, single, rfl, final⟩ := CountedList.of_remove_empty gone
    obtain ⟨links, last⟩ := remove_zero ran
    have before := serves.final
    have whole : c.final = some only := by
      rw [CountedList.final, single]
      rfl
    rw [LeadsToFinal, whole] at before
    obtain ⟨next, read⟩ := before
    rw [LeadsToFinal, final, last]
    refine ⟨next, ?_⟩
    rw [← read, link_congr links]
  · exact counts.leadsToFinal filled

theorem matches_remove (serves : Serves list c) (index : ℤ) :
    Machine.Matches Serves (serve list (.remove index)) (serveCounted c (.remove index)) := by
  obtain ⟨_, _, _, size⟩ := serves.counts
  have value := get_asked serves index
  by_cases inside : index.toNat < c.count ∧ 0 ≤ index
  · obtain ⟨place, rfl⟩ := Int.eq_ofNat_of_zero_le inside.2
    obtain ⟨list', value, found, ran, counts⟩ := serves.counts.remove inside.1 serves.small.le
    have here : asked c place = some value := by
      rw [asked, if_neg (by omega), if_neg (by omega)]
      exact found
    rw [Int.toNat_natCast] at ran
    rw [serve, serveCounted, here]
    dsimp only [deref]
    rw [ran, Machine.ok_bind, Machine.ok_bind, dif_pos inside]
    exact ⟨rfl, serves.removed inside.1 counts ran⟩
  · rw [serve, serveCounted, remove_outside (by omega), value]
    cases deref (asked c index) with
    | error fault => exact rfl
    | ok value =>
      dsimp only [Except.map]
      rw [Machine.ok_bind, Machine.ok_bind, dif_neg inside]
      exact ⟨rfl, serves⟩

/-- Every call answers as on the list that counts. -/
theorem Serves.step (serves : Serves list c) (request : ListRequest α) :
    Machine.Matches Serves (serve list request) (serveCounted c request) := by
  cases request with
  | append value => exact matches_append serves value
  | prepend value => exact matches_prepend serves value
  | remove index => exact matches_remove serves index
  | get index =>
    rw [serve, serveCounted, get_asked serves index]
    cases deref (asked c index) with
    | error fault => exact rfl
    | ok value => exact ⟨rfl, serves⟩
  | contains cmp element =>
    rw [serve, serves.counts.contains]
    exact ⟨rfl, serves⟩
  | size =>
    obtain ⟨_, _, _, size⟩ := serves.counts
    exact ⟨congrArg ListReply.number size, serves⟩
  | isEmpty =>
    obtain ⟨_, _, _, size⟩ := serves.counts
    refine ⟨congrArg ListReply.truth ?_, serves⟩
    rw [LinkedList.isEmpty, size]
    simp
  | all prop =>
    rw [serve, serves.counts.all]
    exact ⟨rfl, serves⟩
  | any prop =>
    rw [serve, serves.counts.any]
    exact ⟨rfl, serves⟩
  | applyToAll change =>
    obtain ⟨list', ran, counts⟩ := serves.counts.applyToAll change
    rw [serve, ran]
    refine ⟨rfl, counts, ?_, serves.small⟩
    rcases eq_or_ne (c.change change).values [] with gone | filled
    · obtain ⟨zero, final⟩ := CountedList.of_change_empty gone
      obtain ⟨_, _, _, size⟩ := serves.counts
      have same : list.applyToAll change = .ok list := by
        rw [LinkedList.applyToAll, size, zero]
        rfl
      cases same.symm.trans ran
      rw [LeadsToFinal, final]
      exact serves.final
    · exact counts.leadsToFinal filled
  | clear => exact ⟨rfl, Counts.clear list, rfl, Nat.two_pow_pos 31⟩

/-- Whatever is called on a list, it answers and shows what a list that counts does. -/
theorem list_serves (requests : List (ListRequest α)) : Machine.Matches ShowsCounted
    (Machine.trace serve LinkedList.create requests) (Machine.trace serveCounted CountedList.empty requests) :=
  (Machine.trace_matches (fun _ _ request serves => Serves.step serves request) Serves.create).mono
    fun _ _ serves => serves.shows

/-- The second of two links is removed, and counts again once there is a third. -/
example : (Machine.trace serve LinkedList.create [.append 1, .append 2, .remove 1, .append 3, .get 1]).map
    Prod.fst = .ok [.nothing, .nothing, .value 2, .nothing, .value 2] := by decide

end GarbageCollector.Soundness
