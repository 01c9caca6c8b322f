import GarbageCollector.Machine.Trace
import GarbageCollector.Math.Cursor
import GarbageCollector.Model.Iterator
import GarbageCollector.Proofs.LinkedList

/-! # Iterators and cursors

An iterator follows a cursor in the values of its list: the links up to the current one store what is in front
of the cut, and those behind it the rest. The pointer `last` of the list is right until the last link is removed
through the iterator; from then on it points to a link that is no longer in the chain, which no call repairs.
-/

namespace GarbageCollector.Proofs

open Model

variable {α : Type}

/-- A cursor, and whether `last` points to the last link of the chain. -/
structure Walk (α : Type) where
  cursor : Cursor α
  keepsLast : Bool

namespace Walk

/-- At the first value of a list. -/
def start (values : List α) : Walk α := ⟨Cursor.start values, true⟩

/-- A result that needs a current value. -/
def reading {β : Type} (value : Option α) (result : α → β) : Except DemoFault β :=
  match value with
  | none => .error .nullDereference
  | some value => .ok (result value)

def step (walk : Walk α) : IteratorCall α → Except DemoFault (IteratorAnswer α × Walk α)
  | .hasNext => reading walk.cursor.current fun _ => (.bool (walk.cursor.back ≠ []), walk)
  | .next => reading walk.cursor.next.current fun value => (.value value, { walk with cursor := walk.cursor.next })
  | .reset => .ok (.done, { walk with cursor := Cursor.start walk.cursor.values })
  | .current => reading walk.cursor.current fun value => (.value value, walk)
  | .remove => reading walk.cursor.back.head? fun value =>
      (.value value, ⟨walk.cursor.removeNext, walk.keepsLast && walk.cursor.back.tail ≠ []⟩)
  | .insert element => (checkedInt (walk.cursor.values.length + 1)).map fun _ =>
      (.done, { walk with cursor := walk.cursor.insert element })

end Walk

variable {iter : ListIterator α} {list : LinkedList α} {walk : Walk α} {front back before : List (ℕ × α)}
  {address : ℕ} {value element : α} {next : Option ℕ} {cells : List (ℕ × α)}

/-- The list with the `last` pointer that it should have. -/
def repaired (list : LinkedList α) (cells : List (ℕ × α)) : LinkedList α :=
  { list with last := (cells.map Prod.fst).getLast? }

/-- The iterator is behind the links of `front`, which are all that are in front of the cut. -/
structure FollowsAt (iter : ListIterator α) (walk : Walk α) (front back : List (ℕ × α)) : Prop where
  laid : LaidOut (repaired iter.list (front ++ back)) (front ++ back)
  small : (front ++ back).length < 2 ^ 31
  current : iter.current = (front.map Prod.fst).getLast?
  frontValues : front.map Prod.snd = walk.cursor.front
  backValues : back.map Prod.snd = walk.cursor.back
  kept : walk.keepsLast = true → LaidOut iter.list (front ++ back)
  lost : walk.keepsLast = false → front ≠ [] ∧ ∃ stale, iter.list.last = some stale ∧
    stale < iter.list.links.length ∧ stale ∉ (front ++ back).map Prod.fst

/-- The iterator follows the walk. -/
def FollowsCursor (iter : ListIterator α) (walk : Walk α) : Prop := ∃ front back, FollowsAt iter walk front back

/-- A link is the first of those from it on. -/
theorem append_link (rest : List (ℕ × α)) :
    before ++ [(address, value)] ++ rest = before ++ (address, value) :: rest := by
  rw [List.append_assoc, List.singleton_append]

theorem LaidOut.repair (laid : LaidOut list cells) : LaidOut (repaired list cells) cells :=
  ⟨laid.chain, laid.distinct, fun _ => rfl, laid.size⟩

/-- A list without links is laid out whatever its `last` pointer is. -/
theorem LaidOut.of_repaired (laid : LaidOut (repaired list cells) cells)
    (last : cells ≠ [] → list.last = (cells.map Prod.fst).getLast?) : LaidOut list cells :=
  ⟨laid.chain, laid.distinct, last, laid.size⟩

theorem FollowsCursor.start {values : List α} (stores : Stores list values) (small : values.length < 2 ^ 31) :
    FollowsCursor (listIterator list) (Walk.start values) := by
  obtain ⟨cells, laid, rfl⟩ := stores
  have whole : cells.take 1 ++ cells.drop 1 = cells := List.take_append_drop 1 cells
  refine ⟨cells.take 1, cells.drop 1, ?_, ?_, ?_, ?_, ?_, fun _ => ?_, fun lost => nomatch lost⟩
  · rw [whole]
    exact laid.repair
  · rw [whole, ← List.length_map Prod.snd]
    exact small
  · cases cells with
    | nil => exact laid.chain
    | cons head rest => exact laid.chain.1
  · exact List.map_take
  · exact List.map_drop
  · rw [whole]
    exact laid

namespace FollowsAt

theorem values (follows : FollowsAt iter walk front back) :
    (front ++ back).map Prod.snd = walk.cursor.values := by
  rw [List.map_append, follows.frontValues, follows.backValues, Cursor.values]

/-- Without a current link there is no link. -/
theorem empty (follows : FollowsAt iter walk [] back) : back = [] := by
  have ended : walk.cursor.back = [] := walk.cursor.started follows.frontValues.symm
  rw [← follows.backValues] at ended
  exact List.map_eq_nil_iff.mp ended

/-- The current link, and the chain behind it. -/
theorem read (follows : FollowsAt iter walk (before ++ [(address, value)]) back) :
    iter.current = some address ∧ walk.cursor.current = some value ∧
      ∃ next, arenaCell linkView iter.list.links address = some (value, next) ∧
        Segment (arenaCell linkView iter.list.links) next back none := by
  have laid := follows.laid
  rw [List.append_assoc, List.singleton_append] at laid
  obtain ⟨_, next, found, tail⟩ := laid.findLink
  refine ⟨?_, ?_, next, found, tail⟩
  · rw [follows.current]
    simp
  · rw [Cursor.current, ← follows.frontValues]
    simp

/-- There is a next link when the rest of the values is not empty. -/
theorem hasNext (follows : FollowsAt iter walk (before ++ [(address, value)]) back) :
    iter.hasNext = .ok (decide (walk.cursor.back ≠ [])) := by
  obtain ⟨here, _, next, found, tail⟩ := follows.read
  rw [ListIterator.hasNext, here, link_some found, Machine.ok_bind, ← follows.backValues]
  cases back with
  | nil =>
    obtain rfl := Segment.nil_iff.mp tail
    rfl
  | cons head rest =>
    obtain ⟨following, stored⟩ := head
    rw [tail.start_eq]
    rfl

/-- The iterator moves with the cursor. -/
theorem moved {following : ℕ} {stored : α} {rest : List (ℕ × α)}
    (follows : FollowsAt iter walk front ((following, stored) :: rest)) :
    FollowsAt { iter with current := some following } { walk with cursor := walk.cursor.next }
      (front ++ [(following, stored)]) rest ∧ walk.cursor.next.current = some stored := by
  have same : front ++ [(following, stored)] ++ rest = front ++ (following, stored) :: rest := append_link rest
  have behind : walk.cursor.back = stored :: rest.map Prod.snd := follows.backValues.symm
  have ahead : walk.cursor.next.front = walk.cursor.front ++ [stored] ∧
      walk.cursor.next.back = rest.map Prod.snd := by
    rw [Cursor.next]
    split
    · next ended =>
      rw [ended] at behind
      cases behind
    · next other values more =>
      rw [more] at behind
      cases behind
      exact ⟨rfl, rfl⟩
  refine ⟨⟨?_, ?_, ?_, ?_, ahead.2.symm, ?_, fun lost => ?_⟩, ?_⟩
  · rw [same]
    exact follows.laid
  · rw [same]
    exact follows.small
  · simp
  · rw [ahead.1, List.map_append, follows.frontValues]
    rfl
  · rw [same]
    exact follows.kept
  · rw [same]
    exact ⟨by simp, (follows.lost lost).2⟩
  · rw [Cursor.current, ahead.1, List.getLast?_concat]

/-- `ioopm_iterator_next`. -/
theorem next_ok (follows : FollowsAt iter walk (before ++ [(address, value)]) back) : ∃ stored iter',
    iter.next = .ok (stored, iter') ∧ walk.cursor.next.current = some stored ∧
      FollowsCursor iter' { walk with cursor := walk.cursor.next } := by
  obtain ⟨here, current, next, found, tail⟩ := follows.read
  rw [ListIterator.next, follows.hasNext, Machine.ok_bind]
  cases back with
  | nil =>
    have ended : walk.cursor.back = [] := follows.backValues.symm
    have stays : walk.cursor.next = walk.cursor := by
      rw [Cursor.next]
      split
      · rfl
      · next more =>
        rw [ended] at more
        cases more
    rw [ended]
    refine ⟨value, iter, ?_, by rw [stays, current], _, [], by rw [stays]; exact follows⟩
    rw [if_neg (by simp), Machine.ok_bind]
    dsimp only
    rw [here, link_some found]
    rfl
  | cons head rest =>
    obtain ⟨following, stored⟩ := head
    obtain ⟨rfl, _, found', _⟩ := tail
    have more : walk.cursor.back ≠ [] := by
      rw [← follows.backValues]
      exact List.cons_ne_nil _ _
    obtain ⟨moves, value'⟩ := follows.moved
    refine ⟨stored, { iter with current := some following }, ?_, value', _, rest, moves⟩
    rw [if_pos (decide_eq_true more), here, link_some found, Machine.ok_bind, Machine.ok_bind]
    dsimp only
    rw [link_some found']
    rfl

/-- `ioopm_iterator_reset`. -/
theorem reset (follows : FollowsAt iter walk front back) :
    FollowsCursor iter.reset { walk with cursor := Cursor.start walk.cursor.values } := by
  have whole : (front ++ back).take 1 ++ (front ++ back).drop 1 = front ++ back :=
    List.take_append_drop 1 (front ++ back)
  have chain : Segment (arenaCell linkView iter.list.links) iter.list.first (front ++ back) none :=
    follows.laid.chain
  refine ⟨(front ++ back).take 1, (front ++ back).drop 1, ?_, ?_, ?_, ?_, ?_, ?_, fun lost => ?_⟩
  · rw [whole]
    exact follows.laid
  · rw [whole]
    exact follows.small
  · rw [ListIterator.reset]
    cases cells : front ++ back with
    | nil =>
      rw [cells] at chain
      exact chain
    | cons head rest =>
      rw [cells] at chain
      exact chain.1
  · rw [List.map_take, follows.values]
    rfl
  · rw [List.map_drop, follows.values]
    rfl
  · rw [whole]
    exact follows.kept
  · rw [whole]
    obtain ⟨filled, stale⟩ := follows.lost lost
    refine ⟨?_, stale⟩
    cases front with
    | nil => exact absurd rfl filled
    | cons head rest => exact List.cons_ne_nil _ _

/-- `ioopm_iterator_remove` without a next link. -/
theorem remove_last (follows : FollowsAt iter walk (before ++ [(address, value)]) []) :
    iter.remove = .error .nullDereference := by
  obtain ⟨here, _, next, found, tail⟩ := follows.read
  obtain rfl := Segment.nil_iff.mp tail
  rw [ListIterator.remove, here, link_some found]
  rfl

/-- The link behind a link is taken out of the chain. -/
theorem unlinked {following : ℕ} {stored : α} {rest : List (ℕ × α)} {size : ℤ}
    (laid : LaidOut list (before ++ (address, value) :: (following, stored) :: rest))
    (behind : Segment (arenaCell linkView list.links) next rest none) (counts : size = list.size - 1) :
    LaidOut (repaired { list with links := list.links.set address ⟨value, next⟩, size := size }
      (before ++ (address, value) :: rest)) (before ++ (address, value) :: rest) := by
  have outside : address ∉ rest.map Prod.fst := fun member => laid.apart.2 (List.mem_cons_of_mem _ member)
  have fewer : (before ++ (address, value) :: rest).Sublist
      (before ++ (address, value) :: (following, stored) :: rest) :=
    (List.Sublist.refl before).append (List.Sublist.cons_cons _ (List.sublist_cons_self _ _))
  refine ⟨laid.setLink_segment (behind.write_outside outside), ?_, fun _ => rfl, ?_⟩
  · exact laid.distinct.sublist (fewer.map _)
  · dsimp only [repaired]
    rw [counts, laid.size, List.length_append, List.length_append, List.length_cons, List.length_cons,
      List.length_cons]
    push_cast
    omega

section Unlink

variable {following : ℕ} {stored : α} {rest : List (ℕ × α)}
  (follows : FollowsAt iter walk (before ++ [(address, value)]) ((following, stored) :: rest))
include follows

/-- The values behind the one that is removed. -/
theorem tail_back : walk.cursor.back.tail = rest.map Prod.snd := by
  rw [← follows.backValues]
  rfl

/-- When the link is not the last one, `last` stays right. -/
theorem last_kept (keeps : (walk.keepsLast && walk.cursor.back.tail ≠ []) = true) :
    iter.list.last = ((before ++ (address, value) :: rest).map Prod.fst).getLast? := by
  rw [Bool.and_eq_true, decide_eq_true_eq, follows.tail_back, ne_eq, List.map_eq_nil_iff] at keeps
  have last := (follows.kept keeps.1).last
  rw [append_link] at last
  obtain ⟨final, others, rfl⟩ := List.exists_cons_of_ne_nil keeps.2
  rw [last (by simp)]
  simp [List.getLast?_append, List.getLast?_cons]

/-- Otherwise, or if it was wrong before, it points to a link that is not in the chain. -/
theorem last_lost (lost : (walk.keepsLast && walk.cursor.back.tail ≠ []) = false) :
    ∃ stale, iter.list.last = some stale ∧ stale < iter.list.links.length ∧
      stale ∉ (before ++ (address, value) :: rest).map Prod.fst := by
  cases keeps : walk.keepsLast with
  | true =>
    rw [keeps, Bool.true_and, decide_eq_false_iff_not, not_not, follows.tail_back, List.map_eq_nil_iff] at lost
    subst lost
    obtain ⟨_, _, next, _, tail⟩ := follows.read
    obtain ⟨_, _, found, _⟩ := tail
    have last := (follows.kept keeps).last
    have distinct := follows.laid.distinct
    rw [List.map_append, List.nodup_append'] at distinct
    refine ⟨following, ?_, lt_of_arenaCell (Option.isSome_of_eq_some found), ?_⟩
    · rw [last (by simp)]
      simp
    · rw [← append_link, List.append_nil]
      exact fun member => List.disjoint_left.mp distinct.2.2 member List.mem_cons_self
  | false =>
    obtain ⟨_, stale, last, inside, apart⟩ := follows.lost keeps
    refine ⟨stale, last, inside, fun member => apart ?_⟩
    rw [append_link, List.map_append, List.map_cons, List.map_cons]
    rw [List.map_append, List.map_cons] at member
    exact ((List.Sublist.refl _).append (List.Sublist.cons_cons _ (List.sublist_cons_self _ _))).subset member

/-- `ioopm_iterator_remove`; removing the last link loses `last`. -/
theorem remove_ok : ∃ iter', iter.remove = .ok (stored, iter') ∧
    FollowsAt iter' ⟨walk.cursor.removeNext, walk.keepsLast && walk.cursor.back.tail ≠ []⟩
      (before ++ [(address, value)]) rest := by
  obtain ⟨here, _, next, found, tail⟩ := follows.read
  obtain ⟨rfl, next', found', behind⟩ := tail
  have laid := follows.laid
  have small := follows.small
  rw [append_link] at laid small
  have size : iter.list.size = (before ++ (address, value) :: (following, stored) :: rest).length := laid.size
  rw [List.length_append, List.length_cons, List.length_cons] at size small
  have counted : checkedInt (iter.list.size - 1) = .ok (iter.list.size - 1) :=
    checkedInt_ok (by omega) (by omega)
  have shorter : LaidOut (repaired { iter.list with
      links := iter.list.links.set address ⟨value, next'⟩, size := iter.list.size - 1 }
        (before ++ (address, value) :: rest)) (before ++ (address, value) :: rest) := by
    have unlinks := unlinked laid behind rfl
    exact unlinks
  refine ⟨⟨{ iter.list with links := iter.list.links.set address ⟨value, next'⟩, size := iter.list.size - 1 },
    iter.current⟩, ?_, ?_, ?_, follows.current, follows.frontValues, follows.tail_back.symm, fun keeps => ?_,
    fun lost => ⟨by simp, ?_⟩⟩
  · rw [ListIterator.remove, here, link_some found, Machine.ok_bind, link_some found', Machine.ok_bind,
      setLink_some (Option.isSome_of_eq_some found), Machine.ok_bind]
    dsimp only
    rw [counted]
    rfl
  · rw [append_link]
    exact shorter
  · rw [append_link, List.length_append, List.length_cons]
    omega
  · rw [append_link]
    exact shorter.of_repaired fun _ => follows.last_kept keeps
  · obtain ⟨stale, last, inside, apart⟩ := follows.last_lost lost
    rw [append_link]
    exact ⟨stale, last, by rwa [List.length_set], apart⟩

end Unlink

/-- The links after `ioopm_iterator_insert` in a list that has some. -/
def splicedLinks (list : LinkedList α) (address : ℕ) (value element : α) (next : Option ℕ) : List (Link α) :=
  ((list.links ++ [Link.mk element none]).set address ⟨value, some list.links.length⟩).set list.links.length
    ⟨element, next⟩

/-- A new link is spliced in behind a link. -/
theorem spliced {size : ℤ} (laid : LaidOut list (before ++ (address, value) :: back))
    (found : arenaCell linkView list.links address = some (value, next))
    (counts : size = list.size + 1) :
    LaidOut (repaired { list with links := splicedLinks list address value element next, size := size }
      (before ++ (address, value) :: (list.links.length, element) :: back))
      (before ++ (address, value) :: (list.links.length, element) :: back) := by
  obtain ⟨left, _, found', tail⟩ := laid.chain.middle_eq
  cases found.symm.trans found'
  have inside : address < list.links.length := lt_of_arenaCell (Option.isSome_of_eq_some found)
  have fresh := laid.chain.fresh
  rw [List.map_append, List.map_cons, List.mem_append, not_or, List.mem_cons, not_or] at fresh
  obtain ⟨newBefore, _, newBack⟩ := fresh
  refine ⟨?_, ?_, fun _ => rfl, ?_⟩
  · apply Segment.append_iff.mpr
    refine ⟨some address, ?_, rfl, some list.links.length, ?_, rfl, next, ?_, ?_⟩
    · exact (left.alloc.write_outside laid.apart.1).write_outside newBefore
    · dsimp only [repaired, splicedLinks]
      rw [arenaCell_set_of_ne inside.ne, arenaCell_set (by rw [List.length_append]; omega)]
      rfl
    · dsimp only [repaired, splicedLinks]
      rw [arenaCell_set (by rw [List.length_set, List.length_append, List.length_singleton]; omega)]
      rfl
    · exact (tail.alloc.write_outside laid.apart.2).write_outside newBack
  · have distinct := laid.distinct
    rw [List.map_append, List.map_cons, List.nodup_middle, List.nodup_cons] at distinct
    rw [List.map_append, List.map_cons, List.map_cons, List.nodup_middle, List.nodup_cons, List.nodup_middle,
      List.nodup_cons]
    have laidBack := laid.apart
    refine ⟨?_, ?_, distinct.2⟩
    · rw [List.mem_append, List.mem_cons, not_or, not_or]
      exact ⟨laidBack.1, inside.ne, laidBack.2⟩
    · rw [List.mem_append, not_or]
      exact ⟨newBefore, newBack⟩
  · dsimp only [repaired]
    rw [counts, laid.size]
    simp only [List.length_append, List.length_cons]
    push_cast
    omega

/-- Behind the last link, the new link need not be written again. -/
theorem splicedLinks_none (list : LinkedList α) (apart : address ≠ list.links.length) :
    splicedLinks list address value element none =
      (list.links ++ [Link.mk element none]).set address ⟨value, some list.links.length⟩ := by
  have there : ((list.links ++ [Link.mk element none]).set address
      ⟨value, some list.links.length⟩)[list.links.length]? = some ⟨element, none⟩ := by
    rw [List.getElem?_set_ne apart, List.getElem?_concat_length]
  obtain ⟨inside, same⟩ := List.getElem?_eq_some_iff.mp there
  exact (congrArg (List.set _ _) same.symm).trans (List.set_getElem_self inside)

/-- `ioopm_iterator_insert` into a list without links. -/
theorem insert_empty (follows : FollowsAt iter walk [] back) (element : α) : ∃ iter',
    iter.insert element = (checkedInt (walk.cursor.values.length + 1)).map (fun _ => iter') ∧
      FollowsCursor iter' { walk with cursor := walk.cursor.insert element } := by
  obtain rfl := follows.empty
  have empty : (iter.list.alloc element).size = 0 := follows.laid.size
  have nothing : walk.cursor.values = [] := follows.values.symm
  have front : walk.cursor.front = [] := follows.frontValues.symm
  have behind : walk.cursor.back = [] := follows.backValues.symm
  have single := LaidOut.single iter.list element
  refine ⟨⟨{ iter.list.alloc element with
      first := some iter.list.links.length, last := some iter.list.links.length, size := 1 },
    some iter.list.links.length⟩, ?_, [(iter.list.links.length, element)], [], single.repair, ?_, rfl, ?_, ?_,
    fun _ => single, fun lost => absurd rfl (follows.lost lost).1⟩
  · rw [ListIterator.insert]
    dsimp only
    rw [if_pos empty, Machine.ok_bind]
    dsimp only
    rw [empty, nothing, List.length_nil, Nat.cast_zero]
    exact checkedInt_map
  · change 1 < 2 ^ 31
    decide
  · dsimp only [Cursor.insert]
    rw [front]
    rfl
  · dsimp only [Cursor.insert]
    rw [behind]
    rfl

/-- A list with a new link spliced in is followed by the cursor with its value put in. -/
theorem splice {last : Option ℕ} (follows : FollowsAt iter walk (before ++ [(address, value)]) back)
    (found : arenaCell linkView iter.list.links address = some (value, next)) (element : α)
    (room : (before ++ [(address, value)] ++ back).length + 1 < 2 ^ 31)
    (keeps : walk.keepsLast = true →
      last = ((before ++ (address, value) :: (iter.list.links.length, element) :: back).map Prod.fst).getLast?)
    (loses : walk.keepsLast = false → last = iter.list.last) :
    FollowsAt ⟨{ iter.list with
        links := splicedLinks iter.list address value element next, last := last, size := iter.list.size + 1 },
      some iter.list.links.length⟩ { walk with cursor := walk.cursor.insert element }
      (before ++ [(address, value)] ++ [(iter.list.links.length, element)]) back := by
  have whole : before ++ [(address, value)] ++ [(iter.list.links.length, element)] ++ back =
      before ++ (address, value) :: (iter.list.links.length, element) :: back := by
    rw [append_link, append_link]
  have laid := follows.laid
  rw [append_link] at laid
  have longer :=
    @spliced _ (repaired iter.list (before ++ (address, value) :: back)) back before address value element
    next (iter.list.size + 1) laid found rfl
  refine ⟨?_, ?_, ?_, ?_, follows.backValues, fun kept => ?_, fun lost => ⟨by simp, ?_⟩⟩
  · rw [whole]
    exact longer
  · rw [whole]
    simp only [List.length_append, List.length_cons, List.length_nil] at room ⊢
    omega
  · simp
  · rw [List.map_append, follows.frontValues]
    rfl
  · rw [whole]
    exact LaidOut.of_repaired longer fun _ => keeps kept
  · obtain ⟨_, stale, stored, inside, apart⟩ := follows.lost lost
    rw [append_link] at apart
    rw [whole]
    refine ⟨stale, (loses lost).trans stored, ?_, ?_⟩
    · dsimp only [splicedLinks]
      rw [List.length_set, List.length_set, List.length_append]
      omega
    · rw [List.map_append, List.map_cons, List.mem_append, List.mem_cons] at apart
      rw [List.map_append, List.map_cons, List.map_cons, List.mem_append, List.mem_cons, List.mem_cons]
      have different : stale ≠ iter.list.links.length := inside.ne
      tauto

/-- The iterator is at `last` only behind the last link, and while `last` is right. -/
theorem of_atLast (follows : FollowsAt iter walk (before ++ [(address, value)]) back)
    (atLast : iter.current = iter.list.last) : walk.keepsLast = true ∧ back = [] := by
  obtain ⟨here, _⟩ := follows.read
  rw [here] at atLast
  have keeps : walk.keepsLast = true := by
    by_contra lost
    obtain ⟨_, stale, stored, _, apart⟩ := follows.lost (Bool.eq_false_of_not_eq_true lost)
    cases atLast.trans stored
    exact apart (by simp)
  refine ⟨keeps, ?_⟩
  have laid := follows.kept keeps
  rw [append_link] at laid
  have last := laid.last (by simp)
  rcases List.eq_nil_or_concat' back with rfl | ⟨rest, final, rfl⟩
  · rfl
  · rw [← atLast] at last
    simp only [List.map_append, List.map_cons, List.map_nil, ← List.cons_append, ← List.append_assoc,
      List.getLast?_concat, Option.some.injEq] at last
    exact absurd (by simp [last]) laid.apart.2

/-- Elsewhere, a link that is spliced in leaves the last link the last one. -/
theorem last_spliced (follows : FollowsAt iter walk (before ++ [(address, value)]) back)
    (before_last : iter.current ≠ iter.list.last) (keeps : walk.keepsLast = true) (new : ℕ × α) :
    iter.list.last = ((before ++ (address, value) :: new :: back).map Prod.fst).getLast? := by
  obtain ⟨here, _⟩ := follows.read
  have last := (follows.kept keeps).last (by simp)
  rcases List.eq_nil_or_concat' back with rfl | ⟨rest, final, rfl⟩
  · rw [List.append_nil, List.map_append, List.map_cons, List.map_nil, List.getLast?_concat] at last
    exact absurd (here.trans last.symm) before_last
  · rw [last]
    simp only [List.map_append, List.map_cons, List.map_nil, ← List.cons_append, ← List.append_assoc,
      List.getLast?_concat]

section Insert

variable (follows : FollowsAt iter walk (before ++ [(address, value)]) back)
  (found : arenaCell linkView iter.list.links address = some (value, next)) (element : α)
include follows found

/-- What `ioopm_iterator_insert` finds in a list that has links: it is counted, and the current link can be
read, and written with the new one behind it. -/
theorem insert_reads : ¬ (iter.list.alloc element).size = 0 ∧
    (iter.list.alloc element).size = walk.cursor.values.length ∧
    (iter.list.alloc element).link iter.current = .ok ⟨value, next⟩ ∧
    (iter.list.alloc element).setLink iter.current ⟨value, some iter.list.links.length⟩ =
      .ok { iter.list.alloc element with
        links := (iter.list.alloc element).links.set address ⟨value, some iter.list.links.length⟩ } := by
  obtain ⟨here, _⟩ := follows.read
  have size : (iter.list.alloc element).size = walk.cursor.values.length := by
    rw [← follows.values, List.length_map]
    exact follows.laid.size
  have found' : arenaCell linkView (iter.list.alloc element).links address = some (value, next) :=
    (arenaCell_append (lt_of_arenaCell (Option.isSome_of_eq_some found))).trans found
  refine ⟨?_, size, ?_, ?_⟩
  · rw [size, ← follows.values, List.length_map, append_link, List.length_append, List.length_cons]
    omega
  · rw [here]
    exact link_some found'
  · rw [here]
    exact setLink_some (Option.isSome_of_eq_some found')

/-- `ioopm_iterator_insert` behind the last link. -/
theorem insert_atLast (atLast : iter.current = iter.list.last) :
    iter.insert element = (checkedInt (walk.cursor.values.length + 1)).map fun _ =>
      ⟨{ iter.list with
        links := (iter.list.links ++ [Link.mk element none]).set address ⟨value, some iter.list.links.length⟩,
        last := some iter.list.links.length, size := walk.cursor.values.length + 1 },
        some iter.list.links.length⟩ := by
  obtain ⟨filled, counts, read, written⟩ := follows.insert_reads found element
  rw [ListIterator.insert]
  dsimp only
  rw [if_neg filled, show (iter.list.alloc element).last = iter.list.last from rfl, if_pos atLast, read,
    Machine.ok_bind]
  dsimp only
  rw [written, Machine.ok_bind, Machine.ok_bind]
  dsimp only
  rw [counts]
  exact checkedInt_map

/-- `ioopm_iterator_insert` in front of other links, or with a `last` that is wrong. -/
theorem insert_beforeLast (before_last : iter.current ≠ iter.list.last) :
    iter.insert element = (checkedInt (walk.cursor.values.length + 1)).map fun _ =>
      ⟨{ iter.list with
        links := splicedLinks iter.list address value element next, size := walk.cursor.values.length + 1 },
        some iter.list.links.length⟩ := by
  obtain ⟨filled, counts, read, written⟩ := follows.insert_reads found element
  have inside : address < iter.list.links.length := lt_of_arenaCell (Option.isSome_of_eq_some found)
  have new : (arenaCell linkView ((iter.list.alloc element).links.set address
      ⟨value, some iter.list.links.length⟩) iter.list.links.length).isSome := by
    rw [arenaCell_set_of_ne inside.ne']
    exact Option.isSome_of_eq_some arenaCell_new
  rw [ListIterator.insert]
  dsimp only
  rw [if_neg filled, show (iter.list.alloc element).last = iter.list.last from rfl, if_neg before_last, read,
    Machine.ok_bind]
  dsimp only
  rw [written, Machine.ok_bind, setLink_some new, Machine.ok_bind]
  dsimp only
  rw [counts]
  exact checkedInt_map

end Insert

/-- `ioopm_iterator_insert` into a list that has links. -/
theorem insert_inner (follows : FollowsAt iter walk (before ++ [(address, value)]) back) (element : α) : ∃ iter',
    iter.insert element = (checkedInt (walk.cursor.values.length + 1)).map (fun _ => iter') ∧
      (walk.cursor.values.length + 1 < 2 ^ 31 →
        FollowsCursor iter' { walk with cursor := walk.cursor.insert element }) := by
  obtain ⟨_, _, next, found, tail⟩ := follows.read
  have size : iter.list.size = walk.cursor.values.length := (follows.insert_reads found element).2.1
  have count : walk.cursor.values.length = (before ++ [(address, value)] ++ back).length := by
    rw [← follows.values, List.length_map]
  by_cases atLast : iter.current = iter.list.last
  · refine ⟨_, follows.insert_atLast found element atLast, fun small => ?_⟩
    obtain ⟨keeps, rfl⟩ := follows.of_atLast atLast
    obtain rfl := Segment.nil_iff.mp tail
    have inside : address < iter.list.links.length := lt_of_arenaCell (Option.isSome_of_eq_some found)
    rw [← splicedLinks_none iter.list inside.ne, ← size]
    refine ⟨_, [], follows.splice found element (count ▸ small) (fun _ => by simp) fun lost => ?_⟩
    rw [keeps] at lost
    cases lost
  · refine ⟨_, follows.insert_beforeLast found element atLast, fun small => ?_⟩
    rw [← size]
    exact ⟨_, back, follows.splice found element (count ▸ small)
      (fun keeps => follows.last_spliced atLast keeps _) fun _ => rfl⟩

/-- The list counts the values of the cursor. -/
theorem valuesFrom_ok (follows : FollowsAt iter walk front back) :
    iter.list.valuesFrom iter.list.first iter.list.size.toNat = .ok walk.cursor.values := by
  have size : iter.list.size = (front ++ back).length := follows.laid.size
  have chain : Segment (arenaCell linkView iter.list.links) iter.list.first (front ++ back) none :=
    follows.laid.chain
  rw [size, Int.toNat_natCast, valuesFrom_segment chain, follows.values]

/-- The list stores the values, `last` included, until `last` is lost. -/
theorem stores_iff (follows : FollowsAt iter walk front back) :
    Stores iter.list walk.cursor.values ↔ walk.keepsLast = true := by
  constructor
  · rintro ⟨cells, laid, _⟩
    by_contra lost
    obtain ⟨filled, stale, stored, _, apart⟩ := follows.lost (Bool.eq_false_of_not_eq_true lost)
    have chain : Segment (arenaCell linkView iter.list.links) iter.list.first (front ++ back) none :=
      follows.laid.chain
    obtain rfl := laid.chain.eq_of_none chain
    have last := laid.last (by simp [filled])
    rw [stored] at last
    exact apart (List.mem_of_getLast? last.symm)
  · intro keeps
    exact ⟨front ++ back, follows.kept keeps, follows.values⟩

end FollowsAt

/-- An iterator without a current link reads through the null pointer. -/
theorem FollowsAt.step_empty (follows : FollowsAt iter walk [] back) (call : IteratorCall α) :
    Machine.Matches FollowsCursor (iter.step call) (walk.step call) := by
  obtain rfl := follows.empty
  have here : iter.current = none := follows.current
  have front : walk.cursor.front = [] := follows.frontValues.symm
  have behind : walk.cursor.back = [] := follows.backValues.symm
  have current : walk.cursor.current = none := by rw [Cursor.current, front]; rfl
  have stays : walk.cursor.next.current = none := by
    rw [Cursor.next, behind]
    exact current
  have read : iter.list.link iter.current = .error .nullDereference := by rw [here]; rfl
  cases call with
  | hasNext =>
    rw [ListIterator.step, ListIterator.hasNext, read, Walk.step, current]
    rfl
  | next =>
    rw [ListIterator.step, ListIterator.next, ListIterator.hasNext, read, Walk.step, stays]
    rfl
  | reset => exact ⟨rfl, follows.reset⟩
  | current =>
    rw [ListIterator.step, ListIterator.currentValue, read, Walk.step, current]
    rfl
  | remove =>
    rw [ListIterator.step, ListIterator.remove, read, Walk.step, behind]
    rfl
  | insert element =>
    obtain ⟨iter', inserted, follows'⟩ := follows.insert_empty element
    rw [ListIterator.step, inserted, Walk.step]
    have counted := checkedInt_cases (walk.cursor.values.length + 1)
    cases counted with
    | inl fits =>
      rw [fits.1]
      exact ⟨rfl, follows'⟩
    | inr overflow =>
      rw [overflow]
      rfl

/-- Each call does to the iterator what it does to the cursor. -/
theorem FollowsCursor.step (follows : FollowsCursor iter walk) (call : IteratorCall α) :
    Machine.Matches FollowsCursor (iter.step call) (walk.step call) := by
  obtain ⟨front, back, follows⟩ := follows
  rcases List.eq_nil_or_concat' front with rfl | ⟨before, ⟨address, value⟩, rfl⟩
  · exact follows.step_empty call
  obtain ⟨here, current, next, found, tail⟩ := follows.read
  cases call with
  | hasNext =>
    rw [ListIterator.step, follows.hasNext, Walk.step, current]
    exact ⟨rfl, _, _, follows⟩
  | next =>
    obtain ⟨stored, iter', ran, value', follows'⟩ := follows.next_ok
    rw [ListIterator.step, ran, Walk.step, value']
    exact ⟨rfl, follows'⟩
  | reset => exact ⟨rfl, follows.reset⟩
  | current =>
    rw [ListIterator.step, ListIterator.currentValue, here, link_some found, Walk.step, current]
    exact ⟨rfl, _, _, follows⟩
  | remove =>
    cases back with
    | nil =>
      have behind : walk.cursor.back = [] := follows.backValues.symm
      rw [ListIterator.step, follows.remove_last, Walk.step, behind]
      rfl
    | cons head rest =>
      obtain ⟨following, stored⟩ := head
      have behind : walk.cursor.back.head? = some stored := by
        rw [← follows.backValues]
        rfl
      obtain ⟨iter', ran, follows'⟩ := follows.remove_ok
      rw [ListIterator.step, ran, Walk.step, behind]
      exact ⟨rfl, _, _, follows'⟩
  | insert element =>
    obtain ⟨iter', inserted, follows'⟩ := follows.insert_inner element
    rw [ListIterator.step, inserted, Walk.step]
    have counted := checkedInt_cases (walk.cursor.values.length + 1)
    cases counted with
    | inl fits =>
      rw [fits.1]
      exact ⟨rfl, follows' (by omega)⟩
    | inr overflow =>
      rw [overflow]
      rfl

end GarbageCollector.Proofs
