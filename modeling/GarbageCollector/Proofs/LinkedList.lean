import GarbageCollector.Machine.Run
import GarbageCollector.Math.Segment
import GarbageCollector.Model.LinkedList

/-! # The links of a list

A list is laid out as some cells when its `first` pointer starts a chain of exactly these links, at
distinct addresses, its size is their number, and `last` is the final one. Each operation reads and
writes links of that chain, so its outcome is a list laid out as the edited cells.
-/

namespace GarbageCollector.Proofs

open Model

variable {α : Type}

/-- What a link stores and where it points. -/
def linkView (link : Link α) : Option (α × Option ℕ) := some (link.value, link.next)

/-- The chain, the size and the `last` pointer of a list. -/
structure LaidOut (list : LinkedList α) (cells : List (ℕ × α)) : Prop where
  chain : Segment (arenaCell linkView list.links) list.first cells none
  distinct : (cells.map Prod.fst).Nodup
  last : cells ≠ [] → list.last = (cells.map Prod.fst).getLast?
  size : list.size = cells.length

/-- The list stores these values in this order. -/
def Stores (list : LinkedList α) (values : List α) : Prop :=
  ∃ cells, LaidOut list cells ∧ cells.map Prod.snd = values

variable {list : LinkedList α} {start stop : Option ℕ} {cells front back : List (ℕ × α)} {address : ℕ}
  {value element : α} {next : Option ℕ} {values : List α}

theorem linkView_cell_iff {links : List (Link α)} :
    arenaCell linkView links address = some (value, next) ↔ links[address]? = some ⟨value, next⟩ := by
  rw [arenaCell, Option.bind_eq_some_iff]
  constructor
  · rintro ⟨⟨_, _⟩, found, same⟩
    cases same
    exact found
  · intro found
    exact ⟨_, found, rfl⟩

theorem link_some (found : arenaCell linkView list.links address = some (value, next)) :
    list.link (some address) = .ok ⟨value, next⟩ := by
  simp only [LinkedList.link, linkView_cell_iff.mp found]

theorem setLink_some {written : Link α} (found : (arenaCell linkView list.links address).isSome) :
    list.setLink (some address) written = .ok { list with links := list.links.set address written } :=
  if_pos (lt_of_arenaCell found)

/-- A link that is read and then written is a cell. -/
theorem exists_of_setLink {list' : LinkedList α} (read : list.link start = .ok ⟨value, next⟩)
    (written : list.setLink start ⟨element, next⟩ = .ok list') :
    ∃ address, arenaCell linkView list.links address = some (value, next) ∧
      list' = { list with links := list.links.set address ⟨element, next⟩ } := by
  cases start with
  | none => cases read
  | some address =>
    have found : arenaCell linkView list.links address = some (value, next) := by
      rw [LinkedList.link] at read
      split at read
      · cases read
      · next here =>
        cases read
        exact linkView_cell_iff.mpr here
    rw [setLink_some (Option.isSome_of_eq_some found)] at written
    cases written
    exact ⟨address, found, rfl⟩

/-- Following as many pointers as a segment has cells arrives where it stops. -/
theorem follow_segment (segment : Segment (arenaCell linkView list.links) start cells stop) :
    list.follow start cells.length = .ok stop := by
  induction cells generalizing start with
  | nil => rw [Segment.nil_iff.mp segment]; rfl
  | cons head rest ih =>
    obtain ⟨address, value⟩ := head
    obtain ⟨rfl, next, found, tail⟩ := segment
    rw [List.length_cons, LinkedList.follow, link_some found]
    exact ih tail

theorem valuesFrom_segment (segment : Segment (arenaCell linkView list.links) start cells stop) :
    list.valuesFrom start cells.length = .ok (cells.map Prod.snd) := by
  induction cells generalizing start with
  | nil => rfl
  | cons head rest ih =>
    obtain ⟨address, value⟩ := head
    obtain ⟨rfl, next, found, tail⟩ := segment
    rw [List.length_cons, LinkedList.valuesFrom, link_some found]
    simp only [bind, Except.bind, ih tail, List.map_cons]

theorem containsFrom_segment {cmp : α → α → Bool}
    (segment : Segment (arenaCell linkView list.links) start cells stop) :
    list.containsFrom cmp element start cells.length =
      .ok ((cells.map Prod.snd).any fun value => cmp value element) := by
  induction cells generalizing start with
  | nil => rfl
  | cons head rest ih =>
    obtain ⟨address, value⟩ := head
    obtain ⟨rfl, next, found, tail⟩ := segment
    rw [List.length_cons, LinkedList.containsFrom, link_some found]
    simp only [bind, Except.bind, ih tail, List.map_cons, List.any_cons]
    cases cmp value element <;> simp

/-- An iterator moves to the next link, and stays on the last. -/
theorem iteratorNext_segment (found : arenaCell linkView list.links address = some (value, next))
    (tail : Segment (arenaCell linkView list.links) next back none) :
    list.iteratorNext (some address) = .ok (if next = none then some address else next) := by
  rw [LinkedList.iteratorNext, link_some found]
  cases back with
  | nil =>
    obtain rfl := Segment.nil_iff.mp tail
    rfl
  | cons head rest =>
    obtain ⟨following, stored⟩ := head
    obtain ⟨rfl, _, found', _⟩ := tail
    simp only [ne_eq, reduceCtorEq, not_false_eq_true, if_true, if_false, link_some found', bind, Except.bind]

/-- A loop over the first links of a list is a loop over their values. -/
theorem iterateFrom_segment {β : Type} {body : β → α → Except DemoFault β} {state : β}
    (segment : Segment (arenaCell linkView list.links) start (front ++ back) none) :
    list.iterateFrom body start front.length state = (front.map Prod.snd).foldlM body state := by
  induction front generalizing start state with
  | nil => rfl
  | cons head rest ih =>
    obtain ⟨address, value⟩ := head
    obtain ⟨rfl, next, found, tail⟩ := segment
    rw [List.length_cons, LinkedList.iterateFrom, link_some found, List.map_cons, List.foldlM_cons]
    cases ran : body state value with
    | error fault => simp only [ran, bind, Except.bind]
    | ok state' =>
      simp only [ran, iteratorNext_segment found tail, bind, Except.bind]
      cases next with
      | none =>
        obtain ⟨rfl, _⟩ := List.append_eq_nil_iff.mp tail.eq_nil_of_none
        rfl
      | some following => exact ih tail

/-- A loop over any list keeps what its body keeps. -/
theorem iterateFrom_invariant {β : Type} {body : β → α → Except DemoFault β} {state final : β} {count : ℕ}
    (invariant : β → Prop)
    (kept : ∀ state value next, invariant state → body state value = .ok next → invariant next)
    (initial : invariant state) (ran : list.iterateFrom body start count state = .ok final) :
    invariant final := by
  induction count generalizing start state with
  | zero =>
    cases ran
    exact initial
  | succ count ih =>
    rw [LinkedList.iterateFrom] at ran
    obtain ⟨link, _, ran⟩ := Machine.bind_ok_iff.mp ran
    obtain ⟨next, stepped, ran⟩ := Machine.bind_ok_iff.mp ran
    obtain ⟨current, _, ran⟩ := Machine.bind_ok_iff.mp ran
    exact ih (kept state link.value next initial stepped) ran

namespace LaidOut

/-- A list has no more links than there are. -/
theorem length_le (laid : LaidOut list cells) : cells.length ≤ list.links.length :=
  Segment.length_le laid.distinct fun _ member => lt_of_arenaCell (laid.chain.isSome_of_mem member)

/-- The link at a position, and the chain behind it. -/
theorem findLink (laid : LaidOut list (front ++ (address, value) :: back)) :
    list.findLink front.length = .ok (some address) ∧
      ∃ next, arenaCell linkView list.links address = some (value, next) ∧
        Segment (arenaCell linkView list.links) next back none := by
  obtain ⟨left, next, found, right⟩ := laid.chain.middle_eq
  rw [LinkedList.findLink, Int.toNat_natCast]
  exact ⟨follow_segment left, next, found, right⟩

/-- Whatever size the list counts, its links are found by their positions. -/
theorem findLink_any (laid : LaidOut list (front ++ (address, value) :: back)) (size : ℤ) :
    LinkedList.findLink { list with size } front.length = .ok (some address) := by
  obtain ⟨left, _⟩ := laid.chain.middle_eq
  have same : Segment (arenaCell linkView (LinkedList.mk list.links list.first list.last size).links) list.first
      front (some address) := left
  rw [LinkedList.findLink, Int.toNat_natCast]
  exact follow_segment same

theorem valid_index (laid : LaidOut list (front ++ (address, value) :: back)) :
    ¬ (front.length : ℤ) < 0 ∧ ¬ list.size - 1 < front.length := by
  rw [laid.size, List.length_append, List.length_cons]
  omega

theorem get (laid : LaidOut list (front ++ (address, value) :: back)) :
    list.get front.length = .ok value := by
  obtain ⟨found, next, cell, _⟩ := laid.findLink
  rw [LinkedList.get, if_neg laid.valid_index.1, if_neg laid.valid_index.2, found]
  simp only [bind, Except.bind, link_some cell]

/-- The other links of a list have other addresses. -/
theorem apart (laid : LaidOut list (front ++ (address, value) :: back)) :
    address ∉ front.map Prod.fst ∧ address ∉ back.map Prod.fst := by
  have distinct := laid.distinct
  rw [List.map_append, List.map_cons, List.nodup_middle, List.nodup_cons, List.mem_append] at distinct
  exact not_or.mp distinct.1

/-- Every link of a list but the first is pointed to by the one before it, whose pointer may change. -/
theorem setLink_segment (laid : LaidOut list (front ++ (address, value) :: back))
    (written : Segment (arenaCell linkView (list.links.set address ⟨element, next⟩)) next cells none) :
    Segment (arenaCell linkView (list.links.set address ⟨element, next⟩)) list.first
      (front ++ (address, element) :: cells) none := by
  obtain ⟨left, _, found, _⟩ := laid.chain.middle_eq
  exact left.write_middle laid.apart.1 (lt_of_arenaCell (Option.isSome_of_eq_some found)) rfl written

/-- The value of a link is overwritten. -/
theorem setValue (laid : LaidOut list (front ++ (address, value) :: back))
    (found : arenaCell linkView list.links address = some (value, next)) (element : α) :
    LaidOut { list with links := list.links.set address ⟨element, next⟩ }
      (front ++ (address, element) :: back) := by
  obtain ⟨_, _, found', tail⟩ := laid.chain.middle_eq
  cases found.symm.trans found'
  refine ⟨laid.setLink_segment (tail.write_outside laid.apart.2), ?_, fun _ => ?_, ?_⟩
  · simpa using laid.distinct
  · rw [laid.last (by simp)]
    simp
  · simp [laid.size]

/-- A value that is overwritten by one of the same view leaves the views of the stored values. -/
theorem overwrite {β : Type} (view : α → β) (laid : LaidOut list cells)
    (found : arenaCell linkView list.links address = some (value, next)) (alike : view element = view value) :
    ∃ cells', LaidOut { list with links := list.links.set address ⟨element, next⟩ } cells' ∧
      (cells'.map Prod.snd).map view = (cells.map Prod.snd).map view := by
  by_cases member : address ∈ cells.map Prod.fst
  · obtain ⟨⟨_, stored⟩, inside, rfl⟩ := List.mem_map.mp member
    obtain ⟨front, back, rfl⟩ := List.append_of_mem inside
    obtain ⟨_, _, here, _⟩ := laid.findLink
    cases found.symm.trans here
    exact ⟨_, laid.setValue found element, by simp [alike]⟩
  · exact ⟨cells, ⟨laid.chain.write_outside member, laid.distinct, laid.last, laid.size⟩, rfl⟩

/-- A list with a link allocated that nothing points to yet. -/
theorem alloc (laid : LaidOut list cells) (value : α) : LaidOut (list.alloc value) cells :=
  ⟨laid.chain.alloc, laid.distinct, laid.last, laid.size⟩

/-- The size is what the list counts. -/
theorem counted {size : ℤ} (laid : LaidOut list cells) (counts : size = cells.length) :
    LaidOut { list with size } cells :=
  ⟨laid.chain, laid.distinct, laid.last, counts⟩

theorem size_ne_zero (laid : LaidOut list cells) (filled : cells ≠ []) : list.size ≠ 0 := by
  rw [laid.size]
  simpa using filled

/-- The list of one link. -/
theorem single (list : LinkedList α) (value : α) : LaidOut { list.alloc value with
      first := some list.links.length, last := some list.links.length, size := 1 }
      [(list.links.length, value)] :=
  ⟨⟨rfl, none, arenaCell_new, rfl⟩, by simp, fun _ => rfl, rfl⟩

/-- A list that counts no link is started anew by `append` and by `prepend`. -/
theorem append_empty (list : LinkedList α) (value : α) (empty : list.size = 0) :
    ∃ list', LaidOut list' [(list.links.length, value)] ∧ list.append value = .ok list' ∧
      list.prepend value = .ok list' := by
  refine ⟨_, single list value, ?_, ?_⟩
  · simp only [LinkedList.append, LinkedList.alloc, empty, if_pos, bind, Except.bind]
    rfl
  · simp only [LinkedList.prepend, LinkedList.alloc, empty, if_pos, bind, Except.bind]
    rfl

/-- A chain grows by one link at its end, whatever size the list counts, if a larger one can be counted. -/
theorem append {size : ℤ} (laid : LaidOut list cells) (value : α) (filled : cells ≠ []) (counts : size ≠ 0) :
    ∃ list', LaidOut list' (cells ++ [(list.links.length, value)]) ∧
      LinkedList.append { list with size } value =
        (checkedInt (size + 1)).map fun _ => { list' with size := size + 1 } := by
  obtain ⟨before, ⟨final, stored⟩, rfl⟩ := (List.eq_nil_or_concat' cells).resolve_left filled
  have last : list.last = some final := by simp [laid.last]
  obtain ⟨left, next, found, rfl⟩ := (laid.alloc value).chain.middle_eq
  have inside : final < list.links.length := by
    obtain ⟨_, _, here, _⟩ := laid.chain.middle_eq
    exact lt_of_arenaCell (Option.isSome_of_eq_some here)
  have new : arenaCell linkView ((list.alloc value).links.set final ⟨stored, some list.links.length⟩)
      list.links.length = some (value, none) := by
    rw [arenaCell_set_of_ne inside.ne']
    exact arenaCell_new
  refine ⟨{ list.alloc value with
      links := (list.alloc value).links.set final ⟨stored, some list.links.length⟩,
      last := some list.links.length, size := list.size + 1 }, ?_, ?_⟩
  · refine ⟨?_, ?_, fun _ => ?_, ?_⟩
    · rw [List.append_assoc]
      exact (laid.alloc value).setLink_segment ⟨rfl, none, new, rfl⟩
    · rw [List.map_append, List.map_singleton, ← List.concat_eq_append]
      exact laid.distinct.concat (laid.chain.fresh)
    · simp
    · simp [laid.size]
      rfl
  · have found' : arenaCell linkView (LinkedList.alloc { list with size } value).links final =
        some (stored, none) := found
    have there : (LinkedList.alloc { list with size } value).last = some final := last
    have filled' : ¬ (LinkedList.alloc { list with size } value).size = 0 := counts
    simp only [LinkedList.append, if_neg filled', there, link_some found',
      setLink_some (Option.isSome_of_eq_some found'), bind, Except.bind]
    exact checkedInt_map

/-- A chain grows by one link at its start, whatever size the list counts, if a larger one can be counted. -/
theorem prepend {size : ℤ} (laid : LaidOut list cells) (value : α) (filled : cells ≠ []) (counts : size ≠ 0) :
    ∃ list', LaidOut list' ((list.links.length, value) :: cells) ∧
      LinkedList.prepend { list with size } value =
        (checkedInt (size + 1)).map fun _ => { list' with size := size + 1 } := by
  have there : (arenaCell linkView (LinkedList.alloc { list with size } value).links list.links.length).isSome := by
    rw [show (LinkedList.alloc { list with size } value).links = list.links ++ [⟨value, none⟩] from rfl,
      arenaCell_new]
    rfl
  have kept : Segment (arenaCell linkView
        ((list.alloc value).links.set list.links.length ⟨value, list.first⟩)) list.first cells none :=
    (laid.alloc value).chain.write_outside laid.chain.fresh
  refine ⟨{ list.alloc value with
      links := (list.alloc value).links.set list.links.length ⟨value, list.first⟩,
      first := some list.links.length, size := list.size + 1 }, ?_, ?_⟩
  · refine ⟨⟨rfl, list.first, arenaCell_set (lt_of_arenaCell there), kept⟩, ?_, fun _ => ?_, ?_⟩
    · exact List.nodup_cons.mpr ⟨laid.chain.fresh, laid.distinct⟩
    · rw [List.map_cons, List.getLast?_cons_of_ne_nil (by simpa using filled)]
      exact laid.last filled
    · simp [laid.size]
  · have filled' : ¬ (LinkedList.alloc { list with size } value).size = 0 := counts
    simp only [LinkedList.prepend, if_neg filled', setLink_some there, bind, Except.bind]
    exact checkedInt_map

/-- The first link is unlinked. -/
theorem remove_first {size : ℤ} (laid : LaidOut list ((address, value) :: back)) (counts : 0 < size)
    (small : size ≤ 2 ^ 31) : ∃ list', LaidOut list' back ∧
      LinkedList.remove { list with size } 0 = .ok (value, { list' with size := size - 1 }) := by
  have here : LaidOut list ([] ++ (address, value) :: back) := laid
  obtain ⟨_, next, cell, tail⟩ := here.findLink
  have first : list.first = some address := laid.chain.1
  have first' : LinkedList.link { list with size } list.first = .ok ⟨value, next⟩ := by
    rw [first]
    exact link_some cell
  have counted : checkedInt (size - 1) = .ok (size - 1) := checkedInt_ok (by omega) (by omega)
  have found' : LinkedList.findLink { list with size } 0 = .ok (some address) := here.findLink_any size
  have read : LinkedList.link { list with size } (some address) = .ok ⟨value, next⟩ := link_some cell
  refine ⟨{ list with first := next, size := list.size - 1 }, ⟨tail, ?_, ?_, ?_⟩, ?_⟩
  · exact (List.nodup_cons.mp laid.distinct).2
  · intro more
    rw [← List.getLast?_cons_of_ne_nil (by simpa using more)]
    exact laid.last (by simp)
  · simp [laid.size]
  · simp only [LinkedList.remove, if_neg (show ¬ (0 : ℤ) < 0 by omega), if_neg (show ¬ size - 1 < 0 by omega),
      found', read, first', if_pos, bind, Except.bind, counted]

/-- A link between two others is unlinked. -/
theorem remove_inner {before behind : ℕ} {left right : α} {size : ℤ}
    (laid : LaidOut list (front ++ (before, left) :: (address, value) :: (behind, right) :: back))
    (counts : front.length + 1 < size) (small : size ≤ 2 ^ 31) :
    ∃ list', LaidOut list' (front ++ (before, left) :: (behind, right) :: back) ∧
      LinkedList.remove { list with size } (front.length + 1 : ℕ) =
        .ok (value, { list' with size := size - 1 }) := by
  have here : LaidOut list ((front ++ [(before, left)]) ++ (address, value) :: (behind, right) :: back) := by
    simpa using laid
  obtain ⟨_, _, cell, tail⟩ := here.findLink
  obtain ⟨_, _, cellBefore, _⟩ := laid.findLink
  have found := here.findLink_any size
  rw [List.length_append, List.length_singleton] at found
  obtain rfl := tail.start_eq
  have counted : checkedInt (size - 1) = .ok (size - 1) := checkedInt_ok (by omega) (by omega)
  have kept : Segment (arenaCell linkView (list.links.set before ⟨left, some behind⟩)) (some behind)
      ((behind, right) :: back) none :=
    tail.write_outside fun member => laid.apart.2 (List.mem_cons_of_mem _ member)
  have read : LinkedList.link { list with size } (some address) = .ok ⟨value, some behind⟩ := link_some cell
  have readBefore : LinkedList.link { list with size } (some before) = .ok ⟨left, _⟩ := link_some cellBefore
  have written : LinkedList.setLink { list with size } (some before) ⟨left, some behind⟩ = _ :=
    setLink_some (Option.isSome_of_eq_some cellBefore)
  refine ⟨{ list with
    links := list.links.set before ⟨left, some behind⟩, size := list.size - 1 }, ⟨?_, ?_, ?_, ?_⟩, ?_⟩
  · exact laid.setLink_segment kept
  · apply laid.distinct.sublist (List.Sublist.map _ ?_)
    exact (List.Sublist.refl _).append (List.Sublist.cons_cons _ (List.sublist_cons_self _ _))
  · intro _
    rw [laid.last (by simp)]
    simp [List.getLast?_cons]
  · simp only [laid.size, List.length_append, List.length_cons]
    omega
  · have inner : ¬ ((front.length + 1 : ℕ) : ℤ) = 0 := by omega
    have previous : ((front.length + 1 : ℕ) : ℤ) - 1 = front.length := by omega
    have lower : ¬ ((front.length + 1 : ℕ) : ℤ) < 0 := by omega
    have upper : ¬ size - 1 < ((front.length + 1 : ℕ) : ℤ) := by omega
    simp only [LinkedList.remove, if_neg lower, if_neg upper, found, read, if_neg inner, previous,
      laid.findLink_any size, readBefore, written, ne_eq, reduceCtorEq, not_false_eq_true, if_true, bind,
      Except.bind, counted]

/-- The final link of several is not unlinked, only no longer counted. -/
theorem remove_final {size : ℤ} (laid : LaidOut list (front ++ [(address, value)])) (several : front ≠ [])
    (counts : front.length < size) (small : size ≤ 2 ^ 31) :
    LinkedList.remove { list with size } front.length = .ok (value, { list with size := size - 1 }) := by
  obtain ⟨_, next, cell, rfl⟩ := laid.findLink
  have inner : ¬ (front.length : ℤ) = 0 := by
    simpa using several
  have counted : checkedInt (size - 1) = .ok (size - 1) := checkedInt_ok (by omega) (by omega)
  have read : LinkedList.link { list with size } (some address) = .ok ⟨value, none⟩ := link_some cell
  simp only [LinkedList.remove, if_neg (show ¬ (front.length : ℤ) < 0 by omega),
    if_neg (show ¬ size - 1 < (front.length : ℤ) by omega), laid.findLink_any size, read, if_neg inner, ne_eq,
    not_true_eq_false, if_false, bind, Except.bind, counted]

end LaidOut

/-- The cells before and behind a stored value. -/
theorem exists_split {index : ℕ} (found : (cells.map Prod.snd)[index]? = some value) :
    ∃ front address back, cells = front ++ (address, value) :: back ∧ front.length = index := by
  rw [List.getElem?_map] at found
  obtain ⟨⟨address, _⟩, here, rfl⟩ := Option.map_eq_some_iff.mp found
  obtain ⟨inside, same⟩ := List.getElem?_eq_some_iff.mp here
  refine ⟨cells.take index, address, cells.drop (index + 1), ?_, List.length_take_of_le inside.le⟩
  rw [← same, List.getElem_cons_drop, List.take_append_drop]

/-- The list counts these values, in this order, and its chain may go on behind them. -/
def Reads (list : LinkedList α) (values : List α) : Prop :=
  ∃ front back, LaidOut { list with size := (front ++ back).length } (front ++ back) ∧
    front.map Prod.snd = values ∧ list.size = front.length

namespace Reads

theorem create : Reads (LinkedList.create : LinkedList α) [] :=
  ⟨[], [], ⟨rfl, List.nodup_nil, fun some => absurd rfl some, rfl⟩, rfl, rfl⟩

theorem size (reads : Reads list values) : list.size = values.length := by
  obtain ⟨front, back, _, rfl, size⟩ := reads
  rw [size, List.length_map]

theorem values_eq (reads : Reads list values) :
    list.valuesFrom list.first list.size.toNat = .ok values := by
  obtain ⟨front, back, laid, rfl, size⟩ := reads
  obtain ⟨_, chain, _⟩ := Segment.append_iff.mp laid.chain
  rw [size, Int.toNat_natCast]
  exact valuesFrom_segment chain

theorem iterate {β : Type} (reads : Reads list values) (body : β → α → Except DemoFault β) (state : β) :
    list.iterate body state = values.foldlM body state := by
  obtain ⟨front, back, laid, rfl, size⟩ := reads
  have chain : Segment (arenaCell linkView list.links) list.first (front ++ back) none := laid.chain
  rw [LinkedList.iterate, size, Int.toNat_natCast]
  exact iterateFrom_segment chain

theorem link_first (reads : Reads list (value :: values)) :
    ∃ next, list.link list.first = .ok ⟨value, next⟩ := by
  obtain ⟨front, back, laid, mapped, _⟩ := reads
  obtain ⟨⟨address, _⟩, rest, rfl, rfl, _⟩ := List.map_eq_cons_iff.mp mapped
  have chain : Segment (arenaCell linkView list.links) list.first _ none := laid.chain
  rw [List.cons_append] at chain
  obtain ⟨first, next, found, _⟩ := Segment.cons_iff.mp chain
  rw [first]
  exact ⟨next, link_some found⟩

/-- The value in front is the new one. -/
theorem prepend_eq (reads : Reads list values) (value : α) : ∃ list', Reads list' (value :: values) ∧
    list.prepend value = (checkedInt (values.length + 1)).map fun _ => list' := by
  rw [← reads.size]
  obtain ⟨front, back, laid, rfl, size⟩ := reads
  rcases eq_or_ne front [] with rfl | filled
  · have empty : list.size = 0 := size
    obtain ⟨list', laid', _, prepended⟩ := LaidOut.append_empty list value empty
    refine ⟨list', ⟨_, [], laid'.counted rfl, rfl, laid'.size⟩, ?_⟩
    rw [prepended, empty]
    rfl
  · have counts : list.size ≠ 0 := by
      rw [size]
      simpa using filled
    obtain ⟨list', laid', prepended⟩ := laid.prepend value (by simp [filled]) counts
    refine ⟨{ list' with size := list.size + 1 }, ⟨(_, value) :: front, back, laid'.counted rfl, rfl, ?_⟩,
      prepended⟩
    dsimp only
    rw [size, List.length_cons, Nat.cast_add, Nat.cast_one]

/-- One value more is counted at the end, the new one or one that the chain had there before. -/
theorem append_eq (reads : Reads list values) (value : α) : ∃ list' final, Reads list' (values ++ [final]) ∧
    list.append value = (checkedInt (values.length + 1)).map fun _ => list' := by
  rw [← reads.size]
  obtain ⟨front, back, laid, rfl, size⟩ := reads
  rcases eq_or_ne front [] with rfl | filled
  · have empty : list.size = 0 := size
    obtain ⟨list', laid', appended, _⟩ := LaidOut.append_empty list value empty
    refine ⟨list', value, ⟨_, [], laid'.counted rfl, rfl, laid'.size⟩, ?_⟩
    rw [appended, empty]
    rfl
  · have counts : list.size ≠ 0 := by
      rw [size]
      simpa using filled
    obtain ⟨list', laid', appended⟩ := laid.append value (by simp [filled]) counts
    have more : back ++ [(list.links.length, value)] ≠ [] := by simp
    obtain ⟨⟨address, final⟩, rest, same⟩ := List.exists_cons_of_ne_nil more
    have chain : (front ++ back) ++ [(list.links.length, value)] = (front ++ [(address, final)]) ++ rest := by
      rw [List.append_assoc, same, List.append_assoc, List.singleton_append]
    refine ⟨{ list' with size := list.size + 1 }, final,
      ⟨front ++ [(address, final)], rest, ?_, by simp, ?_⟩, appended⟩
    · rw [← chain]
      exact laid'.counted rfl
    · dsimp only
      rw [size, List.length_append, List.length_singleton, Nat.cast_add, Nat.cast_one]

/-- A value that is counted is no longer counted, whether or not its link is unlinked. -/
theorem remove {index : ℕ} (reads : Reads list values) (found : values[index]? = some value)
    (small : values.length ≤ 2 ^ 31) :
    ∃ list', list.remove index = .ok (value, list') ∧ Reads list' (values.eraseIdx index) := by
  have bound := reads.size
  obtain ⟨front, back, laid, rfl, size⟩ := reads
  obtain ⟨front, address, behind, rfl, rfl⟩ := exists_split found
  rw [List.length_map, List.length_append, List.length_cons] at bound small
  rcases List.eq_nil_or_concat' front with rfl | ⟨front, ⟨before, left⟩, rfl⟩
  · rw [List.length_nil] at bound
    obtain ⟨list', laid', removed⟩ := laid.remove_first (show 0 < list.size by omega) (by omega)
    exact ⟨_, removed, behind, back, laid'.counted rfl, by simp, by dsimp only; omega⟩
  · rw [List.length_append, List.length_singleton] at bound small ⊢
    have erased : (((front ++ [(before, left)]) ++ (address, value) :: behind).map Prod.snd).eraseIdx
        (front.length + 1) = (front ++ (before, left) :: behind).map Prod.snd := by
      simp [List.eraseIdx_append_of_length_le]
    rw [erased]
    cases later : behind ++ back with
    | nil =>
      obtain ⟨rfl, rfl⟩ := List.append_eq_nil_iff.mp later
      have several : front ++ [(before, left)] ≠ [] := by simp
      rw [List.append_nil] at laid
      have counts : ((front ++ [(before, left)]).length : ℤ) < list.size := by
        rw [List.length_append, List.length_singleton]
        omega
      have removed : list.remove (front ++ [(before, left)]).length =
          .ok (value, { list with size := list.size - 1 }) := laid.remove_final several counts (by omega)
      rw [List.length_append, List.length_singleton] at removed
      refine ⟨_, removed, front ++ [(before, left)], [(address, value)], laid.counted rfl, rfl, ?_⟩
      rw [List.length_append, List.length_singleton]
      dsimp only
      rw [List.length_nil] at bound
      omega
    | cons head rest =>
      obtain ⟨following, right⟩ := head
      have chain : (front ++ [(before, left)] ++ (address, value) :: behind) ++ back =
          front ++ (before, left) :: (address, value) :: (following, right) :: rest := by
        simp [later]
      rw [chain] at laid
      obtain ⟨list', laid', removed⟩ :=
        laid.remove_inner (show (front.length : ℤ) + 1 < list.size by omega) (by omega)
      have kept : front ++ (before, left) :: (following, right) :: rest =
          (front ++ (before, left) :: behind) ++ back := by
        simp [later]
      rw [kept] at laid'
      refine ⟨_, removed, _, back, laid'.counted rfl, rfl, ?_⟩
      rw [List.length_append, List.length_cons]
      dsimp only
      omega

/-- Overwriting a value leaves as many. -/
theorem overwrite {list' : LinkedList α} (reads : Reads list values) (read : list.link start = .ok ⟨value, next⟩)
    (written : list.setLink start ⟨element, next⟩ = .ok list') :
    ∃ values', Reads list' values' ∧ values'.length = values.length := by
  obtain ⟨address, found, rfl⟩ := exists_of_setLink read written
  obtain ⟨front, back, laid, rfl, size⟩ := reads
  obtain ⟨cells, laid', same⟩ := laid.overwrite (fun _ => ()) found rfl
  have lengths := congrArg List.length same
  simp only [List.length_map] at lengths
  have front_le : front.length ≤ cells.length := by
    rw [lengths, List.length_append]
    exact Nat.le_add_right _ _
  have taken := List.length_take_of_le front_le
  refine ⟨_, ⟨cells.take front.length, cells.drop front.length, ?_, rfl, ?_⟩, ?_⟩
  · rw [List.take_append_drop]
    exact laid'.counted rfl
  · rw [taken]
    exact size
  · rw [List.length_map, List.length_map, taken]

end Reads

namespace Stores

theorem create : Stores (LinkedList.create : LinkedList α) [] :=
  ⟨[], ⟨rfl, List.nodup_nil, fun some => absurd rfl some, rfl⟩, rfl⟩

theorem clear (list : LinkedList α) : Stores list.clear [] :=
  ⟨[], ⟨rfl, List.nodup_nil, fun some => absurd rfl some, rfl⟩, rfl⟩

theorem size (stores : Stores list values) : list.size = values.length := by
  obtain ⟨cells, laid, rfl⟩ := stores
  rw [laid.size, List.length_map]

/-- A list that stores values counts just these. -/
theorem reads (stores : Stores list values) : Reads list values := by
  obtain ⟨cells, laid, rfl⟩ := stores
  refine ⟨cells, [], ?_, rfl, laid.size⟩
  rw [List.append_nil]
  exact laid.counted rfl

theorem append_eq (stores : Stores list values) (value : α) :
    ∃ list', Stores list' (values ++ [value]) ∧
      list.append value = (checkedInt (values.length + 1)).map fun _ => list' := by
  rw [← stores.size]
  obtain ⟨cells, laid, rfl⟩ := stores
  rcases eq_or_ne cells [] with rfl | filled
  · have empty : list.size = 0 := laid.size
    obtain ⟨list', laid', appended, _⟩ := LaidOut.append_empty list value empty
    refine ⟨list', ⟨_, laid', rfl⟩, ?_⟩
    rw [appended, empty]
    rfl
  · obtain ⟨list', laid', appended⟩ := laid.append value filled (laid.size_ne_zero filled)
    exact ⟨_, ⟨_, laid'.counted (by simp [laid.size]), by simp⟩, appended⟩

theorem prepend_eq (stores : Stores list values) (value : α) :
    ∃ list', Stores list' (value :: values) ∧
      list.prepend value = (checkedInt (values.length + 1)).map fun _ => list' := by
  rw [← stores.size]
  obtain ⟨cells, laid, rfl⟩ := stores
  rcases eq_or_ne cells [] with rfl | filled
  · have empty : list.size = 0 := laid.size
    obtain ⟨list', laid', _, prepended⟩ := LaidOut.append_empty list value empty
    refine ⟨list', ⟨_, laid', rfl⟩, ?_⟩
    rw [prepended, empty]
    rfl
  · obtain ⟨list', laid', prepended⟩ := laid.prepend value filled (laid.size_ne_zero filled)
    exact ⟨_, ⟨_, laid'.counted (by simp [laid.size]), by simp⟩, prepended⟩

theorem append (stores : Stores list values) (value : α) (room : values.length + 1 < 2 ^ 31) :
    ∃ list', list.append value = .ok list' ∧ Stores list' (values ++ [value]) := by
  obtain ⟨list', stores', appended⟩ := stores.append_eq value
  rw [checkedInt_ok (by omega) (by omega)] at appended
  exact ⟨list', appended, stores'⟩

theorem prepend (stores : Stores list values) (value : α) (room : values.length + 1 < 2 ^ 31) :
    ∃ list', list.prepend value = .ok list' ∧ Stores list' (value :: values) := by
  obtain ⟨list', stores', prepended⟩ := stores.prepend_eq value
  rw [checkedInt_ok (by omega) (by omega)] at prepended
  exact ⟨list', prepended, stores'⟩

/-- A link is removed unless it is the final one of several. -/
theorem remove {index : ℕ} (stores : Stores list values) (found : values[index]? = some value)
    (small : values.length < 2 ^ 31) (unlinked : index = 0 ∨ index + 1 < values.length) :
    ∃ list', list.remove index = .ok (value, list') ∧ Stores list' (values.eraseIdx index) := by
  have size := stores.size
  obtain ⟨cells, laid, rfl⟩ := stores
  obtain ⟨front, address, back, rfl, rfl⟩ := exists_split found
  rw [List.length_map, List.length_append, List.length_cons] at size small unlinked
  rcases List.eq_nil_or_concat' front with rfl | ⟨front, ⟨before, left⟩, rfl⟩
  · rw [List.length_nil] at size small
    have counts : 0 < list.size := by omega
    obtain ⟨list', laid', removed⟩ := LaidOut.remove_first laid counts (by omega)
    exact ⟨_, removed, back, laid'.counted (by omega), by simp⟩
  · rcases back with _ | ⟨⟨behind, right⟩, back⟩
    · simp at unlinked
    · rw [List.length_append, List.length_singleton, List.length_cons] at size small
      rw [List.append_assoc, List.singleton_append] at laid
      have counts : (front.length : ℤ) + 1 < list.size := by omega
      obtain ⟨list', laid', removed⟩ := laid.remove_inner counts (by omega)
      rw [List.length_append, List.length_singleton]
      refine ⟨_, removed, _, laid'.counted ?_, ?_⟩
      · simp only [List.length_append, List.length_cons]
        omega
      · simp [List.eraseIdx_append_of_length_le]

theorem get {index : ℕ} (stores : Stores list values) (found : values[index]? = some value) :
    list.get index = .ok value := by
  obtain ⟨cells, laid, rfl⟩ := stores
  obtain ⟨front, address, back, rfl, rfl⟩ := exists_split found
  exact laid.get

theorem values_eq (stores : Stores list values) :
    list.valuesFrom list.first list.size.toNat = .ok values :=
  stores.reads.values_eq

theorem contains (stores : Stores list values) (cmp : α → α → Bool) (element : α) :
    list.contains cmp element = .ok (values.any fun value => cmp value element) := by
  obtain ⟨cells, laid, rfl⟩ := stores
  rw [LinkedList.contains, laid.size, Int.toNat_natCast]
  exact containsFrom_segment laid.chain

theorem iterate {β : Type} (stores : Stores list values) (body : β → α → Except DemoFault β) (state : β) :
    list.iterate body state = values.foldlM body state :=
  stores.reads.iterate body state

/-- A value that is overwritten by one of the same view leaves the views of the stored values. -/
theorem overwrite {β : Type} {list' : LinkedList α} (view : α → β) (stores : Stores list values)
    (read : list.link start = .ok ⟨value, next⟩) (alike : view element = view value)
    (written : list.setLink start ⟨element, next⟩ = .ok list') :
    ∃ values', Stores list' values' ∧ values'.map view = values.map view := by
  obtain ⟨address, found, rfl⟩ := exists_of_setLink read written
  obtain ⟨cells, laid, rfl⟩ := stores
  obtain ⟨cells', laid', same⟩ := laid.overwrite view found alike
  exact ⟨_, ⟨cells', laid', rfl⟩, same⟩

theorem last (stores : Stores list values) (filled : values ≠ []) : ∃ address,
    list.last = some address ∧ list.findLink (list.size - 1) = .ok (some address) := by
  obtain ⟨cells, laid, rfl⟩ := stores
  rcases List.eq_nil_or_concat' cells with rfl | ⟨front, ⟨address, value⟩, rfl⟩
  · exact absurd rfl filled
  · have position : list.size - 1 = front.length := by
      rw [laid.size, List.length_append, List.length_singleton]
      omega
    refine ⟨address, ?_, ?_⟩
    · simp [laid.last]
    · rw [position]
      exact laid.findLink.1

/-- After the removal of the final link of several, `last` is still that link. -/
theorem remove_last {index : ℕ} (stores : Stores list values) (found : values[index]? = some value)
    (small : values.length < 2 ^ 31) (final : index + 1 = values.length) (several : index ≠ 0) :
    ∃ list', list.remove index = .ok (value, list') ∧
      list'.findLink (list'.size - 1) ≠ .ok list'.last := by
  obtain ⟨cells, laid, rfl⟩ := stores
  obtain ⟨front, address, back, rfl, rfl⟩ := exists_split found
  rw [List.length_map, List.length_append, List.length_cons] at small final
  obtain rfl := List.length_eq_zero_iff.mp (show back.length = 0 by omega)
  rcases List.eq_nil_or_concat' front with rfl | ⟨front, ⟨before, left⟩, rfl⟩
  · exact absurd rfl several
  · have size : list.size - 1 = (front ++ [(before, left)]).length := by
      rw [laid.size]
      simp
      omega
    have counts : ((front ++ [(before, left)]).length : ℤ) < list.size := by omega
    have removed := laid.remove_final (by simp) counts (by omega)
    rw [size] at removed
    refine ⟨_, removed, ?_⟩
    have last : list.last = some address := by simp [laid.last]
    have position : (((front ++ [(before, left)]).length : ℕ) : ℤ) - 1 = front.length := by
      rw [List.length_append, List.length_singleton]
      omega
    have found : LinkedList.findLink { list with size := (front ++ [(before, left)]).length }
        front.length = .ok (some before) := by
      have chain := laid.chain
      rw [List.append_assoc, List.singleton_append] at chain
      rw [LinkedList.findLink, Int.toNat_natCast]
      exact follow_segment chain.middle_eq.1
    rw [position, found, last]
    intro same
    have apart := laid.apart.1
    cases same
    simp at apart

end Stores

end GarbageCollector.Proofs
