import GarbageCollector.Math.CountedList
import GarbageCollector.Proofs.Scans

/-! # Linked lists as lists that count

Whatever calls have made a linked list, its links are the chain of a list that counts fewer values than it
has, and `last` leads to the final link, or to the one that was unlinked last. Every operation does to the
links what its namesake does to the values, without a condition on what was removed before.
-/

namespace GarbageCollector.Proofs

open Model

variable {α : Type} {list list' : LinkedList α} {c : CountedList α} {value : α} {cells : List (ℕ × α)}

/-- The links of the list are the values of `c`, and it counts as many. -/
def Counts (list : LinkedList α) (c : CountedList α) : Prop :=
  ∃ cells, LaidOut { list with size := cells.length } cells ∧ cells.map Prod.snd = c.values ∧
    list.size = c.count

/-- `last` leads to the final value, or is null if there has been none. -/
def LeadsToFinal (list : LinkedList α) (c : CountedList α) : Prop :=
  match c.final with
  | none => list.last = none
  | some value => ∃ next, list.link list.last = .ok ⟨value, next⟩

namespace Counts

theorem create : Counts (LinkedList.create : LinkedList α) CountedList.empty :=
  ⟨[], ⟨rfl, List.nodup_nil, fun some => absurd rfl some, rfl⟩, rfl, rfl⟩

theorem clear (list : LinkedList α) : Counts list.clear CountedList.empty :=
  ⟨[], ⟨rfl, List.nodup_nil, fun some => absurd rfl some, rfl⟩, rfl, rfl⟩

/-- The cells that count, and those behind them. -/
theorem exists_cells (counts : Counts list c) : ∃ front back,
    LaidOut { list with size := (front ++ back).length } (front ++ back) ∧ front.map Prod.snd = c.shown ∧
      back.map Prod.snd = c.values.drop c.count ∧ list.size = front.length := by
  obtain ⟨cells, laid, mapped, size⟩ := counts
  have bound : c.count ≤ cells.length := by
    rw [← List.length_map Prod.snd, mapped]
    exact c.counted
  refine ⟨cells.take c.count, cells.drop c.count, ?_, ?_, ?_, ?_⟩
  · rwa [List.take_append_drop]
  · rw [List.map_take, mapped, CountedList.shown]
  · rw [List.map_drop, mapped]
  · rw [List.length_take_of_le bound]
    exact size

theorem reads (counts : Counts list c) : Reads list c.shown := by
  obtain ⟨front, back, laid, shown, _, size⟩ := counts.exists_cells
  exact ⟨front, back, laid, shown, size⟩

end Counts

theorem ne_nil_of_values (mapped : cells.map Prod.snd = c.values) (some : 0 < c.count) : cells ≠ [] := by
  rintro rfl
  exact c.values_ne_nil some mapped.symm

namespace Counts

theorem append_eq (counts : Counts list c) (value : α) : ∃ list', Counts list' (c.append value) ∧
    list.append value = (checkedInt (c.count + 1)).map fun _ => list' := by
  obtain ⟨cells, laid, mapped, size⟩ := counts
  rcases Nat.eq_zero_or_pos c.count with zero | some
  · have empty : list.size = 0 := by rw [size, zero, Nat.cast_zero]
    obtain ⟨list', laid', appended, _⟩ := LaidOut.append_empty list value empty
    refine ⟨list', ⟨_, laid'.counted rfl, ?_, ?_⟩, ?_⟩
    · rw [CountedList.append, if_pos zero]
      rfl
    · rw [CountedList.append, if_pos zero]
      exact laid'.size
    · rw [appended, zero]
      rfl
  · have filled : cells ≠ [] := ne_nil_of_values mapped some
    obtain ⟨list', laid', appended⟩ := laid.append value filled (show list.size ≠ 0 by omega)
    refine ⟨{ list' with size := list.size + 1 }, ⟨_, laid'.counted rfl, ?_, ?_⟩, ?_⟩
    · rw [CountedList.append, if_neg some.ne', List.map_append, mapped]
      rfl
    · rw [CountedList.append, if_neg some.ne']
      dsimp only
      rw [size, Nat.cast_succ]
    · rw [← size]
      exact appended

theorem prepend_eq (counts : Counts list c) (value : α) : ∃ list', Counts list' (c.prepend value) ∧
    list.prepend value = (checkedInt (c.count + 1)).map fun _ => list' := by
  obtain ⟨cells, laid, mapped, size⟩ := counts
  rcases Nat.eq_zero_or_pos c.count with zero | some
  · have empty : list.size = 0 := by rw [size, zero, Nat.cast_zero]
    obtain ⟨list', laid', _, prepended⟩ := LaidOut.append_empty list value empty
    refine ⟨list', ⟨_, laid'.counted rfl, ?_, ?_⟩, ?_⟩
    · rw [CountedList.prepend, if_pos zero]
      rfl
    · rw [CountedList.prepend, if_pos zero]
      exact laid'.size
    · rw [prepended, zero]
      rfl
  · have filled : cells ≠ [] := ne_nil_of_values mapped some
    obtain ⟨list', laid', prepended⟩ := laid.prepend value filled (show list.size ≠ 0 by omega)
    refine ⟨{ list' with size := list.size + 1 }, ⟨_, laid'.counted rfl, ?_, ?_⟩, ?_⟩
    · rw [CountedList.prepend, if_neg some.ne', List.map_cons, mapped]
    · rw [CountedList.prepend, if_neg some.ne']
      dsimp only
      rw [size, Nat.cast_succ]
    · rw [← size]
      exact prepended

/-- A value that counts is taken out, or its link stays behind as the final one. -/
theorem remove {index : ℕ} (counts : Counts list c) (inside : index < c.count) (small : c.count ≤ 2 ^ 31) :
    ∃ list' value, c.values[index]? = some value ∧ list.remove index = .ok (value, list') ∧
      Counts list' (c.remove index inside) := by
  obtain ⟨cells, laid, mapped, size⟩ := counts
  simp only [Counts, CountedList.values_remove, CountedList.count_remove, ← mapped]
  have bound : index < (cells.map Prod.snd).length := by
    rw [mapped]
    exact inside.trans_le c.counted
  obtain ⟨value, found⟩ : ∃ value, (cells.map Prod.snd)[index]? = some value := ⟨_, List.getElem?_eq_getElem bound⟩
  obtain ⟨front, address, back, rfl, rfl⟩ := exists_split found
  have whole : ((front ++ (address, value) :: back).map Prod.snd).length = front.length + (back.length + 1) := by
    rw [List.length_map, List.length_append, List.length_cons]
  rcases List.eq_nil_or_concat' front with rfl | ⟨front, ⟨before, left⟩, rfl⟩
  · obtain ⟨list', laid', removed⟩ := LaidOut.remove_first laid (show 0 < list.size by omega) (by omega)
    refine ⟨_, value, found, removed, back, laid'.counted rfl, rfl, ?_⟩
    dsimp only
    omega
  · have several : (front ++ [(before, left)]).length = front.length + 1 := by
      rw [List.length_append, List.length_singleton]
    rw [several] at whole
    cases back with
    | nil =>
      have removed := laid.remove_final (by simp) (show _ < list.size by omega) (by omega)
      refine ⟨_, value, found, removed, _, laid.counted rfl, ?_, ?_⟩
      · rw [several, if_pos ⟨Nat.succ_ne_zero _, whole.symm⟩]
      · dsimp only
        omega
    | cons head back =>
      obtain ⟨behind, right⟩ := head
      rw [several] at inside found ⊢
      rw [List.append_assoc, List.singleton_append] at laid
      obtain ⟨list', laid', removed⟩ := laid.remove_inner (show (front.length : ℤ) + 1 < list.size by omega)
        (by omega)
      refine ⟨_, value, found, removed, _, laid'.counted rfl, ?_, ?_⟩
      · rw [if_neg (by rw [whole, List.length_cons]; omega)]
        simp [List.eraseIdx_append_of_length_le]
      · dsimp only
        omega

theorem contains (counts : Counts list c) (cmp : α → α → Bool) (element : α) :
    list.contains cmp element = .ok (c.shown.any fun value => cmp value element) := by
  obtain ⟨front, back, laid, shown, _, size⟩ := counts.exists_cells
  obtain ⟨_, chain, _⟩ := Segment.append_iff.mp laid.chain
  rw [LinkedList.contains, size, Int.toNat_natCast, ← shown]
  exact containsFrom_segment chain

theorem all (counts : Counts list c) (prop : α → Bool) : list.all prop = .ok (c.shown.all prop) := by
  obtain ⟨front, back, laid, shown, _, size⟩ := counts.exists_cells
  obtain ⟨_, chain, _⟩ := Segment.append_iff.mp laid.chain
  rw [LinkedList.all, size, Int.toNat_natCast, ← shown]
  exact allFrom_segment chain

theorem any (counts : Counts list c) (prop : α → Bool) : list.any prop = .ok (c.shown.any prop) := by
  obtain ⟨front, back, laid, shown, _, size⟩ := counts.exists_cells
  obtain ⟨_, chain, _⟩ := Segment.append_iff.mp laid.chain
  rw [LinkedList.any, size, Int.toNat_natCast, ← shown]
  exact anyFrom_segment chain

theorem applyToAll (counts : Counts list c) (change : α → α) :
    ∃ list', list.applyToAll change = .ok list' ∧ Counts list' (c.change change) := by
  obtain ⟨front, back, laid, shown, hidden, size⟩ := counts.exists_cells
  obtain ⟨list', ran, laid'⟩ := @applyFrom_ok _ _ _ [] front change back list.size laid laid.chain
  refine ⟨{ list' with size := list.size }, ?_, _, laid'.counted rfl, ?_, ?_⟩
  · rw [LinkedList.applyToAll, size, Int.toNat_natCast, ← size]
    exact ran
  · rw [List.nil_append, List.map_append, List.map_map, hidden, CountedList.values_change, ← shown, List.map_map]
    rfl
  · obtain ⟨_, _, _, same⟩ := counts
    exact same

/-- The first link has the first value of the chain. -/
theorem link_first (counts : Counts list c) :
    (c.values = [] ∧ list.first = none) ∨
      ∃ value next, c.values.head? = some value ∧ list.link list.first = .ok ⟨value, next⟩ := by
  obtain ⟨cells, laid, mapped, _⟩ := counts
  rw [← mapped]
  cases cells with
  | nil => exact .inl ⟨rfl, Segment.nil_iff.mp laid.chain⟩
  | cons head rest =>
    obtain ⟨address, value⟩ := head
    obtain ⟨first, next, found, _⟩ := Segment.cons_iff.mp laid.chain
    refine .inr ⟨value, next, rfl, ?_⟩
    rw [show list.first = some address from first]
    exact link_some found

/-- The link at a place of the chain has the value there. -/
theorem link_at {index : ℕ} (counts : Counts list c) (found : c.values[index]? = some value) :
    ∃ next, (list.findLink index).bind list.link = .ok ⟨value, next⟩ := by
  obtain ⟨cells, laid, mapped, _⟩ := counts
  rw [← mapped] at found
  obtain ⟨front, address, back, rfl, rfl⟩ := exists_split found
  obtain ⟨_, next, cell, _⟩ := laid.findLink
  have there : list.findLink front.length = .ok (some address) := laid.findLink_any list.size
  refine ⟨next, ?_⟩
  rw [there]
  exact link_some cell

/-- In a list with links, `last` leads to the final one. -/
theorem leadsToFinal (counts : Counts list c) (filled : c.values ≠ []) : LeadsToFinal list c := by
  obtain ⟨cells, laid, mapped, _⟩ := counts
  rw [← mapped] at filled
  rcases List.eq_nil_or_concat' cells with rfl | ⟨front, ⟨address, value⟩, rfl⟩
  · exact absurd rfl filled
  · have last : list.last = some address := by simpa using laid.last (by simp)
    obtain ⟨_, next, found, _⟩ := laid.findLink
    have final : c.final = some value := by
      rw [CountedList.final, ← mapped]
      simp
    rw [LeadsToFinal, final, last]
    exact ⟨next, link_some found⟩

end Counts

end GarbageCollector.Proofs
