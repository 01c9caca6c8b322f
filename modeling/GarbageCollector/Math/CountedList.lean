import Mathlib.Data.List.Basic

/-! # Lists that count fewer values than they have

A chain of values with the number of those that count. Values are put in front and behind the whole chain,
and one that counts can be taken out; but the final one of several is only no longer counted, so it counts
again once there is one more value. When the chain has become empty, the value that was taken out last can
still be asked for.
-/

structure CountedList (α : Type) where
  values : List α
  count : ℕ
  counted : count ≤ values.length
  /-- What was taken out of the chain last. -/
  unlinked : Option α

namespace CountedList

variable {α : Type}

def empty : CountedList α := ⟨[], 0, Nat.le_refl 0, none⟩

/-- The values that count. -/
def shown (list : CountedList α) : List α := list.values.take list.count

/-- The final value of the chain, or what was taken out last if there is none. -/
def final (list : CountedList α) : Option α := list.values.getLast?.or list.unlinked

/-- The list of one value. -/
def single (value : α) : CountedList α := ⟨[value], 1, Nat.le_refl 1, none⟩

/-- A value is put behind the chain; a list that counts none is started anew. -/
def append (list : CountedList α) (value : α) : CountedList α :=
  if list.count = 0 then single value
  else ⟨list.values ++ [value], list.count + 1, by
    rw [List.length_append, List.length_singleton]
    exact Nat.succ_le_succ list.counted, none⟩

/-- A value is put in front of the chain; a list that counts none is started anew. -/
def prepend (list : CountedList α) (value : α) : CountedList α :=
  if list.count = 0 then single value
  else ⟨value :: list.values, list.count + 1, Nat.succ_le_succ list.counted, none⟩

/-- A value that counts is taken out, or only no longer counted if it is the final one of several. -/
def remove (list : CountedList α) (index : ℕ) (inside : index < list.count) : CountedList α :=
  if final : index ≠ 0 ∧ index + 1 = list.values.length then
    ⟨list.values, list.count - 1, Nat.le_trans (Nat.sub_le _ _) list.counted, none⟩
  else ⟨list.values.eraseIdx index, list.count - 1, by
    rw [List.length_eraseIdx_of_lt (Nat.lt_of_lt_of_le inside list.counted)]
    exact Nat.sub_le_sub_right list.counted 1, list.values[index]?⟩

/-- The values that count are changed. -/
def change (list : CountedList α) (change : α → α) : CountedList α :=
  { list with
    values := list.shown.map change ++ list.values.drop list.count
    counted := by
      rw [List.length_append, List.length_map, shown, List.length_take_of_le list.counted]
      exact Nat.le_add_right _ _ }

variable {list : CountedList α} {value : α} {index : ℕ}

theorem values_ne_nil (some : 0 < list.count) : list.values ≠ [] :=
  List.ne_nil_of_length_pos (Nat.lt_of_lt_of_le some list.counted)

theorem length_shown : list.shown.length = list.count := List.length_take_of_le list.counted

theorem shown_append_hidden : list.shown ++ list.values.drop list.count = list.values :=
  List.take_append_drop _ _

theorem count_remove {inside : index < list.count} : (list.remove index inside).count = list.count - 1 := by
  rw [remove]
  split <;> rfl

/-- The chain after a removal. -/
theorem values_remove {inside : index < list.count} : (list.remove index inside).values =
    if index ≠ 0 ∧ index + 1 = list.values.length then list.values else list.values.eraseIdx index := by
  rw [remove]
  split <;> rfl

/-- A chain becomes empty when its only value is taken out, which can still be asked for. -/
theorem of_remove_empty {inside : index < list.count} (gone : (list.remove index inside).values = []) :
    ∃ value, list.values = [value] ∧ index = 0 ∧ (list.remove index inside).final = some value := by
  have bound := Nat.lt_of_lt_of_le inside list.counted
  have single : list.values.length = 1 := by
    rw [values_remove] at gone
    split at gone
    · rw [gone] at bound
      exact (Nat.not_lt_zero _ bound).elim
    · have length := List.length_eraseIdx_of_lt bound
      rw [gone, List.length_nil] at length
      omega
  obtain ⟨value, only⟩ := List.length_eq_one_iff.mp single
  obtain rfl : index = 0 := by omega
  refine ⟨value, only, rfl, ?_⟩
  rw [final, gone, remove, dif_neg (fun both => both.1 rfl)]
  simp [only]

theorem values_change (change : α → α) :
    (list.change change).values = list.shown.map change ++ list.values.drop list.count := rfl

/-- A chain without values has none to change. -/
theorem of_change_empty {change : α → α} (gone : (list.change change).values = []) :
    list.count = 0 ∧ (list.change change).final = list.final := by
  have parts := List.append_eq_nil_iff.mp gone
  have none_shown : list.shown = [] := List.map_eq_nil_iff.mp parts.1
  have empty : list.values = [] := by
    rw [← shown_append_hidden, none_shown, parts.2]
    rfl
  refine ⟨?_, ?_⟩
  · rw [← length_shown, none_shown]
    rfl
  · rw [final, final, gone, empty]
    rfl

end CountedList
