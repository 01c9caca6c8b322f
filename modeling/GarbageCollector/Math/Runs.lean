import Mathlib.Data.List.Basic

/-! # Lists cut into runs

A piece is a run of elements that pass a test, together with the element that stops it. Reading a list
from the left cuts it into pieces; only a run that the list ends with lacks its stop. Every list is empty,
a run, or a run with its stop in front of another list, which is the induction rule of a reader.
-/

/-- A run and the element that stops it. -/
structure Piece (α : Type*) where
  run : List α
  stop : Option α
deriving DecidableEq, Repr

namespace Piece

variable {α : Type*} (p : α → Bool) {run rest : List α} {stop x : α} {piece : Piece α}

/-- The elements of a piece in their order. -/
def elements (piece : Piece α) : List α := piece.run ++ piece.stop.toList

/-- Put one more element in front of the first run. -/
def extend (x : α) : List (Piece α) → List (Piece α)
  | [] => [⟨[x], none⟩]
  | first :: others => ⟨x :: first.run, first.stop⟩ :: others

/-- Cut a list into its pieces. -/
def pieces : List α → List (Piece α)
  | [] => []
  | x :: rest => if p x then extend x (pieces rest) else ⟨[], some x⟩ :: pieces rest

variable {p}

@[simp] theorem pieces_nil : pieces p [] = [] := rfl

theorem pieces_of_stop (stops : p stop = false) : pieces p (stop :: rest) = ⟨[], some stop⟩ :: pieces p rest := by
  simp [pieces, stops]

/-- The first piece of a list that starts with a stopped run. -/
theorem pieces_append (passes : ∀ x ∈ run, p x = true) (stops : p stop = false) :
    pieces p (run ++ stop :: rest) = ⟨run, some stop⟩ :: pieces p rest := by
  induction run with
  | nil => exact pieces_of_stop stops
  | cons x run ih =>
    rw [List.cons_append, pieces, if_pos (passes x List.mem_cons_self),
      ih fun y member => passes y (List.mem_cons_of_mem _ member)]
    rfl

/-- A run that nothing stops is one piece. -/
theorem pieces_of_run (passes : ∀ x ∈ run, p x = true) (nonempty : run ≠ []) :
    pieces p run = [⟨run, none⟩] := by
  induction run with
  | nil => exact (nonempty rfl).elim
  | cons x run ih =>
    rw [pieces, if_pos (passes x List.mem_cons_self)]
    cases run with
    | nil => rfl
    | cons y run =>
      rw [ih (fun z member => passes z (List.mem_cons_of_mem _ member)) (by simp)]
      rfl

/-- The induction rule of a reader: nothing left, a run at the end, or a run, its stop and the rest. -/
theorem read_induction (p : α → Bool) {motive : List α → Prop} (nil : motive [])
    (last : ∀ run : List α, run ≠ [] → (∀ x ∈ run, p x = true) → motive run)
    (cut : ∀ (run : List α) stop rest, (∀ x ∈ run, p x = true) → p stop = false → motive rest →
      motive (run ++ stop :: rest)) (list : List α) : motive list := by
  suffices behind : ∀ run : List α, (∀ x ∈ run, p x = true) → motive (run ++ list) from
    behind [] (by simp)
  induction list with
  | nil =>
    intro run passes
    rw [List.append_nil]
    cases run with
    | nil => exact nil
    | cons x run => exact last _ (by simp) passes
  | cons x rest ih =>
    intro run passes
    by_cases more : p x = true
    · rw [List.append_cons]
      apply ih
      intro y member
      rcases List.mem_append.mp member with old | new
      · exact passes y old
      · rwa [List.mem_singleton.mp new]
    · exact cut run x rest passes (by simpa using more) (ih [] (by simp))

/-- The pieces of a list make it up. -/
theorem flatMap_elements_pieces (list : List α) : (pieces p list).flatMap elements = list := by
  induction list using read_induction p with
  | nil => rfl
  | last run nonempty passes => simp [pieces_of_run passes nonempty, elements]
  | cut run stop rest passes stops ih => simp [pieces_append passes stops, elements, ih]

/-- The run of a piece passes the test, and its stop does not. -/
theorem passes_of_mem_pieces {list : List α} (member : piece ∈ pieces p list) :
    (∀ x ∈ piece.run, p x = true) ∧ (∀ x ∈ piece.stop, p x = false) ∧ piece.elements ≠ [] := by
  induction list using read_induction p with
  | nil => cases member
  | last run nonempty passes =>
    rw [pieces_of_run passes nonempty, List.mem_singleton] at member
    subst member
    exact ⟨passes, by simp, by simpa [elements] using nonempty⟩
  | cut run stop rest passes stops ih =>
    rw [pieces_append passes stops, List.mem_cons] at member
    rcases member with rfl | later
    · exact ⟨passes, by simpa using stops, by simp [elements]⟩
    · exact ih later

end Piece
