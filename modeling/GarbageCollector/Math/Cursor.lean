import Mathlib.Data.List.Basic

/-! # Cursors in a list

A cursor cuts a list behind one of its values, the current one; a list without values has one cursor, which has
no current value. The operations move the cursor, put a value behind the current one, and take the value behind
it away.
-/

/-- A list that is cut behind its current value. -/
structure Cursor (α : Type*) where
  front : List α
  back : List α
  /-- Only a list without values has no current value. -/
  started : front = [] → back = []

namespace Cursor

variable {α : Type*}

/-- At the first value. -/
def start (values : List α) : Cursor α where
  front := values.take 1
  back := values.drop 1
  started := by
    cases values with
    | nil => exact fun _ => rfl
    | cons value rest => exact fun absurdity => absurd absurdity (List.cons_ne_nil _ _)

variable (cursor : Cursor α)

def values : List α := cursor.front ++ cursor.back

def current : Option α := cursor.front.getLast?

/-- One value further, or nowhere at the end of the list. -/
def next : Cursor α :=
  match cursor.back with
  | [] => cursor
  | value :: rest => ⟨cursor.front ++ [value], rest, fun absurdity => absurd absurdity (by simp)⟩

/-- With a value put behind the current one, to be the current one. -/
def insert (value : α) : Cursor α :=
  ⟨cursor.front ++ [value], cursor.back, fun absurdity => absurd absurdity (by simp)⟩

/-- Without the value behind the current one. -/
def removeNext : Cursor α :=
  ⟨cursor.front, cursor.back.tail, fun absurdity => by rw [cursor.started absurdity]; rfl⟩

end Cursor
