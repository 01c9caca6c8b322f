import GarbageCollector.Machine.Run
import Mathlib.Algebra.BigOperators.Group.List.Basic
import Mathlib.Algebra.Order.Group.Nat
import Mathlib.Algebra.Ring.Nat
import Mathlib.Data.List.Induction
import Mathlib.Data.List.Nodup
import Mathlib.Data.List.Pairwise

/-! # Sliding objects down

Objects are visited in some order, possibly more than once. The first visit to an object moves it behind the
objects moved before, provided that it stays in the page of the pointer and comes to lie below its old
place; a later visit only needs that the old place has not been overwritten.
-/

namespace Sliding

structure Geometry where
  start : ℕ
  pageSize : ℕ
  /-- The bytes of an object around its data. -/
  around : ℕ

structure Object where
  place : ℕ
  size : ℕ
deriving DecidableEq, Repr

structure Move where
  source : ℕ
  target : ℕ
  size : ℕ
deriving DecidableEq, Repr

inductive Obstacle where
  | noRoom
  | overwritten
deriving DecidableEq, Repr

variable (g : Geometry)

/-- Where a moved object ends. -/
def Move.stop (move : Move) : ℕ := move.target + move.size + g.around

/-- The pointer behind the moved objects. -/
def front (moves : List Move) : ℕ := g.start + (moves.map fun move => move.size + g.around).sum

def visit (moves : List Move) (object : Object) : Except Obstacle (List Move) :=
  if object.place ∈ moves.map Move.source then
    if front g moves ≤ object.place then .ok moves else .error .overwritten
  else if (front g moves - g.start) % g.pageSize + object.size + g.around ≤ g.pageSize ∧
      front g moves + object.size + g.around ≤ object.place then
    .ok (moves ++ [⟨object.place, front g moves, object.size⟩])
  else .error .noRoom

/-- What one visit does. -/
inductive Visited (moves : List Move) (object : Object) (moves' : List Move) : Prop where
  | again (member : object.place ∈ moves.map Move.source) (kept : front g moves ≤ object.place)
      (same : moves' = moves)
  | first (fresh : object.place ∉ moves.map Move.source)
      (inPage : (front g moves - g.start) % g.pageSize + object.size + g.around ≤ g.pageSize)
      (below : front g moves + object.size + g.around ≤ object.place)
      (moved : moves' = moves ++ [⟨object.place, front g moves, object.size⟩])

/-- What every order of visits keeps: the moved objects lie one behind the other, each below its old
place. -/
structure Orderly (moves : List Move) : Prop where
  behind : moves.Pairwise fun earlier later => earlier.stop g ≤ later.target
  inside : ∀ move ∈ moves, g.start ≤ move.target ∧ move.stop g ≤ front g moves
  below : ∀ move ∈ moves, move.stop g ≤ move.source
  once : (moves.map Move.source).Nodup

variable {g} {moves moves' : List Move} {object : Object} {move : Move}

theorem visited_of_visit (ok : visit g moves object = .ok moves') : Visited g moves object moves' := by
  unfold visit at ok
  split at ok
  · next member =>
    split at ok
    · next kept => exact .again member kept (Except.ok.inj ok).symm
    · cases ok
  · next fresh =>
    split at ok
    · next room => exact .first fresh room.1 room.2 (Except.ok.inj ok).symm
    · cases ok

theorem front_append : front g (moves ++ [move]) = front g moves + move.size + g.around := by
  simp only [front, List.map_append, List.sum_append, List.map_cons, List.map_nil, List.sum_singleton]
  omega

theorem start_le_front : g.start ≤ front g moves := Nat.le_add_right _ _

/-- Objects of whole units leave the pointer at a whole unit. -/
theorem front_mod {unit : ℕ} (start : g.start % unit = 0) (around : g.around % unit = 0)
    (whole : ∀ move ∈ moves, move.size % unit = 0) : front g moves % unit = 0 := by
  induction moves using List.reverseRecOn with
  | nil => exact start
  | append_singleton moves move ih =>
    have before := ih fun other member => whole other (List.mem_append_left _ member)
    have here := whole move (List.mem_append_right _ (List.mem_singleton_self _))
    rw [front_append, Nat.add_mod, Nat.add_mod (front g moves), before, here, around]
    simp

theorem Orderly.nil : Orderly g [] where
  behind := .nil
  inside := by
    intro move member
    cases member
  below := by
    intro move member
    cases member
  once := List.nodup_nil

/-- The step. -/
theorem Orderly.visited (orderly : Orderly g moves) (visited : Visited g moves object moves') :
    Orderly g moves' := by
  cases visited with
  | again member kept same => rwa [same]
  | first fresh inPage below moved =>
    subst moved
    constructor
    · rw [List.pairwise_append]
      refine ⟨orderly.behind, List.pairwise_singleton _ _, ?_⟩
      intro earlier old later new
      rw [List.mem_singleton.mp new]
      exact (orderly.inside earlier old).2
    · intro move member
      rw [front_append]
      rcases List.mem_append.mp member with old | new
      · obtain ⟨lower, upper⟩ := orderly.inside move old
        exact ⟨lower, by omega⟩
      · rw [List.mem_singleton.mp new]
        exact ⟨start_le_front, Nat.le_refl _⟩
    · intro move member
      rcases List.mem_append.mp member with old | new
      · exact orderly.below move old
      · rw [List.mem_singleton.mp new]
        exact below
    · rw [List.map_append, List.nodup_append]
      refine ⟨orderly.once, List.nodup_singleton _, ?_⟩
      intro place old other new
      rw [List.mem_singleton.mp new]
      rintro rfl
      exact fresh old

/-- One of the two ends before the other begins. -/
def Move.Apart (g : Geometry) (move other : Move) : Prop :=
  move.stop g ≤ other.target ∨ other.stop g ≤ move.target

instance : Std.Symm (Move.Apart g) := ⟨fun _ _ => Or.symm⟩

/-- Two moved objects share no byte. -/
theorem Orderly.apart (orderly : Orderly g moves) {other : Move} (member : move ∈ moves) (member' : other ∈ moves)
    (different : move ≠ other) : move.Apart g other := by
  have apart : moves.Pairwise (Move.Apart g) := orderly.behind.imp .inl
  exact apart.forall member member' different

end Sliding
