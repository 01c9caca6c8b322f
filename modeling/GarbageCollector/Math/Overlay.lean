import Mathlib.Data.List.Basic

/-! # What moves leave of a memory

Some moves were made in a memory. Each wrote a copy over a range and then a mark where the moved thing had
been, a cell of `width` addresses. Without the bytes of the copies, a cell is known that no move has touched,
and one that still is the mark of the latest move that touched it.
-/

namespace Overlay

structure Move where
  /-- Where the mark is. -/
  source : ℕ
  /-- The range of the copy. -/
  start : ℕ
  stop : ℕ
deriving DecidableEq, Repr

/-- What is known of a cell. -/
inductive Cell where
  | kept
  | marked (start : ℕ)
  | overwritten
deriving DecidableEq, Repr

/-- The move has written neither its copy nor its mark over the cell. -/
def Move.Spares (width : ℕ) (move : Move) (address : ℕ) : Prop :=
  (address + width ≤ move.start ∨ move.stop ≤ address) ∧
    (address + width ≤ move.source ∨ move.source + width ≤ address)

instance (width : ℕ) (move : Move) (address : ℕ) : Decidable (move.Spares width address) :=
  inferInstanceAs (Decidable ((_ ∨ _) ∧ (_ ∨ _)))

/-- The cell after the moves, latest first. -/
def cell (width : ℕ) : List Move → ℕ → Cell
  | [], _ => .kept
  | move :: earlier, address =>
    if address = move.source then .marked move.start
    else if move.Spares width address then cell width earlier address
    else .overwritten

variable {width address : ℕ} {move : Move} {moves earlier later : List Move}

/-- A mark takes at least one address, so a spared cell is not the mark. -/
theorem Move.Spares.ne_source (spares : move.Spares width address) (positive : 0 < width) :
    address ≠ move.source := by
  rintro rfl
  have apart := spares.2
  omega

theorem cell_of_spares (spares : move.Spares width address) (positive : 0 < width) :
    cell width (move :: earlier) address = cell width earlier address := by
  rw [cell, if_neg (spares.ne_source positive), if_pos spares]

/-- A cell of which something is known is the mark of the latest move, or spared by it. -/
theorem cell_cons_cases (known : cell width (move :: earlier) address ≠ .overwritten) :
    (address = move.source ∧ cell width (move :: earlier) address = .marked move.start) ∨
      (move.Spares width address ∧
        cell width (move :: earlier) address = cell width earlier address) := by
  rw [cell] at known ⊢
  split
  · next here => exact .inl ⟨here, rfl⟩
  · next other =>
    rw [if_neg other] at known
    split
    · next spares => exact .inr ⟨spares, rfl⟩
    · next covered => exact (known (if_neg covered)).elim

/-- A cell is as it was exactly when every move has spared it. -/
theorem cell_eq_kept_iff (positive : 0 < width) :
    cell width moves address = .kept ↔ ∀ move ∈ moves, move.Spares width address := by
  induction moves with
  | nil => simp [cell]
  | cons move earlier ih =>
    rw [List.forall_mem_cons, ← ih]
    constructor
    · intro kept
      rcases cell_cons_cases (by rw [kept]; simp) with ⟨_, marked⟩ | ⟨spares, same⟩
      · cases kept.symm.trans marked
      · exact ⟨spares, same.symm.trans kept⟩
    · rintro ⟨spares, kept⟩
      rw [cell_of_spares spares positive, kept]

/-- What was moved has not kept its place. -/
theorem source_ne_of_kept (positive : 0 < width) (kept : cell width moves address = .kept) (member : move ∈ moves) :
    move.source ≠ address :=
  (((cell_eq_kept_iff positive).mp kept move member).ne_source positive).symm

end Overlay
