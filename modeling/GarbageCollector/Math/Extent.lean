import Mathlib.Order.Interval.Set.Basic
import Mathlib.Data.List.Pairwise

/-! # Half-open extents and their tilings

An extent is the half-open set of addresses from `start` to `stop`. A list of extents tiles a
range when, read from its end, every extent stops where the one after it starts. Tilings are what
a bump allocator builds: they are pairwise apart, and any address of the range lies in one of
their extents, so a new extent that starts inside the range must meet an old one.
-/

/-- The half-open range of addresses `[start, stop)`. -/
structure Extent where
  start : ℕ
  stop : ℕ
deriving DecidableEq, Repr

namespace Extent

/-- The addresses of an extent. -/
def bytes (extent : Extent) : Set ℕ := Set.Ico extent.start extent.stop

/-- Two extents share no address. -/
def Apart (first second : Extent) : Prop := ∀ address ∈ first.bytes, address ∉ second.bytes

variable {first second extent : Extent} {extents : List Extent} {low high address : ℕ}

@[simp] theorem mem_bytes : address ∈ extent.bytes ↔ extent.start ≤ address ∧ address < extent.stop :=
  Iff.rfl

instance : Decidable (address ∈ extent.bytes) :=
  inferInstanceAs (Decidable (extent.start ≤ address ∧ address < extent.stop))

theorem apart_of_le (ordered : first.stop ≤ second.start ∨ second.stop ≤ first.start) :
    Apart first second := by
  intro address inFirst inSecond
  simp only [mem_bytes] at inFirst inSecond
  omega

theorem not_apart_of_mem (inFirst : address ∈ first.bytes) (inSecond : address ∈ second.bytes) :
    ¬ Apart first second :=
  fun apart => apart address inFirst inSecond

/-- On nonempty extents, being apart means that one comes before the other. -/
theorem apart_iff (firstNonempty : first.start < first.stop) (secondNonempty : second.start < second.stop) :
    Apart first second ↔ first.stop ≤ second.start ∨ second.stop ≤ first.start := by
  constructor
  · intro apart
    by_contra overlap
    push Not at overlap
    have inFirst : max first.start second.start ∈ first.bytes :=
      mem_bytes.mpr ⟨le_max_left _ _, max_lt firstNonempty overlap.1⟩
    exact not_apart_of_mem inFirst ⟨le_max_right _ _, max_lt overlap.2 secondNonempty⟩ apart
  · exact apart_of_le

/-- Read from its end, the list covers `[low, high)` without gaps or overlaps. -/
def Tiles (low : ℕ) : ℕ → List Extent → Prop
  | high, [] => high = low
  | high, extent :: rest => extent.stop = high ∧ extent.start ≤ extent.stop ∧ Tiles low extent.start rest

theorem Tiles.le (tiles : Tiles low high extents) : low ≤ high := by
  induction extents generalizing high with
  | nil => exact tiles.ge
  | cons extent rest ih =>
    obtain ⟨rfl, ordered, tail⟩ := tiles
    exact (ih tail).trans ordered

/-- Every extent of a tiling lies inside the tiled range. -/
theorem Tiles.within (tiles : Tiles low high extents) :
    ∀ extent ∈ extents, low ≤ extent.start ∧ extent.stop ≤ high := by
  induction extents generalizing high with
  | nil => simp
  | cons extent rest ih =>
    obtain ⟨rfl, ordered, tail⟩ := tiles
    intro other member
    rcases List.mem_cons.mp member with rfl | member
    · exact ⟨tail.le, le_rfl⟩
    · exact ⟨(ih tail other member).1, (ih tail other member).2.trans ordered⟩

theorem Tiles.pairwise_apart (tiles : Tiles low high extents) : extents.Pairwise Apart := by
  induction extents generalizing high with
  | nil => exact .nil
  | cons extent rest ih =>
    obtain ⟨rfl, _, tail⟩ := tiles
    exact .cons (fun other member => apart_of_le (.inr (tail.within other member).2)) (ih tail)

/-- A tiling leaves no address of its range uncovered. -/
theorem Tiles.covers (tiles : Tiles low high extents) (lower : low ≤ address) (upper : address < high) :
    ∃ extent ∈ extents, address ∈ extent.bytes := by
  induction extents generalizing high with
  | nil =>
    change high = low at tiles
    omega
  | cons extent rest ih =>
    obtain ⟨rfl, _, tail⟩ := tiles
    by_cases inside : extent.start ≤ address
    · exact ⟨extent, List.mem_cons_self, inside, upper⟩
    · obtain ⟨other, member, covered⟩ := ih tail (by omega)
      exact ⟨other, List.mem_cons_of_mem _ member, covered⟩

end Extent
