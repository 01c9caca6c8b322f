import GarbageCollector.Machine.Run
import Mathlib.Algebra.BigOperators.Group.List.Basic
import Mathlib.Algebra.Order.Group.Nat
import Mathlib.Algebra.Ring.Nat

/-! # A bump pointer over pages

Blocks of requested sizes go behind one pointer, each with a fixed number of bytes before and behind its
data. A block that does not fit in the page of the pointer goes to the start of that page; the pointer gets
to the next page only when a block ends at the boundary. Every block is charged to a budget, and a restart
begins again at the first page with blocks of given sizes.
-/

namespace PageBump

structure Geometry where
  pageSize : ℕ
  positive : 0 < pageSize
  pages : ℕ
  /-- The bytes before the data of a block, and as many behind it. -/
  ends : ℕ
  /-- The budget. -/
  limit : ℕ
  /-- What a block with so many data bytes is charged. -/
  cost : ℕ → ℕ

structure State where
  /-- The bump pointer, from the start of the first page. -/
  offset : ℕ
  used : ℕ
  /-- Where the blocks start and how many data bytes they have, latest first. -/
  blocks : List (ℕ × ℕ)
deriving DecidableEq, Repr

/-- What a client asks of the allocator. A request for nothing is one that is turned down at once. -/
inductive Event where
  | request (size : Option ℕ)
  | restart (sizes : List ℕ)
  | idle
deriving DecidableEq, Repr

namespace State

def empty : State := ⟨0, 0, []⟩

variable (g : Geometry) (s : State)

/-- Where a block of the size goes, if it is handed out. -/
def place (size : ℕ) : Option ℕ :=
  if g.limit < s.used + (size + g.ends) then none
  else if g.pages * g.pageSize ≤ s.offset then none
  else if size + g.ends ≤ g.pageSize - s.offset % g.pageSize then
    if size + 2 * g.ends ≤ g.pageSize - s.offset % g.pageSize then some s.offset else none
  else if size + 2 * g.ends ≤ g.pageSize then some (s.offset - s.offset % g.pageSize)
  else none

/-- Hand out the block that starts at `header`. -/
def grant (header size : ℕ) : State :=
  ⟨header + size + 2 * g.ends, s.used + g.cost size, (header, size) :: s.blocks⟩

/-- Hand out a block that must not be refused. -/
def demand (size : ℕ) : Except Unit State :=
  match s.place g size with
  | none => .error ()
  | some header => .ok (s.grant g header size)

def step : Event → Except Unit State
  | .request none => .ok s
  | .request (some size) =>
    match s.place g size with
    | none => .ok s
    | some header => .ok (s.grant g header size)
  | .restart sizes => Machine.run (demand g) empty sizes
  | .idle => .ok s

end State

/-- What every run keeps. -/
structure Orderly (g : Geometry) (s : State) : Prop where
  inside : s.offset ≤ g.pages * g.pageSize
  /-- Every block lies in one page. -/
  inPage : ∀ block ∈ s.blocks, ∃ page < g.pages, page * g.pageSize ≤ block.1 ∧
    block.1 + block.2 + 2 * g.ends ≤ (page + 1) * g.pageSize
  /-- No block is in a later page than one handed out after it, nor than the pointer. -/
  pagesInOrder : s.blocks.Pairwise fun later earlier => earlier.1 / g.pageSize ≤ later.1 / g.pageSize
  pagesBefore : ∀ block ∈ s.blocks, block.1 / g.pageSize ≤ s.offset / g.pageSize
  /-- At every boundary that the pointer has reached a block ends. -/
  boundaries : ∀ page, 0 < page → page * g.pageSize ≤ s.offset →
    ∃ block ∈ s.blocks, block.1 + block.2 + 2 * g.ends = page * g.pageSize
  charged : s.used = (s.blocks.map fun block => g.cost block.2).sum
  /-- Before its latest block was charged the budget had room for it and one of its ends. -/
  budget : ∀ latest ∈ s.blocks.head?, s.used + latest.2 + g.ends ≤ g.limit + g.cost latest.2

section Steps

variable {g : Geometry} {s s' : State} {size header : ℕ}

/-- A block goes to the page of the pointer, behind the pointer or to the start of the page. -/
theorem place_some (placed : s.place g size = some header) :
    s.used + (size + g.ends) ≤ g.limit ∧ s.offset < g.pages * g.pageSize ∧
      s.offset / g.pageSize * g.pageSize ≤ header ∧ header ≤ s.offset ∧
      header + size + 2 * g.ends ≤ (s.offset / g.pageSize + 1) * g.pageSize := by
  have split_offset := Nat.div_add_mod' s.offset g.pageSize
  have below := Nat.mod_lt s.offset g.positive
  have next : (s.offset / g.pageSize + 1) * g.pageSize = s.offset / g.pageSize * g.pageSize + g.pageSize :=
    Nat.succ_mul _ _
  unfold State.place at placed
  split at placed
  · cases placed
  split at placed
  · cases placed
  split at placed
  · split at placed
    · cases placed
      exact ⟨by omega, by omega, by omega, le_rfl, by omega⟩
    · cases placed
  · split at placed
    · cases placed
      exact ⟨by omega, by omega, by omega, Nat.sub_le _ _, by omega⟩
    · cases placed

theorem Orderly.empty : Orderly g State.empty where
  inside := Nat.zero_le _
  inPage := by
    intro block member
    cases member
  pagesInOrder := .nil
  pagesBefore := by
    intro block member
    cases member
  boundaries := by
    intro page later reached
    have bound : 0 < page * g.pageSize := Nat.mul_pos later g.positive
    exact absurd reached (Nat.not_le.mpr bound)
  charged := rfl
  budget := by
    intro latest member
    cases member

/-- A block handed out keeps the state orderly. -/
theorem Orderly.grant (orderly : Orderly g s) (placed : s.place g size = some header) :
    Orderly g (s.grant g header size) := by
  obtain ⟨room, early, lower, upper, fits⟩ := place_some placed
  have page_lt : s.offset / g.pageSize < g.pages := Nat.div_lt_of_lt_mul (by rwa [Nat.mul_comm] at early)
  have page_eq : header / g.pageSize = s.offset / g.pageSize := by
    apply Nat.le_antisymm (Nat.div_le_div_right upper)
    rwa [Nat.le_div_iff_mul_le g.positive]
  constructor
  · exact fits.trans (Nat.mul_le_mul_right _ page_lt)
  · intro block member
    rcases List.mem_cons.mp member with rfl | old
    · exact ⟨_, page_lt, lower, fits⟩
    · exact orderly.inPage block old
  · refine List.pairwise_cons.mpr ⟨fun block old => ?_, orderly.pagesInOrder⟩
    rw [page_eq]
    exact orderly.pagesBefore block old
  · have after : s.offset / g.pageSize ≤ (header + size + 2 * g.ends) / g.pageSize := by
      rw [← page_eq]
      exact Nat.div_le_div_right (by omega)
    intro block member
    rcases List.mem_cons.mp member with rfl | old
    · exact page_eq.le.trans after
    · exact (orderly.pagesBefore block old).trans after
  · intro page later reached
    by_cases before : page * g.pageSize ≤ s.offset
    · obtain ⟨block, old, ends⟩ := orderly.boundaries page later before
      exact ⟨block, List.mem_cons_of_mem _ old, ends⟩
    · have past : s.offset / g.pageSize < page := by
        rw [Nat.div_lt_iff_lt_mul g.positive]
        omega
      have whole : (s.offset / g.pageSize + 1) * g.pageSize ≤ page * g.pageSize := Nat.mul_le_mul_right _ past
      exact ⟨(header, size), List.mem_cons_self, Nat.le_antisymm (fits.trans whole) reached⟩
  · simp only [State.grant, List.map_cons, List.sum_cons]
    rw [orderly.charged, Nat.add_comm]
  · intro latest member
    cases member
    simp only [State.grant]
    omega

/-- A demand that is met is a block handed out. -/
theorem demand_ok_iff : s.demand g size = .ok s' ↔
    ∃ header, s.place g size = some header ∧ s' = s.grant g header size := by
  unfold State.demand
  cases s.place g size with
  | none => simp
  | some header => simp [eq_comm]

/-- A request hands out a block or changes nothing. -/
theorem request_ok_iff : s.step g (.request (some size)) = .ok s' ↔
    (s.place g size = none ∧ s' = s) ∨ ∃ header, s.place g size = some header ∧ s' = s.grant g header size := by
  unfold State.step
  cases place : s.place g size with
  | none => simp [place, eq_comm]
  | some header => simp [place, eq_comm]

theorem Orderly.demand (orderly : Orderly g s) (met : s.demand g size = .ok s') : Orderly g s' := by
  obtain ⟨header, placed, rfl⟩ := demand_ok_iff.mp met
  exact orderly.grant placed

theorem Orderly.step {event : Event} (orderly : Orderly g s) (ok : s.step g event = .ok s') : Orderly g s' := by
  cases event with
  | request wanted =>
    cases wanted with
    | none => cases ok; exact orderly
    | some size =>
      rcases request_ok_iff.mp ok with ⟨_, rfl⟩ | ⟨header, placed, rfl⟩
      · exact orderly
      · exact orderly.grant placed
  | restart sizes =>
    exact Machine.run_preserves (Orderly g) Orderly.demand Orderly.empty ok
  | idle => cases ok; exact orderly

/-- Every run from the empty state is orderly. -/
theorem orderly_of_run {events : List Event} (ran : Machine.run (State.step g) .empty events = .ok s) :
    Orderly g s :=
  Machine.run_preserves (Orderly g) Orderly.step Orderly.empty ran

end Steps

end PageBump
