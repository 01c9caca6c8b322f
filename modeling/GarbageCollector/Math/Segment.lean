import Mathlib.Data.List.Nodup
import Mathlib.Data.List.Perm.Subperm

/-! # Linked cells

A memory of linked cells gives, for every address that holds a cell, what the cell stores and the
pointer to the next one; `none` is the null pointer. A segment is what following these pointers meets:
the cells in order, each with its address, up to a given pointer. A segment depends on its own cells
only, and the pointer of its last cell decides where it stops.

An arena is a memory that only grows: a list of nodes, each at its place, of which some are cells.
-/

/-- Following the pointers from `start` meets these cells and arrives at `stop`. -/
def Segment {Address Payload : Type*} (cell : Address → Option (Payload × Option Address)) :
    Option Address → List (Address × Payload) → Option Address → Prop
  | start, [], stop => start = stop
  | start, (address, payload) :: rest, stop =>
      start = some address ∧ ∃ next, cell address = some (payload, next) ∧ Segment cell next rest stop

namespace Segment

variable {Address Payload : Type*} {cell other : Address → Option (Payload × Option Address)}
  {start stop stop' middle : Option Address} {address : Address} {payload payload' : Payload}
  {cells front back : List (Address × Payload)}

@[simp] theorem nil_iff : Segment cell start [] stop ↔ start = stop := Iff.rfl

theorem cons_iff : Segment cell start ((address, payload) :: cells) stop ↔ start = some address ∧
    ∃ next, cell address = some (payload, next) ∧ Segment cell next cells stop := Iff.rfl

/-- A segment is cut at any point into two that share the pointer between them. -/
theorem append_iff : Segment cell start (front ++ back) stop ↔
    ∃ middle, Segment cell start front middle ∧ Segment cell middle back stop := by
  induction front generalizing start with
  | nil => simp
  | cons head rest ih =>
    obtain ⟨address, payload⟩ := head
    simp only [List.cons_append, cons_iff, ih]
    constructor
    · rintro ⟨here, next, read, middle, left, right⟩
      exact ⟨middle, ⟨here, next, read, left⟩, right⟩
    · rintro ⟨middle, ⟨here, next, read, left⟩, right⟩
      exact ⟨here, next, read, middle, left, right⟩

/-- A memory that agrees on the cells of a segment has the same segment. -/
theorem congr (segment : Segment cell start cells stop)
    (same : ∀ address ∈ cells.map Prod.fst, other address = cell address) :
    Segment other start cells stop := by
  induction cells generalizing start with
  | nil => exact segment
  | cons head rest ih =>
    obtain ⟨address, payload⟩ := head
    obtain ⟨here, next, read, tail⟩ := segment
    refine ⟨here, next, ?_, ih tail fun other member => same other (List.mem_cons_of_mem _ member)⟩
    rw [same address List.mem_cons_self, read]

/-- A memory that stores other payloads in the cells of a segment, with the same pointers. -/
theorem mapPayload {change : Payload → Payload} (segment : Segment cell start cells stop)
    (changed : ∀ address ∈ cells.map Prod.fst, ∀ payload next, cell address = some (payload, next) →
      other address = some (change payload, next)) :
    Segment other start (cells.map fun cell => (cell.1, change cell.2)) stop := by
  induction cells generalizing start with
  | nil => exact segment
  | cons head rest ih =>
    obtain ⟨address, payload⟩ := head
    obtain ⟨here, next, read, tail⟩ := segment
    refine ⟨here, next, changed address List.mem_cons_self payload next read, ?_⟩
    exact ih tail fun other member => changed other (List.mem_cons_of_mem _ member)

/-- The first pointer of a segment that starts with a cell. -/
theorem start_eq (segment : Segment cell start ((address, payload) :: cells) stop) :
    start = some address := segment.1

/-- The pointer in front of a cell is its address. -/
theorem middle_eq (segment : Segment cell start (front ++ (address, payload) :: back) stop) :
    Segment cell start front (some address) ∧
      ∃ next, cell address = some (payload, next) ∧ Segment cell next back stop := by
  obtain ⟨middle, left, rfl, next, read, right⟩ := append_iff.mp segment
  exact ⟨left, next, read, right⟩

/-- Every address that a segment meets holds a cell. -/
theorem isSome_of_mem (segment : Segment cell start cells stop) (member : address ∈ cells.map Prod.fst) :
    (cell address).isSome := by
  induction cells generalizing start with
  | nil => simp at member
  | cons head rest ih =>
    obtain ⟨here, payload⟩ := head
    obtain ⟨-, next, read, tail⟩ := segment
    rcases List.mem_cons.mp member with rfl | later
    · rw [read, Option.isSome_some]
    · exact ih tail later

/-- A cell of a segment is where the memory has it. -/
theorem cell_of_mem (segment : Segment cell start cells stop) (member : (address, payload) ∈ cells) :
    ∃ next, cell address = some (payload, next) := by
  obtain ⟨front, back, rfl⟩ := List.append_of_mem member
  obtain ⟨_, _, -, next, read, -⟩ := append_iff.mp segment
  exact ⟨next, read⟩

/-- A null pointer starts no cell. -/
theorem eq_nil_of_none (segment : Segment cell none cells stop) : cells = [] := by
  cases cells with
  | nil => rfl
  | cons head rest => exact absurd segment.1 (by simp)

/-- A memory has one segment from a pointer to the null pointer. -/
theorem eq_of_none {other : List (Address × Payload)} (segment : Segment cell start cells none)
    (segment' : Segment cell start other none) : cells = other := by
  induction cells generalizing start other with
  | nil =>
    obtain rfl := nil_iff.mp segment
    exact segment'.eq_nil_of_none.symm
  | cons head rest ih =>
    obtain ⟨address, payload⟩ := head
    obtain ⟨rfl, next, read, tail⟩ := segment
    cases other with
    | nil => exact absurd segment' (Option.some_ne_none address)
    | cons head' rest' =>
      obtain ⟨address', payload'⟩ := head'
      obtain ⟨same, next', read', tail'⟩ := segment'
      cases same
      cases read.symm.trans read'
      rw [ih tail tail']

/-- Cells at distinct addresses below a bound are at most as many. -/
theorem length_le {cells : List (ℕ × Payload)} {bound : ℕ} (distinct : (cells.map Prod.fst).Nodup)
    (below : ∀ address ∈ cells.map Prod.fst, address < bound) : cells.length ≤ bound := by
  have inside : cells.map Prod.fst ⊆ List.range bound := by
    intro address member
    exact List.mem_range.mpr (below address member)
  simpa using (List.subperm_of_subset distinct inside).length_le

end Segment

/-- The cells of an arena, as its nodes are viewed. -/
def arenaCell {Node Payload : Type*} (view : Node → Option (Payload × Option ℕ)) (nodes : List Node)
    (address : ℕ) : Option (Payload × Option ℕ) :=
  nodes[address]?.bind view

section Arena

variable {Node Payload : Type*} {view : Node → Option (Payload × Option ℕ)} {nodes : List Node} {node : Node}
  {address query : ℕ} {start stop : Option ℕ} {cells : List (ℕ × Payload)}

theorem lt_of_arenaCell (found : (arenaCell view nodes address).isSome) : address < nodes.length := by
  obtain ⟨cell, here⟩ := Option.isSome_iff_exists.mp found
  obtain ⟨node, at_, -⟩ := Option.bind_eq_some_iff.mp here
  exact (List.getElem?_eq_some_iff.mp at_).1

theorem arenaCell_append (inside : address < nodes.length) :
    arenaCell view (nodes ++ [node]) address = arenaCell view nodes address := by
  rw [arenaCell, arenaCell, List.getElem?_append_left inside]

theorem arenaCell_new : arenaCell view (nodes ++ [node]) nodes.length = view node := by
  simp [arenaCell]

theorem arenaCell_set_of_ne (apart : query ≠ address) :
    arenaCell view (nodes.set address node) query = arenaCell view nodes query := by
  rw [arenaCell, arenaCell, List.getElem?_set_ne (Ne.symm apart)]

theorem arenaCell_set (inside : address < nodes.length) :
    arenaCell view (nodes.set address node) address = view node := by
  simp [arenaCell, inside]

namespace Segment

/-- Appended memory leaves every segment in place. -/
theorem alloc (segment : Segment (arenaCell view nodes) start cells stop) :
    Segment (arenaCell view (nodes ++ [node])) start cells stop :=
  segment.congr fun _ member => arenaCell_append (lt_of_arenaCell (segment.isSome_of_mem member))

/-- The new address is in no segment. -/
theorem fresh (segment : Segment (arenaCell view nodes) start cells stop) :
    nodes.length ∉ cells.map Prod.fst :=
  fun member => absurd (lt_of_arenaCell (segment.isSome_of_mem member)) (by omega)

/-- A write to an address outside leaves a segment in place. -/
theorem write_outside (segment : Segment (arenaCell view nodes) start cells stop)
    (outside : address ∉ cells.map Prod.fst) :
    Segment (arenaCell view (nodes.set address node)) start cells stop :=
  segment.congr fun _ member => arenaCell_set_of_ne fun same => outside (same ▸ member)

/-- A cell is written, with a payload and a pointer to any segment, behind cells that it is not among. -/
theorem write_middle {front back : List (ℕ × Payload)} {payload : Payload} {next : Option ℕ}
    (left : Segment (arenaCell view nodes) start front (some address))
    (outside : address ∉ front.map Prod.fst) (inside : address < nodes.length)
    (viewed : view node = some (payload, next))
    (tail : Segment (arenaCell view (nodes.set address node)) next back stop) :
    Segment (arenaCell view (nodes.set address node)) start (front ++ (address, payload) :: back) stop :=
  append_iff.mpr ⟨some address, left.write_outside outside, rfl, next,
    (arenaCell_set inside).trans viewed, tail⟩

end Segment

end Arena
