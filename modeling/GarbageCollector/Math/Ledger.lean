import Mathlib.Data.List.Pairwise
import Mathlib.Data.List.Perm.Basic

/-! # A ledger of allocated blocks

The blocks that an allocator has handed out and not got back. A block is freed through its address; freeing
the null pointer does nothing, and freeing anything but the address of a block in use is an error. In a
ledger of blocks that share no byte, a list of blocks can be freed one after the other.
-/

/-- A block in use. -/
structure Chunk where
  address : ℕ
  size : ℕ
deriving DecidableEq, Repr

namespace Chunk

/-- One of the two ends before the other begins. -/
def Apart (chunk other : Chunk) : Prop :=
  chunk.address + chunk.size ≤ other.address ∨ other.address + other.size ≤ chunk.address

instance : DecidableRel Apart := fun _ _ => inferInstanceAs (Decidable (_ ∨ _))

instance : Std.Symm Apart := ⟨fun _ _ => Or.symm⟩

end Chunk

namespace Ledger

/-- What a working allocator has in use: blocks at addresses that are not null, no two of which share a
byte. -/
structure Sound (chunks : List Chunk) : Prop where
  real : ∀ chunk ∈ chunks, 0 < chunk.address ∧ 0 < chunk.size
  apart : chunks.Pairwise Chunk.Apart

instance (chunks : List Chunk) : Decidable (Sound chunks) :=
  decidable_of_iff ((∀ chunk ∈ chunks, 0 < chunk.address ∧ 0 < chunk.size) ∧ chunks.Pairwise Chunk.Apart)
    ⟨fun both => ⟨both.1, both.2⟩, fun sound => ⟨sound.real, sound.apart⟩⟩

def free (chunks : List Chunk) (address : ℕ) : Option (List Chunk) :=
  if address = 0 then some chunks
  else
    match chunks.find? fun chunk => chunk.address = address with
    | none => none
    | some chunk => some (chunks.erase chunk)

variable {chunks rest released : List Chunk} {chunk other : Chunk}

theorem Sound.nil : Sound [] where
  real := by
    intro chunk member
    cases member
  apart := .nil

theorem Sound.perm (sound : Sound chunks) (same : chunks.Perm rest) : Sound rest where
  real chunk member := sound.real chunk (same.mem_iff.mpr member)
  apart := (same.pairwise_iff fun apart => Or.symm apart).mp sound.apart

theorem Sound.of_append (sound : Sound (chunks ++ rest)) : Sound rest where
  real chunk member := sound.real chunk (List.mem_append_right _ member)
  apart := (List.pairwise_append.mp sound.apart).2.1

/-- More blocks, apart from those in use. -/
theorem Sound.append (sound : Sound chunks) (more : Sound rest)
    (apart : ∀ chunk ∈ rest, ∀ other ∈ chunks, chunk.Apart other) : Sound (rest ++ chunks) where
  real chunk member := (List.mem_append.mp member).elim (more.real chunk) (sound.real chunk)
  apart := List.pairwise_append.mpr ⟨more.apart, sound.apart, apart⟩

/-- Blocks in use have different addresses. -/
theorem Sound.eq_of_address (sound : Sound chunks) (member : chunk ∈ chunks) (member' : other ∈ chunks)
    (same : chunk.address = other.address) : chunk = other := by
  by_contra different
  have apart := sound.apart.forall member member' different
  obtain ⟨_, positive⟩ := sound.real chunk member
  obtain ⟨_, positive'⟩ := sound.real other member'
  simp only [Chunk.Apart] at apart
  omega

theorem free_null : free chunks 0 = some chunks := if_pos rfl

/-- A block in use can be freed, and the others stay. -/
theorem Sound.free (sound : Sound chunks) (same : chunks.Perm (chunk :: rest)) :
    ∃ chunks', free chunks chunk.address = some chunks' ∧ chunks'.Perm rest := by
  have member : chunk ∈ chunks := same.mem_iff.mpr List.mem_cons_self
  have nonnull := (sound.real chunk member).1
  have found : chunks.find? (fun other => other.address = chunk.address) = some chunk := by
    cases search : chunks.find? (fun other => other.address = chunk.address) with
    | none =>
      have absent := List.find?_eq_none.mp search chunk member
      simp at absent
    | some other =>
      have address := List.find?_some search
      rw [decide_eq_true_eq] at address
      rw [sound.eq_of_address (List.mem_of_find?_eq_some search) member address]
  refine ⟨chunks.erase chunk, ?_, ?_⟩
  · rw [Ledger.free, if_neg (by omega), found]
  · have erased := same.erase chunk
    rwa [List.erase_cons_head] at erased

/-- The blocks of a list can be freed in its order, with null pointers in between. -/
theorem Sound.freeAll (sound : Sound chunks) (same : chunks.Perm (released ++ rest)) {addresses : List ℕ}
    (frees : addresses.filter (· ≠ 0) = released.map Chunk.address) :
    ∃ chunks', addresses.foldlM Ledger.free chunks = some chunks' ∧ chunks'.Perm rest := by
  induction addresses generalizing chunks released with
  | nil =>
    cases released with
    | nil => exact ⟨chunks, rfl, same⟩
    | cons chunk released => cases frees
  | cons address addresses ih =>
    rw [List.foldlM_cons]
    by_cases null : address = 0
    · subst null
      rw [free_null]
      exact ih sound same frees
    · rw [List.filter_cons, if_pos (by simpa using null)] at frees
      cases released with
      | nil => cases frees
      | cons chunk released =>
        obtain ⟨rfl, later⟩ := List.cons.inj frees
        obtain ⟨next, freed, left⟩ := sound.free same
        have remaining : Sound (released ++ rest) := @Sound.of_append [chunk] _ (sound.perm same)
        rw [freed]
        exact ih (remaining.perm left.symm) left later

end Ledger
