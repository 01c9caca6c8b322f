import Mathlib.Data.BitVec
import Mathlib.Tactic.SplitIfs

/-! # Byte memory with little-endian words

A memory gives a byte at every natural address, so bounds are the business of whoever uses it.
Words of 64 bits are stored least significant byte first at any alignment. A store changes
exactly its eight bytes, and copying a range moves it byte for byte.
-/

/-- The byte at each address. -/
abbrev ByteMemory := ℕ → BitVec 8

namespace ByteMemory

variable {memory other : ByteMemory} {address query source length : ℕ} {word : BitVec 64}

/-- The little-endian word whose first byte is at the address. -/
def load64 (memory : ByteMemory) (address : ℕ) : BitVec 64 :=
  memory (address + 7) ++ memory (address + 6) ++ memory (address + 5) ++ memory (address + 4) ++
    memory (address + 3) ++ memory (address + 2) ++ memory (address + 1) ++ memory address

/-- Write the eight bytes of a word, least significant byte first. -/
def store64 (memory : ByteMemory) (address : ℕ) (word : BitVec 64) : ByteMemory := fun query =>
  if address ≤ query ∧ query < address + 8 then word.extractLsb' (8 * (query - address)) 8
  else memory query

/-- Copy `length` bytes from `source` to `address`. -/
def copy (memory : ByteMemory) (address source length : ℕ) : ByteMemory := fun query =>
  if address ≤ query ∧ query < address + length then memory (source + (query - address))
  else memory query

/-- A store leaves every byte outside its word alone. -/
theorem store64_of_outside (outside : query < address ∨ address + 8 ≤ query) :
    memory.store64 address word query = memory query :=
  if_neg (by omega)

theorem store64_inside {offset : ℕ} (bound : offset < 8) :
    memory.store64 address word (address + offset) = word.extractLsb' (8 * offset) 8 := by
  simp [store64, bound]

theorem copy_of_outside (outside : query < address ∨ address + length ≤ query) :
    memory.copy address source length query = memory query :=
  if_neg (by omega)

theorem copy_inside {offset : ℕ} (bound : offset < length) :
    memory.copy address source length (address + offset) = memory (source + offset) := by
  simp [copy, bound]

/-- A word depends only on its eight bytes. -/
theorem load64_congr (agree : ∀ offset < 8, memory (address + offset) = other (query + offset)) :
    memory.load64 address = other.load64 query := by
  have first := agree 0 (by omega)
  simp only [Nat.add_zero] at first
  simp only [load64, first, agree 1 (by omega), agree 2 (by omega), agree 3 (by omega),
    agree 4 (by omega), agree 5 (by omega), agree 6 (by omega), agree 7 (by omega)]

@[simp] theorem load64_store64 : (memory.store64 address word).load64 address = word := by
  have first : memory.store64 address word address = word.extractLsb' (8 * 0) 8 :=
    store64_inside (show 0 < 8 by omega)
  simp only [load64, first, store64_inside (show 1 < 8 by omega), store64_inside (show 2 < 8 by omega),
    store64_inside (show 3 < 8 by omega), store64_inside (show 4 < 8 by omega),
    store64_inside (show 5 < 8 by omega), store64_inside (show 6 < 8 by omega),
    store64_inside (show 7 < 8 by omega)]
  apply BitVec.eq_of_getLsbD_eq
  intro index bound
  simp only [BitVec.getLsbD_append, BitVec.getLsbD_extractLsb']
  split_ifs <;> simp <;> grind

/-- The bytes of a word in memory. -/
theorem extractLsb'_load64 {offset : ℕ} (bound : offset < 8) :
    (memory.load64 address).extractLsb' (8 * offset) 8 = memory (address + offset) := by
  apply BitVec.eq_of_getLsbD_eq
  intro index small
  have cases : offset = 0 ∨ offset = 1 ∨ offset = 2 ∨ offset = 3 ∨ offset = 4 ∨ offset = 5 ∨
      offset = 6 ∨ offset = 7 := by omega
  rw [BitVec.getLsbD_extractLsb', load64]
  rcases cases with rfl | rfl | rfl | rfl | rfl | rfl | rfl | rfl
  all_goals
    simp only [BitVec.getLsbD_append, Nat.add_zero]
    grind

end ByteMemory
