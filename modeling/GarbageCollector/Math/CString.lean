import GarbageCollector.Math.ByteMemory

/-! # Strings in a byte memory

A string lies in memory with a zero byte behind it, and ends at the first zero byte that a reader meets. What a
reader gets depends only on the bytes up to that one.
-/

namespace ByteMemory

/-- Write the bytes one behind the other. -/
def storeBytes (memory : ByteMemory) (address : ℕ) (bytes : List (BitVec 8)) : ByteMemory := fun query =>
  if address ≤ query ∧ query < address + bytes.length then bytes.getD (query - address) 0 else memory query

/-- Read up to the first zero byte, at most so many bytes. -/
def cString (memory : ByteMemory) : ℕ → ℕ → Option (List (BitVec 8))
  | 0, _ => none
  | fuel + 1, address =>
    if memory address = 0 then some []
    else (memory.cString fuel (address + 1)).map (memory address :: ·)

/-- The string lies at the address. -/
def HoldsString (memory : ByteMemory) : ℕ → List (BitVec 8) → Prop
  | address, [] => memory address = 0
  | address, c :: rest => memory address = c ∧ c ≠ 0 ∧ memory.HoldsString (address + 1) rest

variable {memory other : ByteMemory} {address query fuel : ℕ} {bytes str : List (BitVec 8)}

theorem storeBytes_of_outside (outside : query < address ∨ address + bytes.length ≤ query) :
    memory.storeBytes address bytes query = memory query :=
  if_neg (by omega)

theorem storeBytes_inside {offset : ℕ} (bound : offset < bytes.length) :
    memory.storeBytes address bytes (address + offset) = bytes[offset] := by
  simp [storeBytes, bound]

/-- A string depends only on its bytes and the zero behind them. -/
theorem HoldsString.congr (holds : memory.HoldsString address str)
    (agree : ∀ offset ≤ str.length, other (address + offset) = memory (address + offset)) :
    other.HoldsString address str := by
  induction str generalizing address with
  | nil =>
    have last := agree 0 (Nat.zero_le _)
    rw [Nat.add_zero] at last
    exact last.trans holds
  | cons c rest ih =>
    obtain ⟨here, nonzero, later⟩ := holds
    have first := agree 0 (Nat.zero_le _)
    rw [Nat.add_zero] at first
    refine ⟨first.trans here, nonzero, ih later ?_⟩
    intro offset bound
    have shifted := agree (1 + offset) (by simp only [List.length_cons]; omega)
    rwa [← Nat.add_assoc] at shifted

/-- A string without zero bytes can be written with one behind it. -/
theorem holdsString_storeBytes (nonzero : ∀ c ∈ str, c ≠ 0) :
    (memory.storeBytes address (str ++ [0])).HoldsString address str := by
  have holds (done rest : List (BitVec 8)) (same : str = done ++ rest) :
      (memory.storeBytes address (str ++ [0])).HoldsString (address + done.length) rest := by
    have byte {offset : ℕ} (bound : offset < (str ++ [0]).length) :=
      @storeBytes_inside memory address (str ++ [0]) offset bound
    induction rest generalizing done with
    | nil =>
      rw [List.append_nil] at same
      rw [HoldsString, byte (by simp [same])]
      simp [same]
    | cons c rest ih =>
      have later := ih (done ++ [c]) (same.trans (List.append_cons done c rest))
      rw [List.length_append, List.length_singleton, ← Nat.add_assoc] at later
      refine ⟨?_, nonzero c (by simp [same]), later⟩
      rw [byte (by simp [same])]
      simp [same]
  exact holds [] str rfl

/-- A reader with enough patience gets the string. -/
theorem HoldsString.cString (holds : memory.HoldsString address str) (enough : str.length < fuel) :
    memory.cString fuel address = some str := by
  induction str generalizing address fuel with
  | nil =>
    obtain ⟨fuel, rfl⟩ := Nat.exists_eq_add_of_lt enough
    exact if_pos holds
  | cons c rest ih =>
    obtain ⟨here, nonzero, later⟩ := holds
    cases fuel with
    | zero => cases enough
    | succ fuel =>
      rw [ByteMemory.cString, if_neg (by rwa [here]), ih later (Nat.lt_of_succ_lt_succ enough), here]
      rfl

end ByteMemory
