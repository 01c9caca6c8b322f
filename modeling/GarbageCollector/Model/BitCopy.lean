import GarbageCollector.Model.BitManip

/-! # Reversing and copying bits

`reverse_bits`, the two functions of `bit_manip.c` that copy a number of bits, and the two that reset one,
with the shifts that they evaluate. C leaves the shift of a `uint64_t` by 64 or more undefined; a function
that comes to one returns `none`.
-/

namespace GarbageCollector.Model

/-- `word << count`. -/
def shiftLeft (word : Word) (count : ℕ) : Option Word := if count < 64 then some (word <<< count) else none

/-- `word >> count`. -/
def shiftRight (word : Word) (count : ℕ) : Option Word := if count < 64 then some (word >>> count) else none

def reverseBits (source : Word) : Option Word := do
  let source := ((← shiftRight source 1) &&& 0x5555555555555555) |||
    (← shiftLeft (source &&& 0x5555555555555555) 1)
  let source := ((← shiftRight source 2) &&& 0x3333333333333333) |||
    (← shiftLeft (source &&& 0x3333333333333333) 2)
  let source := ((← shiftRight source 4) &&& 0x0F0F0F0F0F0F0F0F) |||
    (← shiftLeft (source &&& 0x0F0F0F0F0F0F0F0F) 4)
  let source := ((← shiftRight source 8) &&& 0x00FF00FF00FF00FF) |||
    (← shiftLeft (source &&& 0x00FF00FF00FF00FF) 8)
  let source := ((← shiftRight source 16) &&& 0x0000FFFF0000FFFF) |||
    (← shiftLeft (source &&& 0x0000FFFF0000FFFF) 16)
  some ((← shiftRight source 32) ||| (← shiftLeft source 32))

def copyBitsFromLsb (dest source : Word) (numberOfBits : ℕ) : Option Word := do
  let mask : Word ←
    if numberOfBits = 64 then some 0xFFFFFFFFFFFFFFFF
    else do some ((← shiftLeft 1#64 numberOfBits) - 1)
  let maskedSource := source &&& mask
  let maskedDest := dest &&& ~~~mask
  some (maskedDest ||| maskedSource)

/-- The width of the second shift is a `uint64_t`; beyond 64 bits the first one is undefined already. -/
def copyBitsFromMsb (dest source : Word) (numberOfBits : ℕ) : Option Word := do
  let mask : Word ←
    if numberOfBits = 64 then some 0xFFFFFFFFFFFFFFFF
    else do shiftLeft ((← shiftLeft 1#64 numberOfBits) - 1) (64 - numberOfBits)
  let maskedSource := source &&& mask
  let maskedDest := dest &&& ~~~mask
  some (maskedDest ||| maskedSource)

/-- `mask_from_lsb` with its shift. -/
def evalMaskFromLsb (source : Word) (bitsToReset : ℕ) : Option Word :=
  if bitsToReset = 0 then some source
  else if 64 ≤ bitsToReset then some 0
  else do
    let mask : Word := ~~~((← shiftLeft 1#64 bitsToReset) - 1)
    some (source &&& mask)

/-- `mask_from_msb` with its shifts. -/
def evalMaskFromMsb (source : Word) (bitsToReset : ℕ) : Option Word :=
  if bitsToReset = 0 then some source
  else if 64 ≤ bitsToReset then some 0
  else do
    let mask : Word := ~~~(← shiftLeft ((← shiftLeft 1#64 bitsToReset) - 1) (64 - bitsToReset))
    some (source &&& mask)

section Shifts

variable {word source : Word} {count : ℕ}

theorem shiftLeft_of_lt (small : count < 64) : shiftLeft word count = some (word <<< count) := if_pos small

theorem shiftRight_of_lt (small : count < 64) : shiftRight word count = some (word >>> count) := if_pos small

/-- The guards of `mask_from_lsb` keep its shift defined. -/
theorem evalMaskFromLsb_eq (source : Word) (bitsToReset : ℕ) :
    evalMaskFromLsb source bitsToReset = some (maskFromLsb source bitsToReset) := by
  unfold evalMaskFromLsb maskFromLsb
  split
  · rfl
  · split
    · rfl
    · next small =>
      rw [shiftLeft_of_lt (not_le.mp small)]
      rfl

/-- The guards of `mask_from_msb` keep both its shifts defined. -/
theorem evalMaskFromMsb_eq (source : Word) (bitsToReset : ℕ) :
    evalMaskFromMsb source bitsToReset = some (maskFromMsb source bitsToReset) := by
  unfold evalMaskFromMsb maskFromMsb
  split
  · rfl
  · next some_bits =>
    split
    · rfl
    · next small =>
      rw [shiftLeft_of_lt (not_le.mp small), Option.bind_eq_bind, Option.bind_some,
        shiftLeft_of_lt (show 64 - bitsToReset < 64 by omega)]
      rfl

end Shifts

end GarbageCollector.Model
