import Mathlib.Data.BitVec
import Mathlib.Data.List.Basic

/-! # Machine types, constants and faults

Addresses and `size_t` quantities are natural numbers, reduced modulo a power of two exactly where
the C type would wrap; words of memory are 64-bit vectors. Every place where C leaves the
behaviour undefined, and every failed assertion, is a `Fault`, which ends the execution. Constants
keep the names of `common.h` and `gc.c`.
-/

namespace GarbageCollector.Model

/-- A `uint64_t`. -/
abbrev Word := BitVec 64

/-- The ways in which an execution stops without returning. -/
inductive Fault where
  /-- An access outside an array or outside the heap's bytes. -/
  | outOfBounds
  /-- A failed `assert`. -/
  | assertion
  /-- A `memcpy` whose ranges overlap. -/
  | overlap
  /-- A write past the end of a `malloc`ed string. -/
  | bufferOverflow
  /-- An `int` result that does not fit. -/
  | signedOverflow
  /-- A branch whose text is not well-formed C, so that nothing says what it does. -/
  | illFormed
  /-- A client write outside the data of its objects. -/
  | foreignWrite
deriving DecidableEq, Repr

abbrev spaceSize : ℕ := 2048
abbrev headerSizeBytes : ℕ := 8
abbrev minObjSize : ℕ := 16
abbrev maxLayoutBits : ℕ := 54

abbrev pointerInterpretedSize : ℕ := 2
abbrev integerInterpretedSize : ℕ := 1
abbrev doubleInterpretedSize : ℕ := 2
abbrev floatInterpretedSize : ℕ := 1
abbrev longInterpretedSize : ℕ := 2
abbrev charInterpretedSize : ℕ := 1

/-- The two low bits of a header, in the order of the C enumeration. -/
inductive HeaderType where
  | ptrToFormatString
  | forwardingAddress
  | rawLayout
  | bitVector
deriving DecidableEq, Repr

/-- Conversion to a 32-bit `int`, which keeps the low 32 bits. -/
def toInt32 (value : ℤ) : ℤ := value.bmod (2 ^ 32)

theorem toInt32_of_lt {value : ℕ} (small : value < 2 ^ 31) : toInt32 value = value := by
  rw [toInt32, Int.bmod_eq_of_le]
  · omega
  · omega

theorem toInt32_range (value : ℤ) : -2 ^ 31 ≤ toInt32 value ∧ toInt32 value < 2 ^ 31 := by
  simp only [toInt32, Int.bmod]
  split <;> omega

theorem toInt32_of_range {value : ℤ} (lower : -2 ^ 31 ≤ value) (upper : value < 2 ^ 31) :
    toInt32 value = value := by
  rw [toInt32, Int.bmod_eq_of_le]
  · omega
  · omega

/-- Converting the parts of a sum first makes no difference. -/
@[simp] theorem toInt32_toInt32_add {first second : ℤ} :
    toInt32 (toInt32 first + second) = toInt32 (first + second) :=
  Int.bmod_add_bmod

@[simp] theorem toInt32_add_toInt32 {first second : ℤ} :
    toInt32 (first + toInt32 second) = toInt32 (first + second) :=
  Int.add_bmod_bmod

/-- A conversion to `int` never makes a natural number larger. -/
theorem toInt32_le {value : ℕ} : toInt32 value ≤ value := by
  simp only [toInt32, Int.bmod]
  split <;> omega

/-- Read an array at an `int` index. -/
def readArray {α : Type} (array : List α) (index : ℤ) : Except Fault α :=
  if index < 0 then .error .outOfBounds
  else match array[index.toNat]? with
    | none => .error .outOfBounds
    | some value => .ok value

theorem readArray_eq_ok_iff {α : Type} {array : List α} {index : ℤ} {value : α} :
    readArray array index = .ok value ↔ 0 ≤ index ∧ array[index.toNat]? = some value := by
  unfold readArray
  split
  · next negative => simp; omega
  · next nonnegative =>
    cases array[index.toNat]? with
    | none => simp
    | some found => simp; omega

theorem readArray_natCast {α : Type} {array : List α} {index : ℕ} {value : α}
    (found : array[index]? = some value) : readArray array index = .ok value :=
  readArray_eq_ok_iff.mpr ⟨by omega, by simpa using found⟩

end GarbageCollector.Model
