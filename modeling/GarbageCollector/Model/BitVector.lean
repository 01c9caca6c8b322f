import GarbageCollector.Model.BitManip
import GarbageCollector.Model.FormatStr

/-! # Layouts packed into header words

`bit_vector.c`: a header word holds the byte size of its object in the top 8 bits, one layout bit
per cell in the next 54 and the header type in the low 2. Encoding walks the format string and
counts four-byte units; decoding walks the layout bits until the accumulated size is reached.
-/

namespace GarbageCollector.Model

/-- `required_bits`, the units of the whole string. -/
def requiredBits : List Char → ℕ
  | [] => 0
  | c :: rest => interpretedSize c + requiredBits rest

def enoughBitsForLayout (format : List Char) : Bool := requiredBits format ≤ maxLayoutBits

/-- The loop of `get_layout_bits`: every letter writes one bit, then `iter` moves by its units,
except that a pointer moves it by one. -/
def getLayoutBitsFrom (layoutBits : Word) (iter : ℕ) : List Char → Word
  | [] => layoutBits
  | c :: rest =>
    if c = '*' then getLayoutBitsFrom (setBitAtIndexFromMsb layoutBits iter true) (iter + 1) rest
    else if isTypeLetter c then
      getLayoutBitsFrom (setBitAtIndexFromMsb layoutBits iter false) (iter + interpretedSize c) rest
    else 0

def getLayoutBits (format : List Char) : Word := getLayoutBitsFrom 0 0 format

/-- The header word of a format string, or `none` for an unsuccessful `option_t`. -/
def toBitVector (format : List Char) : Option Word :=
  if enoughBitsForLayout format then
    let size : Word := BitVec.ofNat 64 (formatStrBytes format) <<< 56
    let layoutBits := getLayoutBits format >>> 8
    let mergedBits := layoutBits ||| size
    let mergedBits := setBitAtIndexFromLsb mergedBits 0 true
    let mergedBits := setBitAtIndexFromLsb mergedBits 1 true
    some mergedBits
  else none

def getSizeBitsField (bits : Word) : Word := bits >>> 56

def getLayoutBitsField (bits : Word) : Word := maskFromLsb bits 2 <<< 8

/-- The decoding loop from index `i` with `remaining` iterations left: the characters it writes
to `buffer_str`, one at each index from `i` on. -/
def bufferWrites (layoutBits : Word) (size i currentAccumulatedSize : ℕ) : ℕ → List Char
  | 0 => []
  | remaining + 1 =>
    let currentBit := getBitAtIndexFromMsb layoutBits i ≠ 0
    let accumulated := currentAccumulatedSize +
      if currentBit then pointerInterpretedSize * 4 else charInterpretedSize * 4
    let c := if currentBit then '*' else 'i'
    if size ≤ accumulated then [c]
    else c :: bufferWrites layoutBits size (i + 1) accumulated remaining

/-- The characters written to `buffer_str` for a header word. -/
def layoutWrites (bits : Word) : List Char :=
  bufferWrites (getLayoutBitsField bits) (getSizeBitsField bits).toNat 0 0 54

/-- The decoded format string. The buffer has `size / 4` characters and a terminator; a write
over the terminator leaves `create_format_str` reading past the buffer. -/
def bitVectorToFormatString (bits : Word) : Except Fault (Option (List Char)) :=
  let bufferSize := (getSizeBitsField bits).toNat / 4
  if (layoutWrites bits).length ≤ bufferSize then createFormatStr (layoutWrites bits)
  else .error .outOfBounds

/-- The byte offsets of the pointers of a layout, counted from `offset`. -/
def pointerOffsets (offset : ℕ) : List Char → List ℕ
  | [] => []
  | c :: rest =>
    if c = '*' then offset :: pointerOffsets (offset + interpretedSize c * 4) rest
    else pointerOffsets (offset + interpretedSize c * 4) rest

theorem formatStrBytes_eq (format : List Char) : formatStrBytes format = 4 * requiredBits format := by
  induction format with
  | nil => rfl
  | cons c rest ih => simp only [formatStrBytes, requiredBits, ih]; omega

theorem enoughBitsForLayout_of_toBitVector {format : List Char} {bits : Word}
    (encoded : toBitVector format = some bits) : enoughBitsForLayout format = true := by
  unfold toBitVector at encoded
  split at encoded
  · assumption
  · contradiction

/-- A layout that gets a header word has at most 216 bytes, in whole units. -/
theorem formatStrBytes_of_toBitVector {format : List Char} {bits : Word}
    (encoded : toBitVector format = some bits) :
    formatStrBytes format ≤ 216 ∧ formatStrBytes format % 4 = 0 := by
  have enough := enoughBitsForLayout_of_toBitVector encoded
  simp only [enoughBitsForLayout, decide_eq_true_eq, maxLayoutBits] at enough
  rw [formatStrBytes_eq]
  omega

example : toBitVector "cccc***dd*".toList = some 0x400E100000000003 := by decide +kernel

end GarbageCollector.Model
