import GarbageCollector.Model.BitManip
import GarbageCollector.Model.FormatStr

/-! # Bit strings

`bits_to_bitstring` and `bitstring_to_bits` of `bit_manip.c` with `remove_all_spaces` of `utils.c`. Their
`malloc`s are taken to succeed; a byte of the new block holds nothing until it is written, and a write behind
the block or a read of a byte that holds nothing faults.
-/

namespace GarbageCollector.Model

/-- A block from `malloc`. -/
abbrev CharBlock := List (Option Char)

def mallocChars (bytes : ℕ) : CharBlock := List.replicate bytes none

def terminator : Char := Char.ofNat 0

/-- `block[index] = c`. -/
def writeChar (block : CharBlock) (index : ℕ) (c : Char) : Except Fault CharBlock :=
  if index < block.length then .ok (block.set index (some c)) else .error .bufferOverflow

/-- `block[index]`. -/
def readChar (block : CharBlock) (index : ℕ) : Except Fault Char :=
  match block[index]? with
  | some (some c) => .ok c
  | _ => .error .outOfBounds

/-- The string at the start of a block: its characters before the first terminator. -/
def stringOf : CharBlock → Except Fault (List Char)
  | some c :: rest => if c = terminator then .ok [] else do
    let str ← stringOf rest
    .ok (c :: str)
  | _ => .error .outOfBounds

/-- `(bits & (1ULL << i)) ? '1' : '0'`. -/
def bitChar (bits : Word) (i : ℕ) : Char := if bits &&& (1#64 <<< i) ≠ 0 then '1' else '0'

/-- The loop of `bits_to_bitstring` from this many bits on, with the next index to write at. -/
def printFrom (bits : Word) (bitstring : CharBlock) (bitIndex : ℕ) : ℕ → Except Fault (CharBlock × ℕ)
  | 0 => .ok (bitstring, bitIndex)
  | i + 1 => do
    let bitstring ← writeChar bitstring bitIndex (bitChar bits i)
    if i % 8 = 0 ∧ i ≠ 0 then do
      let bitstring ← writeChar bitstring (bitIndex + 1) ' '
      printFrom bits bitstring (bitIndex + 2) i
    else printFrom bits bitstring (bitIndex + 1) i

def bitsToBitstring (bits : Word) : Except Fault CharBlock := do
  let (bitstring, bitIndex) ← printFrom bits (mallocChars 72) 0 64
  writeChar bitstring bitIndex terminator

/-- The loop of `remove_all_spaces` over what is left of the string. -/
def removeFrom (noSpacesStr : CharBlock) (j : ℕ) : List Char → Except Fault (CharBlock × ℕ)
  | [] => .ok (noSpacesStr, j)
  | c :: rest =>
    if ¬ isSpace c then do
      let noSpacesStr ← writeChar noSpacesStr j c
      removeFrom noSpacesStr (j + 1) rest
    else removeFrom noSpacesStr j rest

def removeAllSpaces (str : List Char) : Except Fault CharBlock := do
  let (noSpacesStr, j) ← removeFrom (mallocChars (str.length + 1)) 0 str
  writeChar noSpacesStr j terminator

/-- The loop of `bitstring_to_bits` from index `i` on. -/
def readFrom (clearedStr : CharBlock) (bits : Word) (i : ℕ) : ℕ → Except Fault Word
  | 0 => .ok bits
  | remaining + 1 => do
    let c ← readChar clearedStr i
    readFrom clearedStr ((bits <<< 1) ||| if c = '1' then 1 else 0) (i + 1) remaining

def bitstringToBits (bitstring : List Char) : Except Fault Word := do
  let clearedStr ← removeAllSpaces bitstring
  readFrom clearedStr 0 0 64

end GarbageCollector.Model
