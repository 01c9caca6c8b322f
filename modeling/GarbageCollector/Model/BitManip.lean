import GarbageCollector.Model.Common

/-! # Bit manipulation

The single-bit and mask functions of `bit_manip.c`. Bit positions counted from the most
significant bit are Lean's `getMsbD`; each function has one lemma that says which bits it changes,
and later modules use only those. Every caller passes an index below 64.
-/

namespace GarbageCollector.Model

/-- `bits_to_reset` low bits of `source` set to zero. -/
def maskFromLsb (source : Word) (bitsToReset : ℕ) : Word :=
  if bitsToReset = 0 then source
  else if 64 ≤ bitsToReset then 0
  else
    let mask : Word := ~~~((1#64 <<< bitsToReset) - 1)
    source &&& mask

/-- `bits_to_reset` high bits of `source` set to zero. -/
def maskFromMsb (source : Word) (bitsToReset : ℕ) : Word :=
  if bitsToReset = 0 then source
  else if 64 ≤ bitsToReset then 0
  else
    let mask : Word := ~~~(((1#64 <<< bitsToReset) - 1) <<< (64 - bitsToReset))
    source &&& mask

def setBitAtIndexFromLsb (source : Word) (index : ℕ) (value : Bool) : Word :=
  let mask : Word := 1#64 <<< index
  if value then source ||| mask else source &&& ~~~mask

def setBitAtIndexFromMsb (source : Word) (index : ℕ) (value : Bool) : Word :=
  let lsbIndex := 63 - index
  let mask : Word := 1#64 <<< lsbIndex
  if value then source ||| mask else source &&& ~~~mask

def getBitAtIndexFromMsb (source : Word) (index : ℕ) : Word :=
  let mask := setBitAtIndexFromMsb 0 index true
  mask &&& source

private theorem getLsbD_oneBit {index query : ℕ} (bound : index < 64) :
    (1#64 <<< index).getLsbD query = decide (query = index) := by
  rw [BitVec.getLsbD_shiftLeft, BitVec.getLsbD_one]
  by_cases same : query = index
  · simp [same, bound]
  · have other : query < index ∨ query - index ≠ 0 := by omega
    rcases other with before | after
    · simp [same, before]
    · simp [same, after]

theorem getLsbD_setBitAtIndexFromLsb {source : Word} {index query : ℕ} {value : Bool}
    (bound : index < 64) :
    (setBitAtIndexFromLsb source index value).getLsbD query =
      if query = index then value else source.getLsbD query := by
  by_cases inside : query < 64
  · cases value with
    | true =>
      simp only [setBitAtIndexFromLsb, if_true, BitVec.getLsbD_or, getLsbD_oneBit bound]
      by_cases same : query = index <;> simp [same]
    | false =>
      simp only [setBitAtIndexFromLsb, Bool.false_eq_true, if_false, BitVec.getLsbD_and,
        BitVec.getLsbD_not, getLsbD_oneBit bound, inside]
      by_cases same : query = index <;> simp [same]
  · rw [BitVec.getLsbD_of_ge _ _ (by omega), BitVec.getLsbD_of_ge _ _ (by omega), if_neg (by omega)]

theorem getMsbD_setBitAtIndexFromMsb {source : Word} {index query : ℕ} {value : Bool}
    (bound : index < 64) (queryBound : query < 64) :
    (setBitAtIndexFromMsb source index value).getMsbD query =
      if query = index then value else source.getMsbD query := by
  change (setBitAtIndexFromLsb source (63 - index) value).getMsbD query = _
  simp only [BitVec.getMsbD_eq_getLsbD, getLsbD_setBitAtIndexFromLsb (show 63 - index < 64 by omega)]
  simp only [queryBound, decide_true, Bool.true_and]
  by_cases same : query = index
  · simp [same]
  · rw [if_neg (by omega), if_neg same]

/-- The bit read from the most significant end, as the C code tests it. -/
theorem getBitAtIndexFromMsb_ne_zero {source : Word} {index : ℕ} (bound : index < 64) :
    getBitAtIndexFromMsb source index ≠ 0 ↔ source.getMsbD index = true := by
  constructor
  · intro nonzero
    by_contra clear
    apply nonzero
    apply BitVec.eq_of_getMsbD_eq
    intro query queryBound
    simp only [getBitAtIndexFromMsb, BitVec.getMsbD_and,
      getMsbD_setBitAtIndexFromMsb bound queryBound]
    grind
  · intro set zero
    have bit := congrArg (fun word : Word => word.getMsbD index) zero
    simp [getBitAtIndexFromMsb, getMsbD_setBitAtIndexFromMsb bound bound, set] at bit

end GarbageCollector.Model
