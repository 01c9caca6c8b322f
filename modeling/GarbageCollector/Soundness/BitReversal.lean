import GarbageCollector.Model.BitCopy

/-! # Copying from the other end

`reverse_bits` exchanges neighbouring blocks of 1, 2, 4, 8, 16 and 32 bits, and so turns a word round. Copying
or resetting bits from one end is the same from the other end of the reversed words, for every width that
the functions shift by at all: `copy_bits_from_msb` of no bits shifts a word by 64.
-/

namespace GarbageCollector.Soundness

open Model

variable {word dest source mask : Word} {shift i n : ℕ}

/-- Where a bit goes when neighbouring blocks of `shift` bits change places. -/
def exchanged (shift i : ℕ) : ℕ := if i / shift % 2 = 0 then i + shift else i - shift

/-- The mask has every other block of `shift` bits, from the lowest on. -/
def EvenBlocks (mask : Word) (shift : ℕ) : Prop := ∀ i < 64, mask.getLsbD i = decide (i / shift % 2 = 0)

instance (mask : Word) (shift : ℕ) : Decidable (EvenBlocks mask shift) := Nat.decidableBallLT 64 _

/-- One stage of `reverse_bits` exchanges neighbouring blocks. -/
theorem getLsbD_stage (positive : 0 < shift) (blocks : EvenBlocks mask shift) (inside : i < 64) :
    (((word >>> shift) &&& mask) ||| ((word &&& mask) <<< shift)).getLsbD i =
      word.getLsbD (exchanged shift i) := by
  rw [BitVec.getLsbD_or, BitVec.getLsbD_and, BitVec.getLsbD_ushiftRight, BitVec.getLsbD_shiftLeft,
    BitVec.getLsbD_and, blocks i inside, exchanged, decide_eq_true inside, Bool.true_and]
  rcases Nat.lt_or_ge i shift with low | high
  · have even : i / shift % 2 = 0 := by rw [Nat.div_eq_of_lt low]
    simp [even, low, Nat.add_comm]
  · have below : (i - shift) / shift + 1 = i / shift := by
      rw [← Nat.add_div_right _ positive, Nat.sub_add_cancel high]
    rw [blocks (i - shift) (by omega), decide_eq_false (not_lt.mpr high)]
    by_cases even : i / shift % 2 = 0
    · have odd : (i - shift) / shift % 2 ≠ 0 := by omega
      simp [even, odd, Nat.add_comm]
    · have lower : (i - shift) / shift % 2 = 0 := by omega
      simp [even, lower]

/-- The last stage needs no mask. -/
theorem getLsbD_lastStage (inside : i < 64) :
    ((word >>> 32) ||| (word <<< 32)).getLsbD i = word.getLsbD (exchanged 32 i) := by
  rw [BitVec.getLsbD_or, BitVec.getLsbD_ushiftRight, BitVec.getLsbD_shiftLeft, exchanged]
  rcases Nat.lt_or_ge i 32 with low | high
  · have even : i / 32 % 2 = 0 := by omega
    simp [even, low, Nat.add_comm]
  · have odd : i / 32 % 2 ≠ 0 := by omega
    have beyond : word.getLsbD (32 + i) = false := BitVec.getLsbD_of_ge _ _ (by omega)
    simp [odd, beyond, inside, not_lt.mpr high]

/-- The six exchanges together. -/
theorem exchanged_all : ∀ i < 64, (exchanged 32 i < 64 ∧ exchanged 16 (exchanged 32 i) < 64 ∧
      exchanged 8 (exchanged 16 (exchanged 32 i)) < 64 ∧
      exchanged 4 (exchanged 8 (exchanged 16 (exchanged 32 i))) < 64 ∧
      exchanged 2 (exchanged 4 (exchanged 8 (exchanged 16 (exchanged 32 i)))) < 64) ∧
    exchanged 1 (exchanged 2 (exchanged 4 (exchanged 8 (exchanged 16 (exchanged 32 i))))) = 63 - i := by
  decide

/-- `reverse_bits` returns the word turned round. -/
theorem reverseBits_eq (word : Word) : reverseBits word = some word.reverse := by
  rw [reverseBits]
  simp only [shiftLeft_of_lt (show 1 < 64 by decide), shiftRight_of_lt (show 1 < 64 by decide),
    shiftLeft_of_lt (show 2 < 64 by decide), shiftRight_of_lt (show 2 < 64 by decide),
    shiftLeft_of_lt (show 4 < 64 by decide), shiftRight_of_lt (show 4 < 64 by decide),
    shiftLeft_of_lt (show 8 < 64 by decide), shiftRight_of_lt (show 8 < 64 by decide),
    shiftLeft_of_lt (show 16 < 64 by decide), shiftRight_of_lt (show 16 < 64 by decide),
    shiftLeft_of_lt (show 32 < 64 by decide), shiftRight_of_lt (show 32 < 64 by decide),
    Option.bind_eq_bind, Option.bind_some]
  congr 1
  apply BitVec.eq_of_getLsbD_eq
  intro i inside
  obtain ⟨⟨after32, after16, after8, after4, after2⟩, mirrored⟩ := exchanged_all i inside
  rw [getLsbD_lastStage inside, getLsbD_stage (by decide) (by decide) after32,
    getLsbD_stage (by decide) (by decide) after16, getLsbD_stage (by decide) (by decide) after8,
    getLsbD_stage (by decide) (by decide) after4, getLsbD_stage (by decide) (by decide) after2, mirrored,
    BitVec.getLsbD_reverse, BitVec.getMsbD_eq_getLsbD, decide_eq_true inside, Bool.true_and]

/-- The low bits of a mask. -/
theorem getLsbD_lowBits (small : n < 64) : ((1#64 <<< n) - 1).getLsbD i = decide (i < n) := by
  have power : 2 ^ n < 2 ^ 64 := Nat.pow_lt_pow_right (by decide) small
  have positive := Nat.two_pow_pos n
  have shifted : (1#64 <<< n).toNat = 2 ^ n := by
    rw [BitVec.toNat_shiftLeft, Nat.shiftLeft_eq, BitVec.toNat_ofNat, Nat.mod_eq_of_lt (by decide : 1 < 2 ^ 64),
      Nat.one_mul, Nat.mod_eq_of_lt power]
  have value : ((1#64 <<< n) - 1).toNat = 2 ^ n - 1 := by
    rw [BitVec.toNat_sub, shifted, show (1 : Word).toNat = 1 from rfl]
    omega
  rw [BitVec.getLsbD, value, Nat.testBit_two_pow_sub_one]

theorem getLsbD_allBits (inside : i < 64) : (0xFFFFFFFFFFFFFFFF : Word).getLsbD i = true := by
  rw [show (0xFFFFFFFFFFFFFFFF : Word) = BitVec.allOnes 64 from rfl, BitVec.getLsbD_allOnes, decide_eq_true inside]

/-- The high bits of a mask. -/
theorem getMsbD_highBits (positive : 0 < n) (small : n < 64) (inside : i < 64) :
    (((1#64 <<< n) - 1) <<< (64 - n)).getMsbD i = decide (i < n) := by
  rw [BitVec.getMsbD_eq_getLsbD, BitVec.getLsbD_shiftLeft, getLsbD_lowBits small, decide_eq_true inside]
  by_cases high : i < n
  · have lower : ¬ 64 - 1 - i < 64 - n := by omega
    have upper : 64 - 1 - i - (64 - n) < n := by omega
    have within : 64 - 1 - i < 64 := by omega
    simp [high, lower, upper, within]
  · have lower : 64 - 1 - i < 64 - n := by omega
    simp [high, lower]

/-- Where the mask has a bit, the source is copied. -/
theorem getLsbD_merge : ((dest &&& ~~~mask) ||| (source &&& mask)).getLsbD i =
    if mask.getLsbD i then source.getLsbD i else dest.getLsbD i := by
  rw [BitVec.getLsbD_or, BitVec.getLsbD_and, BitVec.getLsbD_and, BitVec.getLsbD_not]
  rcases Nat.lt_or_ge i 64 with inside | outside
  · cases mask.getLsbD i <;> simp [inside]
  · simp [BitVec.getLsbD_of_ge _ _ outside]

/-- What `copy_bits_from_lsb` returns. -/
theorem copyBitsFromLsb_eq (dest source : Word) (width : n ≤ 64) :
    ∃ copied, copyBitsFromLsb dest source n = some copied ∧
      ∀ i < 64, copied.getLsbD i = if i < n then source.getLsbD i else dest.getLsbD i := by
  unfold copyBitsFromLsb
  rcases Nat.lt_or_eq_of_le width with small | rfl
  · refine ⟨_, by rw [if_neg (Nat.ne_of_lt small), shiftLeft_of_lt small]; rfl, fun i inside => ?_⟩
    rw [getLsbD_merge, getLsbD_lowBits small]
    simp
  · refine ⟨_, by rw [if_pos rfl]; rfl, fun i inside => ?_⟩
    rw [getLsbD_merge, if_pos inside, if_pos (getLsbD_allBits inside)]

/-- What `copy_bits_from_msb` returns of at least one bit. -/
theorem copyBitsFromMsb_eq (dest source : Word) (positive : 0 < n) (width : n ≤ 64) :
    ∃ copied, copyBitsFromMsb dest source n = some copied ∧
      ∀ i < 64, copied.getMsbD i = if i < n then source.getMsbD i else dest.getMsbD i := by
  unfold copyBitsFromMsb
  rcases Nat.lt_or_eq_of_le width with small | rfl
  · refine ⟨_, by
      rw [if_neg (Nat.ne_of_lt small), shiftLeft_of_lt small, Option.bind_eq_bind, Option.bind_some,
        shiftLeft_of_lt (show 64 - n < 64 by omega)]
      rfl, fun i inside => ?_⟩
    have bit := getMsbD_highBits positive small inside
    rw [BitVec.getMsbD_eq_getLsbD, decide_eq_true inside, Bool.true_and] at bit ⊢
    rw [getLsbD_merge, bit, BitVec.getMsbD_eq_getLsbD, BitVec.getMsbD_eq_getLsbD]
    simp [inside]
  · refine ⟨_, by rw [if_pos rfl]; rfl, fun i inside => ?_⟩
    rw [BitVec.getMsbD_eq_getLsbD, getLsbD_merge, if_pos inside,
      if_pos (getLsbD_allBits (by omega)), BitVec.getMsbD_eq_getLsbD]

/-- `copy_bits_from_msb` of no bits shifts by 64. -/
theorem copyBitsFromMsb_zero (dest source : Word) : copyBitsFromMsb dest source 0 = none := rfl

theorem getLsbD_maskFromLsb (inside : i < 64) :
    (maskFromLsb source n).getLsbD i = if i < n then false else source.getLsbD i := by
  unfold maskFromLsb
  split
  · next none => rw [none, if_neg (Nat.not_lt_zero i)]
  · split
    · next all =>
      rw [if_pos (by omega)]
      exact BitVec.getLsbD_zero
    · next some =>
      rw [BitVec.getLsbD_and, BitVec.getLsbD_not, getLsbD_lowBits (not_le.mp some)]
      by_cases low : i < n <;> simp [low, inside]

theorem getMsbD_maskFromMsb (inside : i < 64) :
    (maskFromMsb source n).getMsbD i = if i < n then false else source.getMsbD i := by
  unfold maskFromMsb
  split
  · next none => rw [none, if_neg (Nat.not_lt_zero i)]
  · next positive =>
    split
    · next all =>
      rw [if_pos (by omega)]
      exact BitVec.getMsbD_zero
    · next some =>
      rw [BitVec.getMsbD_and, BitVec.getMsbD_not,
        getMsbD_highBits (Nat.pos_of_ne_zero positive) (not_le.mp some) inside]
      by_cases high : i < n <;> simp [high, inside]

/-- A word that has from the high end what another has from the low end. -/
theorem eq_reverse {forward backward : Word} (mirrored : ∀ i < 64, forward.getMsbD i = backward.getLsbD i) :
    forward = backward.reverse := by
  apply BitVec.eq_of_getMsbD_eq
  intro i inside
  rw [mirrored i inside, BitVec.getMsbD_reverse]

/-- What the functions do from one end of a word, they do from the other end of the reversed word, and none
of them shifts by 64 or more. -/
structure Mirrored (dest source : Word) (n : ℕ) : Prop where
  reverses : ∀ word, ∃ reversed, reverseBits word = some reversed ∧
    ∀ i < 64, reversed.getLsbD i = word.getLsbD (63 - i)
  copies : ∃ copied, copyBitsFromMsb dest source n = some copied ∧ (do
    let copied ← copyBitsFromLsb (← reverseBits dest) (← reverseBits source) n
    reverseBits copied) = some copied
  masks : ∃ masked, evalMaskFromMsb source n = some masked ∧ (do
    let masked ← evalMaskFromLsb (← reverseBits source) n
    reverseBits masked) = some masked

/-- For every width but 0 the functions from the two ends mirror each other. -/
theorem mirrored_iff (width : n ≤ 64) : Mirrored dest source n ↔ n ≠ 0 := by
  constructor
  · rintro mirrored rfl
    obtain ⟨copied, shifted, _⟩ := mirrored.copies
    rw [copyBitsFromMsb_zero] at shifted
    cases shifted
  · intro positive
    refine ⟨fun word => ⟨word.reverse, reverseBits_eq word, fun i inside => ?_⟩, ?_, ?_⟩
    · rw [BitVec.getLsbD_reverse, BitVec.getMsbD_eq_getLsbD, decide_eq_true inside, Bool.true_and]
    · obtain ⟨copied, ran, bits⟩ := copyBitsFromMsb_eq dest source (Nat.pos_of_ne_zero positive) width
      obtain ⟨backward, ran', bits'⟩ := copyBitsFromLsb_eq dest.reverse source.reverse width
      refine ⟨copied, ran, ?_⟩
      have same : copied = backward.reverse := by
        apply eq_reverse
        intro i inside
        rw [bits i inside, bits' i inside, BitVec.getLsbD_reverse, BitVec.getLsbD_reverse]
      simp only [reverseBits_eq, ran', Option.bind_eq_bind, Option.bind_some, same]
    · refine ⟨maskFromMsb source n, evalMaskFromMsb_eq source n, ?_⟩
      have same : maskFromMsb source n = (maskFromLsb source.reverse n).reverse := by
        apply eq_reverse
        intro i inside
        rw [getMsbD_maskFromMsb inside, getLsbD_maskFromLsb inside, BitVec.getLsbD_reverse]
      simp only [reverseBits_eq, evalMaskFromLsb_eq, Option.bind_eq_bind, Option.bind_some, same]

/-- All 64 bits are copied. -/
theorem mirrored_iff_all : Mirrored 0 1 64 ↔ 64 ≠ 0 := mirrored_iff (by decide)

/-- Copying no bits shifts by 64. -/
theorem not_mirrored_zero : copyBitsFromMsb 0 1 0 = none ∧ ¬ Mirrored 0 1 0 := by
  refine ⟨rfl, fun mirrored => ?_⟩
  obtain ⟨copied, shifted, _⟩ := mirrored.copies
  rw [copyBitsFromMsb_zero] at shifted
  cases shifted

end GarbageCollector.Soundness
