import GarbageCollector.Model.Header

/-! # Layouts as the decoder sees them

`decodedLetters` says what the decoder makes of one letter: a pointer stays, and every other letter
becomes one `i` for each of its four-byte units. `decodedLayout` is the whole string under it; it
has the same units, hence the same bytes and the same pointer offsets. A header word of a layout
carries one bit for each letter of its decoded form, and the decoding loop stops exactly at its end.
-/

namespace GarbageCollector.Proofs

open Model

/-- What the decoder makes of one letter. -/
def decodedLetters (c : Char) : List Char :=
  if c = '*' then ['*'] else List.replicate (interpretedSize c) 'i'

/-- What the decoder makes of a format string. -/
def decodedLayout (format : List Char) : List Char := format.flatMap decodedLetters

example : decodedLayout "ld*cif".toList = "iiii*iii".toList := by decide

/-- The two letters that a decoded layout is made of. -/
def Plain (str : List Char) : Prop := ∀ c ∈ str, c = '*' ∨ c = 'i'

theorem Plain.expanded {str : List Char} (plain : Plain str) : Expanded str := by
  intro c member
  rcases plain c member with rfl | rfl <;> rfl

theorem plain_decodedLetters (c : Char) : Plain (decodedLetters c) := by
  intro x member
  unfold decodedLetters at member
  split at member
  · exact .inl (List.mem_singleton.mp member)
  · exact .inr (List.eq_of_mem_replicate member)

theorem plain_decodedLayout (format : List Char) : Plain (decodedLayout format) := by
  intro x member
  obtain ⟨c, _, member⟩ := List.mem_flatMap.mp member
  exact plain_decodedLetters c x member

theorem requiredBits_append (first second : List Char) :
    requiredBits (first ++ second) = requiredBits first + requiredBits second := by
  induction first with
  | nil => simp [requiredBits]
  | cons c rest ih => simp only [List.cons_append, requiredBits, ih, Nat.add_assoc]

theorem requiredBits_replicate (count : ℕ) (c : Char) :
    requiredBits (List.replicate count c) = count * interpretedSize c := by
  induction count with
  | zero => simp [requiredBits]
  | succ count ih => rw [List.replicate_succ, requiredBits, ih, Nat.succ_mul, Nat.add_comm]

theorem requiredBits_decodedLayout (format : List Char) :
    requiredBits (decodedLayout format) = requiredBits format := by
  induction format with
  | nil => rfl
  | cons c rest ih =>
    rw [decodedLayout, List.flatMap_cons, requiredBits_append, ← decodedLayout, ih, requiredBits]
    congr 1
    unfold decodedLetters
    split
    · next pointer => rw [pointer]; rfl
    · exact (requiredBits_replicate _ _).trans (Nat.mul_one _)

theorem formatStrBytes_decodedLayout (format : List Char) :
    formatStrBytes (decodedLayout format) = formatStrBytes format := by
  rw [formatStrBytes_eq, formatStrBytes_eq, requiredBits_decodedLayout]

theorem pointerOffsets_replicate (offset count : ℕ) (rest : List Char) :
    pointerOffsets offset (List.replicate count 'i' ++ rest) =
      pointerOffsets (offset + count * 4) rest := by
  induction count generalizing offset with
  | zero => simp
  | succ count ih =>
    rw [List.replicate_succ, List.cons_append, pointerOffsets, if_neg (by decide), ih]
    congr 1
    simp only [interpretedSize, integerInterpretedSize]
    omega

/-- Decoding moves no pointer. -/
theorem pointerOffsets_decodedLayout (offset : ℕ) (format : List Char) :
    pointerOffsets offset (decodedLayout format) = pointerOffsets offset format := by
  induction format generalizing offset with
  | nil => rfl
  | cons c rest ih =>
    rw [decodedLayout, List.flatMap_cons, ← decodedLayout, decodedLetters, pointerOffsets]
    split
    · next pointer =>
      rw [List.singleton_append, pointerOffsets, if_pos rfl, ih, pointer]
    · rw [pointerOffsets_replicate, ih]

/-- Every letter counts at least one unit. -/
theorem interpretedSize_pos {c : Char} (letter : isTypeLetter c = true) : 0 < interpretedSize c := by
  simp only [isTypeLetter, Bool.or_eq_true, beq_iff_eq] at letter
  rcases letter with ((((rfl | rfl) | rfl) | rfl) | rfl) | rfl <;> decide

/-- A plain layout has no more letters than units. -/
theorem Plain.length_le {str : List Char} (plain : Plain str) : str.length ≤ requiredBits str := by
  induction str with
  | nil => exact Nat.zero_le _
  | cons c rest ih =>
    have shorter := ih fun x member => plain x (List.mem_cons_of_mem _ member)
    have unit := interpretedSize_pos (plain.expanded c List.mem_cons_self)
    simp only [List.length_cons, requiredBits]
    omega

/-- Decoding again changes nothing. -/
theorem decodedLayout_of_plain {str : List Char} (plain : Plain str) : decodedLayout str = str := by
  induction str with
  | nil => rfl
  | cons c rest ih =>
    have letter : decodedLetters c = [c] := by
      rcases plain c List.mem_cons_self with rfl | rfl <;> rfl
    rw [decodedLayout, List.flatMap_cons, ← decodedLayout, letter, List.singleton_append,
      ih fun x member => plain x (List.mem_cons_of_mem _ member)]

/-- The bit that a letter of a decoded layout stands for. -/
def IsPointerAt (str : List Char) (i : ℕ) : Prop := str[i]? = some '*'

theorem isPointerAt_replicate_append (count i : ℕ) (rest : List Char) :
    IsPointerAt (List.replicate count 'i' ++ rest) i ↔ count ≤ i ∧ IsPointerAt rest (i - count) := by
  unfold IsPointerAt
  by_cases early : i < count
  · simp [List.getElem?_append_left, early]
  · rw [List.getElem?_append_right (by simp; omega), List.length_replicate]
    simp [Nat.le_of_not_lt early]

/-- Writing the bit at one index leaves those after it clear. -/
theorem getMsbD_setBitAtIndexFromMsb_later {layoutBits : Word} {iter j : ℕ} {value : Bool}
    (bound : iter < 64) (clear : ∀ j, iter ≤ j → layoutBits.getMsbD j = false) (later : iter < j) :
    (setBitAtIndexFromMsb layoutBits iter value).getMsbD j = false := by
  rcases Nat.lt_or_ge j 64 with inside | outside
  · rw [getMsbD_setBitAtIndexFromMsb bound inside, if_neg (by omega)]
    exact clear j (by omega)
  · exact BitVec.getMsbD_of_ge _ _ outside

/-- The encoding loop sets, from index `iter` on, the bits of the pointers of the decoded layout. -/
theorem getMsbD_getLayoutBitsFrom {format : List Char} (letters : Expanded format) {layoutBits : Word}
    {iter : ℕ} (room : iter + requiredBits format ≤ 64)
    (clear : ∀ j, iter ≤ j → layoutBits.getMsbD j = false) {j : ℕ} (bound : j < 64) :
    (getLayoutBitsFrom layoutBits iter format).getMsbD j = true ↔
      layoutBits.getMsbD j = true ∨ iter ≤ j ∧ IsPointerAt (decodedLayout format) (j - iter) := by
  induction format generalizing layoutBits iter with
  | nil => simp [getLayoutBitsFrom, decodedLayout, IsPointerAt]
  | cons c rest ih =>
    have lettersRest : Expanded rest := fun x member => letters x (List.mem_cons_of_mem _ member)
    have letter := letters c List.mem_cons_self
    have unfolded : decodedLayout (c :: rest) = decodedLetters c ++ decodedLayout rest := by
      rw [decodedLayout, List.flatMap_cons, ← decodedLayout]
    rw [requiredBits] at room
    rw [unfolded, getLayoutBitsFrom]
    split
    · next pointer =>
      subst pointer
      change iter + (2 + _) ≤ 64 at room
      have next : ∀ j, iter + 1 ≤ j →
          (setBitAtIndexFromMsb layoutBits iter true).getMsbD j = false := by
        intro j later
        apply getMsbD_setBitAtIndexFromMsb_later _ clear later
        omega
      rw [ih lettersRest (by omega) next, getMsbD_setBitAtIndexFromMsb (by omega) bound]
      have shape : decodedLetters '*' ++ decodedLayout rest = '*' :: decodedLayout rest := rfl
      rw [shape]
      by_cases here : j = iter
      · simp [here, IsPointerAt]
      · rw [if_neg here]
        apply or_congr_right
        by_cases later : iter + 1 ≤ j
        · have shift : j - iter = j - (iter + 1) + 1 := by omega
          simp only [IsPointerAt, shift, List.getElem?_cons_succ, later, true_and]
          exact ⟨fun found => ⟨by omega, found⟩, And.right⟩
        · constructor <;> rintro ⟨_, _⟩ <;> omega
    · next plain =>
      have unit := interpretedSize_pos letter
      have same : ∀ j < 64, (setBitAtIndexFromMsb layoutBits iter false).getMsbD j =
          layoutBits.getMsbD j := by
        intro j inside
        rw [getMsbD_setBitAtIndexFromMsb (by omega) inside]
        split
        · next here => rw [here, clear iter le_rfl]
        · rfl
      have next : ∀ j, iter + interpretedSize c ≤ j →
          (setBitAtIndexFromMsb layoutBits iter false).getMsbD j = false := by
        intro j later
        apply getMsbD_setBitAtIndexFromMsb_later (by omega) clear
        omega
      rw [ih lettersRest (by omega) next, same j bound, decodedLetters, if_neg plain,
        isPointerAt_replicate_append]
      apply or_congr_right
      rw [Nat.sub_add_eq]
      constructor
      · rintro ⟨_, found⟩
        exact ⟨by omega, by omega, found⟩
      · rintro ⟨_, _, found⟩
        exact ⟨by omega, found⟩

/-- The layout bits of an accepted format. -/
theorem getMsbD_getLayoutBits {format : List Char} (letters : Expanded format)
    (enough : requiredBits format ≤ 54) {j : ℕ} (bound : j < 64) :
    (getLayoutBits format).getMsbD j = true ↔ IsPointerAt (decodedLayout format) j := by
  rw [getLayoutBits, getMsbD_getLayoutBitsFrom letters (by omega) (by simp) bound]
  simp

/-- No layout bit lies beyond the 54 of the field. -/
theorem getLsbD_getLayoutBits_low {format : List Char} (letters : Expanded format)
    (enough : requiredBits format ≤ 54) {k : ℕ} (low : k < 10) :
    (getLayoutBits format).getLsbD k = false := by
  by_contra set
  have bit : (getLayoutBits format).getMsbD (63 - k) = true := by
    rw [BitVec.getMsbD_eq_getLsbD, show 64 - 1 - (63 - k) = k by omega,
      decide_eq_true (show 63 - k < 64 by omega), Bool.true_and]
    simpa using set
  have pointer := (getMsbD_getLayoutBits letters enough (by omega)).mp bit
  have inside : 63 - k < (decodedLayout format).length := (List.getElem?_eq_some_iff.mp pointer).1
  have short := (plain_decodedLayout format).length_le
  rw [requiredBits_decodedLayout] at short
  omega

/-- The word that `to_bit_vector` builds, bit by bit from the least significant one. -/
theorem getLsbD_toBitVector {format : List Char} {bits : Word} (encoded : toBitVector format = some bits)
    (k : ℕ) : bits.getLsbD k = (decide (k < 2) || (getLayoutBits format).getLsbD (k + 8) ||
      (decide (56 ≤ k ∧ k < 64) && (BitVec.ofNat 64 (formatStrBytes format)).getLsbD (k - 56))) := by
  unfold toBitVector at encoded
  split at encoded
  · obtain rfl := Option.some.inj encoded
    simp only [getLsbD_setBitAtIndexFromLsb (show 0 < 64 by omega),
      getLsbD_setBitAtIndexFromLsb (show 1 < 64 by omega), BitVec.getLsbD_or,
      BitVec.getLsbD_ushiftRight, BitVec.getLsbD_shiftLeft, Nat.add_comm 8 k]
    by_cases one : k = 1
    · simp [one]
    · by_cases zero : k = 0
      · simp [zero]
      · rw [if_neg one, if_neg zero, decide_eq_false (show ¬ k < 2 by omega)]
        by_cases high : 56 ≤ k
        · simp [high, Nat.not_lt.mpr high]
        · simp [high, Nat.lt_of_not_le high]
  · cases encoded

theorem getLsbD_maskFromLsb_two (source : Word) (k : ℕ) :
    (maskFromLsb source 2).getLsbD k = (decide (2 ≤ k) && source.getLsbD k) := by
  have mask : maskFromLsb source 2 = source &&& ~~~(BitVec.ofNat 64 (2 ^ 2 - 1)) := rfl
  by_cases inside : k < 64
  · rw [mask, BitVec.getLsbD_and, BitVec.getLsbD_not, BitVec.getLsbD_ofNat, Nat.testBit_two_pow_sub_one]
    by_cases low : k < 2 <;> simp [inside, low]
    omega
  · rw [BitVec.getLsbD_of_ge _ _ (by omega), BitVec.getLsbD_of_ge _ _ (by omega), Bool.and_false]

section Encoded

variable {format : List Char} {bits : Word}

/-- The size field of an encoded layout is its size in bytes. -/
theorem getSizeBitsField_toBitVector (encoded : toBitVector format = some bits) :
    getSizeBitsField bits = BitVec.ofNat 64 (formatStrBytes format) := by
  obtain ⟨small, _⟩ := formatStrBytes_of_toBitVector encoded
  apply BitVec.eq_of_getLsbD_eq
  intro k bound
  rw [getSizeBitsField, BitVec.getLsbD_ushiftRight, getLsbD_toBitVector encoded,
    decide_eq_false (show ¬ 56 + k < 2 by omega), BitVec.getLsbD_of_ge _ (56 + k + 8) (by omega),
    Nat.add_sub_cancel_left]
  by_cases low : k < 8
  · simp
    omega
  · have zero : (BitVec.ofNat 64 (formatStrBytes format)).getLsbD k = false := by
      rw [BitVec.getLsbD_ofNat, Nat.testBit_lt_two_pow, Bool.and_false]
      calc formatStrBytes format < 2 ^ 8 := by omega
        _ ≤ 2 ^ k := Nat.pow_le_pow_right (by omega) (by omega)
    simp [zero]

theorem toNat_getSizeBitsField_toBitVector (encoded : toBitVector format = some bits) :
    (getSizeBitsField bits).toNat = formatStrBytes format := by
  obtain ⟨small, _⟩ := formatStrBytes_of_toBitVector encoded
  rw [getSizeBitsField_toBitVector encoded, BitVec.toNat_ofNat, Nat.mod_eq_of_lt (by omega)]

theorem requiredBits_le_of_toBitVector (encoded : toBitVector format = some bits) :
    requiredBits format ≤ 54 := by
  have enough := enoughBitsForLayout_of_toBitVector encoded
  simpa [enoughBitsForLayout, maxLayoutBits] using enough

theorem getLayoutBitsField_toBitVector (letters : Expanded format)
    (encoded : toBitVector format = some bits) : getLayoutBitsField bits = getLayoutBits format := by
  have enough := requiredBits_le_of_toBitVector encoded
  apply BitVec.eq_of_getLsbD_eq
  intro k bound
  rw [getLayoutBitsField, BitVec.getLsbD_shiftLeft, getLsbD_maskFromLsb_two,
    getLsbD_toBitVector encoded]
  by_cases low : k < 10
  · rw [getLsbD_getLayoutBits_low letters enough low, decide_eq_false (show ¬ 2 ≤ k - 8 by omega)]
    simp
  · rw [decide_eq_true (show 2 ≤ k - 8 by omega), decide_eq_false (show ¬ k < 8 by omega),
      decide_eq_false (show ¬ k - 8 < 2 by omega),
      decide_eq_false (show ¬ (56 ≤ k - 8 ∧ k - 8 < 64) by omega), decide_eq_true bound,
      show k - 8 + 8 = k by omega]
    simp

/-- The low two bits of an encoded layout say that it is one. -/
theorem getHeaderType_toBitVector (encoded : toBitVector format = some bits) :
    getHeaderType bits = .bitVector := by
  have masked : maskFromMsb bits 62 = 3 := by
    have mask : maskFromMsb bits 62 = bits &&& BitVec.ofNat 64 (2 ^ 2 - 1) := rfl
    have three : (3 : Word) = BitVec.ofNat 64 (2 ^ 2 - 1) := rfl
    apply BitVec.eq_of_getLsbD_eq
    intro k bound
    have low : (BitVec.ofNat 64 (2 ^ 2 - 1)).getLsbD k = decide (k < 2) := by
      rw [BitVec.getLsbD_ofNat, Nat.testBit_two_pow_sub_one, decide_eq_true bound, Bool.true_and]
    rw [mask, three, BitVec.getLsbD_and, low, getLsbD_toBitVector encoded]
    by_cases typed : k < 2 <;> simp [typed]
  simp [getHeaderType, masked]

/-- The decoding loop writes the decoded layout, whatever it starts from. -/
theorem bufferWrites_eq {layoutBits : Word} {rest : List Char} {size i accumulated remaining : ℕ}
    (plain : Plain rest) (nonempty : rest ≠ []) (total : accumulated + formatStrBytes rest = size)
    (enough : rest.length ≤ remaining) (bound : i + rest.length ≤ 64)
    (agree : ∀ j < rest.length, layoutBits.getMsbD (i + j) = true ↔ IsPointerAt rest j) :
    bufferWrites layoutBits size i accumulated remaining = rest := by
  induction rest generalizing i accumulated remaining with
  | nil => exact (nonempty rfl).elim
  | cons c rest ih =>
    obtain ⟨remaining, rfl⟩ : ∃ fewer, remaining = fewer + 1 :=
      ⟨remaining - 1, by simp only [List.length_cons] at enough; omega⟩
    simp only [List.length_cons] at enough bound agree
    have bit : getBitAtIndexFromMsb layoutBits i ≠ 0 ↔ c = '*' := by
      rw [getBitAtIndexFromMsb_ne_zero (by omega)]
      simpa [IsPointerAt] using agree 0 (by omega)
    have letter : (if getBitAtIndexFromMsb layoutBits i ≠ 0 then '*' else 'i') = c := by
      rcases plain c List.mem_cons_self with rfl | rfl
      · exact if_pos (bit.mpr rfl)
      · exact if_neg fun set => absurd (bit.mp set) (by decide)
    have units : (if getBitAtIndexFromMsb layoutBits i ≠ 0 then pointerInterpretedSize * 4
        else charInterpretedSize * 4) = interpretedSize c * 4 := by
      rcases plain c List.mem_cons_self with rfl | rfl
      · exact if_pos (bit.mpr rfl)
      · exact if_neg fun set => absurd (bit.mp set) (by decide)
    rw [formatStrBytes] at total
    simp only [bufferWrites, letter, units]
    have plainRest : Plain rest := fun x member => plain x (List.mem_cons_of_mem _ member)
    cases rest with
    | nil =>
      rw [if_pos (by simp only [formatStrBytes] at total; omega)]
    | cons next rest =>
      have more : 0 < formatStrBytes (next :: rest) := by
        have shorter := plainRest.length_le
        rw [formatStrBytes_eq]
        simp only [List.length_cons] at shorter
        omega
      rw [if_neg (by omega), ih plainRest (by simp) (by omega) (by omega) (by omega)]
      intro j inside
      have later := agree (j + 1) (by omega)
      rw [← Nat.add_assoc, Nat.add_right_comm] at later
      exact later

theorem bufferWrites_plain (layoutBits : Word) (size i accumulated remaining : ℕ) :
    Plain (bufferWrites layoutBits size i accumulated remaining) ∧
      (bufferWrites layoutBits size i accumulated remaining).length ≤ remaining := by
  induction remaining generalizing i accumulated with
  | zero => exact ⟨by simp [bufferWrites, Plain], le_rfl⟩
  | succ remaining ih =>
    have letter : (if getBitAtIndexFromMsb layoutBits i ≠ 0 then '*' else 'i') = '*' ∨
        (if getBitAtIndexFromMsb layoutBits i ≠ 0 then '*' else 'i') = 'i' := by
      split
      · exact .inl rfl
      · exact .inr rfl
    simp only [bufferWrites]
    generalize (if getBitAtIndexFromMsb layoutBits i ≠ 0 then '*' else 'i') = c at letter ⊢
    generalize (accumulated + if getBitAtIndexFromMsb layoutBits i ≠ 0 then _ else _) = total
    obtain ⟨plain, short⟩ := ih (i + 1) total
    by_cases done : size ≤ total
    · rw [if_pos done]
      exact ⟨fun x member => List.mem_singleton.mp member ▸ letter, by simp⟩
    · rw [if_neg done]
      refine ⟨fun x member => ?_, by simpa using short⟩
      rcases List.mem_cons.mp member with rfl | member
      · exact letter
      · exact plain x member

/-- Whatever the word, a successful decoding returns the letters that its loop wrote. -/
theorem bitVectorToFormatString_ok (ok : bitVectorToFormatString bits = .ok (some format)) :
    format = layoutWrites bits ∧ Plain format ∧ createFormatStr format = .ok (some format) ∧
      format.length ≤ (getSizeBitsField bits).toNat / 4 := by
  obtain ⟨plain, short⟩ := bufferWrites_plain (getLayoutBitsField bits) (getSizeBitsField bits).toNat
    0 0 54
  rw [← layoutWrites] at plain short
  rw [bitVectorToFormatString] at ok
  by_cases room : (layoutWrites bits).length ≤ (getSizeBitsField bits).toNat / 4
  · rw [if_pos room] at ok
    have same := createFormatStr_of_expanded plain.expanded (by omega)
    rw [same, Except.ok.injEq, Option.some.injEq] at ok
    subst ok
    exact ⟨rfl, plain, same, room⟩
  · rw [if_neg room] at ok
    cases ok

/-- Decoding an encoded layout writes its decoded form. -/
theorem layoutWrites_toBitVector (letters : Expanded format) (nonempty : format ≠ [])
    (encoded : toBitVector format = some bits) : layoutWrites bits = decodedLayout format := by
  have enough := requiredBits_le_of_toBitVector encoded
  have plain := plain_decodedLayout format
  have short := plain.length_le
  rw [requiredBits_decodedLayout] at short
  rw [layoutWrites, getLayoutBitsField_toBitVector letters encoded,
    toNat_getSizeBitsField_toBitVector encoded]
  apply bufferWrites_eq plain ?_ ?_ (by omega) (by omega) ?_
  · intro empty
    have units := requiredBits_decodedLayout format
    rw [empty] at units
    cases format with
    | nil => exact nonempty rfl
    | cons c rest =>
      have unit := interpretedSize_pos (letters c List.mem_cons_self)
      simp only [requiredBits] at units
      omega
  · rw [Nat.zero_add, formatStrBytes_decodedLayout]
  · intro j inside
    rw [Nat.zero_add]
    exact getMsbD_getLayoutBits letters enough (by omega)

/-- The buffer has room for every letter that the decoder writes. -/
theorem length_layoutWrites_le (letters : Expanded format) (nonempty : format ≠ [])
    (encoded : toBitVector format = some bits) :
    (layoutWrites bits).length ≤ (getSizeBitsField bits).toNat / 4 := by
  have short := (plain_decodedLayout format).length_le
  rw [requiredBits_decodedLayout] at short
  rw [layoutWrites_toBitVector letters nonempty encoded, toNat_getSizeBitsField_toBitVector encoded,
    formatStrBytes_eq]
  omega

theorem bitVectorToFormatString_of_toBitVector (letters : Expanded format) (nonempty : format ≠ [])
    (encoded : toBitVector format = some bits) :
    bitVectorToFormatString bits = .ok (some (decodedLayout format)) := by
  have room := length_layoutWrites_le letters nonempty encoded
  have plain := plain_decodedLayout format
  have short := plain.length_le
  rw [requiredBits_decodedLayout] at short
  have enough := requiredBits_le_of_toBitVector encoded
  rw [bitVectorToFormatString]
  rw [if_pos room, layoutWrites_toBitVector letters nonempty encoded]
  exact createFormatStr_of_expanded plain.expanded (by omega)

/-- A layout and its decoded form have the same header word. -/
theorem toBitVector_decodedLayout (letters : Expanded format)
    (encoded : toBitVector format = some bits) : toBitVector (decodedLayout format) = some bits := by
  have enough := requiredBits_le_of_toBitVector encoded
  have plain := plain_decodedLayout format
  have sameBits : getLayoutBits (decodedLayout format) = getLayoutBits format := by
    apply BitVec.eq_of_getMsbD_eq
    intro j bound
    rw [Bool.eq_iff_iff, getMsbD_getLayoutBits letters enough bound,
      getMsbD_getLayoutBits plain.expanded (by rwa [requiredBits_decodedLayout]) bound,
      decodedLayout_of_plain plain]
  have sameEnough : enoughBitsForLayout (decodedLayout format) = enoughBitsForLayout format := by
    rw [enoughBitsForLayout, requiredBits_decodedLayout, ← enoughBitsForLayout]
  rw [← encoded]
  unfold toBitVector
  rw [sameEnough, sameBits, formatStrBytes_decodedLayout]

end Encoded

end GarbageCollector.Proofs
