import GarbageCollector.Machine.Run
import GarbageCollector.Model.BitString

/-! # Words as bit strings and back

`bits_to_bitstring` fills its block with the digits of a word in eight groups, and `bitstring_to_bits` reads the
word from them, however the digits are spaced. Both are loops over a list of digits, so the round trips
are those of a word and its 64 digits.
-/

namespace GarbageCollector.Soundness

open Model

variable {bits : Word} {block : CharBlock} {written str digits : List Char} {c : Char} {i count index : ℕ}

section Blocks

/-- A block whose first bytes are written. -/
def filled (written : List Char) (left : ℕ) : CharBlock := written.map some ++ List.replicate left none

theorem filled_zero (written : List Char) : filled written 0 = written.map some := List.append_nil _

/-- The byte behind the written ones is written. -/
theorem writeChar_filled (written : List Char) (left : ℕ) (c : Char) :
    writeChar (filled written (left + 1)) written.length c = .ok (filled (written ++ [c]) left) := by
  have inside : written.length < (filled written (left + 1)).length := by
    simp [filled]
  rw [writeChar, if_pos inside, filled, filled, List.replicate_succ, List.map_append, List.append_assoc]
  congr 1
  rw [List.set_append_right _ _ (by simp)]
  simp

theorem stringOf_filled (printable : terminator ∉ str) (left : ℕ) :
    stringOf (filled (str ++ [terminator]) left) = .ok str := by
  induction str with
  | nil => rfl
  | cons c rest ih =>
    obtain ⟨here, later⟩ := not_or.mp (mt List.mem_cons.mpr printable)
    have tail := ih later
    simp only [filled, List.cons_append, List.map_cons] at tail ⊢
    rw [stringOf, if_neg (Ne.symm here), tail]
    rfl

end Blocks

/-- What the loop of `bits_to_bitstring` prints for the lowest bits. -/
def printed (bits : Word) : ℕ → List Char
  | 0 => []
  | i + 1 => bitChar bits i :: if i % 8 = 0 ∧ i ≠ 0 then ' ' :: printed bits i else printed bits i

theorem length_printed (bits : Word) (count : ℕ) : (printed bits count).length = count + (count - 1) / 8 := by
  induction count with
  | zero => rfl
  | succ i ih =>
    rw [printed, List.length_cons]
    split
    · rw [List.length_cons, ih]
      omega
    · rw [ih]
      omega

/-- The loop of `bits_to_bitstring` writes what it prints behind what is written. -/
theorem printFrom_eq (bits : Word) (written : List Char) (left count : ℕ) :
    printFrom bits (filled written ((printed bits count).length + left)) written.length count =
      .ok (filled (written ++ printed bits count) left, (written ++ printed bits count).length) := by
  induction count generalizing written with
  | zero => simp [printFrom, printed]
  | succ i ih =>
    have next (c : Char) : written.length + 1 = (written ++ [c]).length := by simp
    rw [printFrom, printed]
    split
    · have room : (bitChar bits i :: ' ' :: printed bits i).length + left =
          (printed bits i).length + left + 1 + 1 := by
        simp only [List.length_cons]
        omega
      rw [room, writeChar_filled]
      simp only [bind, Except.bind]
      rw [next (bitChar bits i), writeChar_filled]
      have tail := ih (written ++ [bitChar bits i] ++ [' '])
      rw [List.length_append, List.length_singleton] at tail
      simpa using tail
    · have room : (bitChar bits i :: printed bits i).length + left = (printed bits i).length + left + 1 := by
        simp only [List.length_cons]
        omega
      rw [room, writeChar_filled]
      have tail := ih (written ++ [bitChar bits i])
      simpa [bind, Except.bind] using tail

/-- The block of `bits_to_bitstring` is filled up to its last byte, the terminator. -/
theorem bitsToBitstring_eq (bits : Word) :
    bitsToBitstring bits = .ok (filled (printed bits 64 ++ [terminator]) 0) := by
  have length : (printed bits 64).length = 71 := length_printed bits 64
  have ran := printFrom_eq bits [] 1 64
  rw [length] at ran
  rw [bitsToBitstring, show mallocChars 72 = filled [] (71 + 1) from rfl, show 0 = [].length from rfl, ran]
  exact writeChar_filled (printed bits 64) 0 terminator

/-- The digits of the lowest bits of a word, from the most significant of them on. -/
def digitsOf (bits : Word) : ℕ → List Char
  | 0 => []
  | i + 1 => bitChar bits i :: digitsOf bits i

/-- Eight groups of eight characters with a space between two. -/
def grouped (digits : List Char) : List Char :=
  List.intercalate [' '] ((List.range 8).map fun group => (digits.drop (8 * group)).take 8)

set_option maxRecDepth 4000 in
/-- The loop prints the digits in groups. -/
theorem printed_eq (bits : Word) : printed bits 64 = grouped (digitsOf bits 64) := rfl

theorem bitChar_eq (bits : Word) (i : ℕ) (inside : i < 64) :
    bitChar bits i = if bits.getLsbD i then '1' else '0' := by
  have bit : bits &&& (1#64 <<< i) ≠ 0 ↔ bits.getLsbD i = true := by
    rw [← BitVec.twoPow_eq, BitVec.and_twoPow]
    cases bits.getLsbD i with
    | true =>
      have nonzero : BitVec.twoPow 64 i ≠ 0 := fun zero => by
        have value := congrArg (fun word : Word => word.getLsbD i) zero
        simp [inside] at value
      simpa using nonzero
    | false => simp
  rw [bitChar]
  simp only [bit]

theorem length_digitsOf (bits : Word) (count : ℕ) : (digitsOf bits count).length = count := by
  induction count with
  | zero => rfl
  | succ i ih => rw [digitsOf, List.length_cons, ih]

theorem getElem?_digitsOf (bits : Word) {count : ℕ} (inside : i < count) :
    (digitsOf bits count)[i]? = some (bitChar bits (count - 1 - i)) := by
  induction count generalizing i with
  | zero => omega
  | succ count ih =>
    rw [digitsOf, Nat.add_sub_cancel]
    cases i with
    | zero => rfl
    | succ i =>
      rw [List.getElem?_cons_succ, ih (Nat.lt_of_succ_lt_succ inside)]
      congr 2
      omega

/-- The digits `0` and `1`. -/
def Binary (digits : List Char) : Prop := ∀ c ∈ digits, c = '0' ∨ c = '1'

theorem binary_bitChar (bits : Word) (i : ℕ) : bitChar bits i = '0' ∨ bitChar bits i = '1' := by
  rw [bitChar]
  split
  · exact .inr rfl
  · exact .inl rfl

theorem binary_digitsOf (bits : Word) (count : ℕ) : Binary (digitsOf bits count) := by
  induction count with
  | zero => exact fun c member => absurd member List.not_mem_nil
  | succ i ih =>
    intro c member
    rcases List.mem_cons.mp member with rfl | later
    · exact binary_bitChar bits i
    · exact ih c later

/-- The string has these digits, and whitespace anywhere between them. -/
inductive Spells : List Char → List Char → Prop
  | nil : Spells [] []
  | digit {c : Char} {str digits : List Char} : Spells str digits → Spells (c :: str) (c :: digits)
  | space {c : Char} {str digits : List Char} : isSpace c = true → Spells str digits → Spells (c :: str) digits

/-- The other characters of a spelling are its digits. -/
theorem Spells.filter_eq (spells : Spells str digits) (binary : Binary digits) :
    str.filter (!isSpace ·) = digits := by
  induction spells with
  | nil => rfl
  | @digit c str digits _ ih =>
    obtain ⟨here, later⟩ := List.forall_mem_cons.mp binary
    have plain : isSpace c = false := by
      rcases here with rfl | rfl <;> rfl
    rw [List.filter_cons_of_pos (by simp [plain]), ih later]
  | space blank _ ih => rw [List.filter_cons_of_neg (by simp [blank]), ih binary]

/-- What `bits_to_bitstring` prints spells the digits. -/
theorem spells_printed (bits : Word) (count : ℕ) : Spells (printed bits count) (digitsOf bits count) := by
  induction count with
  | zero => exact .nil
  | succ i ih =>
    rw [printed, digitsOf]
    split
    · exact .digit (.space rfl ih)
    · exact .digit ih

theorem Spells.mem (spells : Spells str digits) (member : c ∈ str) : c ∈ digits ∨ isSpace c = true := by
  induction spells with
  | nil => exact .inl member
  | digit _ ih =>
    rcases List.mem_cons.mp member with rfl | later
    · exact .inl List.mem_cons_self
    · exact (ih later).imp_left (List.mem_cons_of_mem _)
  | space blank _ ih =>
    rcases List.mem_cons.mp member with rfl | later
    · exact .inr blank
    · exact ih later

/-- The loop of `remove_all_spaces` writes the other characters. -/
theorem removeFrom_eq (written str : List Char) (left : ℕ) :
    removeFrom (filled written (str.length + left)) written.length str =
      .ok (filled (written ++ str.filter (!isSpace ·)) ((str.filter isSpace).length + left),
        (written ++ str.filter (!isSpace ·)).length) := by
  induction str generalizing written left with
  | nil => simp [removeFrom]
  | cons c rest ih =>
    have room : (c :: rest).length + left = rest.length + left + 1 := by
      simp only [List.length_cons]
      omega
    have next : written.length + 1 = (written ++ [c]).length := by simp
    rw [removeFrom]
    cases space : isSpace c with
    | true =>
      have tail := ih written (left + 1)
      rw [show rest.length + (left + 1) = rest.length + left + 1 by omega] at tail
      rw [if_neg (by simp), room, tail]
      simp [space, Nat.add_comm left, Nat.add_assoc]
    | false =>
      rw [if_pos (by simp), room, writeChar_filled, next]
      simp only [bind, Except.bind]
      rw [ih (written ++ [c]) left]
      simp [space]

/-- What `remove_all_spaces` returns starts with the other characters. -/
theorem removeAllSpaces_eq (str : List Char) : ∃ left,
    removeAllSpaces str = .ok (filled (str.filter (!isSpace ·) ++ [terminator]) left) := by
  refine ⟨(str.filter isSpace).length, ?_⟩
  rw [removeAllSpaces, show mallocChars (str.length + 1) = filled [] (str.length + 1) from rfl]
  have ran := removeFrom_eq [] str 1
  simp only [List.length_nil, List.nil_append] at ran
  rw [ran]
  exact writeChar_filled _ _ _

/-- A digit is shifted in. -/
def pushDigit (bits : Word) (c : Char) : Word := (bits <<< 1) ||| if c = '1' then 1 else 0

/-- The loop of `bitstring_to_bits` shifts the digits in. -/
theorem readFrom_eq (front digits back : List Char) (left : ℕ) (bits : Word) :
    readFrom (filled (front ++ digits ++ back) left) bits front.length digits.length =
      .ok (digits.foldl pushDigit bits) := by
  induction digits generalizing front bits with
  | nil => rfl
  | cons c rest ih =>
    have here : (filled (front ++ (c :: rest) ++ back) left)[front.length]? = some (some c) := by
      simp [filled]
    have tail := ih (front ++ [c]) (pushDigit bits c)
    rw [List.length_append, List.length_singleton, List.append_assoc front, List.singleton_append] at tail
    rw [List.length_cons, readFrom, readChar, here]
    exact tail

/-- The digits that were shifted in are the bits of the word. -/
theorem getLsbD_foldl_pushDigit (digits : List Char) (bits : Word) (inside : i < 64) :
    (digits.foldl pushDigit bits).getLsbD i =
      if i < digits.length then digits.reverse[i]? == some '1' else bits.getLsbD (i - digits.length) := by
  induction digits using List.reverseRecOn generalizing i with
  | nil => simp
  | append_singleton front c ih =>
    rw [List.foldl_append, List.foldl_cons, List.foldl_nil, pushDigit, BitVec.getLsbD_or,
      BitVec.getLsbD_shiftLeft, List.reverse_append, List.length_append, List.length_singleton]
    have pushed : (if c = '1' then (1 : Word) else 0).getLsbD i = (decide (i = 0) && c == '1') := by
      split
      · next one => simp [one, BitVec.getLsbD_one]
      · next other => simp [other]
    rw [pushed]
    cases i with
    | zero => simp
    | succ i =>
      rw [Nat.add_sub_cancel, ih (by omega)]
      simp [inside]

/-- A digit of the word that was read is that digit. -/
theorem digitsOf_foldl_pushDigit (count : digits.length = 64) (binary : Binary digits) :
    digitsOf (digits.foldl pushDigit 0) 64 = digits := by
  apply List.ext_getElem?
  intro i
  rcases Nat.lt_or_ge i 64 with inside | outside
  · have position : i < digits.length := count.symm ▸ inside
    have mirrored : digits.reverse[63 - i]? = some digits[i] := by
      rw [List.getElem?_reverse (by omega), List.getElem?_eq_getElem (by omega)]
      simp only [count, show 64 - 1 - (63 - i) = i by omega]
    have bit : (digits.foldl pushDigit 0).getLsbD (64 - 1 - i) = (some digits[i] == some '1') := by
      rw [getLsbD_foldl_pushDigit _ _ (by omega), if_pos (by omega), ← mirrored]
    rw [getElem?_digitsOf _ inside, bitChar_eq _ _ (by omega), bit, List.getElem?_eq_getElem position]
    rcases binary _ (List.getElem_mem position) with zero | one
    · rw [zero]
      rfl
    · rw [one]
      rfl
  · rw [List.getElem?_eq_none (by rw [length_digitsOf]; exact outside),
      List.getElem?_eq_none (count.symm ▸ outside)]

/-- Reading the digits of a word gives the word. -/
theorem foldl_pushDigit_digitsOf (bits : Word) : (digitsOf bits 64).foldl pushDigit 0 = bits := by
  apply BitVec.eq_of_getLsbD_eq
  intro i inside
  have length := length_digitsOf bits 64
  rw [getLsbD_foldl_pushDigit _ _ inside, length, if_pos inside, List.getElem?_reverse (by omega), length,
    getElem?_digitsOf _ (by omega), bitChar_eq _ _ (by omega), show 64 - 1 - (64 - 1 - i) = i by omega]
  cases bits.getLsbD i <;> rfl

/-- Every spelling of 64 digits is read as the word with these digits. -/
theorem bitstringToBits_eq (spells : Spells str digits) (count : digits.length = 64) (binary : Binary digits) :
    bitstringToBits str = .ok (digits.foldl pushDigit 0) := by
  obtain ⟨left, cleared⟩ := removeAllSpaces_eq str
  rw [spells.filter_eq binary] at cleared
  have ran := readFrom_eq [] digits [terminator] left 0
  rw [count] at ran
  rw [bitstringToBits, cleared]
  exact ran

/-- No character of what is printed ends the string. -/
theorem terminator_not_mem_printed (bits : Word) : terminator ∉ printed bits 64 := by
  intro member
  rcases (spells_printed bits 64).mem member with digit | space
  · rcases binary_digitsOf bits 64 _ digit with zero | one
    · exact absurd zero (by decide)
    · exact absurd one (by decide)
  · exact absurd space (by decide)

/-- `bits_to_bitstring` fills its 72 bytes with the grouped digits and a terminator, and `bitstring_to_bits`
reads the word back. -/
def PrintsDigits (bits : Word) : Prop := ∃ str digits, digits.length = 64 ∧ Binary digits ∧ str = grouped digits ∧
  terminator ∉ str ∧ bitsToBitstring bits = .ok ((str ++ [terminator]).map some) ∧ str.length + 1 = 72 ∧
  bitstringToBits str = .ok bits

/-- The word that `bitstring_to_bits` reads is printed as the grouped digits. -/
def PrintsAgain (str digits : List Char) : Prop := ∃ bits block, bitstringToBits str = .ok bits ∧
  bitsToBitstring bits = .ok block ∧ stringOf block = .ok (grouped digits)

/-- Words survive printing and reading, and spellings of 64 digits become the grouped digits by reading and
printing. -/
theorem bitStrings_roundTrip (bits : Word) (spells : Spells str digits) (count : digits.length = 64)
    (binary : Binary digits) : PrintsDigits bits ∧ PrintsAgain str digits := by
  constructor
  · have block := bitsToBitstring_eq bits
    rw [filled_zero] at block
    have length : (printed bits 64).length + 1 = 72 := congrArg (· + 1) (length_printed bits 64)
    have read := bitstringToBits_eq (spells_printed bits 64) (length_digitsOf bits 64) (binary_digitsOf bits 64)
    rw [foldl_pushDigit_digitsOf] at read
    exact ⟨printed bits 64, digitsOf bits 64, length_digitsOf bits 64, binary_digitsOf bits 64, printed_eq bits,
      terminator_not_mem_printed bits, block, length, read⟩
  · refine ⟨_, _, bitstringToBits_eq spells count binary, bitsToBitstring_eq _, ?_⟩
    rw [stringOf_filled (terminator_not_mem_printed _), printed_eq, digitsOf_foldl_pushDigit count binary]

/-- 64 digits behind a tab. -/
theorem bitStrings_roundTrip_tab : PrintsDigits 5 ∧
    PrintsAgain (Char.ofNat 9 :: List.replicate 64 '1') (List.replicate 64 '1') := by
  have digits (count : ℕ) : Spells (List.replicate count '1') (List.replicate count '1') := by
    induction count with
    | zero => exact .nil
    | succ count ih => exact .digit ih
  exact bitStrings_roundTrip 5 (.space rfl (digits 64)) List.length_replicate
    fun c member => .inr (List.eq_of_mem_replicate member)

end GarbageCollector.Soundness
