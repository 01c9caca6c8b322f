import GarbageCollector.Proofs.Commands

/-! # What the questions answer

`read_string` stays inside its buffer and loses one byte of the input, which is the end of the line unless
the line is too long. `ask_question_int` answers with the number that the first numeral among the lines
denotes, without its sign, and has no defined answer just when that is no `int`.
-/

namespace GarbageCollector.Soundness

open Model Proofs

variable {buf : List (BitVec 8)} {bufSiz : ℕ} {input : Input} {text : CString}

theorem taken_append (bufSiz : ℕ) (input : Input) :
    taken bufSiz input ++ input.drop (taken bufSiz input).length = input :=
  List.prefix_iff_eq_append.mp ((List.take_prefix _ _).trans (List.takeWhile_prefix _))

/-- The byte after what is read ends the line, or does not fit. -/
theorem lost_spec {lost : BitVec 8} {rest : Input} (behind : input.drop (taken bufSiz input).length = lost :: rest)
    (positive : 0 < bufSiz) : lost = newline ∨ (taken bufSiz input).length + 1 = bufSiz := by
  rw [or_iff_not_imp_right]
  intro fits
  have short : (input.takeWhile (· ≠ newline)).length ≤ bufSiz - 1 := by
    by_contra long
    rw [taken, List.length_take] at fits
    omega
  have whole : taken bufSiz input = input.takeWhile (· ≠ newline) := List.take_of_length_le short
  have left : input.dropWhile (· ≠ newline) = lost :: rest := by
    have parts := taken_append bufSiz input
    rw [behind, whole] at parts
    exact List.append_cancel_left (List.takeWhile_append_dropWhile.trans parts.symm)
  have stopped := List.head?_dropWhile_not (· ≠ newline) input
  rw [left] at stopped
  simpa using stopped

/-- `read_string` fills any buffer that is as large as it is told with a prefix of the line and a terminator,
leaves the rest of the buffer, and loses at most one byte: the end of the line, or one that does not fit. -/
theorem readString_cuts (positive : 0 < bufSiz) (fits : bufSiz < 2 ^ 31) (room : bufSiz ≤ buf.length)
    (input : Input) : ∃ (text : List (BitVec 8)) (lost : Option (BitVec 8)) (rest : Input),
      readString buf bufSiz input = .ok (text.length, text ++ 0 :: buf.drop (text.length + 1), rest) ∧
      input = text ++ lost.toList ++ rest ∧ newline ∉ text ∧ text.length < bufSiz ∧
      (lost = none → rest = []) ∧ (∀ byte ∈ lost, byte = newline ∨ text.length + 1 = bufSiz) := by
  have ran := @readString_ok input buf bufSiz positive fits room
  have front := taken_append bufSiz input
  have oneLine : newline ∉ taken bufSiz input := by
    intro member
    have inLine : newline ∈ input.takeWhile (· ≠ newline) := List.take_subset _ _ member
    simpa using List.mem_takeWhile_imp inLine
  have short : (taken bufSiz input).length < bufSiz := by
    have bounded : (taken bufSiz input).length ≤ bufSiz - 1 := List.length_take_le _ _
    omega
  have tail : remaining bufSiz input = (input.drop (taken bufSiz input).length).drop 1 := by
    rw [List.drop_drop, remaining]
  cases behind : input.drop (taken bufSiz input).length with
  | nil =>
    rw [behind] at front tail
    refine ⟨_, none, remaining bufSiz input, ran, ?_, oneLine, short, fun _ => tail, ?_⟩
    · rw [tail, Option.toList_none, List.drop_nil, List.append_nil, front]
    · exact fun byte absent => absurd absent (Option.not_mem_none _)
  | cons lost rest =>
    rw [behind] at front tail
    refine ⟨_, some lost, remaining bufSiz input, ran, ?_, oneLine, short,
      fun absent => absurd absent (Option.some_ne_none _), ?_⟩
    · rw [tail, List.append_assoc]
      exact front.symm
    · rintro byte same
      cases same
      exact lost_spec behind positive

/-- A full line is cut at a small buffer. -/
theorem readString_small : ∃ (text : List (BitVec 8)) (lost : Option (BitVec 8)) (rest : Input),
      readString [1, 2, 3, 4] (3 : ℕ) [97, 98, 99, newline, 100] =
        .ok (text.length, text ++ 0 :: [1, 2, 3, 4].drop (text.length + 1), rest) ∧
      [97, 98, 99, newline, 100] = text ++ lost.toList ++ rest ∧ newline ∉ text ∧ text.length < 3 ∧
      (lost = none → rest = []) ∧ (∀ byte ∈ lost, byte = newline ∨ text.length + 1 = 3) :=
  readString_cuts (by decide) (by decide) (by decide) _

/-- The number that the digits of a string denote, whatever else is in it. -/
def magnitude (text : CString) : ℕ :=
  Nat.ofDigits 10 ((text.chars.filter isDigitByte).reverse.map fun digit => digit.toNat - 48)

theorem foldl_decimal (chars : List (BitVec 8)) :
    chars.foldl (fun (value : ℤ) (char : BitVec 8) => 10 * value + (char.toNat - 48 : ℕ)) 0 =
      (Nat.ofDigits 10 (chars.reverse.map fun digit => digit.toNat - 48) : ℕ) := by
  induction chars using List.reverseRecOn with
  | nil => rfl
  | append_singleton chars char ih =>
    rw [List.foldl_append, ih, List.reverse_append, List.foldl_cons, List.foldl_nil]
    simp only [List.reverse_singleton, List.singleton_append, List.map_cons]
    rw [Nat.ofDigits_cons]
    push_cast
    ring

theorem decimal_of_digits {chars : List (BitVec 8)} (digits : ∀ char ∈ chars, isDigitByte char = true) :
    decimal chars =
      (Nat.ofDigits 10 ((chars.filter isDigitByte).reverse.map fun digit => digit.toNat - 48) : ℕ) := by
  rw [decimal, List.takeWhile_eq_self_iff.mpr digits, List.filter_eq_self.mpr digits, foldl_decimal]

/-- A digit is no space and no sign. -/
theorem digit_spec {char : BitVec 8} (digit : isDigitByte char = true) :
    isSpaceByte char = false ∧ char ≠ 45 ∧ char ≠ 43 := by
  rw [isDigitByte, Bool.and_eq_true, decide_eq_true_eq, decide_eq_true_eq] at digit
  refine ⟨?_, ?_, ?_⟩
  · simp only [isSpaceByte, Bool.or_eq_false_iff, decide_eq_false_iff_not, Bool.and_eq_false_iff]
    refine ⟨?_, .inr (by omega)⟩
    rintro rfl
    exact absurd digit.1 (by decide)
  · rintro rfl
    exact absurd digit.1 (by decide)
  · rintro rfl
    exact absurd digit.1 (by decide)

/-- `atoi` reads a numeral with its sign. -/
theorem atoi_of_isNumber (numeral : isNumber text = true) :
    atoi text = checkedInt (magnitude text) ∨ atoi text = checkedInt (-magnitude text) := by
  rw [isNumber] at numeral
  split at numeral
  · cases numeral
  · next first tail chars =>
    rw [Bool.and_eq_true, List.all_eq_true] at numeral
    obtain ⟨front, digits⟩ := numeral
    rw [Bool.or_eq_true, Bool.and_eq_true, decide_eq_true_eq] at front
    rw [atoi, magnitude, chars]
    rcases front with ⟨rfl, _⟩ | digit
    · refine .inr ?_
      rw [List.dropWhile_cons_of_neg (by decide), List.filter_cons_of_neg (by decide), ← decimal_of_digits digits]
      rfl
    · refine .inl ?_
      obtain ⟨noSpace, noMinus, noPlus⟩ := digit_spec digit
      have all : ∀ char ∈ first :: tail, isDigitByte char = true := List.forall_mem_cons.mpr ⟨digit, digits⟩
      rw [List.dropWhile_cons_of_neg (by simp [noSpace]), ← decimal_of_digits all]
      simp only [if_neg noMinus, if_neg noPlus]

/-- `abs` of what `atoi` reads is the number without its sign, if that is an `int`. -/
theorem absInt_atoi (numeral : isNumber text = true) : (atoi text).bind absInt =
    if magnitude text < 2 ^ 31 then .ok (magnitude text : ℤ) else .error .signedOverflow := by
  have positive (value : ℕ) : absInt (value : ℤ) =
      if value < 2 ^ 31 then .ok (value : ℤ) else .error .signedOverflow := by
    rw [absInt, Nat.abs_cast, checkedInt]
    split
    · next fits => rw [if_pos (by omega)]
    · next big => rw [if_neg (by omega)]
  rcases atoi_of_isNumber numeral with same | same
  · rw [same, checkedInt]
    split
    · exact positive _
    · next big =>
      rw [if_neg (by omega)]
      rfl
  · rw [same, checkedInt]
    split
    · rw [Except.bind, absInt, abs_neg]
      exact positive _
    · next big =>
      rw [if_neg (by omega)]
      rfl

/-- `ask_question_int` answers with the first numeral among the lines, without its sign; it asks for ever if
there is none, and its answer is not defined if that is no `int`. -/
theorem askQuestionInt_numeral (input : Input) : askQuestionInt input =
    match (lines input).find? (fun line => isNumber line.1) with
    | none => .error .diverges
    | some (text, rest) =>
      if magnitude text < 2 ^ 31 then .ok ((magnitude text : ℤ), rest) else .error .signedOverflow := by
  rw [askQuestionInt, askQuestion_eq]
  cases found : (lines input).find? (fun line => isNumber line.1) with
  | none => rfl
  | some line =>
    have answer := absInt_atoi (List.find?_some found :)
    dsimp only
    cases converted : atoi line.1 with
    | error fault =>
      rw [converted] at answer
      split at answer
      · cases answer
      · next big =>
        rw [if_neg big]
        exact congrArg _ (Except.error.inj answer)
    | ok value =>
      rw [converted] at answer
      change absInt value = _ at answer
      change (do
        let number ← absInt value
        .ok (number, line.2)) = _
      rw [answer]
      split <;> rfl

end GarbageCollector.Soundness
