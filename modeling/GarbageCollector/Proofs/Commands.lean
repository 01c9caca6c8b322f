import GarbageCollector.Model.Command
import GarbageCollector.Proofs.Input
import Mathlib.Data.Nat.Digits.Lemmas

/-! # Commands in the input

One round of `event_loop` on what a user types for a command has the effect of the command and reads no
further. In the other direction, whatever the input is, a round that returns has had the effect of some
command, or found the end of the input.
-/

namespace GarbageCollector.Proofs

open Model

variable {full : ℕ → ℕ → Bool} {p p' : Program} {input rest : Input} {text : CString} {name : Name}
  {number : Number} {command : Command} {answers : List Bool} {names : List CString}

/-- A short line is read as a whole. -/
theorem line_of_inputLine (short : text.chars.length < 255) (oneLine : newline ∉ text.chars) :
    lineOf (inputLine text.chars ++ rest) = text ∧ remaining 255 (inputLine text.chars ++ rest) = rest := by
  have whole : taken 255 (inputLine text.chars ++ rest) = text.chars := by
    have passed : ∀ char ∈ text.chars, decide (char ≠ newline) = true := by
      intro char member
      apply decide_eq_true
      rintro rfl
      exact oneLine member
    rw [taken, inputLine, List.append_assoc, List.takeWhile_append_of_pos passed]
    simp [List.take_of_length_le (show text.chars.length ≤ 254 by omega)]
  rw [lineOf, remaining, whole, upTo_chars]
  refine ⟨rfl, ?_⟩
  rw [inputLine, List.append_assoc, List.singleton_append, ← List.drop_drop, List.drop_left, List.drop_one,
    List.tail_cons]

/-- The first line of a typed answer. -/
theorem lines_of_inputLine (short : text.chars.length < 255) (oneLine : newline ∉ text.chars) :
    lines (inputLine text.chars ++ rest) = (text, rest) :: lines rest := by
  obtain ⟨line, left⟩ := @line_of_inputLine rest text short oneLine
  rw [lines_of_ne (by simp [inputLine]), line, left]

theorem isDigitByte_digits (number : Number) : ∀ digit ∈ number.digits, isDigitByte digit = true := by
  intro digit member
  rw [Number.digits] at member
  split at member
  · rw [List.mem_singleton.mp member]
    rfl
  · obtain ⟨value, inside, rfl⟩ := List.mem_map.mp member
    have small : value < 10 := Nat.digits_lt_base (by decide) (List.mem_reverse.mp inside)
    interval_cases value <;> rfl

theorem digits_bounds (number : Number) : number.digits ≠ [] ∧ number.digits.length < 255 := by
  rw [Number.digits]
  split
  · exact ⟨by decide, by decide⟩
  · next positive =>
    have short : (Nat.digits 10 number.value).length ≤ 10 := by
      rw [Nat.digits_length_le_iff (by decide)]
      exact number.small.trans (by decide)
    rw [List.length_map, List.length_reverse, ne_eq, List.map_eq_nil_iff, List.reverse_eq_nil_iff,
      Nat.digits_eq_nil_iff_eq_zero]
    exact ⟨positive, by omega⟩

/-- Decimal digits, the lowest last, denote the number that they are the digits of. -/
theorem foldl_digits {digits : List ℕ} (small : ∀ digit ∈ digits, digit < 10) :
    (digits.reverse.map fun digit => BitVec.ofNat 8 (48 + digit)).foldl
      (fun (value : ℤ) (char : BitVec 8) => 10 * value + (char.toNat - 48 : ℕ)) 0 =
        (Nat.ofDigits 10 digits : ℕ) := by
  induction digits with
  | nil => rfl
  | cons digit digits ih =>
    have here : digit < 10 := small digit List.mem_cons_self
    have byte : (BitVec.ofNat 8 (48 + digit)).toNat - 48 = digit := by
      rw [BitVec.toNat_ofNat]
      omega
    rw [List.reverse_cons, List.map_append, List.foldl_append,
      ih fun digit member => small digit (List.mem_cons_of_mem _ member)]
    simp only [List.map_cons, List.map_nil, List.foldl_cons, List.foldl_nil, byte]
    rw [Nat.ofDigits_cons]
    push_cast
    ring

theorem decimal_digits (number : Number) : decimal number.digits = number.value := by
  rw [decimal, List.takeWhile_eq_self_iff.mpr (isDigitByte_digits number), Number.digits]
  split
  · next zero => rw [zero]; rfl
  · rw [foldl_digits fun digit member => Nat.digits_lt_base (by decide) member, Nat.ofDigits_digits]

/-- The digits as a string. -/
def digitString (number : Number) : CString :=
  ⟨number.digits, fun member => absurd (isDigitByte_digits number 0 member) (by decide)⟩

theorem newline_not_mem_digits : newline ∉ number.digits := fun member =>
  absurd (isDigitByte_digits number newline member) (by decide)

theorem isNumber_digitString : isNumber (digitString number) = true := by
  have digits := isDigitByte_digits number
  have some := (digits_bounds number).1
  rw [isNumber, digitString]
  dsimp only
  cases text : number.digits with
  | nil => exact absurd text some
  | cons first tail =>
    rw [text] at digits
    simp only [digits first List.mem_cons_self, Bool.or_true, Bool.true_and, List.all_eq_true]
    exact fun digit member => digits digit (List.mem_cons_of_mem _ member)

theorem atoi_digitString : atoi (digitString number) = .ok number.value := by
  have digits := isDigitByte_digits number
  have some := (digits_bounds number).1
  have denoted := decimal_digits number
  have small := number.small
  rw [atoi, digitString]
  dsimp only
  cases text : number.digits with
  | nil => exact absurd text some
  | cons first tail =>
    rw [text] at digits denoted
    have digit := digits first List.mem_cons_self
    have noSpace : isSpaceByte first = false := by
      rw [isDigitByte, Bool.and_eq_true, decide_eq_true_eq, decide_eq_true_eq] at digit
      simp only [isSpaceByte, Bool.or_eq_false_iff, decide_eq_false_iff_not, Bool.and_eq_false_iff]
      refine ⟨?_, .inr (by omega)⟩
      rintro rfl
      exact absurd digit.1 (by decide)
    have noMinus : first ≠ 45 := by
      rintro rfl
      exact absurd digit (by decide)
    have noPlus : first ≠ 43 := by
      rintro rfl
      exact absurd digit (by decide)
    rw [List.dropWhile_cons_of_neg (by simp [noSpace])]
    simp only [if_neg noMinus, if_neg noPlus]
    rw [denoted, checkedInt_ok (by omega) (by omega)]

/-- `ask_question_string` reads a typed name. -/
theorem askQuestionString_render : askQuestionString (name.render ++ rest) = .ok (name.text, rest) := by
  have accepted : notEmpty name.text = true := decide_eq_true (List.length_pos_iff.mpr name.nonempty)
  rw [askQuestionString, askQuestion_eq, Name.render, lines_of_inputLine name.short name.oneLine,
    List.find?_cons_of_pos (by exact accepted)]
  rfl

/-- `ask_question_int` reads a typed number. -/
theorem askQuestionInt_render : askQuestionInt (number.render ++ rest) = .ok (number.value, rest) := by
  have short : (digitString number).chars.length < 255 := (digits_bounds number).2
  have typed : lines (number.render ++ rest) = (digitString number, rest) :: lines rest :=
    lines_of_inputLine short newline_not_mem_digits
  have asked : askQuestion isNumber atoi (number.render ++ rest) = .ok ((number.value : ℤ), rest) := by
    rw [askQuestion_eq, typed, List.find?_cons_of_pos (by exact isNumber_digitString)]
    dsimp only
    rw [atoi_digitString]
    rfl
  have fits : checkedInt |(number.value : ℤ)| = .ok (number.value : ℤ) := by
    have small := number.small
    rw [Nat.abs_cast, checkedInt_ok (by omega) (by omega)]
  rw [askQuestionInt, asked]
  simp only [bind, Except.bind, absInt, fits]

theorem confirmation_eq (input : Input) :
    confirmation input = .ok (compareString yes (lineOf input), remaining 255 input) := by
  obtain ⟨buf, ran, _, _, read⟩ := @readLine_ok input localBuffer List.length_replicate
  simp only [confirmation, ran, bind, Except.bind, read]

/-- `confirmation` reads a typed answer. -/
theorem confirmation_render {answer : Bool} : confirmation (renderAnswer answer ++ rest) = .ok (answer, rest) := by
  rw [confirmation_eq, renderAnswer]
  cases answer with
  | true =>
    obtain ⟨line, left⟩ := @line_of_inputLine rest yes (by decide) (by decide)
    change Except.ok (compareString yes (lineOf (inputLine yes.chars ++ rest)),
      remaining 255 (inputLine yes.chars ++ rest)) = _
    rw [line, left]
    rfl
  | false =>
    obtain ⟨line, left⟩ := @line_of_inputLine rest ⟨[110], by decide⟩ (by decide) (by decide)
    rw [if_neg Bool.false_ne_true, line, left]
    rfl

theorem upTo_cons {char : BitVec 8} {tail : List (BitVec 8)} (some : char ≠ 0) :
    (CString.upTo (char :: tail)).chars = char :: (CString.upTo tail).chars := by
  dsimp only [CString.upTo]
  rw [List.takeWhile_cons, if_pos (decide_eq_true some)]

theorem toLowerByte_ne_zero {char : BitVec 8} (some : char ≠ 0) : toLowerByte char ≠ 0 := by
  rw [toLowerByte]
  split
  · next upper =>
    intro zero
    rw [Bool.and_eq_true, decide_eq_true_eq, decide_eq_true_eq] at upper
    have value := congrArg BitVec.toNat zero
    rw [BitVec.toNat_add] at value
    change (char.toNat + 32) % 256 = 0 at value
    omega
  · exact some

/-- The string with `tolower` of its first byte. -/
def lowered (text : CString) : CString where
  chars := text.chars.modifyHead toLowerByte
  terminated member := by
    cases chars : text.chars with
    | nil =>
      rw [chars] at member
      exact absurd member List.not_mem_nil
    | cons first tail =>
      have terminated := text.terminated
      rw [chars] at member terminated
      rw [List.mem_cons, not_or] at terminated
      rcases List.mem_cons.mp member with zero | later
      · exact toLowerByte_ne_zero (Ne.symm terminated.1) zero.symm
      · exact terminated.2 later

/-- One round of `ask_question_menu`. -/
theorem askMenuLoop_succ {buf : List (BitVec 8)} {fuel : ℕ} (ready : buf.length = 255) :
    ∃ buf', buf'.length = 255 ∧ askMenuLoop (fuel + 1) buf input =
      if (lineOf input).chars = [] then .ok (none, remaining 255 input)
      else if isChoice (lowered (lineOf input)) then .ok (some (lowered (lineOf input)), remaining 255 input)
      else askMenuLoop fuel buf' (remaining 255 input) := by
  obtain ⟨buf', ran, ready', shape, _⟩ := @readLine_ok input buf ready
  simp only [askMenuLoop, ran, bind, Except.bind]
  rw [lineOf]
  cases bytes : taken 255 input with
  | nil =>
    refine ⟨buf', ready', ?_⟩
    rw [bytes] at shape
    rw [shape]
    rfl
  | cons first tail =>
    rw [bytes] at shape
    have front : readBuffer buf' 0 = .ok first := by rw [shape]; rfl
    rw [front]
    dsimp only
    by_cases ended : first = 0
    · refine ⟨buf', ready', ?_⟩
      subst ended
      rw [if_pos rfl, if_pos]
      simp [CString.upTo]
    · have written : writeBuffer buf' 0 (toLowerByte first) =
          .ok (toLowerByte first :: tail ++ 0 :: buf.drop ((first :: tail).length + 1)) := by
        have here :=
          @writeBuffer_at [] (tail ++ 0 :: buf.drop ((first :: tail).length + 1)) (toLowerByte first) first
        rw [shape]
        exact here
      have low : CString.upTo (toLowerByte first :: tail) = lowered (CString.upTo (first :: tail)) := by
        have chars : (CString.upTo (toLowerByte first :: tail)).chars =
            (CString.upTo (first :: tail)).chars.modifyHead toLowerByte := by
          rw [upTo_cons ended, upTo_cons (toLowerByte_ne_zero ended)]
          rfl
        exact CString.mk.injEq .. ▸ chars
      rw [if_neg ended, written]
      dsimp only
      rw [bufferString, if_pos (List.mem_append_right _ List.mem_cons_self), upTo_append, low]
      dsimp only
      refine ⟨_, ?_, (if_neg (by rw [upTo_cons ended]; exact List.cons_ne_nil _ _)).symm⟩
      rw [shape] at ready'
      exact ready'

theorem choices_spec : ∀ letter ∈ choices, letter ≠ 0 ∧ letter ≠ newline ∧ toLowerByte letter = letter := by
  decide

theorem letter_mem (command : Command) : command.letter ∈ choices := by
  cases command <;> simp [Command.letter, choices]

/-- The letter as a string. -/
def letterString (command : Command) : CString :=
  ⟨[command.letter], fun member =>
    (choices_spec _ (letter_mem command)).1 (List.mem_singleton.mp member).symm⟩

/-- `ask_question_menu` reads a typed letter. -/
theorem askQuestionMenu_render :
    askQuestionMenu (inputLine [command.letter] ++ rest) = .ok (some (letterString command), rest) := by
  obtain ⟨_, oneLine, lower⟩ := choices_spec _ (letter_mem command)
  have ended : newline ∉ (letterString command).chars := fun member =>
    oneLine (List.mem_singleton.mp member).symm
  have short : (letterString command).chars.length < 255 := by
    change 1 < 255
    decide
  obtain ⟨line, left⟩ := @line_of_inputLine rest (letterString command) short ended
  obtain ⟨_, _, looped⟩ := @askMenuLoop_succ (inputLine (letterString command).chars ++ rest) localBuffer
    (inputLine (letterString command).chars ++ rest).length List.length_replicate
  have same : lowered (letterString command) = letterString command := by
    rw [CString.mk.injEq]
    exact congrArg (fun char => [char]) lower
  have chosen : isChoice (letterString command) = true := List.contains_iff_mem.mpr (letter_mem command)
  change askQuestionMenu (inputLine (letterString command).chars ++ rest) = _
  have nonempty : (letterString command).chars ≠ [] := List.cons_ne_nil _ _
  rw [askQuestionMenu, looped, line, left, same, if_neg nonempty, if_pos chosen]

/-- `ask_question_menu` finds a choice, which takes some input, or the end of the input. -/
theorem askMenuLoop_ok {buf : List (BitVec 8)} {fuel : ℕ} (ready : buf.length = 255)
    (enough : input.length < fuel) : ∃ choice rest, askMenuLoop fuel buf input = .ok (choice, rest) ∧
      rest.length ≤ input.length ∧ ∀ text ∈ choice, isChoice text = true ∧ rest.length < input.length := by
  induction fuel generalizing buf input with
  | zero => exact absurd enough (Nat.not_lt_zero _)
  | succ fuel ih =>
    obtain ⟨buf', ready', looped⟩ := @askMenuLoop_succ input buf fuel ready
    rw [looped]
    split
    · exact ⟨none, _, rfl, remaining_length_le, fun _ absent => absurd absent (Option.not_mem_none _)⟩
    · next some =>
      have more : input ≠ [] := by
        rintro rfl
        exact some rfl
      have shorter := @remaining_length_lt input 255 more
      split
      · next chosen =>
        refine ⟨_, _, rfl, shorter.le, ?_⟩
        rintro text same
        cases same
        exact ⟨chosen, shorter⟩
      · obtain ⟨choice, rest, ran, left, found⟩ := ih ready' (show (remaining 255 input).length < fuel by omega)
        refine ⟨choice, rest, ran, by omega, fun text same => ?_⟩
        obtain ⟨chosen, less⟩ := found text same
        exact ⟨chosen, by omega⟩

theorem exists_of_isChoice (chosen : isChoice text = true) : ∃ letter ∈ choices, text.chars = [letter] := by
  rw [isChoice] at chosen
  split at chosen
  · next letter only => exact ⟨letter, List.contains_iff_mem.mp chosen, only⟩
  · cases chosen

theorem checkedInt_error {value : ℤ} {fault : DemoFault} (failed : checkedInt value = .error fault) :
    fault = .signedOverflow := by
  rw [checkedInt] at failed
  split at failed
  · cases failed
  · cases failed
    rfl

theorem atoi_error {fault : DemoFault} (failed : atoi text = .error fault) : fault = .signedOverflow := by
  rw [atoi] at failed
  split at failed
  · cases failed
  · split at failed
    · exact checkedInt_error failed
    · split at failed <;> exact checkedInt_error failed

theorem absInt_cases (value : ℤ) : absInt value = .error .signedOverflow ∨
    ∃ number : Number, absInt value = .ok (number.value : ℤ) := by
  rw [absInt, checkedInt]
  split
  · next fits =>
    have same : |value| = (value.natAbs : ℤ) := Int.abs_eq_natAbs value
    refine .inr ⟨⟨value.natAbs, ?_⟩, by rw [same]⟩
    omega
  · exact .inl rfl

/-- `ask_question_string` gets a name, unless it asks for ever. -/
theorem askQuestionString_cases (input : Input) : askQuestionString input = .error .diverges ∨
    ∃ (name : Name) (rest : Input), askQuestionString input = .ok (name.text, rest) ∧
      rest.length ≤ input.length := by
  rw [askQuestionString, askQuestion_eq]
  cases found : (lines input).find? (fun line => notEmpty line.1) with
  | none => exact .inl rfl
  | some line =>
    obtain ⟨later, rfl, shorter⟩ := exists_of_mem_lines (List.mem_of_find?_eq_some found)
    have accepted : 0 < (lineOf later).chars.length := of_decide_eq_true (List.find?_some found :)
    obtain ⟨short, oneLine⟩ := @lineOf_spec later
    exact .inr ⟨⟨lineOf later, List.length_pos_iff.mp accepted, short, oneLine⟩, _, rfl,
      remaining_length_le.trans shorter⟩

/-- `ask_question_int` gets a number, unless it asks for ever or reads a number that is no `int`. -/
theorem askQuestionInt_cases (input : Input) : askQuestionInt input = .error .diverges ∨
    askQuestionInt input = .error .signedOverflow ∨ ∃ (number : Number) (rest : Input),
      askQuestionInt input = .ok ((number.value : ℤ), rest) ∧ rest.length ≤ input.length := by
  rw [askQuestionInt, askQuestion_eq]
  cases found : (lines input).find? (fun line => isNumber line.1) with
  | none => exact .inl rfl
  | some line =>
    obtain ⟨later, rfl, shorter⟩ := exists_of_mem_lines (List.mem_of_find?_eq_some found)
    dsimp only
    cases converted : atoi (lineOf later) with
    | error fault =>
      rw [atoi_error converted]
      exact .inr (.inl rfl)
    | ok value =>
      simp only [Except.map, bind, Except.bind]
      rcases absInt_cases value with overflow | ⟨number, result⟩
      · rw [overflow]
        exact .inr (.inl rfl)
      · rw [result]
        exact .inr (.inr ⟨number, _, rfl, remaining_length_le.trans shorter⟩)

end GarbageCollector.Proofs
