import GarbageCollector.Machine.Run
import GarbageCollector.Model.EventLoop

/-! # What the questions read

`read_string` cuts the input after each line, and a long line after as many bytes as its buffer holds: the
bytes up to there are the string, and the byte after them is lost. So the input is a list of strings, and
`ask_question` answers with the first string that its check accepts.
-/

namespace GarbageCollector.Proofs

open Model

/-- The bytes that `read_string` leaves before the terminator it writes. -/
def taken (bufSiz : ℕ) (input : Input) : List (BitVec 8) := (input.takeWhile (· ≠ newline)).take (bufSiz - 1)

/-- The input that `read_string` leaves. -/
def remaining (bufSiz : ℕ) (input : Input) : Input := input.drop ((taken bufSiz input).length + 1)

/-- The string that one question reads from the input. -/
def lineOf (input : Input) : CString := CString.upTo (taken 255 input)

variable {input rest : Input} {buf front tail : List (BitVec 8)} {bufSiz fuel : ℕ} {byte c : BitVec 8}
  {last length : ℤ} {check : CString → Bool} {text : CString}

theorem writeBuffer_at : writeBuffer (front ++ c :: tail) front.length byte = .ok (front ++ byte :: tail) := by
  have inside : (0 : ℤ) ≤ front.length ∧ (front.length : ℤ) < (front ++ c :: tail).length := by
    rw [List.length_append, List.length_cons]
    omega
  rw [writeBuffer, if_pos inside, Int.toNat_natCast, List.set_append_right _ _ (le_refl _), Nat.sub_self]
  rfl

/-- A full buffer ends the loop. -/
theorem readLoop_full (full : last < length) : readLoop last input buf length = .ok (length, buf, input) := by
  cases input with
  | nil => rw [readLoop, if_pos full]
  | cons c input => rw [readLoop, if_pos full]

/-- The loop stores a byte after the string, which is the end of the line or does not fit. -/
theorem readLoop_ok {left : ℕ} (positive : 0 < left) (room : left ≤ tail.length) :
    ∃ byte, readLoop ((front.length : ℤ) + left - 1) input (front ++ tail) front.length =
      .ok (front.length + (taken left input).length + 1,
        front ++ taken left input ++ byte :: tail.drop ((taken left input).length + 1), remaining left input) := by
  induction input generalizing front tail left with
  | nil =>
    obtain ⟨old, tail, rfl⟩ := List.exists_cons_of_length_pos (positive.trans_le room)
    refine ⟨0xFF, ?_⟩
    rw [readLoop, if_neg (by omega), writeBuffer_at]
    simp [taken, remaining, bind, Except.bind]
  | cons c input ih =>
    obtain ⟨old, tail, rfl⟩ := List.exists_cons_of_length_pos (positive.trans_le room)
    rw [readLoop, if_neg (by omega), writeBuffer_at]
    simp only [bind, Except.bind]
    by_cases ended : c = newline
    · refine ⟨c, ?_⟩
      rw [if_pos ended, ended]
      simp [taken, remaining]
    · rw [if_neg ended]
      obtain ⟨left, rfl⟩ : ∃ left', left = left' + 1 := ⟨left - 1, by omega⟩
      rcases Nat.eq_zero_or_pos left with rfl | more
      · refine ⟨c, ?_⟩
        rw [readLoop_full (by omega)]
        simp [taken, remaining]
      · rw [List.length_cons] at room
        obtain ⟨byte, looped⟩ := @ih (front ++ [c]) tail left more (by omega)
        have split : taken (left + 1) (c :: input) = c :: taken left input := by
          obtain ⟨left, rfl⟩ : ∃ left', left = left' + 1 := ⟨left - 1, by omega⟩
          rw [taken, taken, List.takeWhile_cons_of_pos (by simpa using ended), Nat.add_sub_cancel,
            Nat.add_sub_cancel, List.take_succ_cons]
        have bounds : (front.length : ℤ) + 1 + left - 1 = (front.length : ℤ) + (left + 1 : ℕ) - 1 := by omega
        simp only [List.length_append, List.length_singleton, Nat.cast_add, Nat.cast_one, List.append_assoc,
          List.singleton_append, bounds] at looped
        refine ⟨byte, ?_⟩
        rw [remaining, split]
        simp only [List.length_cons, List.drop_succ_cons, List.append_assoc, List.cons_append, Nat.cast_add,
          Nat.cast_one]
        rw [looped, remaining]
        congr 2
        omega

/-- `read_string` stays inside any buffer of at least the size that it is told. -/
theorem readString_ok (positive : 0 < bufSiz) (fits : bufSiz < 2 ^ 31) (room : bufSiz ≤ buf.length) :
    readString buf bufSiz input = .ok ((taken bufSiz input).length,
      taken bufSiz input ++ 0 :: buf.drop ((taken bufSiz input).length + 1), remaining bufSiz input) := by
  have started := @readLoop_ok input [] buf bufSiz positive room
  simp only [List.length_nil, List.nil_append, Nat.cast_zero, Int.zero_add] at started
  obtain ⟨byte, looped⟩ := started
  rw [readString, checkedInt_ok (by omega) (by omega)]
  simp only [bind, Except.bind, looped, Int.add_sub_cancel]
  rw [writeBuffer_at]

theorem remaining_length_le : (remaining bufSiz input).length ≤ input.length := by
  rw [remaining, List.length_drop]
  exact Nat.sub_le _ _

theorem remaining_length_lt (more : input ≠ []) : (remaining bufSiz input).length < input.length := by
  have positive := List.length_pos_iff.mpr more
  rw [remaining, List.length_drop]
  omega

theorem upTo_append (bytes : List (BitVec 8)) : CString.upTo (bytes ++ 0 :: rest) = CString.upTo bytes := by
  have same : (bytes ++ 0 :: rest).takeWhile (· ≠ 0) = bytes.takeWhile (· ≠ 0) := by
    induction bytes with
    | nil => rfl
    | cons first bytes ih =>
      rw [List.cons_append, List.takeWhile_cons, List.takeWhile_cons, ih]
  simp only [CString.upTo, same]

theorem upTo_chars (text : CString) : CString.upTo text.chars = text := by
  have whole : text.chars.takeWhile (· ≠ 0) = text.chars := by
    apply List.takeWhile_eq_self_iff.mpr
    intro char member
    apply decide_eq_true
    rintro rfl
    exact text.terminated member
  simp only [CString.upTo, whole]

/-- What a question reads is short and has no end of line. -/
theorem lineOf_spec : (lineOf input).chars.length < 255 ∧ newline ∉ (lineOf input).chars := by
  constructor
  · calc (lineOf input).chars.length
        ≤ (taken 255 input).length := (List.takeWhile_prefix _).length_le
      _ ≤ 254 := List.length_take_le _ _
      _ < 255 := by decide
  · intro member
    have inTaken : newline ∈ taken 255 input := (List.takeWhile_prefix _).subset member
    have inLine : newline ∈ input.takeWhile (· ≠ newline) := List.take_subset _ _ inTaken
    simpa using List.mem_takeWhile_imp inLine

/-- A question reads one string into its buffer. -/
theorem readLine_ok (ready : buf.length = 255) : ∃ buf', readString buf 255 input =
    .ok ((taken 255 input).length, buf', remaining 255 input) ∧ buf'.length = 255 ∧
      buf' = taken 255 input ++ 0 :: buf.drop ((taken 255 input).length + 1) ∧
      bufferString buf' = .ok (lineOf input) := by
  have short : (taken 255 input).length ≤ 254 := List.length_take_le _ _
  have ran := @readString_ok input buf 255 (by decide) (by decide) ready.ge
  refine ⟨_, ran, ?_, rfl, ?_⟩
  · rw [List.length_append, List.length_cons, List.length_drop, ready]
    omega
  · rw [bufferString, if_pos (List.mem_append_right _ List.mem_cons_self), upTo_append, lineOf]

/-- The strings that questions read from the input one after the other, each with the input it leaves; the
last of them is the empty string that is read at the end of the input. -/
def lines (input : Input) : List (CString × Input) :=
  (lineOf input, remaining 255 input) :: if input = [] then [] else lines (remaining 255 input)
termination_by input.length
decreasing_by exact remaining_length_lt ‹_›

theorem lines_nil : lines [] = [(⟨[], List.not_mem_nil⟩, [])] := by
  rw [lines]
  rfl

theorem lines_of_ne (more : input ≠ []) :
    lines input = (lineOf input, remaining 255 input) :: lines (remaining 255 input) := by
  rw [lines, if_neg more]

/-- Every line is read somewhere in the input. -/
theorem exists_of_mem_lines {line : CString × Input} (member : line ∈ lines input) :
    ∃ later, line = (lineOf later, remaining 255 later) ∧ later.length ≤ input.length := by
  induction input using lines.induct with
  | case1 input ih =>
    rcases eq_or_ne input [] with rfl | more
    · rw [lines_nil, List.mem_singleton] at member
      exact ⟨[], member, le_refl _⟩
    · rw [lines_of_ne more] at member
      rcases List.mem_cons.mp member with here | later
      · exact ⟨input, here, le_refl _⟩
      · obtain ⟨later, same, shorter⟩ := ih more later
        exact ⟨later, same, shorter.trans remaining_length_le⟩

/-- A question that accepts no line asks for ever. -/
theorem askLoop_diverges (ready : buf.length = 255) (refused : ∀ line ∈ lines input, check line.1 = false) :
    askLoop check fuel buf input = .error .diverges := by
  induction fuel generalizing buf input with
  | zero => rfl
  | succ fuel ih =>
    obtain ⟨buf', ran, ready', _, read⟩ := @readLine_ok input buf ready
    have here : check (lineOf input) = false := by
      apply refused (lineOf input, remaining 255 input)
      rw [lines]
      exact List.mem_cons_self
    simp only [askLoop, ran, bind, Except.bind, read, here, Bool.false_eq_true, if_false]
    apply ih ready'
    intro line member
    rcases eq_or_ne input [] with rfl | more
    · exact refused line member
    · apply refused line
      rw [lines_of_ne more]
      exact List.mem_cons_of_mem _ member

/-- A question answers with the first line that it accepts. -/
theorem askLoop_ok (ready : buf.length = 255) (enough : input.length < fuel) {line : CString × Input}
    (found : (lines input).find? (fun line => check line.1) = some line) :
    askLoop check fuel buf input = .ok line := by
  induction fuel generalizing buf input with
  | zero => exact absurd enough (Nat.not_lt_zero _)
  | succ fuel ih =>
    obtain ⟨buf', ran, ready', _, read⟩ := @readLine_ok input buf ready
    simp only [askLoop, ran, bind, Except.bind, read]
    rw [lines] at found
    cases accepted : check (lineOf input) with
    | true =>
      rw [List.find?_cons_of_pos (by exact accepted)] at found
      cases found
      exact if_pos rfl
    | false =>
      rw [List.find?_cons_of_neg (by simp [accepted])] at found
      split at found
      · cases found
      · next more =>
        have shorter := @remaining_length_lt input 255 more
        rw [if_neg Bool.false_ne_true]
        exact ih ready' (by omega) found

/-- `ask_question` converts the first line that its check accepts, and does not return if there is none. -/
theorem askQuestion_eq {α : Type} (check : CString → Bool) (convert : CString → Except DemoFault α)
    (input : Input) : askQuestion check convert input =
      match (lines input).find? (fun line => check line.1) with
      | none => .error .diverges
      | some (text, rest) => (convert text).map fun answer => (answer, rest) := by
  have ready : localBuffer.length = 255 := List.length_replicate
  rw [askQuestion]
  cases found : (lines input).find? (fun line => check line.1) with
  | none =>
    have refused : ∀ line ∈ lines input, check line.1 = false := by simpa using found
    rw [askLoop_diverges ready refused]
    rfl
  | some line =>
    rw [askLoop_ok ready (Nat.lt_succ_self _) found]
    simp only [bind, Except.bind]
    cases convert line.1 <;> rfl

end GarbageCollector.Proofs
