import GarbageCollector.Model.Common

/-! # Format strings

`trim_whitespace` of `utils.c` and the functions of `format_str.c`. A C string is the list of its
characters before the terminator. The two passes of `interpreted_format_str` are two recursions:
the first sizes the buffer, the second fills it. A repeat count is an `int` and wraps at 32 bits,
the sum of counts is a `size_t`; when the second pass would write past the buffer that the first
one sized, the execution faults.
-/

namespace GarbageCollector.Model

/-- `isspace` in the C locale. -/
def isSpace (c : Char) : Bool := c == ' ' || (9 ≤ c.toNat && c.toNat ≤ 13)

def isDigit (c : Char) : Bool := 48 ≤ c.toNat && c.toNat ≤ 57

/-- The six characters that `interpreted_format_str` accepts outside a repeat count. -/
def isTypeLetter (c : Char) : Bool :=
  c == 'i' || c == 'c' || c == 'd' || c == 'l' || c == '*' || c == 'f'

/-- A copy of the string without leading and trailing whitespace. -/
def trimWhitespace (str : List Char) : List Char :=
  ((str.dropWhile isSpace).reverse.dropWhile isSpace).reverse

/-- The digit loop that both passes share: the number read so far and what follows it. -/
def readRepeatCount (repeatCount : BitVec 32) : List Char → BitVec 32 × List Char
  | [] => (repeatCount, [])
  | c :: rest =>
    if isDigit c then readRepeatCount (repeatCount * 10 + BitVec.ofNat 32 (c.toNat - 48)) rest
    else (repeatCount, c :: rest)

theorem readRepeatCount_length_le (repeatCount : BitVec 32) (str : List Char) :
    (readRepeatCount repeatCount str).2.length ≤ str.length := by
  induction str generalizing repeatCount with
  | nil => simp [readRepeatCount]
  | cons c rest ih =>
    simp only [readRepeatCount]
    split
    · exact (ih _).trans (by simp)
    · exact le_rfl

/-- The first pass: `expanded_length`, or `none` where it returns `NULL`. -/
def expandedLengthFrom (expandedLength : Word) (ptr : List Char) : Option Word :=
  match ptr with
  | [] => some expandedLength
  | c :: rest =>
    if c = '0' then none
    else if ¬ isDigit c ∧ ¬ isTypeLetter c then none
    else if isDigit c then
      match readRepeatCount 0 (c :: rest), readRepeatCount_length_le 0 (c :: rest) with
      | (_, []), _ => some expandedLength
      | (repeatCount, _ :: after), _ =>
        expandedLengthFrom (expandedLength + repeatCount.signExtend 64) after
    else expandedLengthFrom (expandedLength + 1) rest
termination_by ptr.length
decreasing_by all_goals grind

/-- The second pass: the characters it writes before the terminator. -/
def writeExpanded (ptr : List Char) : List Char :=
  match ptr with
  | [] => []
  | c :: rest =>
    if isDigit c then
      match readRepeatCount 0 (c :: rest), readRepeatCount_length_le 0 (c :: rest) with
      | (repeatCount, []), _ => List.replicate repeatCount.toInt.toNat 'c'
      | (repeatCount, x :: after), _ =>
        if isTypeLetter x then List.replicate repeatCount.toInt.toNat x ++ writeExpanded after
        else writeExpanded after
    else c :: writeExpanded rest
termination_by ptr.length
decreasing_by all_goals grind

/-- `malloc` serves every request up to `PTRDIFF_MAX`. -/
def mallocSucceeds (size : Word) : Bool := size.toNat < 2 ^ 63

def interpretedFormatStr (str : List Char) : Except Fault (Option (List Char)) :=
  let trimmedStr := trimWhitespace str
  match expandedLengthFrom 0 trimmedStr with
  | none => .ok none
  | some expandedLength =>
    if mallocSucceeds (expandedLength + 1) then
      let expandedStr := writeExpanded trimmedStr
      if expandedStr.length + 1 ≤ (expandedLength + 1).toNat then .ok (some expandedStr)
      else .error .bufferOverflow
    else .ok none

/-- The format string made from a non-`NULL` argument, or `none` for `NULL`. -/
def createFormatStr (str : List Char) : Except Fault (Option (List Char)) :=
  interpretedFormatStr str

/-- The size of a layout character, in units of four bytes. -/
def interpretedSize (c : Char) : ℕ :=
  match c with
  | '*' => pointerInterpretedSize
  | 'c' => charInterpretedSize
  | 'i' => integerInterpretedSize
  | 'l' => longInterpretedSize
  | 'f' => floatInterpretedSize
  | 'd' => doubleInterpretedSize
  | _ => 0

def formatStrBytes : List Char → ℕ
  | [] => 0
  | c :: rest => interpretedSize c * 4 + formatStrBytes rest

example : createFormatStr "3i**".toList = .ok (some "iii**".toList) := by decide +kernel

/-- Characters of a layout that is already expanded. -/
def Expanded (str : List Char) : Prop := ∀ c ∈ str, isTypeLetter c = true

instance : DecidablePred Expanded := List.decidableBAll (isTypeLetter · = true)

theorem not_isDigit_of_isTypeLetter {c : Char} (letter : isTypeLetter c = true) : isDigit c = false := by
  simp only [isTypeLetter, Bool.or_eq_true, beq_iff_eq] at letter
  rcases letter with ((((rfl | rfl) | rfl) | rfl) | rfl) | rfl <;> rfl

theorem not_isSpace_of_isTypeLetter {c : Char} (letter : isTypeLetter c = true) : isSpace c = false := by
  simp only [isTypeLetter, Bool.or_eq_true, beq_iff_eq] at letter
  rcases letter with ((((rfl | rfl) | rfl) | rfl) | rfl) | rfl <;> rfl

private theorem dropWhile_isSpace {str : List Char} (plain : ∀ c ∈ str, isSpace c = false) :
    str.dropWhile isSpace = str := by
  cases str with
  | nil => rfl
  | cons c rest =>
    rw [List.dropWhile_cons, plain c List.mem_cons_self]
    rfl

/-- Trimming keeps a string without whitespace. -/
theorem trimWhitespace_of_not_isSpace {str : List Char} (plain : ∀ c ∈ str, isSpace c = false) :
    trimWhitespace str = str := by
  have reversed : ∀ c ∈ str.reverse, isSpace c = false := fun c member => plain c (List.mem_reverse.mp member)
  rw [trimWhitespace, dropWhile_isSpace plain, dropWhile_isSpace reversed, List.reverse_reverse]

theorem trimWhitespace_of_expanded {str : List Char} (expanded : Expanded str) :
    trimWhitespace str = str :=
  trimWhitespace_of_not_isSpace fun c member => not_isSpace_of_isTypeLetter (expanded c member)

theorem expandedLengthFrom_of_expanded {str : List Char} (expanded : Expanded str) (start : Word) :
    expandedLengthFrom start str = some (start + BitVec.ofNat 64 str.length) := by
  induction str generalizing start with
  | nil => simp [expandedLengthFrom]
  | cons c rest ih =>
    have letter := expanded c List.mem_cons_self
    have digit := not_isDigit_of_isTypeLetter letter
    have notZero : c ≠ '0' := by rintro rfl; contradiction
    rw [expandedLengthFrom, if_neg notZero, if_neg (by simp [letter]), if_neg (by simp [digit]),
      ih (fun other member => expanded other (List.mem_cons_of_mem _ member))]
    rw [List.length_cons, BitVec.ofNat_add, BitVec.add_assoc]
    exact congrArg (fun count => some (start + count)) (BitVec.add_comm _ _)

theorem writeExpanded_of_expanded {str : List Char} (expanded : Expanded str) :
    writeExpanded str = str := by
  induction str with
  | nil => simp [writeExpanded]
  | cons c rest ih =>
    have digit := not_isDigit_of_isTypeLetter (expanded c List.mem_cons_self)
    rw [writeExpanded, if_neg (by simp [digit]),
      ih (fun other member => expanded other (List.mem_cons_of_mem _ member))]

/-- Interpreting an expanded layout for which there is memory returns it unchanged. -/
theorem interpretedFormatStr_of_expanded {str : List Char} (expanded : Expanded str)
    (served : str.length + 1 < 2 ^ 63) : interpretedFormatStr str = .ok (some str) := by
  have length : (0 + BitVec.ofNat 64 str.length + 1 : Word).toNat = str.length + 1 := by
    simp; omega
  rw [interpretedFormatStr, trimWhitespace_of_expanded expanded]
  simp only [expandedLengthFrom_of_expanded expanded, writeExpanded_of_expanded expanded]
  rw [if_pos (by simp only [mallocSucceeds, length, decide_eq_true_eq]; omega), if_pos (by omega)]

/-- Interpreting an expanded layout of reasonable length returns it unchanged. -/
theorem createFormatStr_of_expanded {str : List Char} (expanded : Expanded str)
    (short : str.length < 2 ^ 32) : createFormatStr str = .ok (some str) :=
  interpretedFormatStr_of_expanded expanded (by omega)

end GarbageCollector.Model
