import GarbageCollector.Model.Store
import Mathlib.Data.List.TakeWhile

/-! # The questions of the demo program

Standard input is the list of its bytes; at its end `getchar` returns `EOF`, now and at every later call.
A buffer is a list of bytes that every access is checked against, and what it holds before it is filled is
arbitrary. `malloc` behind `strdup` succeeds. The text of a question is left out.
-/

namespace GarbageCollector.Model

/-- The bytes of standard input that have not been read. -/
abbrev Input := List (BitVec 8)

/-- `'\n'`. -/
def newline : BitVec 8 := 10

/-- `buf[index]`. -/
def readBuffer (buf : List (BitVec 8)) (index : ℕ) : Except DemoFault (BitVec 8) :=
  match buf[index]? with
  | none => .error .outOfBounds
  | some byte => .ok byte

/-- `buf[index] = byte`. -/
def writeBuffer (buf : List (BitVec 8)) (index : ℤ) (byte : BitVec 8) : Except DemoFault (List (BitVec 8)) :=
  if 0 ≤ index ∧ index < buf.length then .ok (buf.set index.toNat byte) else .error .outOfBounds

/-- The loop of `read_string` from the index `length` on, up to the index `last`; `EOF` is stored as the
byte `0xFF`. -/
def readLoop (last : ℤ) : Input → List (BitVec 8) → ℤ → Except DemoFault (ℤ × List (BitVec 8) × Input)
  | [], buf, length =>
    if last < length then .ok (length, buf, [])
    else do
      let buf ← writeBuffer buf length 0xFF
      .ok (length + 1, buf, [])
  | c :: input, buf, length =>
    if last < length then .ok (length, buf, c :: input)
    else do
      let buf ← writeBuffer buf length c
      if c = newline then .ok (length + 1, buf, input)
      else readLoop last input buf (length + 1)

/-- `read_string`: the number it returns, the buffer, and the input that is left. -/
def readString (buf : List (BitVec 8)) (bufSiz : ℤ) (input : Input) :
    Except DemoFault (ℤ × List (BitVec 8) × Input) := do
  let last ← checkedInt (bufSiz - 1)
  let (length, buf, input) ← readLoop last input buf 0
  let buf ← writeBuffer buf (length - 1) 0
  .ok (length - 1, buf, input)

/-- The bytes before the first terminator. -/
def CString.upTo (bytes : List (BitVec 8)) : CString :=
  ⟨bytes.takeWhile (· ≠ 0), fun member => by simpa using List.mem_takeWhile_imp member⟩

/-- The string that a buffer starts with. -/
def bufferString (buf : List (BitVec 8)) : Except DemoFault CString :=
  if 0 ∈ buf then .ok (CString.upTo buf) else .error .outOfBounds

/-- `char buf[255]` before it is filled. -/
def localBuffer : List (BitVec 8) := List.replicate 255 0xFF

/-- `not_empty`. -/
def notEmpty (str : CString) : Bool := 0 < str.chars.length

/-- `is_number`. -/
def isNumber (num : CString) : Bool :=
  match num.chars with
  | [] => false
  | first :: rest => ((first = 45 && rest ≠ []) || isDigitByte first) && rest.all isDigitByte

/-- `isspace` in the C locale. -/
def isSpaceByte (char : BitVec 8) : Bool := char = 32 || (9 ≤ char.toNat && char.toNat ≤ 13)

/-- The number that the digits at the start of a string denote. -/
def decimal (chars : List (BitVec 8)) : ℤ :=
  (chars.takeWhile isDigitByte).foldl (fun value char => 10 * value + (char.toNat - 48 : ℕ)) 0

/-- `atoi`, whose result is not defined when it is no `int`. -/
def atoi (str : CString) : Except DemoFault ℤ :=
  match str.chars.dropWhile isSpaceByte with
  | [] => .ok 0
  | sign :: digits =>
    if sign = 45 then checkedInt (-decimal digits)
    else if sign = 43 then checkedInt (decimal digits)
    else checkedInt (decimal (sign :: digits))

/-- `abs`, whose result is not defined for the least `int`. -/
def absInt (value : ℤ) : Except DemoFault ℤ := checkedInt |value|

/-- The loop of `ask_question` for as many rounds; at the end of the input every round reads the empty
string, so the loop goes on for ever if that is not accepted. -/
def askLoop (check : CString → Bool) : ℕ → List (BitVec 8) → Input → Except DemoFault (CString × Input)
  | 0, _, _ => .error .diverges
  | fuel + 1, buf, input => do
    let (_, buf, input) ← readString buf 255 input
    let str ← bufferString buf
    if check str then .ok (str, input) else askLoop check fuel buf input

/-- `ask_question`: the answer and the input that is left. -/
def askQuestion {α : Type} (check : CString → Bool) (convert : CString → Except DemoFault α) (input : Input) :
    Except DemoFault (α × Input) := do
  let (str, input) ← askLoop check (input.length + 1) localBuffer input
  let result ← convert str
  .ok (result, input)

/-- `ask_question_int`. -/
def askQuestionInt (input : Input) : Except DemoFault (ℤ × Input) := do
  let (answer, input) ← askQuestion isNumber atoi input
  let number ← absInt answer
  .ok (number, input)

/-- `ask_question_string`; `strdup` copies the string. -/
def askQuestionString (input : Input) : Except DemoFault (CString × Input) :=
  askQuestion notEmpty .ok input

/-- `"y"`. -/
def yes : CString := ⟨[121], by decide⟩

/-- `confirmation`, which `store.c` and `stor_functions.c` both define. -/
def confirmation (input : Input) : Except DemoFault (Bool × Input) := do
  let (_, buf, input) ← readString localBuffer 255 input
  let str ← bufferString buf
  .ok (compareString yes str, input)

/-- `tolower` in the C locale. -/
def toLowerByte (char : BitVec 8) : BitVec 8 :=
  if 65 ≤ char.toNat && char.toNat ≤ 90 then char + 32 else char

/-- `"adelspcy+-=ouq"`. -/
def choices : List (BitVec 8) := [97, 100, 101, 108, 115, 112, 99, 121, 43, 45, 61, 111, 117, 113]

/-- `is_choice`, for a string that is not empty. -/
def isChoice (buf : CString) : Bool :=
  match buf.chars with
  | [only] => choices.contains only
  | _ => false

/-- The loop of `ask_question_menu` for as many rounds. -/
def askMenuLoop : ℕ → List (BitVec 8) → Input → Except DemoFault (Option CString × Input)
  | 0, _, _ => .error .diverges
  | fuel + 1, buf, input => do
    let (_, buf, input) ← readString buf 255 input
    let first ← readBuffer buf 0
    if first = 0 then .ok (none, input)
    else do
      let buf ← writeBuffer buf 0 (toLowerByte first)
      let str ← bufferString buf
      if isChoice str then .ok (some str, input) else askMenuLoop fuel buf input

/-- `ask_question_menu`; `h_strdup` copies the string. That it returns `NULL`, on which `event_loop` breaks, is
left out. -/
def askQuestionMenu (input : Input) : Except DemoFault (Option CString × Input) :=
  askMenuLoop (input.length + 1) localBuffer input

end GarbageCollector.Model
