import GarbageCollector.Math.Runs
import GarbageCollector.Model.BitVector

/-! # The tokens of a layout

A layout is a sequence of tokens: a decimal count and the character behind it, a character that stands
for itself, or a count that ends the string. What a token is worth in unbounded arithmetic is its
expansion; the two passes of `interpreted_format_str` see the same tokens with their counts as `int`s,
the first adding up what it counts, the second writing copies.
-/

namespace GarbageCollector.Proofs

open Model

/-- The number that a run of digits denotes. -/
def decimalValue (digits : List Char) : ℕ := digits.foldl (fun value c => value * 10 + (c.toNat - 48)) 0

/-- A run of digits and the character behind it. -/
abbrev Token := Piece Char

/-- The tokens of a string, from the left. -/
def tokens (str : List Char) : List Token := Piece.pieces isDigit str

namespace Token

/-- A token that starts with `0` or with neither a digit nor a type letter. -/
def Rejected (token : Token) : Prop :=
  ∃ c ∈ token.elements.head?, c = '0' ∨ (isDigit c = false ∧ isTypeLetter c = false)

instance (token : Token) : Decidable (Rejected token) :=
  match head : token.elements.head? with
  | none => isFalse (by simp [Rejected, head])
  | some c => decidable_of_iff (c = '0' ∨ (isDigit c = false ∧ isTypeLetter c = false)) (by
      simp [Rejected, head])

/-- How often the character of a token counts; without digits once. -/
def count (token : Token) : ℕ := if token.run = [] then 1 else decimalValue token.run

/-- What the token stands for when its character counts `number` times: copies of a type letter, nothing
for any other character, and `c` when no character follows. -/
def copies (token : Token) (number : ℕ) : List Char :=
  match token.stop with
  | none => List.replicate number 'c'
  | some x => if isTypeLetter x then List.replicate number x else []

/-- The characters that a token stands for. -/
def expansion (token : Token) : List Char := copies token (count token)

/-- The count as the `int` of the C code. -/
def intCount (token : Token) : ℤ := toInt32 (count token)

/-- What the second pass writes for a token. -/
def written (token : Token) : List Char := copies token (intCount token).toNat

/-- What the first pass adds for a token. -/
def counted (token : Token) : ℤ :=
  match token.stop with
  | none => 0
  | some _ => intCount token

end Token

theorem tokens_cut {run rest : List Char} {stop : Char} (digits : ∀ c ∈ run, isDigit c = true)
    (stops : isDigit stop = false) : tokens (run ++ stop :: rest) = ⟨run, some stop⟩ :: tokens rest :=
  Piece.pieces_append digits stops

theorem tokens_last {run : List Char} (digits : ∀ c ∈ run, isDigit c = true) (nonempty : run ≠ []) :
    tokens run = [⟨run, none⟩] :=
  Piece.pieces_of_run digits nonempty

example : (tokens "3i*10".toList).flatMap Token.expansion = "iii*cccccccccc".toList := by decide

section Digits

variable {run rest : List Char} {stop : Char}

theorem readRepeatCount_append (digits : ∀ c ∈ run, isDigit c = true) (repeatCount : BitVec 32) :
    readRepeatCount repeatCount (run ++ rest) = readRepeatCount
      (run.foldl (fun value c => value * 10 + BitVec.ofNat 32 (c.toNat - 48)) repeatCount) rest := by
  induction run generalizing repeatCount with
  | nil => rfl
  | cons c run ih =>
    rw [List.cons_append, readRepeatCount, if_pos (digits c List.mem_cons_self),
      ih fun other member => digits other (List.mem_cons_of_mem _ member)]
    rfl

/-- The loop over the digits computes their number modulo 2³². -/
theorem foldl_ofNat (run : List Char) (value : ℕ) :
    run.foldl (fun value c => value * 10 + BitVec.ofNat 32 (c.toNat - 48)) (BitVec.ofNat 32 value) =
      BitVec.ofNat 32 (run.foldl (fun value c => value * 10 + (c.toNat - 48)) value) := by
  induction run generalizing value with
  | nil => rfl
  | cons c run ih =>
    rw [List.foldl_cons, List.foldl_cons, ← ih, BitVec.ofNat_add, BitVec.ofNat_mul]
    rfl

theorem readRepeatCount_cut (digits : ∀ c ∈ run, isDigit c = true) (stops : isDigit stop = false) :
    readRepeatCount 0 (run ++ stop :: rest) = (BitVec.ofNat 32 (decimalValue run), stop :: rest) := by
  rw [readRepeatCount_append digits, readRepeatCount, if_neg (by simp [stops])]
  exact congrArg (·, stop :: rest) (foldl_ofNat run 0)

theorem readRepeatCount_last (digits : ∀ c ∈ run, isDigit c = true) :
    readRepeatCount 0 run = (BitVec.ofNat 32 (decimalValue run), []) := by
  have read : readRepeatCount 0 (run ++ []) = _ := readRepeatCount_append digits 0
  rw [List.append_nil] at read
  rw [read, readRepeatCount]
  exact congrArg (·, []) (foldl_ofNat run 0)

end Digits

section Characters

variable {str : List Char}

/-- The characters of a string are those of its tokens. -/
theorem forall_mem_iff_tokens {property : Char → Prop} :
    (∀ c ∈ str, property c) ↔ ∀ token ∈ tokens str, ∀ c ∈ token.elements, property c := by
  have whole : (tokens str).flatMap Piece.elements = str := Piece.flatMap_elements_pieces str
  constructor
  · intro all token member c inside
    apply all c
    rw [← whole]
    exact List.mem_flatMap.mpr ⟨token, member, inside⟩
  · intro all c member
    rw [← whole] at member
    obtain ⟨token, there, inside⟩ := List.mem_flatMap.mp member
    exact all token there c inside

/-- A string consists of digits and type letters when every count stands in front of a type letter. -/
theorem characters_iff : (∀ c ∈ str, isDigit c = true ∨ isTypeLetter c = true) ↔
    ∀ token ∈ tokens str, ∀ x ∈ token.stop, isTypeLetter x = true := by
  rw [forall_mem_iff_tokens]
  constructor
  · intro all token member x stops
    have plain : isDigit x = false := (Piece.passes_of_mem_pieces member).2.1 x stops
    rcases all token member x (List.mem_append_right _ (by simpa using stops)) with digit | letter
    · rw [plain] at digit
      cases digit
    · exact letter
  · intro letters token member c inside
    rcases List.mem_append.mp inside with digit | stop
    · exact .inl ((Piece.passes_of_mem_pieces member).1 c digit)
    · exact .inr (letters token member c (by simpa using stop))

/-- Only type letters are copied. -/
theorem Token.isTypeLetter_of_mem_copies {token : Token} {number : ℕ} {c : Char}
    (member : c ∈ Token.copies token number) : isTypeLetter c = true := by
  obtain ⟨run, stop⟩ := token
  cases stop with
  | none =>
    rw [List.eq_of_mem_replicate member]
    rfl
  | some x =>
    by_cases letter : isTypeLetter x = true
    · simp only [Token.copies, if_pos letter] at member
      rwa [List.eq_of_mem_replicate member]
    · simp [Token.copies, letter] at member

end Characters

section Passes

variable {run rest : List Char} {stop c : Char}

theorem ne_zero_of_not_isDigit (stops : isDigit stop = false) : stop ≠ '0' := by
  rintro rfl
  exact absurd stops (by decide)

/-- A digit that starts a token is rejected when it is `0`. -/
theorem rejected_of_digit (digit : isDigit c = true) (stop : Option Char) :
    Token.Rejected ⟨c :: run, stop⟩ ↔ c = '0' := by
  simp [Token.Rejected, Piece.elements, digit]

/-- A character that is no digit is rejected when it is no type letter. -/
theorem rejected_of_bare (stops : isDigit stop = false) :
    Token.Rejected ⟨[], some stop⟩ ↔ isTypeLetter stop = false := by
  simp [Token.Rejected, Piece.elements, stops, ne_zero_of_not_isDigit stops]

theorem intCount_eq (digits : List Char) :
    (BitVec.ofNat 32 (decimalValue digits)).toInt = toInt32 (decimalValue digits) :=
  BitVec.toInt_ofNat' _

theorem counted_of_bare (stop : Char) : Token.counted ⟨[], some stop⟩ = 1 := by
  have one : toInt32 (1 : ℕ) = (1 : ℕ) := toInt32_of_lt (by decide)
  exact one

/-- The first pass on one token. -/
theorem expandedLengthFrom_cut (digits : ∀ c ∈ run, isDigit c = true) (stops : isDigit stop = false)
    (start : Word) : expandedLengthFrom start (run ++ stop :: rest) =
      if Token.Rejected ⟨run, some stop⟩ then none
      else expandedLengthFrom (start + BitVec.ofInt 64 (Token.counted ⟨run, some stop⟩)) rest := by
  cases run with
  | nil =>
    rw [List.nil_append, expandedLengthFrom, if_neg (ne_zero_of_not_isDigit stops)]
    by_cases letter : isTypeLetter stop = true
    · rw [if_neg (by simp [letter]), if_neg (by simp [stops]), if_neg (by simp [rejected_of_bare stops, letter]),
        counted_of_bare]
      rfl
    · rw [if_pos (by simp [stops, letter]), if_pos ((rejected_of_bare stops).mpr (by simpa using letter))]
  | cons c run =>
    have digit := digits c List.mem_cons_self
    rw [List.cons_append, expandedLengthFrom]
    by_cases zero : c = '0'
    · rw [if_pos zero, if_pos ((rejected_of_digit digit _).mpr zero)]
    · rw [if_neg zero, if_neg (by simp [digit]), if_pos digit, if_neg (by rwa [rejected_of_digit digit])]
      have read : readRepeatCount 0 ((c :: run) ++ stop :: rest) = _ := readRepeatCount_cut digits stops
      rw [List.cons_append] at read
      split
      · next none _ => cases none.symm.trans read
      · next repeatCount _ after some _ =>
        cases some.symm.trans read
        rw [BitVec.signExtend, intCount_eq]
        rfl

/-- The first pass on a count that ends the string. -/
theorem expandedLengthFrom_last (digits : ∀ c ∈ run, isDigit c = true) (nonempty : run ≠ [])
    (start : Word) : expandedLengthFrom start run =
      if Token.Rejected ⟨run, none⟩ then none else some start := by
  cases run with
  | nil => exact (nonempty rfl).elim
  | cons c run =>
    have digit := digits c List.mem_cons_self
    rw [expandedLengthFrom]
    by_cases zero : c = '0'
    · rw [if_pos zero, if_pos ((rejected_of_digit digit _).mpr zero)]
    · rw [if_neg zero, if_neg (by simp [digit]), if_pos digit, if_neg (by rwa [rejected_of_digit digit])]
      have read := readRepeatCount_last digits
      split
      · rfl
      · next some _ => cases some.symm.trans read

/-- The second pass on one token that is not rejected. -/
theorem writeExpanded_cut (digits : ∀ c ∈ run, isDigit c = true) (stops : isDigit stop = false)
    (starts : ¬ Token.Rejected ⟨run, some stop⟩) :
    writeExpanded (run ++ stop :: rest) = Token.written ⟨run, some stop⟩ ++ writeExpanded rest := by
  cases run with
  | nil =>
    rw [rejected_of_bare stops] at starts
    rw [List.nil_append, writeExpanded, if_neg (by simp [stops])]
    simp [Token.written, Token.copies, Token.intCount, Token.count, toInt32, starts]
  | cons c run =>
    have digit := digits c List.mem_cons_self
    rw [List.cons_append, writeExpanded, if_pos digit]
    have read : readRepeatCount 0 ((c :: run) ++ stop :: rest) = _ := readRepeatCount_cut digits stops
    rw [List.cons_append] at read
    split
    · next none _ => cases none.symm.trans read
    · next repeatCount _ after some _ =>
      cases some.symm.trans read
      rw [intCount_eq]
      by_cases letter : isTypeLetter stop = true
      · simp [Token.written, Token.copies, Token.intCount, Token.count, letter]
      · simp [Token.written, Token.copies, letter]

/-- The second pass on a count that ends the string. -/
theorem writeExpanded_last (digits : ∀ c ∈ run, isDigit c = true) (nonempty : run ≠ []) :
    writeExpanded run = Token.written ⟨run, none⟩ := by
  cases run with
  | nil => exact (nonempty rfl).elim
  | cons c run =>
    have digit := digits c List.mem_cons_self
    rw [writeExpanded, if_pos digit]
    have read := readRepeatCount_last digits
    split
    · next repeatCount none _ =>
      cases none.symm.trans read
      rw [intCount_eq]
      rfl
    · next some _ => cases some.symm.trans read

end Passes

/-- The number of characters that the first pass counts. -/
def countedLength (str : List Char) : ℤ := ((tokens str).map Token.counted).sum

/-- What the second pass writes. -/
def writtenText (str : List Char) : List Char := (tokens str).flatMap Token.written

/-- What the string stands for, with unbounded counts. -/
def expandedText (str : List Char) : List Char := (tokens str).flatMap Token.expansion

theorem expanded_writtenText (str : List Char) : Expanded (writtenText str) := by
  intro c member
  obtain ⟨token, _, member⟩ := List.mem_flatMap.mp member
  exact Token.isTypeLetter_of_mem_copies member

theorem expanded_expandedText (str : List Char) : Expanded (expandedText str) := by
  intro c member
  obtain ⟨token, _, member⟩ := List.mem_flatMap.mp member
  exact Token.isTypeLetter_of_mem_copies member

/-- No token of the string is rejected. -/
def Admitted (str : List Char) : Prop := ∀ token ∈ tokens str, ¬ Token.Rejected token

instance (str : List Char) : Decidable (Admitted str) :=
  inferInstanceAs (Decidable (∀ token ∈ tokens str, _))

/-- The first pass rejects by token, and otherwise adds up what it counts. -/
theorem expandedLengthFrom_eq (str : List Char) (start : Word) : expandedLengthFrom start str =
    if Admitted str then some (start + BitVec.ofInt 64 (countedLength str)) else none := by
  induction str using Piece.read_induction isDigit generalizing start with
  | nil => simp [expandedLengthFrom, Admitted, countedLength, tokens]
  | last run nonempty digits =>
    have only := tokens_last digits nonempty
    have length : countedLength run = 0 := by simp [countedLength, only, Token.counted]
    have admitted : Admitted run ↔ ¬ Token.Rejected ⟨run, none⟩ := by simp [Admitted, only]
    rw [expandedLengthFrom_last digits nonempty]
    by_cases rejected : Token.Rejected ⟨run, none⟩
    · rw [if_pos rejected, if_neg (by rwa [admitted, not_not])]
    · rw [if_neg rejected, if_pos (admitted.mpr rejected), length]
      simp
  | cut run stop rest digits stops ih =>
    have first : tokens (run ++ stop :: rest) = _ := tokens_cut digits stops
    have length : countedLength (run ++ stop :: rest) =
        Token.counted ⟨run, some stop⟩ + countedLength rest := by
      rw [countedLength, first, List.map_cons, List.sum_cons, ← countedLength]
    have admitted : Admitted (run ++ stop :: rest) ↔
        ¬ Token.Rejected ⟨run, some stop⟩ ∧ Admitted rest := by
      rw [Admitted, first, List.forall_mem_cons, ← Admitted]
    rw [expandedLengthFrom_cut digits stops, ih]
    by_cases rejected : Token.Rejected ⟨run, some stop⟩
    · rw [if_pos rejected, if_neg fun whole => (admitted.mp whole).1 rejected]
    · rw [if_neg rejected, length, BitVec.ofInt_add, BitVec.add_assoc]
      by_cases later : Admitted rest
      · rw [if_pos later, if_pos (admitted.mpr ⟨rejected, later⟩)]
      · rw [if_neg later, if_neg fun whole => later (admitted.mp whole).2]

/-- The second pass writes token by token. -/
theorem writeExpanded_eq {str : List Char} (admitted : Admitted str) :
    writeExpanded str = writtenText str := by
  induction str using Piece.read_induction isDigit with
  | nil => simp [writeExpanded, writtenText, tokens]
  | last run nonempty digits =>
    rw [writeExpanded_last digits nonempty]
    simp [writtenText, tokens_last digits nonempty]
  | cut run stop rest digits stops ih =>
    have first : tokens (run ++ stop :: rest) = _ := tokens_cut digits stops
    rw [Admitted, first, List.forall_mem_cons] at admitted
    rw [writeExpanded_cut digits stops admitted.1, ih admitted.2, writtenText, writtenText, first,
      List.flatMap_cons]

/-- The size that `malloc` is asked for. -/
def requestedSize (str : List Char) : Word := BitVec.ofInt 64 (countedLength str + 1)

theorem requestedSize_eq (str : List Char) :
    (0 : Word) + BitVec.ofInt 64 (countedLength str) + 1 = requestedSize str := by
  rw [requestedSize, BitVec.ofInt_add]
  exact congrArg (· + 1) (BitVec.zero_add _)

/-- `interpreted_format_str` by tokens. -/
theorem interpretedFormatStr_eq (str : List Char) : interpretedFormatStr str =
    if Admitted (trimWhitespace str) ∧ mallocSucceeds (requestedSize (trimWhitespace str)) then
      if (writtenText (trimWhitespace str)).length + 1 ≤ (requestedSize (trimWhitespace str)).toNat then
        .ok (some (writtenText (trimWhitespace str)))
      else .error .bufferOverflow
    else .ok none := by
  rw [interpretedFormatStr]
  generalize trimWhitespace str = trimmed
  dsimp only
  rw [expandedLengthFrom_eq]
  by_cases admitted : Admitted trimmed
  · rw [if_pos admitted]
    dsimp only
    rw [requestedSize_eq, writeExpanded_eq admitted]
    by_cases served : mallocSucceeds (requestedSize trimmed) = true
    · have both : Admitted trimmed ∧ mallocSucceeds (requestedSize trimmed) = true := ⟨admitted, served⟩
      rw [if_pos served, if_pos both]
    · rw [if_neg served, if_neg fun both => served both.2]
  · rw [if_neg admitted, if_neg fun both => admitted both.1]

end GarbageCollector.Proofs
