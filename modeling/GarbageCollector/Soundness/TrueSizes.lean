import GarbageCollector.Proofs.Acceptance

/-! # Sizes of accepted layouts

The digit loop of `interpreted_format_str` has no bound, so a count is what its digits denote modulo 2³²,
as an `int`. A layout of digits and type letters that is accepted has the size that it denotes exactly
when none of its counts wraps: a wrapped count is always smaller than the number it stands for.
-/

namespace GarbageCollector.Soundness

open Model Proofs

/-- The object has the data size that its layout denotes, which fits the layout bits of a header. -/
structure TrueSize (text : List Char) (h h' : Heap) (p : ℕ) : Prop where
  data : ∃ word, Placed h h' (p - headerSizeBytes) (formatStrBytes (expandedText text)) word
  fits : requiredBits (expandedText text) ≤ maxLayoutBits

theorem not_isSpace_of_isDigit {c : Char} (digit : isDigit c = true) : isSpace c = false := by
  simp only [isDigit, Bool.and_eq_true, decide_eq_true_eq] at digit
  simp only [isSpace, Bool.or_eq_false_iff, Bool.and_eq_false_iff, decide_eq_false_iff_not, beq_eq_false_iff_ne]
  refine ⟨?_, .inr (by omega)⟩
  rintro rfl
  simp at digit

/-- A count is at most what it denotes, and less when it does not fit an `int`. -/
theorem toNat_toInt32_le (count : ℕ) : (toInt32 count).toNat ≤ count := by
  have le : toInt32 count ≤ count := toInt32_le
  omega

theorem toNat_toInt32_eq_iff {count : ℕ} : (toInt32 count).toNat = count ↔ count < 2 ^ 31 := by
  constructor
  · intro same
    have range := toInt32_range count
    omega
  · intro small
    rw [toInt32_of_lt small, Int.toNat_natCast]

section Units

/-- The units of one copy of what a token repeats. -/
def unit (token : Token) : ℕ :=
  match token.stop with
  | none => charInterpretedSize
  | some x => if isTypeLetter x then interpretedSize x else 0

theorem requiredBits_copies (token : Token) (number : ℕ) :
    requiredBits (Token.copies token number) = number * unit token := by
  obtain ⟨run, stop⟩ := token
  cases stop with
  | none => exact requiredBits_replicate number 'c'
  | some x =>
    by_cases letter : isTypeLetter x = true
    · simp only [Token.copies, unit, if_pos letter]
      exact requiredBits_replicate number x
    · simp [Token.copies, unit, letter, requiredBits]

theorem unit_pos {token : Token} (letters : ∀ x ∈ token.stop, isTypeLetter x = true) : 0 < unit token := by
  obtain ⟨run, stop⟩ := token
  cases stop with
  | none => exact Nat.one_pos
  | some x =>
    have letter := letters x rfl
    simp only [unit, if_pos letter]
    exact interpretedSize_pos letter

/-- A list of tokens is written with at most the units that it denotes, and with all of them exactly when
no count wraps. -/
theorem requiredBits_written (list : List Token)
    (letters : ∀ token ∈ list, ∀ x ∈ token.stop, isTypeLetter x = true) :
    requiredBits (list.flatMap Token.written) ≤ requiredBits (list.flatMap Token.expansion) ∧
      (requiredBits (list.flatMap Token.written) = requiredBits (list.flatMap Token.expansion) ↔
        ∀ token ∈ list, Token.count token < 2 ^ 31) := by
  induction list with
  | nil => simp
  | cons token rest ih =>
    obtain ⟨le, same⟩ := ih fun other member => letters other (List.mem_cons_of_mem _ member)
    have positive := unit_pos (letters token List.mem_cons_self)
    have here := Nat.mul_le_mul_right (unit token) (toNat_toInt32_le (Token.count token))
    have whole : (toInt32 (Token.count token)).toNat * unit token = Token.count token * unit token ↔
        Token.count token < 2 ^ 31 := by
      rw [Nat.mul_left_inj (by omega), toNat_toInt32_eq_iff]
    have written : requiredBits (Token.written token) = (toInt32 (Token.count token)).toNat * unit token :=
      requiredBits_copies token _
    have expansion : requiredBits (Token.expansion token) = Token.count token * unit token :=
      requiredBits_copies token _
    rw [List.flatMap_cons, List.flatMap_cons, requiredBits_append, requiredBits_append, written, expansion,
      List.forall_mem_cons, ← whole, ← same]
    omega

end Units

section Layouts

variable {text : List Char} (characters : ∀ c ∈ text, isDigit c = true ∨ isTypeLetter c = true)

include characters

theorem trimWhitespace_of_characters : trimWhitespace text = text := by
  apply trimWhitespace_of_not_isSpace
  intro c member
  rcases characters c member with digit | letter
  · exact not_isSpace_of_isDigit digit
  · exact not_isSpace_of_isTypeLetter letter

/-- Objects of a layout of digits and type letters have the size that it denotes in every heap exactly when
the layout is refused everywhere or no count reaches 2³¹. -/
theorem trueSize_iff :
    (∀ h h' p, Heap.hAllocStruct h (some text) = .ok (some p, h') → TrueSize text h h' p) ↔
      (Accepted text → ∀ token ∈ tokens text, Token.count token < 2 ^ 31) := by
  have trimmed := trimWhitespace_of_characters characters
  obtain ⟨_, same⟩ := requiredBits_written (tokens text) (characters_iff.mp characters)
  rw [← writtenText, ← expandedText] at same
  constructor
  · intro trueSizes accepted
    obtain ⟨p, h', ok⟩ := returned_of_accepted (fresh_of_booted booted_smallHeap) accepted
    obtain ⟨_, _, placed⟩ := accepted_of_returned ok
    obtain ⟨_, denoted⟩ := (trueSizes _ _ _ ok).data
    have bytes := placed.size_unique denoted
    rw [trimmed, formatStrBytes_eq, formatStrBytes_eq] at bytes
    exact same.mp (by omega)
  · intro small h h' p ok
    obtain ⟨accepted, word, placed⟩ := accepted_of_returned ok
    have units := same.mpr (small accepted)
    have enough := accepted.enough
    rw [trimmed, formatStrBytes_eq, units, ← formatStrBytes_eq] at placed
    rw [trimmed, units] at enough
    exact ⟨⟨word, placed⟩, enough⟩

end Layouts

/-- A layout of the tests. -/
theorem trueSize_iff_repeats :
    (∀ h h' p, Heap.hAllocStruct h (some "2c5*".toList) = .ok (some p, h') →
      TrueSize "2c5*".toList h h' p) ↔
      (Accepted "2c5*".toList → ∀ token ∈ tokens "2c5*".toList, Token.count token < 2 ^ 31) := by
  apply trueSize_iff
  simp [isDigit, isTypeLetter]

/-- The count 2³² + 1 is read as one: the object has four bytes. -/
theorem exists_not_trueSize : ∃ h' word,
    smallHeap.hAllocStruct (some "4294967297i".toList) = .ok (some 65544, h') ∧
    Placed smallHeap h' 65536 4 word ∧ ¬ TrueSize "4294967297i".toList smallHeap h' 65544 := by
  obtain ⟨⟨p, h'⟩, ran, rfl⟩ := exists_of_toOption (smallHeap.hAllocStruct (some "4294967297i".toList))
    (fun result => result.1) (some 65544) (by decide +kernel)
  obtain ⟨_, word, placed⟩ := accepted_of_returned ran
  have one : writtenText (trimWhitespace "4294967297i".toList) = ['i'] := by decide +kernel
  rw [one] at placed
  refine ⟨h', word, ran, placed, fun trueSize => ?_⟩
  have fits := trueSize.fits
  have units : requiredBits (expandedText "4294967297i".toList) = 4294967297 := by
    have first : tokens "4294967297i".toList = [⟨"4294967297".toList, some 'i'⟩] := by decide
    rw [expandedText, first, List.flatMap_singleton, Token.expansion, requiredBits_copies]
    decide +kernel
  rw [units] at fits
  revert fits
  decide

end GarbageCollector.Soundness
