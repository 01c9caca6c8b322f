import GarbageCollector.Proofs.Acceptance

/-! # What an accepted layout may look like

The first pass of `interpreted_format_str` tests the first character of a token and not the one behind a
count, and the test for an empty layout looks at the raw string. So a layout with an unknown character
behind a count, one that is blank, or one whose counts are all nothing as `int`s can get an object.
-/

namespace GarbageCollector.Soundness

open Model Proofs

/-- The object has a layout of digits and type letters that describes at least one word of data. -/
structure DocumentedObject (text : List Char) (h h' : Heap) (p : ℕ) : Prop where
  characters : ∀ c ∈ trimWhitespace text, isDigit c = true ∨ isTypeLetter c = true
  expands : ∃ format, createFormatStr text = .ok (some format) ∧ format ≠ []
  data : ∃ size word, Placed h h' (p - headerSizeBytes) size word ∧ 4 ≤ size

section Tokens

variable {str : List Char}

/-- Something is written when every count stands in front of a type letter and one is positive. -/
theorem writtenText_ne_nil_iff (letters : ∀ token ∈ tokens str, ∀ x ∈ token.stop, isTypeLetter x = true) :
    writtenText str ≠ [] ↔ ∃ token ∈ tokens str, 0 < Token.intCount token := by
  have copied (token : Token) (member : token ∈ tokens str) :
      Token.written token ≠ [] ↔ 0 < Token.intCount token := by
    have letter := letters token member
    obtain ⟨run, stop⟩ := token
    cases stop with
    | none => simp [Token.written, Token.copies]
    | some x => simp [Token.written, Token.copies, letter x rfl]
  rw [writtenText, ne_eq, List.flatMap_eq_nil_iff]
  push Not
  exact exists_congr fun token => and_congr_right fun member => copied token member

end Tokens

/-- A type letter needs at least one word. -/
theorem four_le_formatStrBytes {format : List Char} (expanded : Expanded format) (nonempty : format ≠ []) :
    4 ≤ formatStrBytes format := by
  cases format with
  | nil => exact (nonempty rfl).elim
  | cons c rest =>
    have unit := interpretedSize_pos (expanded c List.mem_cons_self)
    rw [formatStrBytes]
    omega

/-- Every object of every heap has a documented layout exactly when the layout is refused everywhere, or
has a type letter behind each count and a count that is positive as an `int`. -/
theorem documentedObject_iff (text : List Char) :
    (∀ h h' p, Heap.hAllocStruct h (some text) = .ok (some p, h') → DocumentedObject text h h' p) ↔
      (Accepted text → (∀ token ∈ tokens (trimWhitespace text), ∀ x ∈ token.stop, isTypeLetter x = true) ∧
        ∃ token ∈ tokens (trimWhitespace text), 0 < Token.intCount token) := by
  constructor
  · intro documented accepted
    obtain ⟨p, h', ok⟩ := returned_of_accepted (fresh_of_booted booted_smallHeap) accepted
    obtain ⟨characters, ⟨format, created, nonempty⟩, _⟩ := documented _ _ _ ok
    have letters := characters_iff.mp characters
    refine ⟨letters, (writtenText_ne_nil_iff letters).mp ?_⟩
    rwa [← (createFormatStr_some created).1]
  · intro documented h h' p ok
    obtain ⟨accepted, word, placed⟩ := accepted_of_returned ok
    obtain ⟨letters, positive⟩ := documented accepted
    have nonempty := (writtenText_ne_nil_iff letters).mpr positive
    exact ⟨characters_iff.mpr letters, ⟨_, createFormatStr_of_accepted accepted, nonempty⟩, _, word, placed,
      four_le_formatStrBytes (expanded_writtenText _) nonempty⟩

/-- The layout `3x` gets an object without data. -/
theorem exists_not_documentedObject : ∃ h' word,
    smallHeap.hAllocStruct (some "3x".toList) = .ok (some 65544, h') ∧
    Placed smallHeap h' 65536 0 word ∧ ¬ DocumentedObject "3x".toList smallHeap h' 65544 := by
  obtain ⟨⟨p, h'⟩, ran, rfl⟩ := exists_of_toOption (smallHeap.hAllocStruct (some "3x".toList))
    (fun result => result.1) (some 65544) (by decide +kernel)
  obtain ⟨_, word, placed⟩ := accepted_of_returned ran
  have empty : writtenText (trimWhitespace "3x".toList) = [] := by decide
  rw [empty] at placed
  refine ⟨h', word, ran, placed, fun documented => ?_⟩
  have unknown := documented.characters 'x' (by decide)
  revert unknown
  decide

end GarbageCollector.Soundness
