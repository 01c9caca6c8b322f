import GarbageCollector.Proofs.ExactCounts

/-! # The grammar of layouts

With counts below 2³¹ both passes of `interpreted_format_str` follow one grammar of tokens, up to one
shape: a count that ends the string is written by the second pass and not counted by the first. What a
count in front of an unknown character reserves and does not use makes up for it; where that is too
little, the second pass writes over the end of its buffer.
-/

namespace GarbageCollector.Soundness

open Model Proofs

/-- The function computes what the tokens of the trimmed string say. -/
structure FollowsGrammar (str : List Char) : Prop where
  null : interpretedFormatStr str = .ok none ↔ ∃ token ∈ tokens (trimWhitespace str), Token.Rejected token
  result : Admitted (trimWhitespace str) →
    interpretedFormatStr str = .ok (some (expandedText (trimWhitespace str)))
  letters : Admitted (trimWhitespace str) → Expanded (expandedText (trimWhitespace str))
  again : Admitted (trimWhitespace str) → interpretedFormatStr (expandedText (trimWhitespace str)) =
    .ok (some (expandedText (trimWhitespace str)))

/-- The second pass writes at most the bytes that the first one asked for, terminator included. -/
def SecondPassFits (str : List Char) : Prop :=
  ∀ expandedLength, expandedLengthFrom 0 (trimWhitespace str) = some expandedLength →
    (writeExpanded (trimWhitespace str)).length + 1 ≤ (expandedLength + 1).toNat

section Small

variable {str : List Char}

/-- A string that is not rejected gets its requested size from the first pass. -/
theorem expandedLengthFrom_of_admitted (admitted : Admitted str) : ∃ expandedLength,
    expandedLengthFrom 0 str = some expandedLength ∧ expandedLength + 1 = requestedSize str := by
  refine ⟨_, ?_, requestedSize_eq str⟩
  rw [expandedLengthFrom_eq, if_pos admitted]

theorem followsGrammar_of_balanced
    (small : ∀ token ∈ tokens (trimWhitespace str), Token.count token < 2 ^ 31)
    (served : Admitted (trimWhitespace str) → mallocSucceeds (requestedSize (trimWhitespace str)) = true)
    (balanced : Admitted (trimWhitespace str) → Balanced (trimWhitespace str)) : FollowsGrammar str := by
  have result (admitted : Admitted (trimWhitespace str)) :
      interpretedFormatStr str = .ok (some (expandedText (trimWhitespace str))) := by
    rw [interpretedFormatStr_eq, if_pos ⟨admitted, served admitted⟩,
      if_pos ((fits_iff_balanced small).mpr (balanced admitted)), writtenText_of_small small]
  have letters := expanded_expandedText (trimWhitespace str)
  refine ⟨?_, result, fun _ => letters, fun admitted => ?_⟩
  · constructor
    · intro null
      by_contra starts
      have admitted : Admitted (trimWhitespace str) := by
        intro token member rejected
        exact starts ⟨token, member, rejected⟩
      rw [result admitted] at null
      cases null
    · rintro ⟨token, member, rejected⟩
      rw [interpretedFormatStr_eq, if_neg fun both => both.1 token member rejected]
  · have room := (fits_iff_balanced small).mpr (balanced admitted)
    have memory := served admitted
    simp only [mallocSucceeds, decide_eq_true_eq] at memory
    rw [writtenText_of_small small] at room
    exact interpretedFormatStr_of_expanded letters (by omega)

/-- `interpreted_format_str` follows its grammar exactly on the strings that it rejects and on those that
are balanced. -/
theorem followsGrammar_iff (small : ∀ token ∈ tokens (trimWhitespace str), Token.count token < 2 ^ 31)
    (served : ∀ expandedLength, expandedLengthFrom 0 (trimWhitespace str) = some expandedLength →
      mallocSucceeds (expandedLength + 1) = true) :
    FollowsGrammar str ↔ (Admitted (trimWhitespace str) → Balanced (trimWhitespace str)) := by
  have served (admitted : Admitted (trimWhitespace str)) :
      mallocSucceeds (requestedSize (trimWhitespace str)) = true := by
    obtain ⟨expandedLength, counted, size⟩ := expandedLengthFrom_of_admitted admitted
    rw [← size]
    exact served expandedLength counted
  constructor
  · intro follows admitted
    apply (fits_iff_balanced small).mp
    by_contra overflows
    have result := follows.result admitted
    rw [interpretedFormatStr_eq, if_pos ⟨admitted, served admitted⟩, if_neg overflows] at result
    cases result
  · exact followsGrammar_of_balanced small served

/-- The second pass stays in its buffer exactly on the balanced strings among those not rejected. -/
theorem secondPassFits_iff (small : ∀ token ∈ tokens (trimWhitespace str), Token.count token < 2 ^ 31)
    (accepted : interpretedFormatStr str ≠ .ok none) :
    SecondPassFits str ↔ Balanced (trimWhitespace str) := by
  have admitted : Admitted (trimWhitespace str) := by
    by_contra rejected
    rw [interpretedFormatStr_eq, if_neg fun both => rejected both.1] at accepted
    exact accepted rfl
  obtain ⟨expandedLength, counted, size⟩ := expandedLengthFrom_of_admitted admitted
  rw [SecondPassFits, counted, ← fits_iff_balanced small, ← size, writeExpanded_eq admitted]
  simp

end Small

/-- A string of the tests. -/
theorem followsGrammar_iff_repeats : FollowsGrammar " 2c5* ".toList ↔
    (Admitted (trimWhitespace " 2c5* ".toList) → Balanced (trimWhitespace " 2c5* ".toList)) := by
  apply followsGrammar_iff (by decide +kernel)
  intro expandedLength counted
  rw [show expandedLengthFrom 0 (trimWhitespace " 2c5* ".toList) = some 7 by decide +kernel] at counted
  obtain rfl := Option.some.inj counted
  decide

theorem secondPassFits_iff_repeats :
    SecondPassFits " 2c5* ".toList ↔ Balanced (trimWhitespace " 2c5* ".toList) :=
  secondPassFits_iff (by decide +kernel) (by decide +kernel)

/-- Ten characters are written to a buffer of one, where the grammar has `cccccccccc`. -/
theorem not_followsGrammar_ending : interpretedFormatStr "10".toList = .error .bufferOverflow ∧
    ¬ FollowsGrammar "10".toList := by
  have overflows : interpretedFormatStr "10".toList = .error .bufferOverflow := by decide +kernel
  refine ⟨overflows, fun follows => ?_⟩
  have result := follows.result (by decide +kernel)
  rw [overflows] at result
  cases result

theorem not_secondPassFits_ending : interpretedFormatStr "10".toList ≠ .ok none ∧
    ¬ SecondPassFits "10".toList := by
  refine ⟨by decide +kernel, fun fits => ?_⟩
  have room := fits 0 (by decide +kernel)
  revert room
  decide +kernel

end GarbageCollector.Soundness
