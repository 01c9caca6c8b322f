import GarbageCollector.Proofs.Tokens

/-! # Counts that fit an `int`

With counts below 2³¹ the second pass writes what the string stands for, and the first pass counts it
up to one shape of token at either side: it leaves out a count that ends the string, and it reserves
room for a count in front of an unknown character, which stands for nothing.
-/

namespace GarbageCollector.Proofs

open Model

namespace Token

/-- The room that the first pass reserves for a token. -/
def reserved (token : Token) : ℕ :=
  match token.stop with
  | none => 0
  | some _ => Token.count token

/-- The room reserved for a token that stands for nothing. -/
def dropped (token : Token) : ℕ :=
  match token.stop with
  | none => 0
  | some x => if isTypeLetter x then 0 else Token.count token

/-- What a count that ends the string stands for. -/
def ending (token : Token) : ℕ :=
  match token.stop with
  | none => Token.count token
  | some _ => 0

/-- A token stands for what is reserved, without what is dropped and with what ends the string. -/
theorem length_expansion (token : Token) :
    (Token.expansion token).length + dropped token = reserved token + ending token := by
  obtain ⟨run, stop⟩ := token
  cases stop with
  | none => simp [Token.expansion, Token.copies, dropped, reserved, ending]
  | some x =>
    by_cases letter : isTypeLetter x = true
    · simp [Token.expansion, Token.copies, dropped, reserved, ending, letter]
    · simp [Token.expansion, Token.copies, dropped, reserved, ending, letter]

end Token

/-- A part of every token of the string, summed up. -/
def total (part : Token → ℕ) (str : List Char) : ℕ := ((tokens str).map part).sum

/-- What the second pass writes and the first does not count, with what its `size_t` loses, is at most
what the first pass reserves and the second leaves. -/
def Balanced (str : List Char) : Prop :=
  total Token.ending str + 2 ^ 64 * ((total Token.reserved str + 1) / 2 ^ 64) ≤ total Token.dropped str

instance (str : List Char) : Decidable (Balanced str) := inferInstanceAs (Decidable (_ ≤ _))

theorem length_expandedText (str : List Char) : (expandedText str).length + total Token.dropped str =
    total Token.reserved str + total Token.ending str := by
  rw [expandedText, total, total, total]
  induction tokens str with
  | nil => rfl
  | cons token rest ih =>
    have here := Token.length_expansion token
    simp only [List.flatMap_cons, List.length_append, List.map_cons, List.sum_cons]
    omega

section Small

variable {str : List Char}

/-- With counts below 2³¹ both passes compute with the numbers that the string denotes. -/
theorem writtenText_of_small (small : ∀ token ∈ tokens str, Token.count token < 2 ^ 31) :
    writtenText str = expandedText str := by
  rw [writtenText, expandedText]
  apply List.flatMap_congr
  intro token member
  rw [Token.written, Token.intCount, toInt32_of_lt (small token member), Int.toNat_natCast, Token.expansion]

theorem countedLength_of_small (small : ∀ token ∈ tokens str, Token.count token < 2 ^ 31) :
    countedLength str = total Token.reserved str := by
  rw [countedLength, total]
  generalize tokens str = list at small ⊢
  induction list with
  | nil => rfl
  | cons token rest ih =>
    have here : Token.counted token = Token.reserved token := by
      have number := toInt32_of_lt (small token List.mem_cons_self)
      obtain ⟨run, stop⟩ := token
      cases stop with
      | none => rfl
      | some x => exact number
    rw [List.map_cons, List.sum_cons, List.map_cons, List.sum_cons, here,
      ih fun other member => small other (List.mem_cons_of_mem _ member), Nat.cast_add]

/-- The buffer is large enough exactly when the string is balanced. -/
theorem fits_iff_balanced (small : ∀ token ∈ tokens str, Token.count token < 2 ^ 31) :
    (writtenText str).length + 1 ≤ (requestedSize str).toNat ↔ Balanced str := by
  have size : (requestedSize str).toNat = (total Token.reserved str + 1) % 2 ^ 64 := by
    rw [requestedSize, countedLength_of_small small]
    exact BitVec.toNat_ofNat _ _
  have length := length_expandedText str
  rw [size, writtenText_of_small small, Balanced]
  omega

end Small

end GarbageCollector.Proofs
