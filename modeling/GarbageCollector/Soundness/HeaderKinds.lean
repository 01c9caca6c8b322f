import GarbageCollector.Machine.Outcome
import GarbageCollector.Proofs.Copying
import GarbageCollector.Soundness.BlockWords
import GarbageCollector.Soundness.ForwardedRoots

/-! # The four kinds of header words

A header word stands for the address of a format string, a forwarding address, the size of a raw block or a
layout. Its two low bits tell which, so no word stands for two kinds, and the readers give back what was
written up to what the word has no room for: the low two bits of an address, the bits of a size from 62 on, and the
letters of a layout beyond pointer or not.
-/

namespace GarbageCollector.Soundness

open Model Proofs

/-- What a header word can stand for. -/
inductive HeaderValue where
  | formatString (address : Word)
  | forwarding (address : Word)
  | raw (bytes : ℕ)
  | layout (format : List Char)
deriving DecidableEq, Repr

namespace HeaderValue

/-- The word that stands for a value, where there is one. -/
def word : HeaderValue → Option Word
  | formatString address => if maskFromMsb address 62 = 0 then some address else none
  | forwarding address => some (setHeaderForwardAddress address)
  | raw bytes => some (createRawHeader bytes)
  | layout format => if format ≠ [] ∧ Expanded format then toBitVector format else none

/-- What is left of a value in a word. -/
def normal : HeaderValue → HeaderValue
  | formatString address => formatString address
  | forwarding address => forwarding (maskFromLsb address 2)
  | raw bytes => raw (bytes % 2 ^ 62)
  | layout format => layout (decodedLayout format)

end HeaderValue

/-- What the readers make of a word. -/
def readHeader (word : Word) : Except Fault (Option HeaderValue) :=
  match getHeaderType word with
  | .ptrToFormatString => .ok (some (.formatString (headerGetAddress word)))
  | .forwardingAddress => .ok (some (.forwarding (headerGetAddress word)))
  | .rawLayout => .ok (some (.raw (rawLayoutGetSize word)))
  | .bitVector => do
    let format ← bitVectorToFormatString word
    .ok (format.map .layout)

/-- The layout bits of a layout. -/
def layoutBits (format : List Char) : Word := getLayoutBitsField ((toBitVector format).getD 0)

/-- The size and the layout bits that a value stands for; those of a string are those of the layout that it is
parsed to. -/
inductive Measures (stringAt : Word → Except Fault (List Char)) : HeaderValue → ℕ → Word → Prop
  | formatString {address : Word} {text format : List Char} (string : stringAt address = .ok text)
      (parsed : createFormatStr text = .ok (some format)) :
      Measures stringAt (.formatString address) (formatStrBytes format) (layoutBits format)
  | forwarding {address : Word} : Measures stringAt (.forwarding address) 0 0
  | raw {bytes : ℕ} : Measures stringAt (.raw bytes) (bytes % 2 ^ 62) 0
  | layout {format : List Char} : Measures stringAt (.layout format) (formatStrBytes format) (layoutBits format)

variable {address word word' : Word} {value value' : HeaderValue}

/-- The address of a string keeps its word. -/
theorem maskFromLsb_of_low (low : maskFromMsb address 62 = 0) : maskFromLsb address 2 = address := by
  have mask : maskFromMsb address 62 = address &&& BitVec.ofNat 64 (2 ^ 2 - 1) := rfl
  apply BitVec.eq_of_getLsbD_eq
  intro k bound
  have bit := congrArg (BitVec.getLsbD · k) low
  simp only [mask, BitVec.getLsbD_and, BitVec.getLsbD_ofNat, Nat.testBit_two_pow_sub_one] at bit
  rw [getLsbD_maskFromLsb_two]
  grind

theorem getHeaderType_of_low (low : maskFromMsb address 62 = 0) : getHeaderType address = .ptrToFormatString := by
  rw [getHeaderType, if_pos low]

/-- A forwarding word has the address but for its low two bits. -/
theorem maskFromLsb_setHeaderForwardAddress :
    maskFromLsb (setHeaderForwardAddress address) 2 = maskFromLsb address 2 := by
  apply BitVec.eq_of_getLsbD_eq
  intro k bound
  simp only [getLsbD_maskFromLsb_two, getLsbD_setHeaderForwardAddress]
  grind

theorem setHeaderForwardAddress_maskFromLsb :
    setHeaderForwardAddress (maskFromLsb address 2) = setHeaderForwardAddress address := by
  apply BitVec.eq_of_getLsbD_eq
  intro k bound
  simp only [getLsbD_maskFromLsb_two, getLsbD_setHeaderForwardAddress]
  grind

theorem createRawHeader_mod (bytes : ℕ) : createRawHeader (bytes % 2 ^ 62) = createRawHeader bytes := by
  apply BitVec.eq_of_getLsbD_eq
  intro k bound
  rw [getLsbD_createRawHeader, getLsbD_createRawHeader, Nat.testBit_mod_two_pow]
  grind

/-- A layout with letters is not decoded to one without. -/
theorem decodedLayout_ne_nil {format : List Char} (letters : Expanded format) (nonempty : format ≠ []) :
    decodedLayout format ≠ [] := by
  intro empty
  have bytes := formatStrBytes_decodedLayout format
  rw [empty] at bytes
  cases format with
  | nil => exact nonempty rfl
  | cons c rest =>
    have unit := interpretedSize_pos (letters c List.mem_cons_self)
    simp only [formatStrBytes] at bytes
    omega

/-- The readers give back what is left of a value. -/
theorem readHeader_word (stands : value.word = some word) : readHeader word = .ok (some value.normal) := by
  cases value with
  | formatString address =>
    simp only [HeaderValue.word] at stands
    split at stands
    · next low =>
      obtain rfl := Option.some.inj stands
      have type := getHeaderType_of_low low
      simp only [readHeader, type, headerGetAddress, HeaderValue.normal, maskFromLsb_of_low low]
    · cases stands
  | forwarding address =>
    cases stands
    simp only [readHeader, headerGetAddress, getHeaderType_setHeaderForwardAddress, HeaderValue.normal,
      maskFromLsb_setHeaderForwardAddress]
  | raw bytes =>
    cases stands
    have small : bytes % 2 ^ 62 < 2 ^ 62 := Nat.mod_lt _ (by decide)
    rw [← createRawHeader_mod]
    simp only [readHeader, getHeaderType_createRawHeader, rawLayoutGetSize_createRawHeader small,
      HeaderValue.normal]
  | layout format =>
    simp only [HeaderValue.word] at stands
    split at stands
    · next good =>
      simp only [readHeader, getHeaderType_toBitVector stands,
        bitVectorToFormatString_of_toBitVector good.2 good.1 stands]
      rfl
    · cases stands

/-- The readers give the size and the layout bits that a value stands for. -/
theorem measures_word {stringAt : Word → Except Fault (List Char)} {size : ℕ} {bits : Word}
    (stands : value.word = some word) (measures : Measures stringAt value size bits) :
    headerGetSize stringAt word = .ok size ∧ getHeaderLayout stringAt word = .ok bits := by
  cases measures with
  | formatString string parsed =>
    simp only [HeaderValue.word] at stands
    split at stands
    · next low =>
      obtain rfl := Option.some.inj stands
      have type := getHeaderType_of_low low
      constructor
      · simp only [headerGetSize, type, ptrToFormatStringGetSize, string, parsed, Machine.ok_bind]
      · simp only [getHeaderLayout, type, string, parsed, layoutBits, Machine.ok_bind]
    · cases stands
  | forwarding =>
    cases stands
    simp only [headerGetSize, getHeaderLayout, getHeaderType_setHeaderForwardAddress, and_self]
  | @raw bytes =>
    cases stands
    have small : bytes % 2 ^ 62 < 2 ^ 62 := Nat.mod_lt _ (by decide)
    rw [← createRawHeader_mod]
    simp only [headerGetSize, getHeaderLayout, getHeaderType_createRawHeader, rawLayoutGetSize_createRawHeader small,
      and_self]
  | layout =>
    simp only [HeaderValue.word] at stands
    split at stands
    · next good =>
      have type := getHeaderType_toBitVector stands
      have encodes := toNat_getSizeBitsField_toBitVector stands
      constructor
      · simp only [headerGetSize, type, bitVectorGetSize, encodes]
      · simp only [getHeaderLayout, type, layoutBits, stands, Option.getD_some]
    · cases stands

/-- What is left of a value stands in the same word. -/
theorem word_normal (stands : value.word = some word) : value.normal.word = some word := by
  cases value with
  | formatString address => exact stands
  | forwarding address =>
    rw [← stands]
    exact congrArg some setHeaderForwardAddress_maskFromLsb
  | raw bytes =>
    rw [← stands]
    exact congrArg some (createRawHeader_mod bytes)
  | layout format =>
    simp only [HeaderValue.word] at stands
    split at stands
    · next good =>
      have letters := (plain_decodedLayout format).expanded
      rw [HeaderValue.normal, HeaderValue.word, if_pos ⟨decodedLayout_ne_nil good.2 good.1, letters⟩]
      exact toBitVector_decodedLayout good.2 stands
    · cases stands

/-- The readers give back a value and its measures, and two values have one word exactly when the same is left of
them. -/
theorem headerWords_faithful (stands : value.word = some word) (stands' : value'.word = some word') :
    readHeader word = .ok (some value.normal) ∧ (word = word' ↔ value.normal = value'.normal) ∧
      ∀ stringAt size bits, Measures stringAt value size bits →
        headerGetSize stringAt word = .ok size ∧ getHeaderLayout stringAt word = .ok bits := by
  refine ⟨readHeader_word stands, ⟨?_, ?_⟩, fun _ _ _ measures => measures_word stands measures⟩
  · rintro rfl
    have same := (readHeader_word stands).symm.trans (readHeader_word stands')
    exact Option.some.inj (Except.ok.inj same)
  · intro same
    have words := (word_normal stands).symm.trans ((congrArg HeaderValue.word same).trans (word_normal stands'))
    exact Option.some.inj words

/-- Two layouts that differ in their letters only. -/
theorem headerWords_faithful_letters : ∃ word,
    (HeaderValue.layout "l*".toList).word = some word ∧ (HeaderValue.layout "ic*".toList).word = some word ∧
    readHeader word = .ok (some (HeaderValue.layout "ii*".toList)) ∧
    (HeaderValue.layout "l*".toList).normal = (HeaderValue.layout "ic*".toList).normal ∧
    headerGetSize (fun _ => .error .outOfBounds) word = .ok 16 := by
  obtain ⟨word, stands⟩ : ∃ word, (HeaderValue.layout "l*".toList).word = some word :=
    Option.isSome_iff_exists.mp (by decide +kernel)
  have stands' : (HeaderValue.layout "ic*".toList).word = some word := by
    rw [← stands]
    decide +kernel
  obtain ⟨read, words, measured⟩ := headerWords_faithful stands stands'
  exact ⟨word, stands, stands', read, words.mp rfl, (measured _ _ _ .layout).1⟩

end GarbageCollector.Soundness
