import GarbageCollector.Proofs.AnyHeap
import GarbageCollector.Proofs.Layout
import GarbageCollector.Proofs.Session

/-! # Header and footer of one block

The three encoders describe a struct block alike. The footer's size is a `uint8_t`, so a raw block's
footer gives its size exactly when it has fewer than 256 bytes.
-/

namespace GarbageCollector.Soundness

open Model Proofs

variable {h h' : Heap} {header size bytes : ℕ}

/-- What the readers of the two words of a block say about a block of `size` bytes. -/
structure WordsAgree (stringAt : Word → Except Fault (List Char)) (h : Heap) (header size : ℕ) :
    Prop where
  headerSize : headerGetSize stringAt (h.mem.load64 header) = .ok size
  tagged : confirmTag (h.mem.load64 (header + headerSizeBytes + size)) = true
  footerSize : (getSizeBitsField (h.mem.load64 (header + headerSizeBytes + size))).toNat = size
  back : ((header + headerSizeBytes + size : ℕ) : ℤ) -
    (getSizeBitsField (h.mem.load64 (header + headerSizeBytes + size))).toNat - headerSizeBytes = header

theorem getLsbD_createRawHeader (bytes k : ℕ) : (createRawHeader bytes).getLsbD k =
    (decide (k = 1) || (decide (2 ≤ k ∧ k < 64) && bytes.testBit (k - 2))) := by
  have two : (2#64).getLsbD k = decide (k = 1) := by
    rw [show (2#64) = BitVec.twoPow 64 1 by decide, BitVec.getLsbD_twoPow]
    simp [eq_comm]
  rw [createRawHeader, BitVec.getLsbD_or, BitVec.getLsbD_shiftLeft, BitVec.getLsbD_ofNat, two]
  grind

theorem getHeaderType_createRawHeader (bytes : ℕ) :
    getHeaderType (createRawHeader bytes) = .rawLayout := by
  have masked : maskFromMsb (createRawHeader bytes) 62 = 2 := by
    have mask : maskFromMsb (createRawHeader bytes) 62 =
        createRawHeader bytes &&& BitVec.ofNat 64 (2 ^ 2 - 1) := rfl
    have two : (2 : Word) = BitVec.twoPow 64 1 := by decide
    apply BitVec.eq_of_getLsbD_eq
    intro k bound
    rw [mask, two, BitVec.getLsbD_and, getLsbD_createRawHeader, BitVec.getLsbD_ofNat,
      Nat.testBit_two_pow_sub_one, BitVec.getLsbD_twoPow]
    grind
  simp [getHeaderType, masked]

/-- A raw header keeps 62 bits of its size. -/
theorem rawLayoutGetSize_createRawHeader {bytes : ℕ} (small : bytes < 2 ^ 62) :
    rawLayoutGetSize (createRawHeader bytes) = bytes := by
  apply Nat.eq_of_testBit_eq
  intro k
  rw [rawLayoutGetSize, BitVec.testBit_toNat, BitVec.getLsbD_ushiftRight, getLsbD_createRawHeader,
    decide_eq_false (show ¬ 2 + k = 1 by omega), Bool.false_or, Nat.add_sub_cancel_left]
  rcases Nat.lt_or_ge k 62 with inside | outside
  · rw [decide_eq_true (by omega), Bool.true_and]
  · have clear : bytes.testBit k = false :=
      Nat.testBit_lt_two_pow (small.trans_le (Nat.pow_le_pow_right (by omega) outside))
    rw [clear, Bool.and_false]

/-- The header word alone decides whether a block of fewer than 256 bytes is described alike. -/
theorem wordsAgree_of_placed {stringAt : Word → Except Fault (List Char)} {word : Word}
    (placed : Placed h h' header size word) (headerSize : headerGetSize stringAt word = .ok size)
    (small : size < 256) : WordsAgree stringAt h' header size := by
  have footerSize : (getSizeBitsField (h'.mem.load64 (header + headerSizeBytes + size))).toNat = size := by
    rw [placed.load64_footer, toNat_getSizeBitsField_createFooter, Nat.mod_eq_of_lt small]
  refine ⟨?_, ?_, footerSize, ?_⟩
  · rw [placed.load64_header, headerSize]
  · rw [placed.load64_footer, confirmTag_createFooter]
  · rw [footerSize]
    simp only [headerSizeBytes]
    omega

/-- Struct blocks always agree, raw blocks exactly below 256 bytes. -/
theorem wordsAgree_iff (stringAt : Word → Except Fault (List Char)) (h h' : Heap) (p : ℕ) :
    (∀ layout, h.hAllocStruct layout = .ok (some p, h') →
      WordsAgree stringAt h' (p - headerSizeBytes) (layoutBytes layout)) ∧
    (∀ bytes, h.hAllocRaw bytes = .ok (some p, h') →
      (WordsAgree stringAt h' (p - headerSizeBytes) bytes ↔ bytes < 256)) := by
  constructor
  · intro layout ok
    obtain ⟨size, header, index, space, word, rfl, found⟩ := hAllocStruct_found ok
    obtain ⟨_, format, _, _, encoded, rfl, _, _⟩ := structRequest_some found.request
    obtain ⟨small, _⟩ := structRequest_size found.request
    rw [layoutBytes_of_structRequest found.request]
    apply wordsAgree_of_placed found.placed ?_ (by omega)
    rw [headerGetSize, getHeaderType_toBitVector encoded]
    exact congrArg Except.ok (toNat_getSizeBitsField_toBitVector encoded)
  · intro bytes ok
    rcases hAllocRaw_placed ok with ⟨null, _⟩ | ⟨returned, _, _, placed, _⟩
    · cases null
    obtain rfl := Option.some.inj returned
    constructor
    · intro agree
      have footerSize := agree.footerSize
      rw [Nat.add_sub_cancel, placed.load64_footer, toNat_getSizeBitsField_createFooter] at footerSize
      omega
    · intro small
      apply wordsAgree_of_placed placed ?_ small
      rw [headerGetSize, getHeaderType_createRawHeader]
      exact congrArg Except.ok (rawLayoutGetSize_createRawHeader (by omega))

/-- No header here is the address of a string. -/
def noString : Word → Except Fault (List Char) := fun _ => .error .outOfBounds

/-- A struct of 16 bytes and a raw block of 8 on a fresh heap. -/
theorem wordsAgree_struct_and_raw : (∃ h',
    smallHeap.hAllocStruct (some "4i".toList) = .ok (some 65544, h') ∧
      WordsAgree noString h' 65536 16) ∧
    ∃ h', smallHeap.hAllocRaw 8 = .ok (some 65544, h') ∧ WordsAgree noString h' 65536 8 := by
  obtain ⟨⟨p, struct⟩, structRan, rfl⟩ := exists_of_toOption
    (smallHeap.hAllocStruct (some "4i".toList)) (fun result => result.1) (some 65544) (by decide +kernel)
  obtain ⟨⟨p, raw⟩, rawRan, rfl⟩ := exists_of_toOption
    (smallHeap.hAllocRaw 8) (fun result => result.1) (some 65544) (by decide +kernel)
  have agrees := (wordsAgree_iff noString smallHeap struct 65544).1 _ structRan
  rw [show layoutBytes (some "4i".toList) = 16 by decide +kernel] at agrees
  exact ⟨⟨struct, structRan, agrees⟩, raw, rawRan,
    ((wordsAgree_iff noString smallHeap raw 65544).2 8 rawRan).mpr (by decide)⟩

/-- A raw block of 300 bytes on a fresh heap: its header says 300, its footer 44. -/
theorem exists_words_disagree : ∃ h', smallHeap.hAllocRaw 300 = .ok (some 65544, h') ∧
    headerGetSize noString (h'.mem.load64 65536) = .ok 300 ∧
    (getSizeBitsField (h'.mem.load64 65844)).toNat = 44 ∧ ¬ WordsAgree noString h' 65536 300 := by
  obtain ⟨⟨p, h'⟩, ran, found⟩ := exists_of_toOption (smallHeap.hAllocRaw 300)
    (fun result => (result.1, (headerGetSize noString (result.2.mem.load64 65536)).toOption,
      (getSizeBitsField (result.2.mem.load64 65844)).toNat)) (some 65544, some 300, 44)
    (by decide +kernel)
  obtain ⟨rfl, found⟩ := Prod.mk.inj found
  obtain ⟨headerSize, footerSize⟩ := Prod.mk.inj found
  obtain ⟨_, headerSize, rfl⟩ := exists_of_toOption _ id 300 (by simpa using headerSize)
  refine ⟨h', ran, headerSize, footerSize, fun agree => ?_⟩
  have said := agree.footerSize
  rw [show (getSizeBitsField (h'.mem.load64 (65536 + headerSizeBytes + 300))).toNat = 44 from
    footerSize] at said
  cases said

end GarbageCollector.Soundness
