import GarbageCollector.Proofs.Copying

/-! # When a struct with room is placed

After `h_alloc_struct` calls alone the spaces behind the current one are never reached by a struct that
does not fit: in an active space the walk to the next one is not entered. Such a struct gets `NULL`, or
the start of the current space, over the objects there. So the room of a later space helps no struct;
one is placed as it should be exactly when it fits in the current space.
-/

namespace GarbageCollector.Soundness

open Model Proofs

/-- The calls of `h_alloc_struct`. -/
def AllocatesStruct (call : Call) : Prop := ∃ layout, call = .hAllocStruct layout

/-- A struct of the size fits behind the bump pointer of the current active space. -/
def FitsCurrent (h : Heap) (size : ℕ) : Prop :=
  ∃ index space, CurrentSpace h index space ∧
    h.allocFront + (size + headerSizeBytes * 2) ≤ space + spaceSize

/-- An active space behind the current one in which no block has been placed. -/
structure Untouched (s : Session) (i space : ℕ) : Prop where
  later : ∃ index : ℕ, s.heap.spaceIndex = .ok (index : ℤ) ∧ index < i
  active : s.heap.spaceIsActive[i]? = some true
  starts : s.heap.spaces[i]? = some space
  empty : ∀ block ∈ s.blocks, block.extent.stop ≤ space ∨ space + spaceSize ≤ block.extent.start

/-- The struct goes behind the bump pointer or into an untouched space. -/
def PlacedWell (s : Session) (layout : Option (List Char)) (size : ℕ) : Prop :=
  ∃ p h', s.heap.hAllocStruct layout = .ok (some p, h') ∧
    (s.heap.allocFront + headerSizeBytes ≤ p ∨ ∃ i space, Untouched s i space ∧
      space + headerSizeBytes ≤ p ∧ p + size + headerSizeBytes ≤ space + spaceSize)

/-- With enough bytes available and room in the current or in an untouched space, the struct is placed. -/
def ServesStruct (s : Session) (layout : Option (List Char)) (size : ℕ) : Prop :=
  size + 16 ≤ s.heap.hAvail → (FitsCurrent s.heap size ∨ ∃ i space, Untouched s i space) →
    PlacedWell s layout size

section Steady

variable {s : Session} {layout : Option (List Char)} {size index space : ℕ} {word : Word}

/-- A struct that fits in the current space goes behind the bump pointer. -/
theorem placedWell_of_fits (steady : Steady s.heap)
    (within : s.heap.allocFront ≤ s.heap.heapStart + s.heap.numberOfSpaces / 2 * 2048)
    (request : s.heap.structRequest layout = .ok (some (size, word))) (fits : FitsCurrent s.heap size) :
    PlacedWell s layout size := by
  obtain ⟨index, space, current, room⟩ := fits
  have inHeap := front_le_of_firstHalf within
  obtain ⟨early, start, le⟩ := current.bounds steady.shaped steady.half steady.front
  have index_eq := current.index_eq steady.shaped steady.front inHeap
  have spacesFit := steady.shaped.spacesFit
  simp only [headerSizeBytes, spaceSize] at room spacesFit
  have first : size + 8 ≤ spaceLeft s.heap.allocFront space := by
    rw [spaceLeft_eq le (by omega)]
    omega
  have second : size + 8 ≤ spaceLeft (s.heap.allocFront + 8) space := by
    rw [spaceLeft_eq (by omega) (by omega)]
    omega
  have moved : Shaped (s.heap.setFront s.heap.allocFront) := (SameShape.setFront _ _).shaped steady.shaped
  have bound : index < s.heap.numberOfSpaces := by omega
  have inside : s.heap.allocFront + size + 16 ≤ space + 2048 := by omega
  have started : s.heap.allocFront ≤ s.heap.heapStart + s.heap.size := by omega
  obtain ⟨h', written⟩ := placeStruct_exists moved word bound start le inside started
  refine ⟨_, h', ?_, .inl le_rfl⟩
  rw [hAllocStruct_of_current request current (if_pos first).symm, if_pos second]
  exact written

/-- A struct that is placed well fits in the current space. -/
theorem fits_of_placedWell (steady : Steady s.heap)
    (within : s.heap.allocFront ≤ s.heap.heapStart + s.heap.numberOfSpaces / 2 * 2048)
    (request : s.heap.structRequest layout = .ok (some (size, word)))
    (placed : PlacedWell s layout size) : FitsCurrent s.heap size := by
  obtain ⟨p, h', ok, goal⟩ := placed
  rcases hAllocStruct_ok steady.shaped steady.half ok with
    ⟨null, _⟩ | ⟨size', header, index, space, word', returned, struct⟩
  · cases null
  cases request.symm.trans struct.request
  obtain rfl := Option.some.inj returned
  have inHeap := front_le_of_firstHalf within
  obtain ⟨lower, upper⟩ := struct.inside steady.shaped steady.half steady.front inHeap
  obtain ⟨early, start, _⟩ := struct.current.bounds steady.shaped steady.half steady.front
  refine ⟨index, space, struct.current, ?_⟩
  simp only [headerSizeBytes, spaceSize] at goal ⊢
  rcases struct.header_cases steady.shaped steady.half steady.front with ⟨_, stays⟩ | ⟨_, rewound, before⟩
  · omega
  · rcases goal with behind | ⟨i, other, untouched, after, _⟩
    · omega
    · obtain ⟨here, indexed, less⟩ := untouched.later
      have same := indexed.symm.trans struct.current.indexed
      rw [Except.ok.injEq, Int.natCast_inj] at same
      obtain ⟨_, other_eq⟩ := steady.shaped.space_eq untouched.starts
      simp only [spaceSize] at other_eq
      omega

end Steady

theorem firstHalf_of_structs {s : Session} (reachable : Reachable AllocatesStruct s) :
    FirstHalf s.heap s.blocks := by
  obtain ⟨h, booted, calls, structs, ran⟩ := reachable
  apply firstHalf_of_reachable
  refine ⟨h, booted, calls, fun call member => ?_, ran⟩
  obtain ⟨layout, rfl⟩ := structs call member
  trivial

section Served

variable {s : Session} {text format : List Char}

/-- Where a later space is untouched, only a struct that fits in the current one is served. -/
theorem fits_of_servesStruct (reachable : Reachable AllocatesStruct s)
    (created : createFormatStr text = .ok (some format)) (enough : enoughBitsForLayout format = true)
    (nonempty : text ≠ []) (serves : ServesStruct s (some text) (formatStrBytes format))
    (available : formatStrBytes format + 16 ≤ s.heap.hAvail) (later : ∃ i space, Untouched s i space) :
    FitsCurrent s.heap (formatStrBytes format) := by
  have half := firstHalf_of_structs reachable
  obtain ⟨word, request⟩ := structRequest_of_format created enough nonempty
    (show formatStrBytes format + 8 ≤ s.heap.hAvail by omega)
  exact fits_of_placedWell half.steady half.within request (serves available (.inr later))

/-- A struct with room is served exactly when it does not depend on a later space: wherever a later space
is untouched and the bytes are available, it has to fit in the current space. -/
theorem servesStruct_iff (reachable : Reachable AllocatesStruct s)
    (created : createFormatStr text = .ok (some format)) (enough : enoughBitsForLayout format = true)
    (nonempty : text ≠ []) : ServesStruct s (some text) (formatStrBytes format) ↔
      (formatStrBytes format + 16 ≤ s.heap.hAvail → (∃ i space, Untouched s i space) →
        FitsCurrent s.heap (formatStrBytes format)) := by
  constructor
  · exact fits_of_servesStruct reachable created enough nonempty
  · intro fits available room
    have half := firstHalf_of_structs reachable
    obtain ⟨word, request⟩ := structRequest_of_format created enough nonempty
      (show formatStrBytes format + 8 ≤ s.heap.hAvail by omega)
    apply placedWell_of_fits half.steady half.within request
    rcases room with current | later
    · exact current
    · exact fits available later

end Served

/-- Seven structs of 216 bytes leave room for another. -/
theorem servesStruct_sevenStructs : ∃ s, Machine.run Session.step (Session.start smallHeap)
      (List.replicate 7 (.hAllocStruct (some "54i".toList))) = .ok s ∧
    (∃ h', s.heap.hAllocStruct (some "2i".toList) = .ok (some 67168, h')) ∧
    ServesStruct s (some "2i".toList) 8 := by
  obtain ⟨s, ran, view⟩ := exists_of_toOption (Machine.run Session.step (Session.start smallHeap)
    (List.replicate 7 (.hAllocStruct (some "54i".toList))))
    (fun s => ([s.heap.allocFront, s.heap.heapStart, s.heap.numberOfSpaces], s.heap.spaceIsActive[0]?,
      s.heap.spaces[0]?, (s.heap.hAllocStruct (some "2i".toList)).toOption.map Prod.fst))
    ([67160, 65536, 4], some true, some 65536, some (some 67168)) (by decide +kernel)
  simp only [Prod.mk.injEq, List.cons.injEq, and_true] at view
  obtain ⟨⟨front, start, count⟩, active, starts, returned⟩ := view
  obtain ⟨⟨_, next⟩, allocated, rfl⟩ := exists_of_toOption _ _ _ returned
  have reachable : Reachable AllocatesStruct s := ⟨smallHeap, booted_smallHeap, _, fun call member =>
    ⟨_, List.eq_of_mem_replicate member⟩, ran⟩
  have half := firstHalf_of_structs reachable
  have created : createFormatStr "2i".toList = .ok (some "ii".toList) := by decide +kernel
  refine ⟨s, ran, ⟨next, allocated⟩, (servesStruct_iff reachable created (by decide) (by decide)).mpr ?_⟩
  intro _ _
  refine ⟨0, 65536, ⟨?_, active, starts⟩, ?_⟩
  · rw [spaceIndex_eq half.steady.shaped half.steady.front, front, start]
    rfl
  · rw [front]
    decide

/-- Eight structs of 216 bytes leave 192 bytes of the first space, and the second one is empty. One more
of 216 bytes goes to the start of the first space, and one of 180 bytes gets `NULL`. -/
theorem exists_not_servesStruct : ∃ s, Reachable AllocatesStruct s ∧
    (∃ h', s.heap.hAllocStruct (some "54i".toList) = .ok (some 65544, h')) ∧
    ¬ ServesStruct s (some "54i".toList) 216 ∧
    (∃ h', s.heap.hAllocStruct (some "45i".toList) = .ok (none, h')) ∧
    ¬ ServesStruct s (some "45i".toList) 180 := by
  obtain ⟨s, ran, view⟩ := exists_of_toOption (Machine.run Session.step (Session.start smallHeap)
    (List.replicate 8 (.hAllocStruct (some "54i".toList))))
    (fun s => ([s.heap.allocFront, s.heap.heapStart, s.heap.hAvail, s.heap.numberOfSpaces], s.blocks,
      [(s.heap.hAllocStruct (some "54i".toList)).toOption.map Prod.fst,
        (s.heap.hAllocStruct (some "45i".toList)).toOption.map Prod.fst]))
    ([67392, 65536, 4544, 4], (List.range 8).reverse.map fun i => ⟨65536 + 232 * i, 216⟩,
      [some (some 65544), some none])
    (by decide +kernel)
  simp only [Prod.mk.injEq, List.cons.injEq, and_true] at view
  obtain ⟨⟨front, start, available, count⟩, blocks, large, null⟩ := view
  obtain ⟨⟨_, larger⟩, ranLarge, rfl⟩ := exists_of_toOption _ _ _ large
  obtain ⟨⟨_, smaller⟩, ranNull, rfl⟩ := exists_of_toOption _ _ _ null
  have reachable : Reachable AllocatesStruct s := ⟨smallHeap, booted_smallHeap, _, fun call member =>
    ⟨_, List.eq_of_mem_replicate member⟩, ran⟩
  have half := firstHalf_of_structs reachable
  have indexed := spaceIndex_eq half.steady.shaped half.steady.front
  have untouched : Untouched s 1 67584 := by
    refine ⟨⟨0, ?_, by omega⟩, (half.steady.half.active_iff (by omega)).mpr (by omega), ?_, ?_⟩
    · rw [indexed, front, start]
      rfl
    · rw [half.steady.shaped.space (by omega), start]
      rfl
    · rw [blocks]
      decide
  have full {size : ℕ} (wide : 176 < size) : ¬ FitsCurrent s.heap size := by
    rintro ⟨index, space, current, room⟩
    obtain ⟨_, space_eq, _⟩ := current.bounds half.steady.shaped half.steady.half half.steady.front
    have index_eq := current.index_eq half.steady.shaped half.steady.front (by omega)
    simp only [headerSizeBytes, spaceSize] at room
    omega
  refine ⟨s, reachable, ⟨larger, ranLarge⟩, fun serves => ?_, ⟨smaller, ranNull⟩, fun serves => ?_⟩
  · have created : createFormatStr "54i".toList = .ok (some (List.replicate 54 'i')) := by decide +kernel
    have fits := fits_of_servesStruct reachable created (by decide) (by decide) serves
      (by rw [available]; decide) ⟨1, 67584, untouched⟩
    exact full (show 176 < 216 by omega) fits
  · have created : createFormatStr "45i".toList = .ok (some (List.replicate 45 'i')) := by decide +kernel
    have fits := fits_of_servesStruct reachable created (by decide) (by decide) serves
      (by rw [available]; decide) ⟨1, 67584, untouched⟩
    exact full (show 176 < 180 by omega) fits

end GarbageCollector.Soundness
