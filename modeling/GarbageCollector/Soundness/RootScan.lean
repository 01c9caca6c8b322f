import GarbageCollector.Model.TraverseStack
import GarbageCollector.Proofs.Boot
import Mathlib.Data.List.Nodup

/-! # The roots that the scan finds

With `validate_ptr` as a predicate on words, `root_ptrs` returns the slots whose words it accepts, in the
order of the scan, in an array that always has room for the next one. The loop that overwrites them counts
with an `int`, so it reaches all of them exactly when there are fewer than 2³¹.
-/

namespace GarbageCollector.Soundness

open Model Proofs

/-- The slots from `current` down to the one above `stackBottom`, as the loop visits them. -/
def scannedSlots (stackBottom current : ℕ) : List ℕ :=
  if stackBottom < current then current :: scannedSlots stackBottom (current - 8) else []
termination_by current
decreasing_by omega

/-- The scanned slots whose words are accepted. -/
def hits (stack : Stack) (valid : Word → Bool) (stackBottom current : ℕ) : List ℕ :=
  (scannedSlots stackBottom current).filter fun slot => valid (stack slot)

/-- The roots are the given slots, and only these are overwritten. -/
structure ExactRoots (h : Heap) (stack : Stack) (frameAddress environ : ℕ) (dbgValue : Word)
    (slots : List ℕ) : Prop where
  distinct : slots.Nodup
  returned : ∃ array, rootPtrs h stack frameAddress environ = .ok array ∧ array.found = slots.length ∧
    array.pointers.take array.found = slots.map some ∧ array.pointers.length = array.capacity
  invalidated : ∃ stack', invalidatePtrsAtHeap h stack frameAddress environ dbgValue = .ok (h, stack') ∧
    ∀ slot, stack' slot = if slot ∈ slots then dbgValue else stack slot

section Array

variable {array : RootArray} {slots : List ℕ} {slot : ℕ}

/-- The array holds the slots in its first cells, and the other cells have not been written. -/
structure HoldsSlots (array : RootArray) (slots : List ℕ) : Prop where
  found : array.found = slots.length
  room : slots.length ≤ array.capacity
  positive : 0 < array.capacity
  cells : array.pointers = slots.map some ++ List.replicate (array.capacity - slots.length) none

theorem holds_start : HoldsSlots .start [] := ⟨rfl, by decide, by decide, rfl⟩

theorem HoldsSlots.length (holds : HoldsSlots array slots) : array.pointers.length = array.capacity := by
  have room := holds.room
  rw [holds.cells, List.length_append, List.length_map, List.length_replicate]
  omega

/-- A full array of reasonable size grows to twice its size and keeps its slots. -/
theorem HoldsSlots.grow (holds : HoldsSlots array slots) (full : array.capacity = slots.length)
    (small : slots.length < 2 ^ 59) : HoldsSlots array.grow slots ∧ slots.length < array.grow.capacity := by
  have positive := holds.positive
  have cells := holds.cells
  have capacity : array.capacity * 2 % 2 ^ 64 = slots.length * 2 := by omega
  have memory : mallocSucceeds (BitVec.ofNat 64 (slots.length * 2 * 8)) = true := by
    rw [mallocSucceeds, decide_eq_true_eq, BitVec.toNat_ofNat]
    omega
  rw [full, Nat.sub_self, List.replicate_zero, List.append_nil] at cells
  have length : (slots.map some).length = slots.length := List.length_map _
  simp only [RootArray.grow, capacity, memory, if_true, cells]
  refine ⟨⟨holds.found, ?_, ?_, ?_⟩, by omega⟩
  · dsimp only
    omega
  · dsimp only
    omega
  · dsimp only
    rw [List.take_of_length_le (by omega), length]

/-- Pushing a slot never leaves the block. -/
theorem HoldsSlots.push (holds : HoldsSlots array slots) (small : slots.length < 2 ^ 59) (slot : ℕ) :
    ∃ array', array.push slot = .ok array' ∧ HoldsSlots array' (slots ++ [slot]) := by
  obtain ⟨next, next_eq⟩ : ∃ next, next = if array.capacity ≤ array.found then array.grow else array :=
    ⟨_, rfl⟩
  have ready : HoldsSlots next slots ∧ slots.length < next.capacity := by
    have found := holds.found
    have room := holds.room
    rw [next_eq]
    split
    · exact holds.grow (by omega) small
    · exact ⟨holds, by omega⟩
  obtain ⟨held, more⟩ := ready
  have inside : next.found < next.pointers.length := by
    rw [held.length, held.found]
    exact more
  obtain ⟨left, left_eq⟩ : ∃ left, next.capacity - slots.length = left + 1 :=
    ⟨next.capacity - slots.length - 1, by omega⟩
  refine ⟨{ next with found := next.found + 1, pointers := next.pointers.set next.found (some slot) }, ?_, ?_⟩
  · rw [RootArray.push, ← next_eq]
    exact if_pos inside
  · refine ⟨?_, ?_, held.positive, ?_⟩
    · simp [held.found]
    · rwa [List.length_append, List.length_singleton]
    · have length : (slots.map some).length = slots.length := List.length_map _
      have after : next.capacity - (slots ++ [slot]).length = left := by
        simp only [List.length_append, List.length_singleton]
        omega
      dsimp only
      rw [held.cells, held.found, left_eq, after, List.set_append_right _ _ length.le, length, Nat.sub_self,
        List.replicate_succ, List.set_cons_zero]
      simp

end Array

section Scan

variable {h : Heap} {stack : Stack} {valid : Word → Bool} {stackBottom current : ℕ} {array : RootArray}
  {slots : List ℕ}

theorem mem_scannedSlots {slot : ℕ} (member : slot ∈ scannedSlots stackBottom current) :
    stackBottom < slot ∧ slot ≤ current := by
  fun_induction scannedSlots stackBottom current with
  | case1 current more ih =>
    rcases List.mem_cons.mp member with rfl | later
    · exact ⟨more, le_rfl⟩
    · obtain ⟨lower, upper⟩ := ih later
      exact ⟨lower, by omega⟩
  | case2 current done => cases member

/-- The scan visits no slot twice. -/
theorem nodup_scannedSlots (stackBottom current : ℕ) : (scannedSlots stackBottom current).Nodup := by
  fun_induction scannedSlots stackBottom current with
  | case1 current more ih =>
    refine List.nodup_cons.mpr ⟨fun again => ?_, ih⟩
    have upper := (mem_scannedSlots again).2
    omega
  | case2 current done => exact List.nodup_nil

/-- The loop appends the slots that it accepts to those that the array holds. -/
theorem rootPtrsFrom_holds
    (validates : ∀ slot ∈ scannedSlots stackBottom current,
      h.validatePtr (stack slot).toNat = .ok (valid (stack slot)))
    (holds : HoldsSlots array slots)
    (few : (slots ++ hits stack valid stackBottom current).length < 2 ^ 59) :
    ∃ array', rootPtrsFrom h stack stackBottom current array = .ok array' ∧
      HoldsSlots array' (slots ++ hits stack valid stackBottom current) := by
  induction current using Nat.strong_induction_on generalizing array slots with
  | _ current ih =>
    rw [rootPtrsFrom]
    rw [hits, scannedSlots] at few ⊢
    by_cases more : stackBottom < current
    · rw [scannedSlots, if_pos more] at validates
      rw [if_pos more] at few ⊢
      rw [if_pos more, validates current List.mem_cons_self]
      have later := fun slot member => validates slot (List.mem_cons_of_mem _ member)
      rw [List.filter_cons, ← hits] at few ⊢
      by_cases accepted : valid (stack current) = true
      · rw [if_pos accepted, List.append_cons] at few ⊢
        obtain ⟨next, pushed, held⟩ := holds.push (by simp at few; omega) current
        obtain ⟨last, ran, final⟩ := ih (current - 8) (by omega) later held few
        refine ⟨last, ?_, final⟩
        change (if valid (stack current) = true then _ else _) = _
        rw [if_pos accepted, if_neg (by simp [pointerCheckVaild])]
        exact bind_ok_iff.mpr ⟨next, pushed, ran⟩
      · rw [if_neg accepted] at few ⊢
        obtain ⟨last, ran, final⟩ := ih (current - 8) (by omega) later holds few
        refine ⟨last, ?_, final⟩
        change (if valid (stack current) = true then _ else _) = _
        rw [if_neg accepted]
        exact ran
    · rw [if_neg more, if_neg more]
      exact ⟨array, rfl, by simpa using holds⟩

end Scan

section Invalidation

variable {stack stack' : Stack} {dbgValue : Word} {array : RootArray} {slots : List ℕ} {i : ℕ}

/-- A completed loop has counted to the number of roots in an `int`. -/
theorem found_lt_of_invalidateFrom (ok : invalidateFrom stack dbgValue array i = .ok stack') :
    array.found ≤ i ∨ array.found < 2 ^ 31 := by
  fun_induction invalidateFrom stack dbgValue array i with
  | case1 stack i more slot found small ih =>
    rcases ih ok with done | few
    · exact .inr (by omega)
    · exact .inr few
  | case2 stack i more slot found large => cases ok
  | case3 stack i more missing => cases ok
  | case4 stack i done => exact .inl (by omega)

/-- The loop overwrites the slots from its index on and no others. -/
theorem invalidateFrom_exists (holds : HoldsSlots array slots) (few : slots.length < 2 ^ 31)
    (started : i ≤ slots.length) : ∃ stack', invalidateFrom stack dbgValue array i = .ok stack' ∧
      ∀ slot, stack' slot = if slot ∈ slots.drop i then dbgValue else stack slot := by
  obtain ⟨left, left_eq⟩ : ∃ left, left = slots.length - i := ⟨_, rfl⟩
  induction left generalizing stack i with
  | zero =>
    refine ⟨stack, ?_, fun slot => ?_⟩
    · rw [invalidateFrom, if_neg (by rw [holds.found]; omega)]
    · rw [List.drop_of_length_le (by omega), if_neg List.not_mem_nil]
  | succ left ih =>
    have inside : i < slots.length := by omega
    have later : ∃ last,
        invalidateFrom (Function.update stack slots[i] dbgValue) dbgValue array (i + 1) = .ok last ∧
          ∀ slot, last slot = if slot ∈ slots.drop (i + 1) then dbgValue
            else Function.update stack slots[i] dbgValue slot :=
      ih (by omega) (by omega)
    obtain ⟨last, ran, final⟩ := later
    have cell : array.pointers[i]? = some (some slots[i]) := by
      rw [holds.cells, List.getElem?_append_left (by simpa using inside), List.getElem?_map,
        List.getElem?_eq_getElem inside]
      rfl
    refine ⟨last, ?_, fun slot => ?_⟩
    · rw [invalidateFrom, if_pos (by rw [holds.found]; exact inside), cell]
      dsimp only
      rw [if_pos (by omega), ran]
    · rw [final slot, List.drop_eq_getElem_cons inside]
      by_cases here : slot = slots[i]
      · have member : slot ∈ slots[i] :: slots.drop (i + 1) := List.mem_cons.mpr (.inl here)
        rw [if_pos member, here, Function.update_self]
        split <;> rfl
      · rw [Function.update_of_ne here]
        simp only [List.mem_cons, here, false_or]

end Invalidation

/-- Exact roots are few, whatever they are. -/
theorem length_lt_of_exactRoots {h : Heap} {stack : Stack} {frameAddress environ : ℕ} {dbgValue : Word}
    {slots : List ℕ} (exactRoots : ExactRoots h stack frameAddress environ dbgValue slots) :
    slots.length < 2 ^ 31 := by
  obtain ⟨array, scanned, found, _⟩ := exactRoots.returned
  obtain ⟨stack', invalidated, _⟩ := exactRoots.invalidated
  obtain ⟨other, again, rest⟩ := bind_ok_iff.mp invalidated
  cases scanned.symm.trans again
  obtain ⟨last, overwritten, _⟩ := bind_ok_iff.mp rest
  rcases found_lt_of_invalidateFrom overwritten with none | few
  · omega
  · omega

/-- The roots are exactly the accepted words, and exactly these are overwritten, when there are fewer than
2³¹ of them and only then. -/
theorem exactRoots_iff {h : Heap} {stack : Stack} {frameAddress environ : ℕ} (dbgValue : Word)
    {valid : Word → Bool}
    (validates : ∀ slot ∈ scannedSlots (min frameAddress environ) (max frameAddress environ),
      h.validatePtr (stack slot).toNat = .ok (valid (stack slot))) :
    ExactRoots h stack frameAddress environ dbgValue
        (hits stack valid (min frameAddress environ) (max frameAddress environ)) ↔
      (hits stack valid (min frameAddress environ) (max frameAddress environ)).length < 2 ^ 31 := by
  constructor
  · exact length_lt_of_exactRoots
  · intro few
    obtain ⟨array, scanned, held⟩ := rootPtrsFrom_holds validates holds_start
      (by rw [List.nil_append]; omega)
    rw [List.nil_append] at held
    have invalidated : ∃ stack', invalidateFrom stack dbgValue array 0 = .ok stack' ∧ ∀ slot, stack' slot =
        if slot ∈ (hits stack valid (min frameAddress environ) (max frameAddress environ)).drop 0 then dbgValue
        else stack slot := invalidateFrom_exists held few (Nat.zero_le _)
    obtain ⟨stack', overwritten, final⟩ := invalidated
    refine ⟨(nodup_scannedSlots _ _).filter _, ⟨array, scanned, held.found, ?_, held.length⟩, stack', ?_, final⟩
    · rw [held.found, held.cells, List.take_append_of_le_length (by simp), List.take_of_length_le (by simp)]
    · exact bind_ok_iff.mpr ⟨array, scanned, bind_ok_iff.mpr ⟨stack', overwritten, rfl⟩⟩

/-- The smallest heap with its first segment marked. -/
def markedHeap : Heap := smallHeap.setMap (BitVec.twoPow 64 63 :: List.replicate 7 0)

/-- A stack with one pointer to that segment. -/
def onePointer : Stack := fun slot => if slot = 800 then 65536 else 0

theorem exactRoots_iff_one_pointer :
    ExactRoots markedHeap onePointer 784 808 0 (hits onePointer (· == 65536) 784 808) ↔
      (hits onePointer (· == 65536) 784 808).length < 2 ^ 31 := by
  have exact_iff : ExactRoots markedHeap onePointer 784 808 0
        (hits onePointer (· == 65536) (min 784 808) (max 784 808)) ↔
      (hits onePointer (· == 65536) (min 784 808) (max 784 808)).length < 2 ^ 31 :=
    exactRoots_iff 0 (by decide +kernel)
  exact exact_iff

theorem length_scannedSlots (stackBottom count : ℕ) :
    (scannedSlots stackBottom (stackBottom + 8 * count)).length = count := by
  induction count with
  | zero => rw [scannedSlots, if_neg (by omega), List.length_nil]
  | succ count ih =>
    rw [scannedSlots, if_pos (by omega), List.length_cons, Nat.mul_succ, ← Nat.add_assoc,
      Nat.add_sub_cancel, ih]

/-- With 2³¹ pointers on the stack the loop that overwrites them overflows its `int`. -/
theorem not_exactRoots_many :
    (∀ slot ∈ scannedSlots 8 (8 + 8 * 2 ^ 31), markedHeap.validatePtr (65536 : Word).toNat = .ok true) ∧
      ¬ ExactRoots markedHeap (fun _ => 65536) 8 (8 + 8 * 2 ^ 31) 0
        (hits (fun _ => 65536) (fun _ => true) 8 (8 + 8 * 2 ^ 31)) := by
  refine ⟨fun _ _ => by decide +kernel, fun exactRoots => ?_⟩
  have few := length_lt_of_exactRoots exactRoots
  rw [hits, List.filter_true, length_scannedSlots] at few
  exact lt_irrefl _ few

end GarbageCollector.Soundness
