import GarbageCollector.Model.Strings
import GarbageCollector.Soundness.Disjoint

/-! # Strings that have been duplicated

`h_strdup` puts a string behind everything that the heap holds. As long as no struct sends the bump pointer
back and nobody writes into a string, every string that was ever duplicated reads as it did.
-/

namespace GarbageCollector.Soundness

open Model Proofs

/-- A session with the strings that it has duplicated, latest first. -/
structure StringSession where
  session : Session
  strings : List (ℕ × List (BitVec 8))

inductive StringCall where
  | call (call : Call)
  | hStrdup (str : List (BitVec 8))

namespace StringSession

def start (h : Heap) : StringSession := ⟨.start h, []⟩

def step (s : StringSession) : StringCall → Except Fault StringSession
  | .call call => do
    let session ← s.session.step call
    .ok { s with session := session }
  | .hStrdup str => do
    let outcome ← s.session.heap.hStrdup str
    let session := s.session.handOut (str.length + 1) outcome
    match outcome.1 with
    | none => .ok { s with session := session }
    | some p => .ok ⟨session, (p, str) :: s.strings⟩

end StringSession

/-- No collection, no struct at the start of a space that has blocks, no write into a string, and no zero byte in
front of a terminator. -/
def Careful (s : StringSession) : StringCall → Prop
  | .call (.write address _) => ∀ entry ∈ s.strings, address < entry.1 ∨ entry.1 + entry.2.length < address
  | .call call => call.Allocates ∧ Advances s.session call
  | .hStrdup str => ∀ c ∈ str, c ≠ 0

/-- The strings lie below the bump pointer, one behind the other. -/
structure StringsHeld (s : StringSession) : Prop where
  steady : Steady s.session.heap
  holds : ∀ entry ∈ s.strings, s.session.heap.mem.HoldsString entry.1 entry.2
  below : ∀ entry ∈ s.strings, entry.1 + entry.2.length < s.session.heap.allocFront
  apart : s.strings.Pairwise fun later earlier => earlier.1 + earlier.2.length < later.1

section Duplicates

variable {h h' : Heap} {str : List (BitVec 8)} {result : Option ℕ}

/-- `h_strdup` either finds no room and changes nothing, or places one raw block with the string in it. -/
theorem hStrdup_ok (shaped : Shaped h) (ok : h.hStrdup str = .ok (result, h')) :
    (result = none ∧ h' = h ∧ h.hAvail < str.length + 1) ∨
      ∃ raw, result = some (h.allocFront + 8) ∧ RawPlaced h raw (str.length + 1) ∧
        h' = raw.setMem (raw.mem.storeBytes (h.allocFront + 8) (str ++ [0])) := by
  obtain ⟨⟨newStr, raw⟩, allocated, rest⟩ := bind_ok_iff.mp ok
  rcases hAllocRaw_ok shaped allocated with ⟨rfl, rfl, refused⟩ | ⟨rfl, placed⟩
  · cases rest
    exact .inl ⟨rfl, rfl, by omega⟩
  · obtain ⟨copied, stored, same⟩ := bind_ok_iff.mp rest
    unfold Heap.strcpy at stored
    split at stored
    · cases stored
      cases same
      exact .inr ⟨raw, rfl, placed, rfl⟩
    · cases stored

end Duplicates

section Steps

variable {s s' : StringSession} {call : StringCall}

/-- What leaves the bytes of the strings alone, and the bump pointer where it is or behind, keeps them. -/
theorem StringsHeld.frame (held : StringsHeld s) {session : Session} (steady : Steady session.heap)
    (front : s.session.heap.allocFront ≤ session.heap.allocFront)
    (same : ∀ entry ∈ s.strings, ∀ offset ≤ entry.2.length,
      session.heap.mem (entry.1 + offset) = s.session.heap.mem (entry.1 + offset)) :
    StringsHeld { s with session := session } where
  steady := steady
  holds entry member := (held.holds entry member).congr (same entry member)
  below entry member := (held.below entry member).trans_le front
  apart := held.apart

/-- An allocation puts its block behind the strings. -/
theorem StringsHeld.allocate (held : StringsHeld s) {inner : Call} {session : Session}
    (allocates : inner.Allocates) (advances : Advances s.session inner) (ok : s.session.step inner = .ok session) :
    StringsHeld { s with session := session } := by
  have steady := step_steady held.steady ok
  rcases placed_at_front (step_allocates held.steady allocates ok) held.steady advances with
    rfl | ⟨size, word, _, placed⟩
  · exact held
  · apply held.frame steady
    · rw [placed.front]
      omega
    · intro entry member offset bound
      have below := held.below entry member
      exact placed.mem_outside (.inl (by omega))

/-- The step. -/
theorem StringsHeld.step (held : StringsHeld s) (careful : Careful s call) (ok : s.step call = .ok s') :
    StringsHeld s' := by
  cases call with
  | call inner =>
    obtain ⟨session, stepped, same⟩ := bind_ok_iff.mp ok
    cases same
    cases inner with
    | hAllocStruct layout => exact held.allocate careful.1 careful.2 stepped
    | hAllocRaw bytes => exact held.allocate careful.1 careful.2 stepped
    | write address value =>
      have steady := step_steady held.steady stepped
      obtain ⟨_, rfl⟩ := step_write stepped
      apply held.frame steady le_rfl
      intro entry member offset bound
      have away := careful entry member
      exact Function.update_of_ne (by omega) _ _
    | hGcDbg stack roots => cases careful.1
  | hStrdup str =>
    obtain ⟨⟨result, h⟩, duplicated, same⟩ := bind_ok_iff.mp ok
    rcases hStrdup_ok held.steady.shaped duplicated with ⟨rfl, rfl, _⟩ | ⟨raw, rfl, placed, rfl⟩
    · cases same
      exact held
    · cases same
      have placed := placed.placed
      have front := placed.front
      have steady : Steady raw := by
        apply placed.shape.steady held.steady
        have inside := placed.inside.1
        omega
      have length : (str ++ [0#8]).length = str.length + 1 := by simp
      refine ⟨(SameShape.setMem raw _).steady steady steady.front, ?_, ?_, ?_⟩
      · intro entry member
        rcases List.mem_cons.mp member with rfl | old
        · exact ByteMemory.holdsString_storeBytes careful
        · apply (held.holds entry old).congr
          intro offset bound
          have below := held.below entry old
          exact (ByteMemory.storeBytes_of_outside (.inl (by omega))).trans (placed.mem_outside (.inl (by omega)))
      · intro entry member
        change _ < raw.allocFront
        rcases List.mem_cons.mp member with rfl | old
        · dsimp only
          omega
        · have below := held.below entry old
          omega
      · rw [List.pairwise_cons]
        refine ⟨?_, held.apart⟩
        intro entry old
        have below := held.below entry old
        dsimp only
        omega

end Steps

/-- What a client reads of the strings that it has duplicated. -/
structure StringsRead (s : StringSession) : Prop where
  reads : ∀ entry ∈ s.strings, ∀ fuel, entry.2.length < fuel →
    s.session.heap.mem.cString fuel entry.1 = some entry.2
  /-- The strings share no byte, nor do their terminators. -/
  apart : s.strings.Pairwise fun later earlier => earlier.1 + earlier.2.length < later.1
  inside : ∀ entry ∈ s.strings, entry.1 + entry.2.length < s.session.heap.allocFront

/-- After a careful run every string that was duplicated reads as it did. -/
theorem strings_survive {h : Heap} (booted : Booted h) {calls : List StringCall} {s : StringSession}
    (careful : Machine.Along StringSession.step Careful (.start h) calls)
    (ran : Machine.run StringSession.step (.start h) calls = .ok s) : StringsRead s := by
  have fresh : StringsHeld (.start h) :=
    ⟨(fresh_of_booted booted).steady, fun entry member => (List.not_mem_nil member).elim,
      fun entry member => (List.not_mem_nil member).elim, .nil⟩
  have held := Machine.run_invariant StringsHeld (fun held careful ok => held.step careful ok) careful fresh ran
  exact ⟨fun entry member fuel enough => (held.holds entry member).cString enough, held.apart, held.below⟩

/-- Two short strings with a raw block between them. -/
def twoStrings : List StringCall := [.hStrdup [104, 105], .call (.hAllocRaw 5), .hStrdup [121, 111]]

theorem strings_survive_two : ∃ s, Machine.run StringSession.step (.start smallHeap) twoStrings = .ok s ∧
    s.strings = [(65584, [121, 111]), (65544, [104, 105])] ∧ StringsRead s := by
  obtain ⟨s, ran, strings⟩ := exists_of_toOption
    (Machine.run StringSession.step (.start smallHeap) twoStrings) (fun s => s.strings)
    [(65584, [121, 111]), (65544, [104, 105])] (by decide +kernel)
  have careful : Machine.Along StringSession.step Careful (.start smallHeap) twoStrings := by
    refine ⟨?_, fun _ _ => ⟨⟨trivial, trivial⟩, fun _ _ => ⟨?_, fun _ _ => trivial⟩⟩⟩
    · intro c member
      revert c member
      decide
    · intro c member
      revert c member
      decide
  exact ⟨s, ran, strings, strings_survive booted_smallHeap careful ran⟩

end GarbageCollector.Soundness
