import GarbageCollector.Proofs.Session

/-! # Where a collection moves objects and roots

`h_gc_dbg` flips the spaces twice, so it copies into the spaces that hold the objects, and its loop
over the roots stops one short of the last slot. Neither relocation of the objects nor of every root
slot is ever achieved.
-/

namespace GarbageCollector.Soundness

open Model Proofs

/-- A collection into spaces that were inactive: the activity is inverted, the bump pointer starts
at a newly active space, and no copy meets a block that existed. -/
structure Evacuates (s : Session) (collected : Collection) : Prop where
  active : ∀ i < s.heap.numberOfSpaces,
    collected.heap.spaceIsActive[i]? = some true ↔ s.heap.spaceIsActive[i]? = some false
  bump : ∃ prepared, s.heap.prepareCollection = .ok prepared ∧
    ∃ i < s.heap.numberOfSpaces, s.heap.spaceIsActive[i]? = some false ∧
      s.heap.spaces[i]? = some prepared.allocFront
  apart : ∀ evacuation ∈ collected.evacuated, ∀ block ∈ s.blocks,
    evacuation.block.extent.Apart block.extent

theorem collection_sameShape {h : Heap} {stack : Stack} {roots : List ℕ} {collected : Collection}
    (steady : Steady h)
    (ran : Machine.run garbageCollection ⟨(h.setFront h.heapStart).resetUsed, stack, []⟩ roots =
      .ok collected) : SameShape h collected.heap := by
  apply (collection_induction steady.prepared (fun c => SameShape h c.heap) (.prepared h) ?_ ran).2
  intro c₁ c₂ root _ _ same step
  exact same.trans step.sameShape

/-- No collection of any reachable heap, with any roots, evacuates. -/
theorem not_evacuates {s : Session} (reachable : Reachable Call.StructOnly s) (stack : Stack)
    (roots : List ℕ) :
    ¬ ∃ freed collected, hGcDbg s.heap stack roots = .ok (freed, collected) ∧ Evacuates s collected := by
  have steady := steady_of_reachable reachable
  have two := steady.shaped.someSpaces
  rintro ⟨freed, collected, done, evacuates⟩
  obtain ⟨ran, _⟩ := hGcDbg_ok steady.shaped steady.half done
  have same := collection_sameShape steady ran
  have first : s.heap.spaceIsActive[0]? = some true :=
    (steady.half.active_iff (by omega)).mpr (by omega)
  have inverted := (evacuates.active 0 (by omega)).mp (by rw [same.spaceIsActive, first])
  rw [first] at inverted
  cases inverted

/-- Three objects, of which two have roots. -/
def threeObjects : List Call :=
  [.hAllocStruct (some "4i".toList), .hAllocStruct (some "2i".toList), .hAllocStruct (some "6i".toList)]

/-- A stack whose slots point at the second object, the third, and the second again. -/
def threeSlots : Stack := fun slot =>
  if slot = 8 ∨ slot = 24 then 65576 else if slot = 16 then 65600 else 0

theorem not_evacuates_threeObjects : ∃ s freed collected,
    Machine.run Session.step (Session.start smallHeap) threeObjects = .ok s ∧
    hGcDbg s.heap threeSlots [8, 16, 24, 32] = .ok (freed, collected) ∧
    collected.evacuated = [⟨65568, 65536, 8⟩, ⟨65592, 65560, 24⟩] ∧ ¬ Evacuates s collected := by
  obtain ⟨s, ran, found⟩ := exists_of_toOption
    (Machine.run Session.step (Session.start smallHeap) threeObjects)
    (fun s => (hGcDbg s.heap threeSlots [8, 16, 24, 32]).toOption.map fun result => result.2.evacuated)
    (some [⟨65568, 65536, 8⟩, ⟨65592, 65560, 24⟩]) (by decide +kernel)
  obtain ⟨⟨freed, collected⟩, done, evacuated⟩ := exists_of_toOption _ _ _ found
  have reachable : Reachable Call.StructOnly s :=
    ⟨smallHeap, booted_smallHeap, threeObjects, by simp [threeObjects, Call.StructOnly], ran⟩
  refine ⟨s, freed, collected, ran, done, evacuated, fun evacuates => ?_⟩
  exact not_evacuates reachable threeSlots [8, 16, 24, 32] ⟨freed, collected, done, evacuates⟩

/-- Two objects, of which a root reaches the second. -/
def twoObjects : List Call := [.hAllocStruct (some "4i".toList), .hAllocStruct (some "2i".toList)]

/-- A stack whose two slots point at the second object. -/
def twoSlots : Stack := fun slot => if slot = 8 ∨ slot = 16 then 65576 else 0

/-- The second object is copied onto the first, in the space that was active all along. -/
theorem exists_not_evacuates : ∃ s freed collected,
    Machine.run Session.step (Session.start smallHeap) twoObjects = .ok s ∧
    hGcDbg s.heap twoSlots [8, 16] = .ok (freed, collected) ∧
    collected.heap.spaceIsActive = s.heap.spaceIsActive ∧
    collected.evacuated = [⟨65568, 65536, 8⟩] ∧ ⟨65536, 16⟩ ∈ s.blocks ∧
    ¬ Evacuates s collected := by
  obtain ⟨s, ran, found⟩ := exists_of_toOption
    (Machine.run Session.step (Session.start smallHeap) twoObjects)
    (fun s => (s.blocks, s.heap.spaceIsActive, (hGcDbg s.heap twoSlots [8, 16]).toOption.map
      fun result => (result.2.heap.spaceIsActive, result.2.evacuated)))
    ([⟨65568, 8⟩, ⟨65536, 16⟩], [true, true, false, false],
      some ([true, true, false, false], [⟨65568, 65536, 8⟩])) (by decide +kernel)
  obtain ⟨blocks, found⟩ := Prod.mk.inj found
  obtain ⟨flags, found⟩ := Prod.mk.inj found
  obtain ⟨⟨freed, collected⟩, done, found⟩ := exists_of_toOption _ _ _ found
  obtain ⟨flags', evacuated⟩ := Prod.mk.inj found
  refine ⟨s, freed, collected, ran, done, flags'.trans flags.symm, evacuated, by simp [blocks], ?_⟩
  intro evacuates
  have apart := evacuates.apart ⟨65568, 65536, 8⟩ (by simp [show collected.evacuated = _ from evacuated])
    ⟨65536, 16⟩ (by simp [blocks])
  exact Extent.not_apart_of_mem (show 65536 ∈ Extent.bytes _ by decide) (by decide) apart

/-- After a collection every slot points into the copy of its object, at the same offset. -/
def Follows (s : Session) (stack : Stack) (roots : List ℕ) (collected : Collection) : Prop :=
  ∃ copyOf : Block → ℕ, ∀ slot ∈ roots, ∀ block ∈ s.blocks, (stack slot).toNat ∈ block.data.bytes →
    copyOf block ≠ block.header ∧
    (∃ evacuation ∈ collected.evacuated,
      evacuation.oldHeader = block.header ∧ evacuation.newHeader = copyOf block) ∧
    (collected.stack slot).toNat = copyOf block + ((stack slot).toNat - block.header)

/-- A slot that the loop does not visit keeps its value. -/
theorem stack_unvisited {c c' : Collection} {visited : List ℕ} {slot : ℕ} (steady : Steady c.heap)
    (unvisited : slot ∉ visited) (ran : Machine.run garbageCollection c visited = .ok c') :
    c'.stack slot = c.stack slot := by
  apply (collection_induction steady (fun c₁ => c₁.stack slot = c.stack slot) rfl ?_ ran).2
  intro c₁ c₂ root member _ same step
  have other : slot ≠ root := fun here => unvisited (here ▸ member)
  cases step with
  | skipped unchanged => rw [unchanged, same]
  | forwarded value found rewritten =>
    rw [rewritten]
    exact (Function.update_of_ne other _ _).trans same
  | evacuated header found h layout newHeader size done =>
    rw [done.stack, Function.update_of_ne other, same]

/-- The loop over the roots never reaches the last slot. -/
theorem getLast_not_visited {roots : List ℕ} (nonempty : roots ≠ []) (distinct : roots.Nodup) :
    roots.getLast nonempty ∉ visitedRoots roots := by
  rw [visitedRoots, ← List.dropLast_eq_take]
  intro member
  have split := List.dropLast_append_getLast nonempty
  rw [← split, List.nodup_append] at distinct
  exact distinct.2.2 _ member _ (List.mem_singleton_self _) rfl

/-- Whatever the roots, the last slot is left behind. -/
theorem not_follows {s : Session} (reachable : Reachable Call.StructOnly s) (stack : Stack)
    {roots : List ℕ} (nonempty : roots ≠ []) (distinct : roots.Nodup)
    (pointing : ∀ slot ∈ roots, ∃ block ∈ s.blocks, (stack slot).toNat ∈ block.data.bytes) :
    ¬ ∃ freed collected, hGcDbg s.heap stack roots = .ok (freed, collected) ∧
      Follows s stack roots collected := by
  have steady := steady_of_reachable reachable
  rintro ⟨freed, collected, done, copyOf, follows⟩
  obtain ⟨ran, _⟩ := hGcDbg_ok steady.shaped steady.half done
  have last := List.getLast_mem nonempty
  obtain ⟨block, member, inside⟩ := pointing _ last
  obtain ⟨relocated, _, moved⟩ := follows _ last block member inside
  have kept := stack_unvisited steady.prepared (getLast_not_visited nonempty distinct) ran
  rw [kept] at moved
  apply relocated
  simp only [Extent.mem_bytes, Block.data, Block.dataStart] at inside
  dsimp only at moved
  omega

/-- Two slots into one object. -/
theorem not_follows_two_slots : ∃ s,
    Machine.run Session.step (Session.start smallHeap) twoObjects = .ok s ∧
    ¬ ∃ freed collected, hGcDbg s.heap twoSlots [8, 16] = .ok (freed, collected) ∧
      Follows s twoSlots [8, 16] collected := by
  obtain ⟨s, ran, blocks⟩ := exists_of_toOption
    (Machine.run Session.step (Session.start smallHeap) twoObjects) (fun s => s.blocks)
    [⟨65568, 8⟩, ⟨65536, 16⟩] (by decide +kernel)
  have reachable : Reachable Call.StructOnly s :=
    ⟨smallHeap, booted_smallHeap, twoObjects, by simp [twoObjects, Call.StructOnly], ran⟩
  refine ⟨s, ran, not_follows reachable twoSlots (by decide) (by decide) ?_⟩
  intro slot member
  refine ⟨⟨65568, 8⟩, by simp [show s.blocks = _ from blocks], ?_⟩
  simp only [List.mem_cons, List.not_mem_nil, or_false] at member
  rcases member with rfl | rfl <;> decide

/-- The first of two slots into one object follows it, the second keeps its old value. -/
theorem exists_not_follows : ∃ s freed collected,
    Machine.run Session.step (Session.start smallHeap) twoObjects = .ok s ∧
    hGcDbg s.heap twoSlots [8, 16] = .ok (freed, collected) ∧
    collected.stack 8 = 65544 ∧ collected.stack 16 = 65576 ∧
    ¬ Follows s twoSlots [8, 16] collected := by
  obtain ⟨s, ran, found⟩ := exists_of_toOption
    (Machine.run Session.step (Session.start smallHeap) twoObjects)
    (fun s => (s.blocks, (hGcDbg s.heap twoSlots [8, 16]).toOption.map
      fun result => (result.2.stack 8, result.2.stack 16)))
    ([⟨65568, 8⟩, ⟨65536, 16⟩], some (65544, 65576)) (by decide +kernel)
  obtain ⟨blocks, found⟩ := Prod.mk.inj found
  obtain ⟨⟨freed, collected⟩, done, found⟩ := exists_of_toOption _ _ _ found
  obtain ⟨first, second⟩ := Prod.mk.inj found
  refine ⟨s, freed, collected, ran, done, first, second, ?_⟩
  rintro ⟨copyOf, follows⟩
  have member : (⟨65568, 8⟩ : Block) ∈ s.blocks := by simp [blocks]
  obtain ⟨_, _, same⟩ := follows 8 (by simp) ⟨65568, 8⟩ member (by decide)
  obtain ⟨_, _, other⟩ := follows 16 (by simp) ⟨65568, 8⟩ member (by decide)
  rw [show collected.stack 8 = 65544 from first] at same
  rw [show collected.stack 16 = 65576 from second] at other
  have values : (twoSlots 8).toNat = 65576 ∧ (twoSlots 16).toNat = 65576 := by decide
  rw [values.1] at same
  rw [values.2, ← same] at other
  exact absurd other (by decide)

end GarbageCollector.Soundness
