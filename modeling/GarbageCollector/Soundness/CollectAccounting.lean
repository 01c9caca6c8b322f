import GarbageCollector.Soundness.Accounting
import GarbageCollector.Soundness.Relocation
import Mathlib.Algebra.Order.BigOperators.Group.List
import Mathlib.Algebra.Order.Group.Nat
import Mathlib.Data.List.Pairwise

/-! # What a collection counts

A collection counts each object that it evacuates as `h_alloc_struct` does, with `2 * size + 24`
bytes. Its accounting is right, and a second collection frees nothing, exactly when no visit to a root
slot in either collection finds an object to evacuate.
-/

namespace GarbageCollector.Soundness

open Model Proofs

open Heap (RootCase)

/-- The events of distinct objects, one for each old header. -/
def distinctEvacuations (evacuated : List Evacuation) : List Evacuation :=
  evacuated.pwFilter fun first second => first.oldHeader ≠ second.oldHeader

/-- A collection frees no negative amount, its counter is the size of the distinct blocks evacuated, and a
second collection right after it frees nothing. -/
def CountsOnce (s : Session) (stack : Stack) (roots : List ℕ) : Prop :=
  ∃ freed collected, hGcDbg s.heap stack roots = .ok (freed, collected) ∧
    collected.heap.hUsed ≤ s.heap.hUsed ∧
    collected.heap.hUsed =
      ((distinctEvacuations collected.evacuated).map fun event => blockBytes event.block).sum ∧
    ∃ again, hGcDbg collected.heap collected.stack roots = .ok (0, again)

/-- None of so many visits to a slot with this value finds an object to evacuate. -/
def Idle (h : Heap) : ℕ → Word → Prop
  | 0, _ => True
  | visits + 1, value =>
    match h.rootCase value with
    | .ok .skipped => True
    | .ok (.forwarding next) => Idle h visits next
    | _ => False

/-- A value that is skipped once is skipped at every visit. -/
theorem idle_of_skipped {h : Heap} {value : Word} (skipped : h.rootCase value = .ok .skipped)
    (visits : ℕ) : Idle h visits value := by
  cases visits with
  | zero => trivial
  | succ visits => simp only [Idle, skipped]

/-- The condition on all slots after one more visit to one of them. -/
theorem forall_idle_cons_iff {h : Heap} {stack next : Stack} {root : ℕ} {rest : List ℕ}
    (other : ∀ slot, slot ≠ root → next slot = stack slot)
    (here : Idle h (rest.count root + 1) (stack root) ↔ Idle h (rest.count root) (next root)) :
    (∀ slot, slot = 0 ∨ Idle h (rest.count slot) (next slot)) ↔
      ∀ slot, slot = 0 ∨ Idle h ((root :: rest).count slot) (stack slot) := by
  apply forall_congr'
  intro slot
  apply or_congr_right
  by_cases same : slot = root
  · subst same
    rw [List.count_cons_self, here]
  · rw [List.count_cons_of_ne (Ne.symm same), other slot same]

/-- A loop over roots that completes and moves nothing. -/
def Unmoved (c : Collection) (visited : List ℕ) : Prop :=
  ∃ c', Machine.run garbageCollection c visited = .ok c' ∧ c'.evacuated = c.evacuated

/-- The first visit of a loop that moves nothing. -/
theorem unmoved_cons_iff {c next : Collection} {root : ℕ} {rest : List ℕ}
    (stepped : garbageCollection c root = .ok next) (same : next.evacuated = c.evacuated) :
    Unmoved c (root :: rest) ↔ Unmoved next rest := by
  simp only [Unmoved, Machine.run_cons_ok_iff, stepped, Except.ok.injEq, exists_eq_left', same]

/-- A loop that begins with an evacuation moves something. -/
theorem not_unmoved_cons {c : Collection} {root header : ℕ} {rest : List ℕ} (steady : Steady c.heap)
    (stepped : garbageCollection c root = evacuate c root header) : ¬ Unmoved c (root :: rest) := by
  rintro ⟨c', ran, none⟩
  obtain ⟨middle, evacuation, tail⟩ := Machine.run_cons_ok_iff.mp ran
  obtain ⟨events, grown⟩ := evacuated_prefix (garbageCollection_steady steady evacuation) tail
  rw [stepped] at evacuation
  obtain ⟨h, layout, newHeader, size, done⟩ := evacuate_ok steady.shaped steady.half evacuation
  rw [grown, done.evacuated] at none
  have lengths := congrArg List.length none
  simp only [List.length_append, List.length_singleton] at lengths
  omega

/-- A loop over roots moves nothing exactly when every slot is idle for as often as it is visited. -/
theorem run_idle_iff {c : Collection} {visited : List ℕ} (steady : Steady c.heap) :
    Unmoved c visited ↔ ∀ slot, slot = 0 ∨ Idle c.heap (visited.count slot) (c.stack slot) := by
  induction visited generalizing c with
  | nil => simp [Unmoved, Idle]
  | cons root rest ih =>
    by_cases null : root = 0
    · subst null
      rw [unmoved_cons_iff (if_pos rfl) rfl, ih steady]
      apply forall_congr'
      intro slot
      by_cases same : slot = 0
      · simp [same]
      · rw [List.count_cons_of_ne (Ne.symm same)]
    have stepped := garbageCollection_of_ne_zero c null
    have busy (broken : ¬ Idle c.heap (rest.count root + 1) (c.stack root)) :
        ¬ ∀ slot, slot = 0 ∨ Idle c.heap ((root :: rest).count slot) (c.stack slot) := by
      intro idle
      apply broken
      have here := (idle root).resolve_left null
      rwa [List.count_cons_self] at here
    cases looked : c.heap.rootCase (c.stack root) with
    | error fault =>
      rw [looked] at stepped
      apply iff_of_false ?_ (busy (by simp only [Idle, looked, not_false_eq_true]))
      rintro ⟨c', ran, _⟩
      obtain ⟨middle, evaluated, _⟩ := Machine.run_cons_ok_iff.mp ran
      cases stepped.symm.trans evaluated
    | ok found =>
      rw [looked] at stepped
      cases found with
      | skipped =>
        rw [unmoved_cons_iff stepped rfl, ih steady]
        apply forall_idle_cons_iff (fun _ _ => rfl)
        exact iff_of_true (idle_of_skipped looked _) (idle_of_skipped looked _)
      | forwarding value =>
        have later := ih (c := { c with stack := Function.update c.stack root value }) steady
        rw [unmoved_cons_iff stepped rfl, later]
        apply forall_idle_cons_iff fun slot other => Function.update_of_ne other _ _
        simp only [Idle, looked, Function.update_self]
      | bitVector header =>
        apply iff_of_false (not_unmoved_cons steady stepped) (busy ?_)
        simp only [Idle, looked, not_false_eq_true]

/-- A loop over roots that moves nothing leaves the heap as it was. -/
theorem heap_of_unmoved {c c' : Collection} {visited : List ℕ} (steady : Steady c.heap)
    (ran : Machine.run garbageCollection c visited = .ok c') (unmoved : c'.evacuated = c.evacuated) :
    c'.heap = c.heap := by
  have kept := (collection_induction steady (fun c₁ => c.evacuated.length ≤ c₁.evacuated.length ∧
    (c₁.heap = c.heap ∨ c.evacuated.length < c₁.evacuated.length)) ⟨le_rfl, .inl rfl⟩ ?_ ran).2.2
  · rw [unmoved] at kept
    exact kept.resolve_right (lt_irrefl _)
  · rintro c₁ c₂ root _ _ ⟨le, same⟩ step
    cases step with
    | skipped unchanged => rw [unchanged]; exact ⟨le, same⟩
    | forwarded value found unchanged => rw [unchanged]; exact ⟨le, same⟩
    | evacuated header found h layout newHeader size done =>
      rw [done.evacuated, List.length_append, List.length_singleton]
      exact ⟨by omega, .inr (by omega)⟩

/-- Along a loop over roots the counter is the sum of what `h_alloc_struct` counts. -/
theorem used_of_run {c c' : Collection} {visited : List ℕ} (steady : Steady c.heap)
    (empty : c.evacuated = []) (zero : c.heap.usedBytes = 0)
    (ran : Machine.run garbageCollection c visited = .ok c') :
    c'.heap.usedBytes = (c'.evacuated.map fun event => countedBytes event.block).sum ∧
      c'.heap.usedBytes < 2 ^ 64 := by
  apply (collection_induction steady (fun c₁ =>
    c₁.heap.usedBytes = (c₁.evacuated.map fun event => countedBytes event.block).sum ∧
    c₁.heap.usedBytes < 2 ^ 64) ⟨by rw [zero, empty]; rfl, by omega⟩ ?_ ran).2
  rintro c₁ c₂ root _ steady₁ ⟨counted, bounded⟩ step
  cases step with
  | skipped same => rw [same]; exact ⟨counted, bounded⟩
  | forwarded value found same => rw [same]; exact ⟨counted, bounded⟩
  | evacuated header found h layout newHeader size done =>
    obtain ⟨index, space, word, placed⟩ := done.placed
    obtain ⟨_, _, _, _, _, _, admitted, _⟩ := structRequest_some placed.request
    obtain ⟨small, _⟩ := structRequest_size placed.request
    have used := done.used
    refine ⟨?_, by omega⟩
    rw [used, used_of_admitted steady₁ (by omega) admitted (.inr small), done.evacuated,
      List.map_append, List.sum_append, counted]
    simp [countedBytes, Evacuation.block]

/-- Counting distinct objects once gives less than the counter, unless nothing was evacuated. -/
theorem distinctEvacuations_sum (evacuated : List Evacuation) (nonempty : evacuated ≠ []) :
    ((distinctEvacuations evacuated).map fun event => blockBytes event.block).sum <
      (evacuated.map fun event => countedBytes event.block).sum := by
  have fewer : (distinctEvacuations evacuated).Sublist evacuated := List.pwFilter_sublist evacuated
  have le : ((distinctEvacuations evacuated).map fun event => blockBytes event.block).sum ≤
      (evacuated.map fun event => blockBytes event.block).sum :=
    (fewer.map _).sum_le_sum fun _ _ => Nat.zero_le _
  have lt : (evacuated.map fun event => blockBytes event.block).sum <
      (evacuated.map fun event => countedBytes event.block).sum := by
    cases evacuated with
    | nil => exact (nonempty rfl).elim
    | cons event rest =>
      have less := blockBytes_lt_countedBytes event.block
      have others := sum_blockBytes_le (rest.map Evacuation.block)
      rw [List.map_map, List.map_map] at others
      simp only [List.map_cons, List.sum_cons]
      exact Nat.add_lt_add_of_lt_of_le less others
  exact le.trans_lt lt

/-- After a loop that moved nothing, the next collection starts where this one ended. -/
theorem prepared_again {h : Heap} {c : Collection}
    (same : c.heap = (h.setFront h.heapStart).resetUsed) (empty : c.evacuated = []) :
    (⟨(c.heap.setFront c.heap.heapStart).resetUsed, c.stack, []⟩ : Collection) = c := by
  obtain ⟨heap, stack, evacuated⟩ := c
  subst same empty
  rfl

theorem idle_prepared (h : Heap) (visits : ℕ) (value : Word) :
    Idle (h.setFront h.heapStart).resetUsed visits value ↔ Idle h visits value := by
  induction visits generalizing value with
  | zero => exact Iff.rfl
  | succ visits ih =>
    simp only [Idle, rootCase_prepared]
    cases h.rootCase value with
    | error fault => exact Iff.rfl
    | ok found =>
      cases found with
      | skipped => exact Iff.rfl
      | bitVector header => exact Iff.rfl
      | forwarding next => exact ih next

/-- A collection counts once, and one right after it frees nothing, exactly when every slot is idle
for all the visits of both. -/
theorem countsOnce_iff {s : Session} (reachable : Reachable Call.StructOnly s) (stack : Stack)
    (roots : List ℕ) :
    CountsOnce s stack roots ↔
      ∀ slot, slot = 0 ∨ Idle s.heap (2 * (visitedRoots roots).count slot) (stack slot) := by
  have steady := steady_of_reachable reachable
  have visits : (∀ slot, slot = 0 ∨ Idle s.heap (2 * (visitedRoots roots).count slot) (stack slot)) ↔
      ∀ slot, slot = 0 ∨ Idle (s.heap.setFront s.heap.heapStart).resetUsed
        ((visitedRoots roots ++ visitedRoots roots).count slot) (stack slot) := by
    apply forall_congr'
    intro slot
    rw [List.count_append, ← Nat.two_mul, idle_prepared]
  rw [visits]
  refine Iff.trans ?_ (run_idle_iff (c := ⟨_, stack, []⟩) steady.prepared)
  constructor
  · rintro ⟨freed, collected, done, _, counted, again, repeated⟩
    obtain ⟨ran, _⟩ := hGcDbg_ok steady.shaped steady.half done
    have steady' := run_garbageCollection_steady steady.prepared ran
    have used := (used_of_run steady.prepared rfl rfl ran).1
    have empty : collected.evacuated = [] := by
      by_contra nonempty
      have less := distinctEvacuations_sum collected.evacuated nonempty
      rw [← used, ← counted] at less
      exact lt_irrefl _ less
    obtain ⟨ran', freed'⟩ := hGcDbg_ok steady'.shaped steady'.half repeated
    obtain ⟨used', bounded⟩ := used_of_run steady'.prepared rfl rfl ran'
    rw [empty] at used
    have zero : again.heap.usedBytes = 0 := by
      simp only [used, List.map_nil, List.sum_nil] at freed'
      omega
    rw [prepared_again (heap_of_unmoved steady.prepared ran empty) empty] at ran'
    refine ⟨again, Machine.run_append_ok_iff.mpr ⟨collected, ran, ran'⟩, ?_⟩
    cases events : again.evacuated with
    | nil => rfl
    | cons event rest =>
      rw [zero, events] at used'
      simp only [List.map_cons, List.sum_cons, countedBytes] at used'
      omega
  · rintro ⟨last, both, unmoved⟩
    obtain ⟨middle, ran, ran'⟩ := Machine.run_append_ok_iff.mp both
    have steady' := run_garbageCollection_steady steady.prepared ran
    obtain ⟨events, grown⟩ := evacuated_prefix steady' ran'
    have empty : middle.evacuated = [] := by
      rw [unmoved] at grown
      exact (List.append_eq_nil_iff.mp grown.symm).1
    have same := heap_of_unmoved steady.prepared ran empty
    have same' := heap_of_unmoved steady' ran' (unmoved.trans empty.symm)
    have zero : middle.heap.usedBytes = 0 := by rw [same]
    have zero' : last.heap.usedBytes = 0 := by rw [same', zero]
    refine ⟨_, middle, hGcDbg_of_run steady.shaped steady.half ran, ?_, ?_, last, ?_⟩
    · exact (show middle.heap.hUsed = 0 from zero).le.trans (Nat.zero_le _)
    · rw [Heap.hUsed, zero, empty]
      rfl
    · rw [← prepared_again same empty] at ran'
      rw [hGcDbg_of_run steady'.shaped steady'.half ran', zero, zero']
      rfl

/-- A stack with a number that is no address, a pointer behind all objects, and a pointer at an object in the
slot that is not visited. -/
def idleSlots : Stack := fun slot =>
  if slot = 8 then 100 else if slot = 16 then 69640 else if slot = 24 then 65576 else 0

theorem countsOnce_idleSlots : ∃ s, Machine.run Session.step (Session.start smallHeap) twoObjects = .ok s ∧
    s.heap.hUsed = 96 ∧ CountsOnce s idleSlots [8, 16, 24] := by
  obtain ⟨s, ran, found⟩ := exists_of_toOption
    (Machine.run Session.step (Session.start smallHeap) twoObjects)
    (fun s => (s.heap.hUsed, (s.heap.rootCase 100).toOption, (s.heap.rootCase 69640).toOption))
    (96, some .skipped, some .skipped) (by decide +kernel)
  obtain ⟨used, found⟩ := Prod.mk.inj found
  obtain ⟨small, behind⟩ := Prod.mk.inj found
  have skipped {value : Word} (seen : (s.heap.rootCase value).toOption = some .skipped) (visits : ℕ) :
      Idle s.heap visits value := by
    obtain ⟨case, read, same⟩ := exists_of_toOption (s.heap.rootCase value) id _ (by rw [Option.map_id]; exact seen)
    exact idle_of_skipped (read.trans (congrArg _ same)) visits
  have reachable : Reachable Call.StructOnly s :=
    ⟨smallHeap, booted_smallHeap, twoObjects, by simp [twoObjects, Call.StructOnly], ran⟩
  refine ⟨s, ran, used, (countsOnce_iff reachable idleSlots [8, 16, 24]).mpr fun slot => .inr ?_⟩
  by_cases first : slot = 8
  · subst first
    exact skipped small _
  by_cases second : slot = 16
  · subst second
    exact skipped behind _
  have unvisited : (visitedRoots [8, 16, 24]).count slot = 0 :=
    List.count_eq_zero_of_not_mem (by simp [visitedRoots, first, second])
  rw [unvisited]
  trivial

/-- One object of eight bytes evacuated: its block of 24 bytes is counted as 40. -/
theorem exists_not_countsOnce : ∃ s freed collected,
    Machine.run Session.step (Session.start smallHeap) twoObjects = .ok s ∧
    hGcDbg s.heap twoSlots [8, 16] = .ok (freed, collected) ∧
    collected.evacuated = [⟨65568, 65536, 8⟩] ∧ collected.heap.hUsed = 40 ∧
    ¬ CountsOnce s twoSlots [8, 16] := by
  obtain ⟨s, ran, found⟩ := exists_of_toOption
    (Machine.run Session.step (Session.start smallHeap) twoObjects)
    (fun s => (hGcDbg s.heap twoSlots [8, 16]).toOption.map
      fun result => (result.2.evacuated, result.2.heap.hUsed))
    (some ([⟨65568, 65536, 8⟩], 40)) (by decide +kernel)
  obtain ⟨⟨freed, collected⟩, done, found⟩ := exists_of_toOption _ _ _ found
  obtain ⟨evacuated, used⟩ := Prod.mk.inj found
  refine ⟨s, freed, collected, ran, done, evacuated, used, ?_⟩
  rintro ⟨_, _, done', _, counted, _⟩
  cases done.symm.trans done'
  rw [show collected.heap.hUsed = 40 from used, show collected.evacuated = _ from evacuated] at counted
  exact absurd counted (by decide)

end GarbageCollector.Soundness
