import GarbageCollector.Machine.Run
import GarbageCollector.Model.HashTable

/-! # The values in a table

The operations on a table write no value but the one that they are given, so a condition on values holds of
everything in the memory of a table that is only given such values. Nothing is asked of the chains.
-/

namespace GarbageCollector.Proofs

open Model

variable {K V α β ε : Type} {f : TableFunctions K} {meets : V → Prop} {entries entries' : List (Entry K V)}
  {entry : Entry K V} {pointer : Option ℕ} {ht ht' : HashTable K V} {key : K} {value : Option V}

/-- The values of the entries meet a condition. -/
def ValuesMeet (meets : V → Prop) (entries : List (Entry K V)) : Prop :=
  ∀ entry ∈ entries, ∀ value ∈ entry.value, meets value

/-- A loop keeps what each of its steps keeps. -/
theorem foldlM_invariant {body : β → α → Except ε β} {values : List α} {start final : β} (invariant : β → Prop)
    (kept : ∀ state value next, invariant state → body state value = .ok next → invariant next)
    (initial : invariant start) (ran : values.foldlM body start = .ok final) : invariant final := by
  induction values generalizing start with
  | nil =>
    cases ran
    exact initial
  | cons value rest ih =>
    rw [List.foldlM_cons] at ran
    obtain ⟨next, stepped, ran⟩ := Machine.bind_ok_iff.mp ran
    exact ih (kept start value next initial stepped) ran

/-- A loop returns, and keeps what each of its steps keeps, when each of its steps returns. -/
theorem exists_foldlM {body : β → α → Except ε β} {values : List α} {start : β} (invariant : β → Prop)
    (advances : ∀ state, ∀ value ∈ values, invariant state → ∃ next, body state value = .ok next ∧ invariant next)
    (initial : invariant start) : ∃ final, values.foldlM body start = .ok final ∧ invariant final := by
  induction values generalizing start with
  | nil => exact ⟨start, rfl, initial⟩
  | cons value rest ih =>
    obtain ⟨next, stepped, kept⟩ := advances start value List.mem_cons_self initial
    obtain ⟨final, ran, last⟩ :=
      ih (fun state other member => advances state other (List.mem_cons_of_mem _ member)) kept
    refine ⟨final, ?_, last⟩
    rw [List.foldlM_cons, stepped]
    exact ran

theorem mem_of_readEntry (read : readEntry entries pointer = .ok entry) : entry ∈ entries := by
  cases pointer with
  | none => cases read
  | some address =>
    rw [readEntry] at read
    split at read
    · cases read
    · next found =>
      cases read
      exact List.mem_of_getElem? found

theorem eq_set_of_writeEntry (written : writeEntry entries pointer entry = .ok entries') :
    ∃ address, entries' = entries.set address entry := by
  cases pointer with
  | none => cases written
  | some address =>
    rw [writeEntry] at written
    split at written
    · cases written
      exact ⟨address, rfl⟩
    · cases written

namespace ValuesMeet

theorem of_read (values : ValuesMeet meets entries) (read : readEntry entries pointer = .ok entry) :
    ∀ value ∈ entry.value, meets value :=
  values entry (mem_of_readEntry read)

theorem write (values : ValuesMeet meets entries) (written : writeEntry entries pointer entry = .ok entries')
    (met : ∀ value ∈ entry.value, meets value) : ValuesMeet meets entries' := by
  obtain ⟨address, rfl⟩ := eq_set_of_writeEntry written
  intro other member
  rcases List.mem_or_eq_of_mem_set member with before | rfl
  · exact values other before
  · exact met

/-- Entries that move to new buckets keep their values. -/
theorem relinkChain {newCapacity fuel : ℕ} {newBuckets newBuckets' : ℕ → Option ℕ}
    (values : ValuesMeet meets entries)
    (ran : Model.HashTable.relinkChain f newCapacity fuel (entries, newBuckets) pointer =
      .ok (entries', newBuckets')) : ValuesMeet meets entries' := by
  induction fuel generalizing entries newBuckets pointer with
  | zero =>
    cases pointer <;> cases ran
    exact values
  | succ fuel ih =>
    cases pointer with
    | none =>
      cases ran
      exact values
    | some address =>
      rw [HashTable.relinkChain] at ran
      obtain ⟨entry, read, ran⟩ := Machine.bind_ok_iff.mp ran
      obtain ⟨newIndex, _, ran⟩ := Machine.bind_ok_iff.mp ran
      obtain ⟨entries₁, written, ran⟩ := Machine.bind_ok_iff.mp ran
      have met := values.of_read read
      exact ih (values.write written met) ran

theorem grow (values : ValuesMeet meets ht.entries) (grown : ht.grow f = .ok ht') :
    ValuesMeet meets ht'.entries := by
  rw [HashTable.grow] at grown
  obtain ⟨⟨entries, newBuckets⟩, ran, grown⟩ := Machine.bind_ok_iff.mp grown
  cases grown
  exact foldlM_invariant (fun memory => ValuesMeet meets memory.1)
    (fun _ _ _ kept moved => kept.relinkChain moved) values ran

theorem link {bucket : ℕ} {prev : Option Slot} (values : ValuesMeet meets ht.entries)
    (linked : ht.link bucket prev pointer = .ok ht') : ValuesMeet meets ht'.entries := by
  cases prev with
  | none =>
    cases linked
    exact values
  | some slot =>
    rw [HashTable.link] at linked
    obtain ⟨previous, _, linked⟩ := Machine.bind_ok_iff.mp linked
    obtain ⟨entry, read, linked⟩ := Machine.bind_ok_iff.mp linked
    obtain ⟨entries, written, linked⟩ := Machine.bind_ok_iff.mp linked
    cases linked
    have met := values.of_read read
    exact values.write written met

theorem entryCreate (values : ValuesMeet meets ht.entries) (met : ∀ value ∈ entry.value, meets value) :
    ValuesMeet meets (ht.entryCreate entry).entries := by
  intro other member
  rcases List.mem_append.mp member with before | new
  · exact values other before
  · rw [List.mem_singleton.mp new]
    exact met

theorem put (values : ValuesMeet meets ht.entries) (met : ∀ stored ∈ value, meets stored)
    (ran : ht.put f key value = .ok ht') : ValuesMeet meets ht'.entries := by
  rw [HashTable.put] at ran
  obtain ⟨bucket, _, ran⟩ := Machine.bind_ok_iff.mp ran
  obtain ⟨prev, _, ran⟩ := Machine.bind_ok_iff.mp ran
  obtain ⟨current, _, ran⟩ := Machine.bind_ok_iff.mp ran
  obtain ⟨found, _, ran⟩ := Machine.bind_ok_iff.mp ran
  split at ran
  · obtain ⟨entry, _, ran⟩ := Machine.bind_ok_iff.mp ran
    obtain ⟨entries, written, ran⟩ := Machine.bind_ok_iff.mp ran
    cases ran
    exact values.write written met
  · obtain ⟨linked, attached, ran⟩ := Machine.bind_ok_iff.mp ran
    cases ran
    have created : ValuesMeet meets (ht.entryCreate ⟨key, value, current⟩).entries := values.entryCreate met
    have kept := created.link attached
    exact kept

theorem insert (values : ValuesMeet meets ht.entries) (met : ∀ stored ∈ value, meets stored)
    (ran : ht.insert f key value = .ok ht') : ValuesMeet meets ht'.entries := by
  rw [HashTable.insert] at ran
  split at ran
  · obtain ⟨large, grown, ran⟩ := Machine.bind_ok_iff.mp ran
    exact (values.grow grown).put met ran
  · exact values.put met ran

theorem remove {removed : Option V} (values : ValuesMeet meets ht.entries)
    (ran : ht.remove f key = .ok (removed, ht')) : ValuesMeet meets ht'.entries := by
  rw [HashTable.remove] at ran
  obtain ⟨bucket, _, ran⟩ := Machine.bind_ok_iff.mp ran
  obtain ⟨found, _, ran⟩ := Machine.bind_ok_iff.mp ran
  split at ran
  · cases ran
    exact values
  · have smaller : ValuesMeet meets { ht with size := ht.size - 1 }.entries := values
    obtain ⟨prev, _, ran⟩ := Machine.bind_ok_iff.mp ran
    split at ran
    · obtain ⟨here, _, ran⟩ := Machine.bind_ok_iff.mp ran
      split at ran
      · obtain ⟨entry, _, ran⟩ := Machine.bind_ok_iff.mp ran
        obtain ⟨linked, relinked, ran⟩ := Machine.bind_ok_iff.mp ran
        cases ran
        exact smaller.link relinked
      · cases ran
        exact smaller
    · obtain ⟨previous, _, ran⟩ := Machine.bind_ok_iff.mp ran
      obtain ⟨entry, _, ran⟩ := Machine.bind_ok_iff.mp ran
      obtain ⟨linked, relinked, ran⟩ := Machine.bind_ok_iff.mp ran
      cases ran
      exact smaller.link relinked

/-- What a lookup finds meets the condition. -/
theorem of_lookup {found : V} (values : ValuesMeet meets ht.entries)
    (looked : ht.lookup f key = .ok (some found)) : meets found := by
  rw [HashTable.lookup] at looked
  obtain ⟨bucket, _, looked⟩ := Machine.bind_ok_iff.mp looked
  split at looked
  · cases looked
  · obtain ⟨prev, _, looked⟩ := Machine.bind_ok_iff.mp looked
    obtain ⟨current, _, looked⟩ := Machine.bind_ok_iff.mp looked
    obtain ⟨here, _, looked⟩ := Machine.bind_ok_iff.mp looked
    split at looked
    · obtain ⟨entry, read, looked⟩ := Machine.bind_ok_iff.mp looked
      exact values.of_read read found (Except.ok.inj looked)
    · cases looked

end ValuesMeet

end GarbageCollector.Proofs
