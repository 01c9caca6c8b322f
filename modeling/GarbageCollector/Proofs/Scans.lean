import GarbageCollector.Machine.Outcome
import GarbageCollector.Model.Scans
import GarbageCollector.Proofs.HashTable

/-! # Scans of lists and tables

A scan meets every value of a list, and every entry of a table once. So a predicate is decided by what they
store, in whatever order, and a function that is applied to all changes each value in its place.
-/

namespace GarbageCollector.Proofs

open Model

section Lists

variable {α : Type} {list : LinkedList α} {start stop : Option ℕ} {cells front back : List (ℕ × α)}
  {values : List α} {prop : α → Bool} {change : α → α}

theorem anyFrom_segment (segment : Segment (arenaCell linkView list.links) start cells stop) :
    list.anyFrom prop start cells.length = .ok ((cells.map Prod.snd).any prop) := by
  induction cells generalizing start with
  | nil => rfl
  | cons head rest ih =>
    obtain ⟨address, value⟩ := head
    obtain ⟨rfl, next, found, tail⟩ := segment
    rw [List.length_cons, LinkedList.anyFrom, link_some found, Machine.ok_bind, ih tail]
    cases holds : prop value <;> simp [holds]

/-- All values meet a predicate when none fails it. -/
theorem allFrom_eq (start : Option ℕ) (count : ℕ) : list.allFrom prop start count =
    (list.anyFrom (fun value => !prop value) start count).map not := by
  induction count generalizing start with
  | zero => rfl
  | succ count ih =>
    rw [LinkedList.allFrom, LinkedList.anyFrom]
    cases list.link start with
    | error fault => rfl
    | ok link =>
      simp only [Machine.ok_bind]
      cases prop link.value with
      | false => rfl
      | true => exact ih link.next

theorem allFrom_segment (segment : Segment (arenaCell linkView list.links) start cells stop) :
    list.allFrom prop start cells.length = .ok ((cells.map Prod.snd).all prop) := by
  rw [allFrom_eq, anyFrom_segment segment, List.all_eq_not_any_not]
  rfl

/-- The values behind those that are changed already, whatever size the list counts. -/
theorem applyFrom_ok {behind : List (ℕ × α)} {size : ℤ} (laid : LaidOut list (front ++ (back ++ behind)))
    (here : Segment (arenaCell linkView list.links) start (back ++ behind) none) :
    ∃ list', LinkedList.applyFrom change { list with size } start back.length = .ok { list' with size } ∧
      LaidOut list' (front ++ (back.map (fun cell => (cell.1, change cell.2)) ++ behind)) := by
  induction back generalizing front list start with
  | nil => exact ⟨list, rfl, laid⟩
  | cons head rest ih =>
    obtain ⟨address, value⟩ := head
    obtain ⟨rfl, next, found, tail⟩ := here
    rw [List.cons_append] at laid
    have changed := laid.setValue found (change value)
    have whole : front ++ (address, change value) :: (rest ++ behind) =
        (front ++ [(address, change value)]) ++ (rest ++ behind) := by
      rw [List.append_assoc, List.singleton_append]
    rw [whole] at changed
    obtain ⟨list', ran, laid'⟩ := ih changed (tail.write_outside laid.apart.2)
    refine ⟨list', ?_, by simpa using laid'⟩
    have read : LinkedList.link { list with size } (some address) = .ok ⟨value, next⟩ := link_some found
    have written : LinkedList.setLink { list with size } (some address) ⟨change value, next⟩ = _ :=
      setLink_some (Option.isSome_of_eq_some found)
    rw [List.length_cons, LinkedList.applyFrom, read, Machine.ok_bind, written, Machine.ok_bind]
    exact ran

namespace Stores

theorem all (stores : Stores list values) (prop : α → Bool) : list.all prop = .ok (values.all prop) := by
  obtain ⟨cells, laid, rfl⟩ := stores
  rw [LinkedList.all, laid.size, Int.toNat_natCast]
  exact allFrom_segment laid.chain

theorem any (stores : Stores list values) (prop : α → Bool) : list.any prop = .ok (values.any prop) := by
  obtain ⟨cells, laid, rfl⟩ := stores
  rw [LinkedList.any, laid.size, Int.toNat_natCast]
  exact anyFrom_segment laid.chain

end Stores

end Lists

section Tables

variable {K V : Type} {f : TableFunctions K} {usable : ℕ → Prop} {ht : HashTable K V}
  {entries : List (Entry K V)} {start : Option ℕ} {cells : List (ℕ × (K × V))} {fuel : ℕ}
  {chains : ℕ → List (ℕ × (K × V))} {contents : List (K × V)} {pred : K → Option V → Bool}

theorem anyChain_ok (segment : Segment (arenaCell entryView entries) start cells none)
    (fueled : cells.length ≤ fuel) : HashTable.anyChain pred entries fuel start =
      .ok ((cells.map Prod.snd).any fun entry => pred entry.1 (some entry.2)) := by
  induction cells generalizing start fuel with
  | nil =>
    obtain rfl := Segment.nil_iff.mp segment
    cases fuel <;> rfl
  | cons head rest ih =>
    obtain ⟨fuel, rfl⟩ := Nat.exists_eq_succ_of_ne_zero (Nat.ne_of_gt (Nat.zero_lt_of_lt fueled))
    obtain ⟨address, key, value⟩ := head
    obtain ⟨rfl, next, found, tail⟩ := segment
    rw [List.length_cons] at fueled
    rw [HashTable.anyChain, readEntry_some found, Machine.ok_bind, ih tail (by omega)]
    cases holds : pred key (some value) <;> simp [holds]

/-- The buckets from an index on. -/
theorem anyFrom_ok {index count : ℕ}
    (segments : ∀ i < index + count, Segment (arenaCell entryView ht.entries) (ht.buckets i) (chains i) none)
    (fueled : ∀ i < index + count, (chains i).length ≤ ht.entries.length + 1) : ht.anyFrom pred index count =
      .ok (((List.range' index count).flatMap fun i => (chains i).map Prod.snd).any
        fun entry => pred entry.1 (some entry.2)) := by
  induction count generalizing index with
  | zero => rfl
  | succ count ih =>
    rw [HashTable.anyFrom, anyChain_ok (segments index (by omega)) (fueled index (by omega)), Machine.ok_bind,
      ih (fun i inside => segments i (by omega)) (fun i inside => fueled i (by omega)), List.range'_succ,
      List.flatMap_cons, List.any_append]
    cases (chains index).map Prod.snd |>.any fun entry => pred entry.1 (some entry.2) <;> rfl

theorem allChain_eq (fuel : ℕ) (start : Option ℕ) : HashTable.allChain pred entries fuel start =
    (HashTable.anyChain (fun key value => !pred key value) entries fuel start).map not := by
  induction fuel generalizing start with
  | zero => cases start <;> rfl
  | succ fuel ih =>
    cases start with
    | none => rfl
    | some address =>
      rw [HashTable.allChain, HashTable.anyChain]
      cases readEntry entries (some address) with
      | error fault => rfl
      | ok entry =>
        simp only [Machine.ok_bind]
        cases pred entry.key entry.value with
        | false => rfl
        | true => exact ih entry.next

/-- All entries meet a predicate when none fails it, if an `int` can count the buckets. -/
theorem tableAllFrom_eq {index count : ℕ} (small : index + count < 2 ^ 31) : ht.allFrom pred index count =
    (ht.anyFrom (fun key value => !pred key value) index count).map not := by
  induction count generalizing index with
  | zero => rfl
  | succ count ih =>
    rw [HashTable.allFrom, HashTable.anyFrom, allChain_eq]
    cases HashTable.anyChain (fun key value => !pred key value) ht.entries (ht.entries.length + 1)
      (ht.buckets index) with
    | error fault => rfl
    | ok found =>
      cases found with
      | true => rfl
      | false =>
        simp only [Except.map, Machine.ok_bind, checkedInt_ok (show (-2 ^ 31 : ℤ) ≤ index + 1 by omega)
          (show (index + 1 : ℤ) < 2 ^ 31 by omega)]
        exact ih (by omega)

section Apply

variable {change : K → V → V} {applyFun : K → Option V → Option V} {indices : List ℕ}
  {buckets : ℕ → Option ℕ}

/-- What an entry stores after its value is changed. -/
def changedEntry (change : K → V → V) (entry : K × V) : K × V := (entry.1, change entry.1 entry.2)

/-- The cells at the addresses have their values changed, and the others are as before. -/
def ChangedAt (change : K → V → V) (entries entries' : List (Entry K V)) (addresses : List ℕ) : Prop :=
  entries'.length = entries.length ∧ ∀ address, arenaCell entryView entries' address =
    if address ∈ addresses then
      (arenaCell entryView entries address).map fun cell => (changedEntry change cell.1, cell.2)
    else arenaCell entryView entries address

theorem ChangedAt.refl (entries : List (Entry K V)) : ChangedAt change entries entries [] :=
  ⟨rfl, fun _ => (if_neg List.not_mem_nil).symm⟩

theorem ChangedAt.trans {entries₁ entries₂ : List (Entry K V)} {first second : List ℕ}
    (left : ChangedAt change entries entries₁ first) (right : ChangedAt change entries₁ entries₂ second)
    (apart : ∀ address ∈ second, address ∉ first) : ChangedAt change entries entries₂ (first ++ second) := by
  refine ⟨right.1.trans left.1, fun address => ?_⟩
  rw [right.2 address, left.2 address]
  by_cases inSecond : address ∈ second
  · rw [if_pos inSecond, if_neg (apart address inSecond), if_pos (List.mem_append_right _ inSecond)]
  · rw [if_neg inSecond]
    by_cases inFirst : address ∈ first
    · rw [if_pos inFirst, if_pos (List.mem_append_left _ inFirst)]
    · rw [if_neg inFirst, if_neg (fun member => (List.mem_append.mp member).elim inFirst inSecond)]

/-- A chain that is not at the addresses stays. -/
theorem ChangedAt.keeps {entries' : List (Entry K V)} {addresses : List ℕ}
    (changed : ChangedAt change entries entries' addresses)
    (segment : Segment (arenaCell entryView entries) start cells none)
    (apart : ∀ address ∈ cells.map Prod.fst, address ∉ addresses) :
    Segment (arenaCell entryView entries') start cells none :=
  segment.congr fun address member => by rw [changed.2 address, if_neg (apart address member)]

/-- The write to one entry. -/
theorem changedAt_set {address : ℕ} {key : K} {value : V} {next : Option ℕ}
    (found : arenaCell entryView entries address = some ((key, value), next)) :
    ChangedAt change entries (entries.set address ⟨key, some (change key value), next⟩) [address] := by
  have inside : address < entries.length := lt_of_arenaCell (Option.isSome_of_eq_some found)
  refine ⟨List.length_set, fun other => ?_⟩
  by_cases same : other = address
  · subst same
    rw [arenaCell_set inside, if_pos List.mem_cons_self, found]
    rfl
  · rw [arenaCell_set_of_ne same, if_neg (by simpa using same)]

theorem applyChain_ok (applies : ∀ key value, applyFun key (some value) = some (change key value))
    (segment : Segment (arenaCell entryView entries) start cells none) (distinct : (cells.map Prod.fst).Nodup)
    (fueled : cells.length ≤ fuel) : ∃ entries', HashTable.applyChain applyFun fuel entries start = .ok entries' ∧
      ChangedAt change entries entries' (cells.map Prod.fst) := by
  induction cells generalizing start fuel entries with
  | nil =>
    obtain rfl := Segment.nil_iff.mp segment
    refine ⟨entries, ?_, ChangedAt.refl entries⟩
    cases fuel <;> rfl
  | cons head rest ih =>
    obtain ⟨fuel, rfl⟩ := Nat.exists_eq_succ_of_ne_zero (Nat.ne_of_gt (Nat.zero_lt_of_lt fueled))
    obtain ⟨address, key, value⟩ := head
    obtain ⟨rfl, next, found, tail⟩ := segment
    obtain ⟨outside, distinct⟩ := List.nodup_cons.mp distinct
    rw [List.length_cons] at fueled
    have here : ChangedAt change entries (entries.set address ⟨key, some (change key value), next⟩) [address] :=
      changedAt_set found
    obtain ⟨entries', ran, changed⟩ := ih (tail.write_outside outside) distinct (show rest.length ≤ fuel by omega)
    refine ⟨entries', ?_, here.trans changed fun other member => ?_⟩
    · rw [HashTable.applyChain, readEntry_some found, Machine.ok_bind]
      dsimp only
      rw [applies, writeEntry_some (Option.isSome_of_eq_some found), Machine.ok_bind]
      exact ran
    · rintro same
      rw [List.mem_singleton.mp same] at member
      exact outside member

/-- The chains are changed one after the other. -/
theorem applyChains_ok (applies : ∀ key value, applyFun key (some value) = some (change key value))
    (segments : ∀ index ∈ indices, Segment (arenaCell entryView entries) (buckets index) (chains index) none)
    (distinct : (indices.flatMap fun index => (chains index).map Prod.fst).Nodup)
    (fueled : ∀ index ∈ indices, (chains index).length ≤ fuel) : ∃ entries', indices.foldlM
        (fun entries index => HashTable.applyChain applyFun fuel entries (buckets index)) entries = .ok entries' ∧
      ChangedAt change entries entries' (indices.flatMap fun index => (chains index).map Prod.fst) := by
  induction indices generalizing entries with
  | nil => exact ⟨entries, rfl, ChangedAt.refl entries⟩
  | cons first rest ih =>
    rw [List.flatMap_cons, List.nodup_append'] at distinct
    obtain ⟨distinctFirst, distinctRest, apart⟩ := distinct
    obtain ⟨entries₁, ran, changed⟩ := applyChain_ok applies (segments first List.mem_cons_self) distinctFirst
      (fueled first List.mem_cons_self)
    have kept : ∀ index ∈ rest, Segment (arenaCell entryView entries₁) (buckets index) (chains index) none := by
      intro index member
      apply changed.keeps (segments index (List.mem_cons_of_mem _ member))
      intro address inChain inFirst
      exact List.disjoint_left.mp apart inFirst (List.mem_flatMap.mpr ⟨index, member, inChain⟩)
    obtain ⟨entries', ran', changed'⟩ := ih kept distinctRest
      (fun index member => fueled index (List.mem_cons_of_mem _ member))
    refine ⟨entries', ?_, ?_⟩
    · rw [List.foldlM_cons, ran, Machine.ok_bind]
      exact ran'
    · rw [List.flatMap_cons]
      exact changed.trans changed' fun address inRest inFirst => List.disjoint_left.mp apart inFirst inRest

end Apply

/-- The chains with their values changed. -/
def changedChains (change : K → V → V) (chains : ℕ → List (ℕ × (K × V))) (index : ℕ) : List (ℕ × (K × V)) :=
  (chains index).map fun cell => (cell.1, changedEntry change cell.2)

theorem contentsOf_changed (change : K → V → V) (capacity : ℕ) :
    contentsOf capacity (changedChains change chains) =
      (contentsOf capacity chains).map (changedEntry change) := by
  simp only [contentsOf, changedChains, List.map_flatMap, List.map_map, Function.comp_def]

namespace Arranged

/-- No two places of the chains have one entry. -/
theorem nodup_addresses (arranged : Arranged f usable ht chains) (compares : ComparesKeys f) :
    ((List.range ht.capacity).flatMap fun index => (chains index).map Prod.fst).Nodup := by
  rw [List.nodup_flatMap]
  refine ⟨fun index member => arranged.nodup compares (List.mem_range.mp member), ?_⟩
  apply List.nodup_range.imp_of_mem
  intro first second inFirst inSecond different
  apply List.disjoint_left.mpr
  intro address
  exact arranged.disjoint (List.mem_range.mp inFirst) (List.mem_range.mp inSecond) (Ne.symm different)

/-- `ioopm_hash_table_apply_to_all` changes each value in its place. -/
theorem applyToAll {change : K → V → V} {applyFun : K → Option V → Option V}
    (arranged : Arranged f usable ht chains) (compares : ComparesKeys f)
    (applies : ∀ key value, applyFun key (some value) = some (change key value)) :
    ∃ entries, ht.applyToAll applyFun = .ok { ht with entries } ∧
      Arranged f usable { ht with entries } (changedChains change chains) := by
  obtain ⟨entries, ran, changed⟩ := applyChains_ok applies
    (fun index member => arranged.chain index (List.mem_range.mp member)) (arranged.nodup_addresses compares)
    (fun index member => (arranged.length_lt compares (List.mem_range.mp member)).le)
  refine ⟨entries, ?_, arranged.usable, fun index inside => ?_, fun index inside cell member => ?_, ?_⟩
  · rw [HashTable.applyToAll, ran, Machine.ok_bind]
  · apply (arranged.chain index inside).mapPayload
    intro address member payload next read
    have there : address ∈ (List.range ht.capacity).flatMap fun index => (chains index).map Prod.fst :=
      List.mem_flatMap.mpr ⟨index, List.mem_range.mpr inside, member⟩
    rw [changed.2 address, if_pos there, read]
    rfl
  · obtain ⟨stored, here, rfl⟩ := List.mem_map.mp member
    exact arranged.placed index inside stored here
  · dsimp only
    rw [contentsOf_changed, KeyedList.Distinct, List.pairwise_map]
    exact arranged.distinct

end Arranged

namespace Holds

variable (compares : ComparesKeys f)
include compares

/-- `ioopm_hash_table_any` finds an entry that the predicate holds of. -/
theorem any (holds : Holds f usable ht contents) (pred : K → Option V → Bool) :
    ht.any pred = .ok (contents.any fun entry => pred entry.1 (some entry.2)) := by
  obtain ⟨chains, arranged, stored⟩ := holds.arranged
  rw [HashTable.any, anyFrom_ok (fun i inside => arranged.chain i (by omega))
    (fun i inside => (arranged.length_lt compares (by omega)).le), ← List.range_eq_range', ← stored.any_eq]
  rfl

/-- `ioopm_hash_table_all`, when an `int` can count the buckets. -/
theorem all (holds : Holds f usable ht contents) (countable : ht.capacity < 2 ^ 31)
    (pred : K → Option V → Bool) :
    ht.all pred = .ok (contents.all fun entry => pred entry.1 (some entry.2)) := by
  have found := holds.any compares fun key value => !pred key value
  rw [HashTable.any] at found
  rw [HashTable.all, tableAllFrom_eq (by omega), found, List.all_eq_not_any_not]
  rfl

theorem applyToAll {change : K → V → V} {applyFun : K → Option V → Option V}
    (holds : Holds f usable ht contents)
    (applies : ∀ key value, applyFun key (some value) = some (change key value)) :
    ∃ ht', ht.applyToAll applyFun = .ok ht' ∧ Holds f usable ht' (contents.map (changedEntry change)) := by
  obtain ⟨chains, arranged, stored⟩ := holds.arranged
  obtain ⟨entries, ran, arranged'⟩ := arranged.applyToAll compares applies
  refine ⟨_, ran, ⟨changedChains change chains, arranged', ?_⟩, ?_⟩
  · dsimp only
    rw [contentsOf_changed]
    exact stored.map _
  · dsimp only
    rw [List.length_map]
    exact holds.size

end Holds

end Tables

end GarbageCollector.Proofs
