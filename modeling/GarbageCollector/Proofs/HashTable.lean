import GarbageCollector.Math.KeyedList
import GarbageCollector.Math.Segment
import GarbageCollector.Model.HashTable
import GarbageCollector.Proofs.LinkedList

/-! # The chains of a hash table

A table is arranged as some chains when every bucket below the capacity points to its chain, every entry
of a chain selects that bucket, and no key has two entries. Two chains then share no entry, and the keys
of one class are all looked for in one chain. `find_previous_entry_for_key` returns null both when the first
entry matches and when none does, so every operation goes by the split of the chain at its first match.
-/

namespace GarbageCollector.Proofs

open Model

variable {K V : Type}

/-- What an entry with a value stores and where it points. -/
def entryView (entry : Entry K V) : Option ((K × V) × Option ℕ) :=
  entry.value.map fun value => ((entry.key, value), entry.next)

/-- The entries of the buckets below the capacity, in the order of the buckets. -/
def contentsOf (capacity : ℕ) (chains : ℕ → List (ℕ × (K × V))) : List (K × V) :=
  (List.range capacity).flatMap fun index => (chains index).map Prod.snd

/-- The comparison is an equivalence, and equal keys hash alike. -/
structure ComparesKeys (f : TableFunctions K) : Prop where
  comparison : KeyedList.IsComparison f.cmp
  congr : ∀ first second capacity, f.cmp first second = true →
    f.hash first capacity = f.hash second capacity

/-- Capacities that a table may have, among them all that it may grow to. -/
structure Capacities (usable : ℕ → Prop) : Prop where
  positive : ∀ {capacity}, usable capacity → 0 < capacity
  next : ∀ capacity, usable (findNextCapacity capacity)

/-- The key selects a bucket at every capacity that a table may have. -/
def HashesInRange (f : TableFunctions K) (usable : ℕ → Prop) (key : K) : Prop :=
  ∀ capacity, usable capacity → ∃ index, f.index key capacity = .ok index

/-- The buckets of a table point to these chains. -/
structure Arranged (f : TableFunctions K) (usable : ℕ → Prop) (ht : HashTable K V)
    (chains : ℕ → List (ℕ × (K × V))) : Prop where
  usable : usable ht.capacity
  chain : ∀ index < ht.capacity,
    Segment (arenaCell entryView ht.entries) (ht.buckets index) (chains index) none
  placed : ∀ index < ht.capacity, ∀ cell ∈ chains index, f.index cell.2.1 ht.capacity = .ok index
  distinct : KeyedList.Distinct f.cmp (contentsOf ht.capacity chains)

/-- The table stores these entries, in some order. -/
structure Holds (f : TableFunctions K) (usable : ℕ → Prop) (ht : HashTable K V) (contents : List (K × V)) :
    Prop where
  arranged : ∃ chains, Arranged f usable ht chains ∧ (contentsOf ht.capacity chains).Perm contents
  size : ht.size = contents.length

variable {f : TableFunctions K} {usable : ℕ → Prop} {ht : HashTable K V}
  {entries : List (Entry K V)} {address bucket fuel : ℕ}
  {key stored : K} {value : V} {start next : Option ℕ} {cells front back : List (ℕ × (K × V))}
  {chains : ℕ → List (ℕ × (K × V))} {contents : List (K × V)}

theorem entryView_cell_iff : arenaCell entryView entries address = some ((key, value), next) ↔
    entries[address]? = some ⟨key, some value, next⟩ := by
  rw [arenaCell, Option.bind_eq_some_iff]
  constructor
  · rintro ⟨⟨_, held, _⟩, found, same⟩
    cases held with
    | none => cases same
    | some held =>
      cases same
      exact found
  · intro found
    exact ⟨_, found, rfl⟩

theorem readEntry_some (found : arenaCell entryView entries address = some ((key, value), next)) :
    readEntry entries (some address) = .ok ⟨key, some value, next⟩ := by
  simp only [readEntry, entryView_cell_iff.mp found]

theorem writeEntry_some {written : Entry K V} (found : (arenaCell entryView entries address).isSome) :
    writeEntry entries (some address) written = .ok (entries.set address written) :=
  if_pos (lt_of_arenaCell found)

theorem index_lt {capacity index : ℕ} (selects : f.index key capacity = .ok index) : index < capacity := by
  unfold TableFunctions.index at selects
  cases hashed : f.hash key capacity with
  | error fault => rw [hashed] at selects; cases selects
  | ok value =>
    simp only [hashed, bind, Except.bind] at selects
    split at selects
    · next inside =>
      cases selects
      omega
    · cases selects

theorem ComparesKeys.index_eq (compares : ComparesKeys f) (agree : f.cmp stored key = true) (capacity : ℕ) :
    f.index stored capacity = f.index key capacity := by
  rw [TableFunctions.index, TableFunctions.index, compares.congr _ _ _ agree]

/-- The entries of one bucket come first, up to their order. -/
theorem contentsOf_update {capacity : ℕ} (inside : bucket < capacity) :
    (contentsOf capacity (Function.update chains bucket cells)).Perm
      (cells.map Prod.snd ++ contentsOf capacity (Function.update chains bucket [])) := by
  induction capacity with
  | zero => omega
  | succ capacity ih =>
    simp only [contentsOf, List.range_succ, List.flatMap_append, List.flatMap_singleton]
    rcases Nat.lt_succ_iff_lt_or_eq.mp inside with before | rfl
    · rw [Function.update_of_ne before.ne', Function.update_of_ne before.ne', ← List.append_assoc]
      exact (ih before).append_right _
    · have others : ∀ cells, (List.range bucket).flatMap
          (fun index => (Function.update chains bucket cells index).map Prod.snd) =
            (List.range bucket).flatMap fun index => (chains index).map Prod.snd := by
        intro cells
        apply List.flatMap_congr
        intro index member
        rw [Function.update_of_ne (List.mem_range.mp member).ne]
      rw [others, others, Function.update_self, Function.update_self]
      exact List.perm_append_comm.trans (by simp)

theorem mem_contentsOf {capacity : ℕ} {entry : K × V} : entry ∈ contentsOf capacity chains ↔
    ∃ index < capacity, ∃ cell ∈ chains index, cell.2 = entry := by
  simp [contentsOf]

/-- The entries of one bucket, and those of all the others. -/
theorem contentsOf_perm {capacity : ℕ} (inside : bucket < capacity) :
    (contentsOf capacity chains).Perm
      ((chains bucket).map Prod.snd ++ contentsOf capacity (Function.update chains bucket [])) := by
  have perm : (contentsOf capacity (Function.update chains bucket (chains bucket))).Perm
      ((chains bucket).map Prod.snd ++ contentsOf capacity (Function.update chains bucket [])) :=
    contentsOf_update inside
  rwa [Function.update_eq_self] at perm

/-- A cell more in one bucket is an entry more in the table. -/
theorem contentsOf_insert {capacity : ℕ} {cell : ℕ × (K × V)} (inside : bucket < capacity) :
    (contentsOf capacity (Function.update chains bucket (front ++ cell :: back))).Perm
      (cell.2 :: contentsOf capacity (Function.update chains bucket (front ++ back))) := by
  apply (contentsOf_update inside).trans (.trans ?_ ((contentsOf_update inside).symm.cons _))
  rw [List.map_append, List.map_cons, List.map_append, List.append_assoc, List.append_assoc,
    List.cons_append]
  exact List.perm_middle

/-- The loop stops at the first match, and the slot that it returns holds the entry before. -/
theorem findFrom_match (prev : Option Slot) (current : Slot)
    (segment : Segment (arenaCell entryView ht.entries) start (front ++ (address, (stored, value)) :: back) none)
    (here : ht.read current = .ok start) (earlier : ∀ cell ∈ front, f.cmp cell.2.1 key = false)
    (agree : f.cmp stored key = true) (fueled : front.length < fuel) :
    ∃ found, ht.findFrom f key prev current fuel = .ok found ∧ (front.getLast? = none → found = prev) ∧
      ∀ last, front.getLast? = some last → ∃ slot, found = some slot ∧ ht.read slot = .ok (some last.1) := by
  induction front generalizing start current prev fuel with
  | nil =>
    obtain ⟨fuel, rfl⟩ := Nat.exists_eq_succ_of_ne_zero (Nat.ne_of_gt fueled)
    obtain ⟨rfl, next, cell, _⟩ := segment
    refine ⟨prev, ?_, fun _ => rfl, fun last same => by simp at same⟩
    simp only [HashTable.findFrom, here, readEntry_some cell, agree, if_pos, bind, Except.bind]
  | cons head rest ih =>
    obtain ⟨fuel, rfl⟩ := Nat.exists_eq_succ_of_ne_zero (Nat.ne_of_gt (Nat.zero_lt_of_lt fueled))
    obtain ⟨first, other, held⟩ := head
    obtain ⟨rfl, next, cell, tail⟩ := segment
    have apart : f.cmp other key = false := earlier _ List.mem_cons_self
    have following : ht.read (.next first) = .ok next := by
      simp only [HashTable.read, readEntry_some cell, bind, Except.bind]
    obtain ⟨found, ran, atStart, later⟩ := ih (some current) (.next first) tail following
      (fun cell member => earlier cell (List.mem_cons_of_mem _ member)) (Nat.lt_of_succ_lt_succ fueled)
    refine ⟨found, ?_, fun same => by simp at same, fun last same => ?_⟩
    · simp only [HashTable.findFrom, here, readEntry_some cell, apart, Bool.false_eq_true, if_false, bind,
        Except.bind]
      exact ran
    · rw [List.getLast?_cons] at same
      cases final : rest.getLast? with
      | none =>
        rw [final, Option.getD_none] at same
        cases same
        exact ⟨current, atStart final, here⟩
      | some other =>
        rw [final, Option.getD_some] at same
        cases same
        exact later _ final

/-- Without a match the loop runs to the end of the chain. -/
theorem findFrom_absent (prev : Option Slot) (current : Slot)
    (segment : Segment (arenaCell entryView ht.entries) start cells none) (here : ht.read current = .ok start)
    (absent : ∀ cell ∈ cells, f.cmp cell.2.1 key = false) (fueled : cells.length < fuel) :
    ht.findFrom f key prev current fuel = .ok none := by
  induction cells generalizing start current prev fuel with
  | nil =>
    obtain ⟨fuel, rfl⟩ := Nat.exists_eq_succ_of_ne_zero (Nat.ne_of_gt fueled)
    obtain rfl := Segment.nil_iff.mp segment
    simp only [HashTable.findFrom, here, bind, Except.bind]
  | cons head rest ih =>
    obtain ⟨fuel, rfl⟩ := Nat.exists_eq_succ_of_ne_zero (Nat.ne_of_gt (Nat.zero_lt_of_lt fueled))
    obtain ⟨first, other, held⟩ := head
    obtain ⟨rfl, next, cell, tail⟩ := segment
    have apart : f.cmp other key = false := absent _ List.mem_cons_self
    have following : ht.read (.next first) = .ok next := by
      simp only [HashTable.read, readEntry_some cell, bind, Except.bind]
    simp only [HashTable.findFrom, here, readEntry_some cell, apart, Bool.false_eq_true, if_false, bind,
      Except.bind]
    exact ih (some current) (.next first) tail following
      (fun cell member => absent cell (List.mem_cons_of_mem _ member)) (Nat.lt_of_succ_lt_succ fueled)

namespace Arranged

/-- An entry has its key, so it is in no two places of one chain. -/
theorem nodup (arranged : Arranged f usable ht chains) (compares : ComparesKeys f)
    (inside : bucket < ht.capacity) :
    ((chains bucket).map Prod.fst).Nodup := by
  have distinct := (arranged.distinct.perm compares.comparison (contentsOf_perm inside)).sublist
    (List.sublist_append_left _ _)
  rw [List.Nodup, List.pairwise_map]
  rw [List.pairwise_map] at distinct
  apply distinct.imp_of_mem
  rintro ⟨first, entry⟩ ⟨second, other⟩ left right apart rfl
  obtain ⟨_, found⟩ := (arranged.chain bucket inside).cell_of_mem left
  obtain ⟨_, found'⟩ := (arranged.chain bucket inside).cell_of_mem right
  cases found.symm.trans found'
  rw [compares.comparison.refl] at apart
  cases apart

/-- An entry selects its bucket, so it is in no two chains. -/
theorem disjoint (arranged : Arranged f usable ht chains) {other : ℕ} (inside : bucket < ht.capacity)
    (inside' : other < ht.capacity) (different : other ≠ bucket)
    (member : address ∈ (chains bucket).map Prod.fst) : address ∉ (chains other).map Prod.fst := by
  intro member'
  obtain ⟨⟨_, entry⟩, here, rfl⟩ := List.mem_map.mp member
  obtain ⟨⟨_, entry'⟩, there, same⟩ := List.mem_map.mp member'
  dsimp only at same
  subst same
  obtain ⟨_, found⟩ := (arranged.chain bucket inside).cell_of_mem here
  obtain ⟨_, found'⟩ := (arranged.chain other inside').cell_of_mem there
  cases found.symm.trans found'
  have selects := arranged.placed bucket inside _ here
  have selects' := arranged.placed other inside' _ there
  cases selects.symm.trans selects'
  exact different rfl

/-- The fuel is enough for every chain. -/
theorem length_lt (arranged : Arranged f usable ht chains) (compares : ComparesKeys f)
    (inside : bucket < ht.capacity) :
    (chains bucket).length < ht.entries.length + 1 := by
  apply Nat.lt_succ_of_le
  apply Segment.length_le (arranged.nodup compares inside)
  intro address member
  exact lt_of_arenaCell ((arranged.chain bucket inside).isSome_of_mem member)

/-- A key that matches no entry of its bucket matches none at all. -/
theorem find_eq_none (arranged : Arranged f usable ht chains) (compares : ComparesKeys f)
    (selects : f.index key ht.capacity = .ok bucket)
    (absent : ∀ cell ∈ chains bucket, f.cmp cell.2.1 key = false) :
    KeyedList.find f.cmp (contentsOf ht.capacity chains) key = none := by
  rw [KeyedList.find_eq_none_iff]
  intro entry member
  obtain ⟨index, inside, cell, here, rfl⟩ := mem_contentsOf.mp member
  cases agree : f.cmp cell.2.1 key with
  | false => rfl
  | true =>
    have placed := arranged.placed index inside cell here
    rw [compares.index_eq agree, selects] at placed
    cases placed
    rw [← agree, absent cell here]

/-- A matching entry is the one that the table stores for the key. -/
theorem find_eq_some (arranged : Arranged f usable ht chains) (compares : ComparesKeys f)
    (inside : bucket < ht.capacity) (split : chains bucket = front ++ (address, (stored, value)) :: back)
    (agree : f.cmp stored key = true) :
    KeyedList.find f.cmp (contentsOf ht.capacity chains) key = some value := by
  rw [KeyedList.find_eq_some_iff compares.comparison arranged.distinct]
  refine ⟨stored, mem_contentsOf.mpr ⟨bucket, inside, (address, (stored, value)), ?_, rfl⟩, agree⟩
  simp [split]

/-- A table of which one bucket and the memory of its chain were rewritten. -/
theorem rearrange (arranged : Arranged f usable ht chains) {ht' : HashTable K V}
    (capacity : ht'.capacity = ht.capacity)
    (chain : Segment (arenaCell entryView ht'.entries) (ht'.buckets bucket) cells none)
    (others : ∀ other < ht.capacity, other ≠ bucket → ht'.buckets other = ht.buckets other ∧
      Segment (arenaCell entryView ht'.entries) (ht.buckets other) (chains other) none)
    (placed : ∀ cell ∈ cells, f.index cell.2.1 ht.capacity = .ok bucket)
    (distinct : KeyedList.Distinct f.cmp (contentsOf ht.capacity (Function.update chains bucket cells))) :
    Arranged f usable ht' (Function.update chains bucket cells) := by
  refine ⟨capacity ▸ arranged.usable, ?_, ?_, capacity ▸ distinct⟩
  all_goals
    intro index inside
    rw [capacity] at inside
    rcases eq_or_ne index bucket with rfl | different
  · rwa [Function.update_self]
  · obtain ⟨same, segment⟩ := others index inside different
    rwa [Function.update_of_ne different, same]
  · rwa [Function.update_self, capacity]
  · rw [Function.update_of_ne different, capacity]
    exact arranged.placed index inside

end Arranged

/-- A chain is split at its first match, if it has one. -/
theorem exists_match (f : TableFunctions K) (key : K) (cells : List (ℕ × (K × V))) :
    (∀ cell ∈ cells, f.cmp cell.2.1 key = false) ∨ ∃ front address stored value back,
      cells = front ++ (address, (stored, value)) :: back ∧ f.cmp stored key = true ∧
        ∀ cell ∈ front, f.cmp cell.2.1 key = false := by
  cases found : cells.find? fun cell => f.cmp cell.2.1 key with
  | none => exact .inl fun cell member => by simpa using List.find?_eq_none.mp found cell member
  | some cell =>
    obtain ⟨agree, front, back, split, earlier⟩ := List.find?_eq_some_iff_append.mp found
    exact .inr ⟨front, cell.1, cell.2.1, cell.2.2, back, split, agree,
      fun cell member => by simpa using earlier cell member⟩

namespace Arranged

/-- The entry of a match has its address to itself. -/
theorem apart (arranged : Arranged f usable ht chains) (compares : ComparesKeys f) (inside : bucket < ht.capacity)
    {entry : K × V} (split : chains bucket = front ++ (address, entry) :: back) :
    address ∉ front.map Prod.fst ∧ address ∉ back.map Prod.fst ∧
      ∀ other < ht.capacity, other ≠ bucket → address ∉ (chains other).map Prod.fst := by
  have nodup := arranged.nodup compares inside
  rw [split, List.map_append, List.map_cons, List.nodup_middle, List.nodup_cons, List.mem_append] at nodup
  refine ⟨(not_or.mp nodup.1).1, (not_or.mp nodup.1).2, fun other inside' different => ?_⟩
  exact arranged.disjoint inside inside' different (by simp [split])

/-- A value written behind a match. -/
theorem overwrite (arranged : Arranged f usable ht chains) (compares : ComparesKeys f)
    (inside : bucket < ht.capacity)
    {held : V} (split : chains bucket = front ++ (address, (stored, held)) :: back)
    (found : arenaCell entryView ht.entries address = some ((stored, held), next))
    (tail : Segment (arenaCell entryView ht.entries) next back none)
    (distinct : KeyedList.Distinct f.cmp (contentsOf ht.capacity
      (Function.update chains bucket (front ++ (address, (stored, value)) :: back)))) :
    Arranged f usable { ht with entries := ht.entries.set address ⟨stored, some value, next⟩ }
      (Function.update chains bucket (front ++ (address, (stored, value)) :: back)) := by
  obtain ⟨before, behind, elsewhere⟩ := arranged.apart compares inside split
  have chain := arranged.chain bucket inside
  rw [split] at chain
  refine arranged.rearrange rfl (chain.middle_eq.1.write_middle before
    (lt_of_arenaCell (Option.isSome_of_eq_some found)) rfl (tail.write_outside behind))
    (fun other inside' different => ⟨rfl,
      (arranged.chain other inside').write_outside (elsewhere other inside' different)⟩) ?_ distinct
  have placed := arranged.placed bucket inside
  rw [split] at placed
  intro cell member
  rcases List.mem_append.mp member with earlier | later
  · exact placed cell (List.mem_append_left _ earlier)
  · rcases List.mem_cons.mp later with rfl | later
    · exact placed (address, (stored, held)) (by simp)
    · exact placed cell (by simp [later])

/-- A new entry at the front of its bucket. -/
theorem pushFront (arranged : Arranged f usable ht chains) (selects : f.index key ht.capacity = .ok bucket)
    (distinct : KeyedList.Distinct f.cmp (contentsOf ht.capacity
      (Function.update chains bucket ((ht.entries.length, (key, value)) :: chains bucket)))) :
    Arranged f usable { ht with
        entries := ht.entries ++ [⟨key, some value, ht.buckets bucket⟩],
        buckets := Function.update ht.buckets bucket (some ht.entries.length), size := ht.size + 1 }
      (Function.update chains bucket ((ht.entries.length, (key, value)) :: chains bucket)) := by
  have inside := index_lt selects
  refine arranged.rearrange rfl ?_ (fun other inside' different => ⟨?_, (arranged.chain other inside').alloc⟩)
    ?_ distinct
  · exact ⟨Function.update_self .., ht.buckets bucket, arenaCell_new, (arranged.chain bucket inside).alloc⟩
  · exact Function.update_of_ne different _ _
  · intro cell member
    rcases List.mem_cons.mp member with rfl | later
    · exact selects
    · exact arranged.placed bucket inside cell later

/-- The first entry of a bucket is unlinked. -/
theorem unlinkFirst (arranged : Arranged f usable ht chains) (inside : bucket < ht.capacity) {entry : K × V}
    (split : chains bucket = (address, entry) :: back)
    (tail : Segment (arenaCell entryView ht.entries) next back none)
    (distinct : KeyedList.Distinct f.cmp (contentsOf ht.capacity (Function.update chains bucket back))) :
    Arranged f usable { ht with buckets := Function.update ht.buckets bucket next }
      (Function.update chains bucket back) := by
  refine arranged.rearrange rfl ?_ ?_ ?_ distinct
  · dsimp only
    rwa [Function.update_self]
  · intro other inside' different
    exact ⟨Function.update_of_ne different _ _, arranged.chain other inside'⟩
  · intro cell member
    exact arranged.placed bucket inside cell (by simp [split, member])

/-- An entry behind another is unlinked. -/
theorem unlinkInner (arranged : Arranged f usable ht chains) (compares : ComparesKeys f)
    (inside : bucket < ht.capacity)
    {before : ℕ} {entry : K × V} {held : V}
    (split : chains bucket = front ++ (before, (stored, held)) :: (address, entry) :: back)
    (tail : Segment (arenaCell entryView ht.entries) next back none)
    (distinct : KeyedList.Distinct f.cmp (contentsOf ht.capacity
      (Function.update chains bucket (front ++ (before, (stored, held)) :: back)))) :
    Arranged f usable { ht with entries := ht.entries.set before ⟨stored, some held, next⟩ }
      (Function.update chains bucket (front ++ (before, (stored, held)) :: back)) := by
  obtain ⟨outside, behind, elsewhere⟩ := arranged.apart compares inside split
  have chain := arranged.chain bucket inside
  rw [split] at chain
  obtain ⟨left, _, found, _⟩ := chain.middle_eq
  refine arranged.rearrange rfl (left.write_middle outside
    (lt_of_arenaCell (Option.isSome_of_eq_some found)) rfl
    (tail.write_outside fun member => behind (List.mem_cons_of_mem _ member)))
    (fun other inside' different => ⟨rfl,
      (arranged.chain other inside').write_outside (elsewhere other inside' different)⟩)
    (fun cell member => arranged.placed bucket inside cell ?_) distinct
  rw [split]
  rcases List.mem_append.mp member with earlier | later
  · exact List.mem_append_left _ earlier
  · rcases List.mem_cons.mp later with rfl | later
    · simp
    · simp [later]

/-- The entries other than that of a match. -/
theorem erase_match (arranged : Arranged f usable ht chains) (compares : ComparesKeys f)
    (inside : bucket < ht.capacity)
    (split : chains bucket = front ++ (address, (stored, value)) :: back) (agree : f.cmp stored key = true) :
    (KeyedList.erase f.cmp (contentsOf ht.capacity chains) key).Perm
      (contentsOf ht.capacity (Function.update chains bucket (front ++ back))) := by
  have whole : (contentsOf ht.capacity chains).Perm
      ((stored, value) :: contentsOf ht.capacity (Function.update chains bucket (front ++ back))) := by
    have perm : (contentsOf ht.capacity
        (Function.update chains bucket (front ++ (address, (stored, value)) :: back))).Perm _ :=
      contentsOf_insert inside
    rwa [← split, Function.update_eq_self] at perm
  have distinct := arranged.distinct.perm compares.comparison whole
  rw [← KeyedList.erase_cons compares.comparison distinct agree]
  exact KeyedList.erase_perm whole key

/-- What the operations see of a bucket that has a match: its entry, and the slot before it. -/
theorem findPrevious_match (arranged : Arranged f usable ht chains) (compares : ComparesKeys f)
    (inside : bucket < ht.capacity) (split : chains bucket = front ++ (address, (stored, value)) :: back)
    (earlier : ∀ cell ∈ front, f.cmp cell.2.1 key = false) (agree : f.cmp stored key = true) :
    ∃ prev next, ht.findPreviousEntryForKey f (.bucket bucket) key = .ok prev ∧
      ht.behind bucket prev = .ok (some address) ∧
      arenaCell entryView ht.entries address = some ((stored, value), next) ∧
      Segment (arenaCell entryView ht.entries) next back none ∧
      (front.getLast? = none → prev = none) ∧
      ∀ last, front.getLast? = some last → ∃ slot, prev = some slot ∧ ht.read slot = .ok (some last.1) := by
  have chain := arranged.chain bucket inside
  have fueled := arranged.length_lt compares inside
  rw [split] at chain fueled
  rw [List.length_append] at fueled
  obtain ⟨prev, ran, atStart, later⟩ := findFrom_match none (.bucket bucket) chain rfl earlier agree
    (show front.length < ht.entries.length + 1 by omega)
  obtain ⟨left, next, cell, right⟩ := chain.middle_eq
  refine ⟨prev, next, ran, ?_, cell, right, atStart, later⟩
  rcases List.eq_nil_or_concat' front with rfl | ⟨before, ⟨last, entry⟩, rfl⟩
  · rw [atStart rfl, HashTable.behind]
    exact congrArg _ left
  · obtain ⟨slot, rfl, read⟩ := later (last, entry) (by simp)
    obtain ⟨_, _, found, rfl⟩ := left.middle_eq
    simp only [HashTable.behind, read, readEntry_some found, bind, Except.bind]

/-- Without a match, and in an empty bucket, there is no slot. -/
theorem findPrevious_absent (arranged : Arranged f usable ht chains) (compares : ComparesKeys f)
    (inside : bucket < ht.capacity) (absent : ∀ cell ∈ chains bucket, f.cmp cell.2.1 key = false) :
    ht.findPreviousEntryForKey f (.bucket bucket) key = .ok none ∧
      ht.hasKey f (ht.buckets bucket) key = .ok false := by
  have chain := arranged.chain bucket inside
  refine ⟨findFrom_absent none (.bucket bucket) chain rfl absent (arranged.length_lt compares inside), ?_⟩
  cases cells : chains bucket with
  | nil =>
    rw [cells, Segment.nil_iff] at chain
    rw [chain, HashTable.hasKey]
  | cons head rest =>
    obtain ⟨first, stored, value⟩ := head
    rw [cells] at chain absent
    obtain ⟨start, next, found, _⟩ := chain
    have apart : f.cmp stored key = false := absent _ List.mem_cons_self
    simp only [start, HashTable.hasKey, readEntry_some found, apart, bind, Except.bind]

/-- `ioopm_hash_table_lookup` returns what the table stores for the key. -/
theorem lookup (arranged : Arranged f usable ht chains) (compares : ComparesKeys f)
    (selects : f.index key ht.capacity = .ok bucket) :
    ht.lookup f key = .ok (KeyedList.find f.cmp (contentsOf ht.capacity chains) key) := by
  have inside := index_lt selects
  rw [HashTable.lookup, selects]
  rcases exists_match f key (chains bucket) with
    absent | ⟨front, address, stored, value, back, split, agree, earlier⟩
  · rw [arranged.find_eq_none compares selects absent]
    obtain ⟨ran, differs⟩ := arranged.findPrevious_absent compares inside absent
    simp only [ran, HashTable.behind, differs, Bool.false_eq_true, if_false, bind, Except.bind]
    split <;> rfl
  · rw [arranged.find_eq_some compares inside split agree]
    obtain ⟨prev, next, ran, behind, found, _⟩ :=
      arranged.findPrevious_match compares inside split earlier agree
    have filled : ht.buckets bucket ≠ none := by
      intro null
      have chain := arranged.chain bucket inside
      rw [null] at chain
      rw [chain.eq_nil_of_none] at split
      simp at split
    simp only [if_neg filled, ran, behind, HashTable.hasKey, readEntry_some found, agree, if_pos, bind,
      Except.bind]

end Arranged

section Grow

variable {capacity : ℕ} {newBuckets : ℕ → Option ℕ} {newChains : ℕ → List (ℕ × (K × V))}

/-- The part of a table that has moved to the new buckets. -/
structure Relinked (f : TableFunctions K) (capacity : ℕ) (entries : List (Entry K V))
    (newBuckets : ℕ → Option ℕ) (newChains : ℕ → List (ℕ × (K × V))) : Prop where
  chain : ∀ index < capacity,
    Segment (arenaCell entryView entries) (newBuckets index) (newChains index) none
  placed : ∀ index < capacity, ∀ cell ∈ newChains index, f.index cell.2.1 capacity = .ok index

/-- No address of a chain is in the new buckets. -/
def Untouched (capacity : ℕ) (newChains : ℕ → List (ℕ × (K × V))) (cells : List (ℕ × (K × V))) : Prop :=
  ∀ index < capacity, ∀ address ∈ cells.map Prod.fst, address ∉ (newChains index).map Prod.fst

/-- The first entry of a chain moves to the front of its new bucket. -/
theorem Relinked.push (moved : Relinked f capacity entries newBuckets newChains) {index : ℕ}
    (found : (arenaCell entryView entries address).isSome) (selects : f.index key capacity = .ok index)
    (apart : ∀ index < capacity, address ∉ (newChains index).map Prod.fst) :
    Relinked f capacity (entries.set address ⟨key, some value, newBuckets index⟩)
      (Function.update newBuckets index (some address))
      (Function.update newChains index ((address, (key, value)) :: newChains index)) := by
  constructor
  all_goals
    intro other inside
    rcases eq_or_ne other index with rfl | different
  · rw [Function.update_self, Function.update_self]
    exact ⟨rfl, newBuckets other, arenaCell_set (lt_of_arenaCell found),
      (moved.chain other inside).write_outside (apart other inside)⟩
  · rw [Function.update_of_ne different, Function.update_of_ne different]
    exact (moved.chain other inside).write_outside (apart other inside)
  · rw [Function.update_self]
    intro cell member
    rcases List.mem_cons.mp member with rfl | later
    · exact selects
    · exact moved.placed other inside cell later
  · rw [Function.update_of_ne different]
    exact moved.placed other inside

/-- A chain moves entry by entry, and no other memory changes. -/
theorem relinkChain_ok (segment : Segment (arenaCell entryView entries) start cells none)
    (nodup : (cells.map Prod.fst).Nodup) (moved : Relinked f capacity entries newBuckets newChains)
    (untouched : Untouched capacity newChains cells)
    (hashable : ∀ cell ∈ cells, ∃ index, f.index cell.2.1 capacity = .ok index) (fueled : cells.length < fuel) :
    ∃ entries' newBuckets' newChains',
      HashTable.relinkChain f capacity fuel (entries, newBuckets) start = .ok (entries', newBuckets') ∧
      Relinked f capacity entries' newBuckets' newChains' ∧
      (∀ address, address ∉ cells.map Prod.fst →
        arenaCell entryView entries' address = arenaCell entryView entries address) ∧
      (∀ index < capacity, ∀ cell ∈ newChains' index, cell ∈ newChains index ∨ cell ∈ cells) ∧
      (contentsOf capacity newChains').Perm (cells.map Prod.snd ++ contentsOf capacity newChains) := by
  induction cells generalizing entries newBuckets newChains start fuel with
  | nil =>
    obtain rfl := Segment.nil_iff.mp segment
    refine ⟨entries, newBuckets, newChains, ?_, moved, fun _ _ => rfl, fun _ _ _ => .inl, .refl _⟩
    cases fuel <;> rfl
  | cons head rest ih =>
    obtain ⟨fuel, rfl⟩ := Nat.exists_eq_succ_of_ne_zero (Nat.ne_of_gt (Nat.zero_lt_of_lt fueled))
    obtain ⟨address, key, value⟩ := head
    obtain ⟨rfl, next, found, tail⟩ := segment
    obtain ⟨fresh, nodup⟩ := List.nodup_cons.mp nodup
    obtain ⟨index, selects⟩ := hashable _ List.mem_cons_self
    have there := Option.isSome_of_eq_some found
    have untouched' : Untouched capacity
        (Function.update newChains index ((address, (key, value)) :: newChains index)) rest := by
      intro other inside query member
      have apart := untouched other inside query (List.mem_cons_of_mem _ member)
      rcases eq_or_ne other index with rfl | different
      · rw [Function.update_self, List.map_cons, List.mem_cons, not_or]
        exact ⟨fun same => fresh (same ▸ member), apart⟩
      · rwa [Function.update_of_ne different]
    obtain ⟨entries', newBuckets', newChains', ran, moved', kept, origin, perm⟩ :=
      ih (tail.write_outside fresh) nodup
        (moved.push there selects fun other inside => untouched other inside address List.mem_cons_self)
        untouched' (fun cell member => hashable cell (List.mem_cons_of_mem _ member))
        (Nat.lt_of_succ_lt_succ fueled)
    refine ⟨entries', newBuckets', newChains', ?_, moved', fun query outside => ?_,
      fun other inside cell member => ?_, ?_⟩
    · dsimp only at selects
      simp only [HashTable.relinkChain, readEntry_some found, selects, writeEntry_some there, bind, Except.bind]
      exact ran
    · rw [List.map_cons, List.mem_cons, not_or] at outside
      rw [kept query outside.2, arenaCell_set_of_ne outside.1]
    · rcases origin other inside cell member with earlier | later
      · rcases eq_or_ne other index with rfl | different
        · rw [Function.update_self] at earlier
          rcases List.mem_cons.mp earlier with rfl | earlier
          · exact .inr List.mem_cons_self
          · exact .inl earlier
        · rw [Function.update_of_ne different] at earlier
          exact .inl earlier
      · exact .inr (List.mem_cons_of_mem _ later)
    · have pushed : (contentsOf capacity
          (Function.update newChains index ([] ++ (address, (key, value)) :: newChains index))).Perm
            ((key, value) :: contentsOf capacity (Function.update newChains index ([] ++ newChains index))) :=
        contentsOf_insert (index_lt selects)
      rw [List.nil_append, List.nil_append, Function.update_eq_self] at pushed
      exact (perm.trans (pushed.append_left _)).trans List.perm_middle

/-- The chains of some buckets move, one bucket after the other. -/
theorem relinkChains_ok {buckets : ℕ → Option ℕ} {chains : ℕ → List (ℕ × (K × V))} {indices : List ℕ}
    (segments : ∀ index ∈ indices, Segment (arenaCell entryView entries) (buckets index) (chains index) none)
    (nodup : ∀ index ∈ indices, ((chains index).map Prod.fst).Nodup)
    (disjoint : indices.Pairwise fun first second =>
      ∀ address ∈ (chains first).map Prod.fst, address ∉ (chains second).map Prod.fst)
    (moved : Relinked f capacity entries newBuckets newChains)
    (untouched : ∀ index ∈ indices, Untouched capacity newChains (chains index))
    (hashable : ∀ index ∈ indices, ∀ cell ∈ chains index, ∃ index, f.index cell.2.1 capacity = .ok index)
    (fueled : ∀ index ∈ indices, (chains index).length < fuel) :
    ∃ entries' newBuckets' newChains',
      indices.foldlM (fun memory index => HashTable.relinkChain f capacity fuel memory (buckets index))
        (entries, newBuckets) = .ok (entries', newBuckets') ∧
      Relinked f capacity entries' newBuckets' newChains' ∧
      (contentsOf capacity newChains').Perm
        ((indices.flatMap fun index => (chains index).map Prod.snd) ++ contentsOf capacity newChains) := by
  induction indices generalizing entries newBuckets newChains with
  | nil => exact ⟨entries, newBuckets, newChains, rfl, moved, .refl _⟩
  | cons first rest ih =>
    obtain ⟨apart, disjoint⟩ := List.pairwise_cons.mp disjoint
    obtain ⟨entries₁, newBuckets₁, newChains₁, ran, moved₁, kept, origin, perm⟩ :=
      relinkChain_ok (segments first List.mem_cons_self) (nodup first List.mem_cons_self) moved
        (untouched first List.mem_cons_self) (hashable first List.mem_cons_self)
        (fueled first List.mem_cons_self)
    have later {index : ℕ} (member : index ∈ rest) : index ∈ first :: rest := List.mem_cons_of_mem _ member
    have segments₁ : ∀ index ∈ rest,
        Segment (arenaCell entryView entries₁) (buckets index) (chains index) none := by
      intro index member
      apply (segments index (later member)).congr
      intro address inside
      exact kept address fun clash => apart index member address clash inside
    have untouched₁ : ∀ index ∈ rest, Untouched capacity newChains₁ (chains index) := by
      intro index member other inside address here
      rw [List.mem_map]
      rintro ⟨cell, there, rfl⟩
      rcases origin other inside cell there with old | new
      · exact untouched index (later member) other inside cell.1 here (List.mem_map_of_mem old)
      · exact apart index member cell.1 (List.mem_map_of_mem new) here
    obtain ⟨entries', newBuckets', newChains', ran', moved', perm'⟩ := ih segments₁
      (fun index member => nodup index (later member)) disjoint moved₁ untouched₁
      (fun index member => hashable index (later member)) (fun index member => fueled index (later member))
    refine ⟨entries', newBuckets', newChains', ?_, moved', ?_⟩
    · rw [List.foldlM_cons, ran]
      exact ran'
    · rw [List.flatMap_cons, List.append_assoc]
      apply perm'.trans ((perm.append_left _).trans ?_)
      rw [← List.append_assoc, ← List.append_assoc]
      exact List.perm_append_comm.append_right _

end Grow

theorem findNextCapacity_pos (capacity : ℕ) : 0 < findNextCapacity capacity := by
  have primes_pos : ∀ prime ∈ primes, 0 < prime := by decide
  rw [findNextCapacity]
  cases found : primes.find? fun prime => capacity < prime with
  | none => rw [Option.getD_none]; omega
  | some prime => exact primes_pos prime (List.mem_of_find?_eq_some found)

/-- The loop empties as many buckets as it can count. -/
theorem clearFrom_ok (ht : HashTable K V) (count : ℕ) {index : ℕ} (small : index + count < 2 ^ 31) :
    ∃ ht', ht.clearFrom index count = .ok ht' ∧ ht'.capacity = ht.capacity ∧
      ht'.size = (if count = 0 then ht.size else 0) ∧ ∀ other,
        ht'.buckets other = if index ≤ other ∧ other < index + count then none else ht.buckets other := by
  induction count generalizing ht index with
  | zero => exact ⟨ht, rfl, rfl, rfl, fun other => (if_neg (by omega)).symm⟩
  | succ count ih =>
    obtain ⟨ht', ran, capacity, size, buckets⟩ :=
      ih { ht with buckets := Function.update ht.buckets index none, size := 0 }
        (show index + 1 + count < 2 ^ 31 by omega)
    refine ⟨ht', ?_, capacity, ?_, fun other => ?_⟩
    · rw [HashTable.clearFrom, checkedInt_ok (by omega) (by omega)]
      exact ran
    · rw [size, ite_self, if_neg (Nat.succ_ne_zero count)]
    · rw [buckets]
      dsimp only
      rcases eq_or_ne other index with rfl | different
      · rw [Function.update_self, ite_self, if_pos (by omega)]
      · rw [Function.update_of_ne different]
        exact if_congr (by omega) rfl rfl

/-- The `int` that counts the buckets overflows. -/
theorem clearFrom_overflow (ht : HashTable K V) (count : ℕ) {index : ℕ} (before : index < 2 ^ 31)
    (large : 2 ^ 31 ≤ index + count) : ht.clearFrom index count = .error .signedOverflow := by
  induction count generalizing ht index with
  | zero => omega
  | succ count ih =>
    rw [HashTable.clearFrom]
    rcases Nat.lt_or_ge (index + 1) (2 ^ 31) with below | overflows
    · rw [checkedInt_ok (by omega) (by omega)]
      exact ih _ below (by omega)
    · rw [checkedInt_overflow (by omega)]
      rfl

section Collect

variable {β : Type} {field : Entry K V → β} {read : K × V → β} {list : LinkedList β} {values : List β}

/-- A chain is appended entry by entry. -/
theorem collectChain_ok (reads : ∀ key value next, field ⟨key, some value, next⟩ = read (key, value))
    (segment : Segment (arenaCell entryView entries) start cells none) (stores : Stores list values)
    (room : values.length + cells.length < 2 ^ 31) (fueled : cells.length ≤ fuel) :
    ∃ list', HashTable.collectChain field entries fuel start list = .ok list' ∧
      Stores list' (values ++ (cells.map Prod.snd).map read) := by
  induction cells generalizing start list values fuel with
  | nil =>
    obtain rfl := Segment.nil_iff.mp segment
    refine ⟨list, ?_, by simpa using stores⟩
    cases fuel <;> rfl
  | cons head rest ih =>
    obtain ⟨fuel, rfl⟩ := Nat.exists_eq_succ_of_ne_zero (Nat.ne_of_gt (Nat.zero_lt_of_lt fueled))
    obtain ⟨address, key, value⟩ := head
    obtain ⟨rfl, next, found, tail⟩ := segment
    rw [List.length_cons] at room fueled
    obtain ⟨list₁, appended, stores₁⟩ := stores.append (read (key, value)) (by omega)
    obtain ⟨list', ran, stores'⟩ := ih tail stores₁
      (by rw [List.length_append, List.length_singleton]; omega) (show rest.length ≤ fuel by omega)
    refine ⟨list', ?_, by simpa using stores'⟩
    simp only [HashTable.collectChain, readEntry_some found, reads, appended, bind, Except.bind]
    exact ran

/-- The buckets are appended one after the other. -/
theorem collect_ok {buckets : ℕ → Option ℕ} {indices : List ℕ}
    (reads : ∀ key value next, field ⟨key, some value, next⟩ = read (key, value))
    (segments : ∀ index ∈ indices, Segment (arenaCell entryView entries) (buckets index) (chains index) none)
    (stores : Stores list values)
    (room : values.length + (indices.flatMap fun index => (chains index).map Prod.snd).length < 2 ^ 31)
    (fueled : ∀ index ∈ indices, (chains index).length ≤ fuel) :
    ∃ list', indices.foldlM
        (fun list index => HashTable.collectChain field entries fuel (buckets index) list) list = .ok list' ∧
      Stores list' (values ++ (indices.flatMap fun index => (chains index).map Prod.snd).map read) := by
  induction indices generalizing list values with
  | nil => exact ⟨list, rfl, by simpa using stores⟩
  | cons first rest ih =>
    rw [List.flatMap_cons, List.length_append, List.length_map] at room
    obtain ⟨list₁, ran, stores₁⟩ := collectChain_ok reads (segments first List.mem_cons_self) stores
      (by omega) (fueled first List.mem_cons_self)
    obtain ⟨list', ran', stores'⟩ := ih
      (fun index member => segments index (List.mem_cons_of_mem _ member)) stores₁
      (by rw [List.length_append, List.length_map, List.length_map]; omega)
      (fun index member => fueled index (List.mem_cons_of_mem _ member))
    refine ⟨list', ?_, by simpa using stores'⟩
    rw [List.foldlM_cons, ran]
    exact ran'

/-- A list that a chain was appended to had room for it. -/
theorem collectChain_room {list' : LinkedList β}
    (segment : Segment (arenaCell entryView entries) start cells none) (stores : Stores list values)
    (small : values.length < 2 ^ 31) (ran : HashTable.collectChain field entries fuel start list = .ok list') :
    ∃ values', Stores list' values' ∧ values'.length = values.length + cells.length ∧
      values'.length < 2 ^ 31 := by
  induction cells generalizing start list values fuel with
  | nil =>
    obtain rfl := Segment.nil_iff.mp segment
    have same : list' = list := by
      cases fuel <;> exact (Except.ok.inj ran).symm
    exact ⟨values, same ▸ stores, rfl, small⟩
  | cons head rest ih =>
    obtain ⟨address, entry⟩ := head
    obtain ⟨rfl, next, found, tail⟩ := segment
    cases fuel with
    | zero => cases ran
    | succ fuel =>
      rw [HashTable.collectChain] at ran
      obtain ⟨stored, read, ran⟩ := Machine.bind_ok_iff.mp ran
      cases (readEntry_some found).symm.trans read
      obtain ⟨list₁, appended, ran⟩ := Machine.bind_ok_iff.mp ran
      obtain ⟨grown, stores₁, result⟩ := stores.append_eq (field ⟨entry.1, some entry.2, next⟩)
      rw [result] at appended
      obtain ⟨⟨_, upper⟩, rfl⟩ := checkedInt_map_ok_iff.mp appended
      obtain ⟨values', stores', length, room⟩ := ih tail stores₁
        (by rw [List.length_append, List.length_singleton]; omega) ran
      refine ⟨values', stores', ?_, room⟩
      rw [length, List.length_append, List.length_singleton, List.length_cons]
      omega

/-- A list that all buckets were appended to had room for them. -/
theorem collect_room {buckets : ℕ → Option ℕ} {indices : List ℕ} {list' : LinkedList β}
    (segments : ∀ index ∈ indices, Segment (arenaCell entryView entries) (buckets index) (chains index) none)
    (stores : Stores list values) (small : values.length < 2 ^ 31) (ran : indices.foldlM
      (fun list index => HashTable.collectChain field entries fuel (buckets index) list) list = .ok list') :
    values.length + (indices.flatMap fun index => (chains index).map Prod.snd).length < 2 ^ 31 := by
  induction indices generalizing list values with
  | nil => simpa using small
  | cons first rest ih =>
    rw [List.foldlM_cons] at ran
    obtain ⟨list₁, appended, ran⟩ := Machine.bind_ok_iff.mp ran
    obtain ⟨values₁, stores₁, length, room⟩ :=
      collectChain_room (segments first List.mem_cons_self) stores small appended
    have later := ih (fun index member => segments index (List.mem_cons_of_mem _ member)) stores₁ room ran
    rw [List.flatMap_cons, List.length_append, List.length_map]
    omega

end Collect

namespace Holds

variable (compares : ComparesKeys f)
include compares

theorem distinct (holds : Holds f usable ht contents) : KeyedList.Distinct f.cmp contents := by
  obtain ⟨chains, arranged, perm⟩ := holds.arranged
  exact arranged.distinct.perm compares.comparison perm

theorem lookup (holds : Holds f usable ht contents) (hashable : HashesInRange f usable key) :
    ht.lookup f key = .ok (KeyedList.find f.cmp contents key) := by
  obtain ⟨chains, arranged, perm⟩ := holds.arranged
  obtain ⟨bucket, selects⟩ := hashable ht.capacity arranged.usable
  rw [arranged.lookup compares selects,
    KeyedList.find_perm compares.comparison arranged.distinct perm]

/-- A lookup that returns has found what the table stores, whatever the key hashes to elsewhere. -/
theorem find_of_lookup (holds : Holds f usable ht contents) {found : Option V}
    (looked : ht.lookup f key = .ok found) : KeyedList.find f.cmp contents key = found := by
  obtain ⟨chains, arranged, perm⟩ := holds.arranged
  cases selects : f.index key ht.capacity with
  | error fault =>
    rw [HashTable.lookup, selects] at looked
    cases looked
  | ok bucket =>
    rw [arranged.lookup compares selects,
      KeyedList.find_perm compares.comparison arranged.distinct perm] at looked
    exact Except.ok.inj looked

/-- Growing moves every entry to the bucket that its key selects now. -/
theorem grow (holds : Holds f usable ht contents) (capacities : Capacities usable)
    (hashable : ∀ entry ∈ contents, HashesInRange f usable entry.1) :
    ∃ ht', ht.grow f = .ok ht' ∧ Holds f usable ht' contents := by
  obtain ⟨chains, arranged, perm⟩ := holds.arranged
  have usable' := capacities.next ht.capacity
  have inRange {index : ℕ} (member : index ∈ List.range ht.capacity) : index < ht.capacity :=
    List.mem_range.mp member
  have empty : Relinked f (findNextCapacity ht.capacity) ht.entries (fun _ => none)
      (fun _ => ([] : List (ℕ × (K × V)))) :=
    ⟨fun _ _ => rfl, fun _ _ _ member => absurd member List.not_mem_nil⟩
  have disjoint : (List.range ht.capacity).Pairwise fun first second =>
      ∀ address ∈ (chains first).map Prod.fst, address ∉ (chains second).map Prod.fst := by
    apply List.pairwise_lt_range.imp_of_mem
    intro first second left right before address member
    exact arranged.disjoint (inRange left) (inRange right) before.ne' member
  have selects : ∀ index ∈ List.range ht.capacity, ∀ cell ∈ chains index,
      ∃ index, f.index cell.2.1 (findNextCapacity ht.capacity) = .ok index := by
    intro index member cell here
    apply hashable cell.2 _ _ usable'
    exact perm.mem_iff.mp (mem_contentsOf.mpr ⟨index, inRange member, cell, here, rfl⟩)
  obtain ⟨entries, newBuckets, newChains, ran, moved, perm'⟩ := relinkChains_ok
    (fun index member => arranged.chain index (inRange member))
    (fun index member => arranged.nodup compares (inRange member)) disjoint
    empty (fun _ _ _ _ _ _ => List.not_mem_nil) selects
    (fun index member => arranged.length_lt compares (inRange member))
  have same : (contentsOf (findNextCapacity ht.capacity) newChains).Perm (contentsOf ht.capacity chains) := by
    have none_left : contentsOf (findNextCapacity ht.capacity) (fun _ => ([] : List (ℕ × (K × V)))) = [] := by
      simp [contentsOf]
    rw [none_left, List.append_nil] at perm'
    exact perm'
  refine ⟨{ ht with
    entries, buckets := newBuckets, capacity := findNextCapacity ht.capacity }, ?_, ⟨newChains, ⟨usable',
      moved.chain, moved.placed, arranged.distinct.perm compares.comparison same.symm⟩, same.trans perm⟩,
    holds.size⟩
  simp only [HashTable.grow, ran, bind, Except.bind]

/-- A value is written over the one that the table stores for the key, or into a new entry. -/
theorem put (holds : Holds f usable ht contents) (hashable : HashesInRange f usable key) (value : V) :
    ∃ ht' stored, ht.put f key (some value) = .ok ht' ∧ f.cmp stored key = true ∧
      Holds f usable ht' ((stored, value) :: KeyedList.erase f.cmp contents key) := by
  obtain ⟨chains, arranged, perm⟩ := holds.arranged
  obtain ⟨bucket, selects⟩ := hashable ht.capacity arranged.usable
  have inside := index_lt selects
  have same : KeyedList.find f.cmp (contentsOf ht.capacity chains) key = KeyedList.find f.cmp contents key :=
    KeyedList.find_perm compares.comparison arranged.distinct perm
  have distinct {stored : K} (agree : f.cmp stored key = true) :
      KeyedList.Distinct f.cmp ((stored, value) :: KeyedList.erase f.cmp contents key) :=
    (holds.distinct compares).cons_erase compares.comparison agree
  rw [HashTable.put, selects]
  rcases exists_match f key (chains bucket) with
    absent | ⟨front, address, stored, held, back, split, agree, earlier⟩
  · obtain ⟨ran, differs⟩ := arranged.findPrevious_absent compares inside absent
    have missing := KeyedList.erase_of_find_eq_none
      (same.symm.trans (arranged.find_eq_none compares selects absent))
    have perm' : (contentsOf ht.capacity (Function.update chains bucket
        ([] ++ (ht.entries.length, (key, value)) :: chains bucket))).Perm
          ((key, value) :: KeyedList.erase f.cmp contents key) := by
      apply (contentsOf_insert inside).trans (.cons _ ?_)
      rwa [List.nil_append, Function.update_eq_self, missing]
    have agree : f.cmp key key = true := compares.comparison.refl key
    refine ⟨_, key, ?_, agree, ⟨_, arranged.pushFront selects
      ((distinct agree).perm compares.comparison perm'.symm), perm'⟩, ?_⟩
    · simp only [ran, HashTable.behind, differs, Bool.false_eq_true, if_false, HashTable.link,
        HashTable.entryCreate, bind, Except.bind]
    · rw [missing, List.length_cons, holds.size]
  · obtain ⟨prev, next, ran, behind, found, tail, _⟩ :=
      arranged.findPrevious_match compares inside split earlier agree
    have perm' : (contentsOf ht.capacity
        (Function.update chains bucket (front ++ (address, (stored, value)) :: back))).Perm
          ((stored, value) :: KeyedList.erase f.cmp contents key) :=
      (contentsOf_insert inside).trans (.cons _ ((arranged.erase_match compares inside split agree).symm.trans
        (KeyedList.erase_perm perm key)))
    refine ⟨_, stored, ?_, agree, ⟨_, arranged.overwrite compares inside split found tail
      ((distinct agree).perm compares.comparison perm'.symm), perm'⟩, ?_⟩
    · simp only [ran, behind, HashTable.hasKey, readEntry_some found, agree, if_pos,
        writeEntry_some (Option.isSome_of_eq_some found), bind, Except.bind]
    · rw [List.length_cons, KeyedList.length_erase compares.comparison (holds.distinct compares)
        (same.symm.trans (arranged.find_eq_some compares inside split agree)), holds.size]

/-- `ioopm_hash_table_insert` writes the value for the class of the key. -/
theorem insert (holds : Holds f usable ht contents) (capacities : Capacities usable)
    (hashable : HashesInRange f usable key)
    (stored : ∀ entry ∈ contents, HashesInRange f usable entry.1) (value : V) :
    ∃ ht' stored, ht.insert f key (some value) = .ok ht' ∧ f.cmp stored key = true ∧
      Holds f usable ht' ((stored, value) :: KeyedList.erase f.cmp contents key) := by
  rw [HashTable.insert]
  split
  · obtain ⟨grown, ran, holds'⟩ := holds.grow compares capacities stored
    rw [ran]
    exact holds'.put compares hashable value
  · exact holds.put compares hashable value

/-- `ioopm_hash_table_remove` returns what the table stores for the key, and unlinks its entry. -/
theorem remove (holds : Holds f usable ht contents) (hashable : HashesInRange f usable key) :
    ∃ ht', ht.remove f key = .ok (KeyedList.find f.cmp contents key, ht') ∧
      Holds f usable ht' (KeyedList.erase f.cmp contents key) := by
  have looked := holds.lookup compares hashable
  obtain ⟨chains, arranged, perm⟩ := holds.arranged
  obtain ⟨bucket, selects⟩ := hashable ht.capacity arranged.usable
  have inside := index_lt selects
  have same : KeyedList.find f.cmp (contentsOf ht.capacity chains) key = KeyedList.find f.cmp contents key :=
    KeyedList.find_perm compares.comparison arranged.distinct perm
  have distinct := (holds.distinct compares).erase key
  rw [HashTable.remove, selects]
  simp only [looked, bind, Except.bind]
  rcases exists_match f key (chains bucket) with
    absent | ⟨front, address, stored, value, back, split, agree, earlier⟩
  · have none_found := same.symm.trans (arranged.find_eq_none compares selects absent)
    refine ⟨ht, ?_, ?_⟩
    · rw [if_pos none_found, none_found]
    · rwa [KeyedList.erase_of_find_eq_none none_found]
  · have found := same.symm.trans (arranged.find_eq_some compares inside split agree)
    have counted := KeyedList.length_erase compares.comparison (holds.distinct compares) found
    have shrunk : Arranged f usable { ht with size := ht.size - 1 } chains :=
      ⟨arranged.usable, arranged.chain, arranged.placed, arranged.distinct⟩
    obtain ⟨prev, next, ran, behind, cell, tail, atStart, later⟩ :=
      shrunk.findPrevious_match compares inside split earlier agree
    have perm' := (KeyedList.erase_perm perm key).symm.trans (arranged.erase_match compares inside split agree)
    have size : ht.size - 1 = (KeyedList.erase f.cmp contents key).length := by
      rw [holds.size]
      omega
    have filled : ¬ KeyedList.find f.cmp contents key = none := by
      rw [found]
      exact Option.some_ne_none value
    simp only [if_neg filled, ran]
    rcases List.eq_nil_or_concat' front with rfl | ⟨before, ⟨last, other, held⟩, rfl⟩
    · rw [List.nil_append] at split perm'
      obtain rfl := atStart rfl
      have first : ht.buckets bucket = some address := Except.ok.inj behind
      refine ⟨_, ?_, ⟨_, shrunk.unlinkFirst inside split tail
        (distinct.perm compares.comparison perm'), perm'.symm⟩, size⟩
      simp only [first, HashTable.hasKey, readEntry_some cell, agree, if_pos, HashTable.link, found, bind,
        Except.bind]
    · rw [List.append_assoc, List.singleton_append] at split perm'
      obtain ⟨slot, rfl, read⟩ := later (last, (other, held)) (by simp)
      have chain := shrunk.chain bucket inside
      rw [split] at chain
      obtain ⟨_, _, previous, _⟩ := chain.middle_eq
      refine ⟨_, ?_, ⟨_, shrunk.unlinkInner compares inside split tail
        (distinct.perm compares.comparison perm'), perm'.symm⟩, size⟩
      simp only [behind, readEntry_some cell, HashTable.link, read, readEntry_some previous,
        writeEntry_some (Option.isSome_of_eq_some previous), found, bind, Except.bind]

omit compares in
/-- A table with no entry in its buckets. -/
theorem of_empty (positive : usable ht.capacity) (buckets : ∀ index < ht.capacity, ht.buckets index = none)
    (size : ht.size = 0) : Holds f usable ht [] := by
  have none_left : contentsOf ht.capacity (fun _ => ([] : List (ℕ × (K × V)))) = [] := by
    simp [contentsOf]
  refine ⟨⟨fun _ => [], ⟨positive, fun index inside => Segment.nil_iff.mpr (buckets index inside),
    fun _ _ _ member => absurd member List.not_mem_nil, ?_⟩, none_left ▸ .refl _⟩, size⟩
  rw [none_left]
  exact List.Pairwise.nil

omit compares in
/-- `ioopm_hash_table_clear` empties a table whose buckets an `int` can count. -/
theorem clear (holds : Holds f usable ht contents) (capacities : Capacities usable)
    (small : ht.capacity < 2 ^ 31) :
    ∃ ht', ht.clear = .ok ht' ∧ Holds f usable ht' [] := by
  obtain ⟨chains, arranged, perm⟩ := holds.arranged
  obtain ⟨ht', ran, capacity, size, buckets⟩ :=
    clearFrom_ok ht ht.capacity (show 0 + ht.capacity < 2 ^ 31 by omega)
  refine ⟨ht', ran, of_empty (capacity ▸ arranged.usable) (fun index inside => ?_) ?_⟩
  · rw [buckets, if_pos (by omega)]
  · rw [size, if_neg (capacities.positive arranged.usable).ne']

/-- The keys or the values of a table are listed in some order. -/
theorem collect {β : Type} {field : Entry K V → β} {read : K × V → β}
    (reads : ∀ key value next, field ⟨key, some value, next⟩ = read (key, value))
    (holds : Holds f usable ht contents) (room : contents.length < 2 ^ 31) :
    ∃ list, ∃ listed : List (K × V), ht.collect field = .ok list ∧ Stores list (listed.map read) ∧
      listed.Perm contents := by
  obtain ⟨chains, arranged, perm⟩ := holds.arranged
  obtain ⟨list, ran, stores⟩ := collect_ok reads
    (fun index member => arranged.chain index (List.mem_range.mp member)) Stores.create
    (by rw [List.length_nil, Nat.zero_add]; exact perm.length_eq.trans_lt room)
    (fun index member => (arranged.length_lt compares (List.mem_range.mp member)).le)
  exact ⟨list, contentsOf ht.capacity chains, ran, stores, perm⟩

omit compares in
/-- Only keys or values that an `int` can count are listed. -/
theorem room_of_collect {β : Type} {field : Entry K V → β} {list : LinkedList β}
    (holds : Holds f usable ht contents) (ran : ht.collect field = .ok list) : contents.length < 2 ^ 31 := by
  obtain ⟨chains, arranged, perm⟩ := holds.arranged
  have room := collect_room (fun index member => arranged.chain index (List.mem_range.mp member)) Stores.create
    (Nat.two_pow_pos 31) ran
  rw [List.length_nil, Nat.zero_add] at room
  exact perm.length_eq.symm.trans_lt room

theorem keys (holds : Holds f usable ht contents) (room : contents.length < 2 ^ 31) :
    ∃ list, ∃ listed : List (K × V), ht.keys = .ok list ∧ Stores list (listed.map Prod.fst) ∧
      listed.Perm contents :=
  holds.collect compares (fun _ _ _ => rfl) room

theorem values (holds : Holds f usable ht contents) (room : contents.length < 2 ^ 31) :
    ∃ list, ∃ listed : List (K × V), ht.values = .ok list ∧
      Stores list (listed.map fun entry => some entry.2) ∧ listed.Perm contents :=
  have reads (key : K) (value : V) (next : Option ℕ) :
      (⟨key, some value, next⟩ : Entry K V).value = (fun entry : K × V => some entry.2) (key, value) := rfl
  holds.collect compares reads room

end Holds

end GarbageCollector.Proofs
