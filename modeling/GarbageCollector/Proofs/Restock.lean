import GarbageCollector.Proofs.StoreTables

/-! # Restocking a list of shelves

`replenish` puts a new shelf in front, or takes the pair of a known shelf out and appends one with the sum.
As a list this is an edit of one amount up to the order, so the names, the amounts by name and the sum
follow from one case distinction. The links follow the edit where the known shelf can be unlinked.
-/

namespace GarbageCollector.Proofs

open Model

/-- What the shelves hold, by their names. -/
def shelfAmounts (shelves : List ShelfPair) : List (CString × ℤ) :=
  shelves.map fun pair => (pair.shelfName, pair.numOfMerch)

/-- The shelves after `replenish`. -/
def restocked (shelves : List ShelfPair) (shelf : CString) (amount : ℤ) : List ShelfPair :=
  match shelves.findIdx? fun pair => compareString pair.shelfName shelf with
  | none => ⟨shelf, amount⟩ :: shelves
  | some index => shelves.eraseIdx index ++
      (shelves[index]?.map fun pair => ⟨pair.shelfName, toInt32 (pair.numOfMerch + amount)⟩).toList

/-- A known shelf is the first or not the last of its list. -/
def Unlinks (shelves : List ShelfPair) (shelf : CString) : Prop :=
  ∀ index, shelves.findIdx? (fun pair => compareString pair.shelfName shelf) = some index →
    index = 0 ∨ index + 1 < shelves.length

variable {full : ℕ → ℕ → Bool} {db : Database} {name shelf : CString} {amount : ℤ} {address : ℕ}
  {shelves : List ShelfPair} {merch : Merch}

theorem distinct_shelfAmounts (apart : (shelves.map ShelfPair.shelfName).Nodup) :
    KeyedList.Distinct compareString (shelfAmounts shelves) := by
  rw [List.Nodup, List.pairwise_map] at apart
  rw [KeyedList.Distinct, shelfAmounts, List.pairwise_map]
  apply apart.imp
  intro first second different
  rw [Bool.eq_false_iff]
  exact fun same => different (compareString_iff.mp same)

/-- A shelf without an amount is on none of the names. -/
theorem find_shelfAmounts_eq_none_iff : KeyedList.find compareString (shelfAmounts shelves) shelf = none ↔
    shelf ∉ shelves.map ShelfPair.shelfName := by
  rw [KeyedList.find_eq_none_iff, shelfAmounts, List.forall_mem_map, List.mem_map]
  constructor
  · rintro apart ⟨pair, inside, rfl⟩
    exact absurd (compareString_iff.mpr rfl) (Bool.eq_false_iff.mp (apart pair inside))
  · intro fresh pair inside
    rw [Bool.eq_false_iff]
    exact fun same => fresh ⟨pair, inside, compareString_iff.mp same⟩

/-- The first shelf of a name. -/
theorem findIdx_shelf {index : ℕ} (found : shelves.findIdx? (fun pair => compareString pair.shelfName shelf) =
    some index) : ∃ held, shelves[index]? = some ⟨shelf, held⟩ := by
  obtain ⟨bound, agree, _⟩ := List.findIdx?_eq_some_iff_getElem.mp found
  refine ⟨shelves[index].numOfMerch, ?_⟩
  rw [List.getElem?_eq_getElem bound, ← compareString_iff.mp agree]

theorem restocked_of_new (absent : shelves.findIdx? (fun pair => compareString pair.shelfName shelf) = none) :
    restocked shelves shelf amount = ⟨shelf, amount⟩ :: shelves := by
  rw [restocked, absent]

theorem restocked_of_found {index : ℕ} {held : ℤ}
    (found : shelves.findIdx? (fun pair => compareString pair.shelfName shelf) = some index)
    (here : shelves[index]? = some ⟨shelf, held⟩) :
    restocked shelves shelf amount = shelves.eraseIdx index ++ [⟨shelf, toInt32 (held + amount)⟩] := by
  simp only [restocked, found, here, Option.map_some, Option.toList_some]

/-- A new shelf is put to the others, or one of the shelves gets more. -/
theorem restocked_cases (shelves : List ShelfPair) (shelf : CString) (amount : ℤ) :
    (shelf ∉ shelves.map ShelfPair.shelfName ∧ restocked shelves shelf amount = ⟨shelf, amount⟩ :: shelves) ∨
      ∃ held others, shelves.Perm (⟨shelf, held⟩ :: others) ∧
        (restocked shelves shelf amount).Perm (⟨shelf, toInt32 (held + amount)⟩ :: others) := by
  cases found : shelves.findIdx? fun pair => compareString pair.shelfName shelf with
  | none =>
    refine .inl ⟨fun member => ?_, restocked_of_new found⟩
    obtain ⟨pair, inside, rfl⟩ := List.mem_map.mp member
    have differs := List.findIdx?_eq_none_iff.mp found pair inside
    rw [compareString_iff.mpr rfl] at differs
    cases differs
  | some index =>
    obtain ⟨held, here⟩ := findIdx_shelf found
    obtain ⟨bound, same⟩ := List.getElem?_eq_some_iff.mp here
    refine .inr ⟨held, shelves.eraseIdx index, ?_, ?_⟩
    · rw [← same]
      exact (List.getElem_cons_eraseIdx_perm bound).symm
    · rw [restocked_of_found found here]
      exact List.perm_append_singleton _ _

/-- No name occurs twice afterwards. -/
theorem nodup_restocked (apart : (shelves.map ShelfPair.shelfName).Nodup) :
    ((restocked shelves shelf amount).map ShelfPair.shelfName).Nodup := by
  rcases restocked_cases shelves shelf amount with ⟨fresh, new⟩ | ⟨held, others, before, after⟩
  · rw [new]
    exact List.nodup_cons.mpr ⟨fresh, apart⟩
  · rw [(before.map ShelfPair.shelfName).nodup_iff] at apart
    rw [(after.map ShelfPair.shelfName).nodup_iff]
    exact apart

/-- The list is one longer with a new shelf, and as long as before otherwise. -/
theorem length_restocked : (restocked shelves shelf amount).length =
    if shelf ∈ shelves.map ShelfPair.shelfName then shelves.length else shelves.length + 1 := by
  rcases restocked_cases shelves shelf amount with ⟨fresh, new⟩ | ⟨held, others, before, after⟩
  · rw [new, if_neg fresh, List.length_cons]
  · have member : shelf ∈ shelves.map ShelfPair.shelfName :=
      (before.map ShelfPair.shelfName).mem_iff.mpr List.mem_cons_self
    rw [if_pos member, after.length_eq, before.length_eq, List.length_cons, List.length_cons]

/-- The sum grows by the amount, as far as an `int` tells. -/
theorem toInt32_stockOf_restocked :
    toInt32 (stockOf (restocked shelves shelf amount)) = toInt32 (stockOf shelves + amount) := by
  rcases restocked_cases shelves shelf amount with ⟨_, new⟩ | ⟨held, others, before, after⟩
  · rw [new, stockOf_cons, add_comm]
  · rw [stockOf_perm after, stockOf_perm before, stockOf_cons, stockOf_cons, toInt32_toInt32_add]
    congr 1
    ring

/-- One shelf grows by the amount, and the others are as before. -/
theorem find_restocked {other : CString} (apart : (shelves.map ShelfPair.shelfName).Nodup)
    (exact_sum : ∀ held, KeyedList.find compareString (shelfAmounts shelves) shelf = some held →
      toInt32 (held + amount) = held + amount) :
    KeyedList.find compareString (shelfAmounts (restocked shelves shelf amount)) other =
      if shelf = other then
        some ((KeyedList.find compareString (shelfAmounts shelves) shelf).getD 0 + amount)
      else KeyedList.find compareString (shelfAmounts shelves) other := by
  have distinct := distinct_shelfAmounts apart
  have distinct' : KeyedList.Distinct compareString (shelfAmounts (restocked shelves shelf amount)) :=
    distinct_shelfAmounts (nodup_restocked apart)
  rcases restocked_cases shelves shelf amount with ⟨fresh, new⟩ | ⟨held, others, before, after⟩
  · have absent := find_shelfAmounts_eq_none_iff.mpr fresh
    rw [new, shelfAmounts, List.map_cons, ← shelfAmounts, KeyedList.find_cons, absent, Option.getD_none, zero_add]
    simp only [compareString_iff]
  · have old (query : CString) : KeyedList.find compareString (shelfAmounts shelves) query =
        if shelf = query then some held else KeyedList.find compareString (shelfAmounts others) query := by
      rw [KeyedList.find_perm compareString_comparison distinct (before.map _), List.map_cons, ← shelfAmounts,
        KeyedList.find_cons]
      simp only [compareString_iff]
    rw [KeyedList.find_perm compareString_comparison distinct' (after.map _), List.map_cons, ← shelfAmounts,
      KeyedList.find_cons, old other, old shelf, if_pos rfl, Option.getD_some,
      exact_sum held (by rw [old shelf, if_pos rfl])]
    simp only [compareString_iff]
    split <;> rfl

/-- `replenish` on a merchandise writes the restocked shelves, if an `int` counts them. -/
theorem replenish_eq (amount : ℤ)
    (looked : db.allMerch.lookup (stringFunctions full) name = .ok (some address))
    (valid : isShelf shelf = true) (read : db.merch address = .ok merch) (stores : Stores merch.shelfs shelves)
    (count : shelves.length < 2 ^ 31) (unlinks : Unlinks shelves shelf) :
    ∃ shelfs', Stores shelfs' (restocked shelves shelf amount) ∧ db.replenish full name shelf amount =
      (checkedInt (restocked shelves shelf amount).length).map fun _ =>
        { db with merchs := db.merchs.set address { merch with shelfs := shelfs' } } := by
  rw [Database.replenish]
  simp only [looked, if_pos valid, read, indexForShelfPair_ok stores, bind, Except.bind, Database.setShelfs]
  cases found : shelves.findIdx? fun pair => compareString pair.shelfName shelf with
  | none =>
    obtain ⟨shelfs', stores', prepended⟩ := stores.prepend_eq ⟨shelf, amount⟩
    rw [restocked_of_new found, List.length_cons, Nat.cast_succ]
    refine ⟨shelfs', stores', ?_⟩
    simp only [if_pos (show (-1 : ℤ) < 0 by decide), prepended]
    cases checkedInt (shelves.length + 1) <;> rfl
  | some index =>
    obtain ⟨held, here⟩ := findIdx_shelf found
    obtain ⟨shelfs₁, removed, stores₁⟩ := stores.remove here count (unlinks index found)
    obtain ⟨shelfs', stores', appended⟩ := stores₁.append_eq ⟨shelf, toInt32 (held + amount)⟩
    rw [restocked_of_found found here, List.length_append, List.length_singleton, Nat.cast_succ]
    refine ⟨shelfs', stores', ?_⟩
    simp only [if_neg (show ¬ (index : ℤ) < 0 by omega), removed, appended]
    cases checkedInt ((shelves.eraseIdx index).length + 1) <;> rfl

end GarbageCollector.Proofs
