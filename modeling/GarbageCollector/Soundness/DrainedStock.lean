import GarbageCollector.Soundness.StockCovers

/-! # What a checkout takes off the shelves

`decrease_stock` walks along the shelves of a merchandise until the amount is taken. With an amount that
`num_for_shelfs` covers it comes to its end, takes exactly that amount, and empties one shelf after the
other.
-/

namespace GarbageCollector.Soundness

open Model Proofs

/-- No shelf has grown or is negative, and those before a touched one are empty. -/
structure EmptiedInOrder (before after : List ShelfPair) : Prop where
  lowered : List.Forall₂ (fun old new => new.shelfName = old.shelfName ∧ 0 ≤ new.numOfMerch ∧
    new.numOfMerch ≤ old.numOfMerch) before after
  inOrder : ∀ earlier later : ℕ, earlier < later → after[later]? ≠ before[later]? →
    after[earlier]?.map ShelfPair.numOfMerch = some 0

variable {db : Database} {merch : Merch} {shelves rest : List ShelfPair} {pair : ShelfPair} {address : ℕ}
  {num amount : ℤ}

theorem lowered_refl (nonNegative : NonNegative shelves) :
    List.Forall₂ (fun old new => new.shelfName = old.shelfName ∧ 0 ≤ new.numOfMerch ∧
      new.numOfMerch ≤ old.numOfMerch) shelves shelves :=
  List.forall₂_same.mpr fun pair member => ⟨rfl, nonNegative pair member, le_refl _⟩

/-- An emptied shelf in front of others that are emptied in order. -/
theorem EmptiedInOrder.cons_empty {after : List ShelfPair} (emptied : EmptiedInOrder rest after)
    (holding : 0 ≤ pair.numOfMerch) : EmptiedInOrder (pair :: rest) ({ pair with numOfMerch := 0 } :: after) where
  lowered := .cons ⟨rfl, le_refl 0, holding⟩ emptied.lowered
  inOrder earlier later before touched := by
    cases later with
    | zero => omega
    | succ later =>
      cases earlier with
      | zero => rfl
      | succ earlier => exact emptied.inOrder earlier later (Nat.lt_of_succ_lt_succ before) touched

/-- A shelf that keeps the rest of its stock in front of untouched ones. -/
theorem EmptiedInOrder.cons_touched {left : ℤ} (nonNegative : NonNegative rest) (lower : 0 ≤ left)
    (upper : left ≤ pair.numOfMerch) : EmptiedInOrder (pair :: rest) ({ pair with numOfMerch := left } :: rest) where
  lowered := .cons ⟨rfl, lower, upper⟩ (lowered_refl nonNegative)
  inOrder earlier later before touched := by
    cases later with
    | zero => omega
    | succ later => exact absurd rfl touched

/-- Draining empties the shelves in order. -/
theorem emptiedInOrder_drain (nonNegative : NonNegative shelves) : EmptiedInOrder shelves (drain shelves amount) := by
  induction shelves generalizing amount with
  | nil => exact ⟨.nil, fun _ _ _ touched => absurd rfl touched⟩
  | cons pair rest ih =>
    have holding : 0 ≤ pair.numOfMerch := nonNegative pair List.mem_cons_self
    rw [drain]
    split
    · exact ⟨lowered_refl nonNegative, fun _ _ _ touched => absurd rfl touched⟩
    · split
      · exact (ih nonNegative.tail).cons_empty holding
      · exact .cons_touched nonNegative.tail (by omega) (by omega)

/-- `num_for_shelfs` returns no more than there is on the shelves. -/
theorem toInt32_stockOf_le (nonNegative : NonNegative shelves) : toInt32 (stockOf shelves) ≤ stockOf shelves := by
  have le : toInt32 ((stockOf shelves).toNat : ℤ) ≤ ((stockOf shelves).toNat : ℤ) := toInt32_le
  rwa [Int.toNat_of_nonneg (stockOf_nonneg nonNegative)] at le

/-- The sum that `num_for_shelfs` returns drops by what is taken. -/
theorem toInt32_stockOf_drain (nonNegative : NonNegative shelves) (lower : 0 ≤ amount)
    (upper : amount ≤ toInt32 (stockOf shelves)) :
    toInt32 (stockOf (drain shelves amount)) = toInt32 (stockOf shelves) - amount := by
  obtain ⟨_, small⟩ := toInt32_range (stockOf shelves)
  rw [(stockOf_drain nonNegative lower (upper.trans (toInt32_stockOf_le nonNegative))).1,
    sub_eq_add_neg, ← toInt32_toInt32_add, ← sub_eq_add_neg, toInt32_of_range (by omega) (by omega)]

/-- `decrease_stock` of an amount that the shelves cover ends, takes the amount, and empties the shelves in
order. -/
theorem decreaseStock_drains (read : db.merch address = .ok merch) (stores : Stores merch.shelfs shelves)
    (nonNegative : NonNegative shelves) (ints : ∀ pair ∈ shelves, pair.numOfMerch < 2 ^ 31)
    (counted : numForShelfs merch.shelfs = .ok num) (lower : 0 ≤ amount) (upper : amount ≤ num) :
    ∃ shelfs after, db.decreaseStock address amount =
        .ok { db with merchs := db.merchs.set address { merch with shelfs } } ∧
      Stores shelfs after ∧ numForShelfs shelfs = .ok (num - amount) ∧ EmptiedInOrder shelves after := by
  have wrapped := numForShelfs_ok stores.reads
  cases counted.symm.trans wrapped
  obtain ⟨_, small⟩ := toInt32_range (stockOf shelves)
  have covered : amount ≤ stockOf shelves := upper.trans (toInt32_stockOf_le nonNegative)
  obtain ⟨cells, laid, rfl⟩ := stores
  have first : cells ≠ [] → merch.shelfs.first = (cells.map Prod.fst).head? := by
    intro filled
    obtain ⟨cell, rest, rfl⟩ := List.exists_cons_of_ne_nil filled
    exact laid.chain.start_eq
  obtain ⟨shelfs, ran, stores'⟩ := decreaseFrom_ok (show LaidOut merch.shelfs ([] ++ cells) from laid)
    nonNegative first lower covered (upper.trans_lt small) ints
    (show cells.length ≤ merch.shelfs.links.length + 1 from Nat.le_succ_of_le laid.length_le)
  refine ⟨shelfs, _, ?_, stores', ?_, emptiedInOrder_drain nonNegative⟩
  · rw [Database.decreaseStock]
    simp only [read, ran, Database.setShelfs, bind, Except.bind]
  · rw [numForShelfs_ok stores'.reads]
    exact congrArg Except.ok (toInt32_stockOf_drain nonNegative lower upper)

/-- A list of two shelves, of which `b11` with 4 is the first and `a11` with 3 the second. -/
def twoShelfList : LinkedList ShelfPair :=
  ⟨[⟨⟨shelfA, 3⟩, none⟩, ⟨⟨shelfB, 4⟩, some 0⟩], some 1, some 0, 2⟩

theorem stores_twoShelfList : Stores twoShelfList [⟨shelfB, 4⟩, ⟨shelfA, 3⟩] :=
  ⟨[(1, ⟨shelfB, 4⟩), (0, ⟨shelfA, 3⟩)],
    ⟨⟨rfl, some 0, rfl, rfl, none, rfl, rfl⟩, by decide, fun _ => rfl, rfl⟩, rfl⟩

/-- A store with one merchandise on two shelves. -/
def twoShelfStore : Database := { Database.create with merchs := [⟨apple, apple, 5, twoShelfList⟩] }

/-- Five of seven are taken. -/
theorem decreaseStock_drains_five : ∃ shelfs after, twoShelfStore.decreaseStock 0 5 =
      .ok { twoShelfStore with merchs := twoShelfStore.merchs.set 0 ⟨apple, apple, 5, shelfs⟩ } ∧
    Stores shelfs after ∧ numForShelfs shelfs = .ok (7 - 5) ∧
    EmptiedInOrder [⟨shelfB, 4⟩, ⟨shelfA, 3⟩] after :=
  decreaseStock_drains (show twoShelfStore.merch 0 = .ok ⟨apple, apple, 5, twoShelfList⟩ from rfl)
    stores_twoShelfList (by unfold NonNegative; decide) (by decide)
    (show numForShelfs twoShelfList = .ok 7 by decide +kernel) (by decide) (by decide)

end GarbageCollector.Soundness
