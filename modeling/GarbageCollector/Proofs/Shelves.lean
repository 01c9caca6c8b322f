import GarbageCollector.Model.Store
import GarbageCollector.Proofs.LinkedList
import Mathlib.Algebra.Order.BigOperators.Group.List
import Mathlib.Tactic.Ring

/-! # The shelves of a merchandise

What the functions of the store do with a list of shelves, in terms of the shelf pairs that it stores:
their amounts are summed modulo `2 ^ 32`, a copy has them in reverse order, and a decrease by no more
than their sum empties them one after the other and comes to its end.
-/

namespace GarbageCollector.Proofs

open Model

/-- What the shelves hold together. -/
def stockOf (shelves : List ShelfPair) : ℤ := (shelves.map ShelfPair.numOfMerch).sum

/-- No shelf holds a negative amount. -/
def NonNegative (shelves : List ShelfPair) : Prop := ∀ pair ∈ shelves, 0 ≤ pair.numOfMerch

/-- Empty the shelves in order until the amount is taken. -/
def drain : List ShelfPair → ℤ → List ShelfPair
  | [], _ => []
  | pair :: rest, amount =>
    if amount ≤ 0 then pair :: rest
    else if pair.numOfMerch < amount then
      { pair with numOfMerch := 0 } :: drain rest (amount - pair.numOfMerch)
    else { pair with numOfMerch := pair.numOfMerch - amount } :: rest

variable {shelfs : LinkedList ShelfPair} {shelves rest : List ShelfPair} {pair : ShelfPair} {name : CString}
  {amount : ℤ} {fuel : ℕ} {front cells : List (ℕ × ShelfPair)} {start : Option ℕ}

/-- A loop that sums amounts, and brings each sum into its range. -/
theorem foldlM_sum {α : Type} {wrap : ℤ → ℤ}
    (wraps : ∀ first second, wrap (wrap first + second) = wrap (first + second))
    {body : ℤ → α → Except DemoFault ℤ} {read : α → ℤ} {values : List α}
    (adds : ∀ sum, ∀ value ∈ values, body sum value = .ok (wrap (sum + read value))) (start : ℤ) :
    values.foldlM body (wrap start) = .ok (wrap (start + (values.map read).sum)) := by
  induction values generalizing start with
  | nil =>
    rw [List.map_nil, List.sum_nil, add_zero]
    rfl
  | cons value rest ih =>
    rw [List.foldlM_cons, adds _ _ List.mem_cons_self, wraps, List.map_cons, List.sum_cons, ← add_assoc]
    exact ih (fun sum other member => adds sum other (List.mem_cons_of_mem _ member)) _

section Sums

variable {α : Type} {values : List α} {measure : α → ℤ}

theorem sum_map_nonneg (nonNegative : ∀ value ∈ values, 0 ≤ measure value) : 0 ≤ (values.map measure).sum := by
  apply List.sum_nonneg
  intro amount inside
  obtain ⟨value, member, rfl⟩ := List.mem_map.mp inside
  exact nonNegative value member

/-- No term of a sum of non-negative terms is more than the sum. -/
theorem le_sum_map (nonNegative : ∀ value ∈ values, 0 ≤ measure value) {value : α} (member : value ∈ values) :
    measure value ≤ (values.map measure).sum := by
  apply List.single_le_sum ?_ _ (List.mem_map_of_mem member)
  intro amount inside
  obtain ⟨other, here, rfl⟩ := List.mem_map.mp inside
  exact nonNegative other here

theorem sum_map_eq_zero (vanishes : ∀ value ∈ values, measure value = 0) : (values.map measure).sum = 0 := by
  apply List.sum_eq_zero
  intro amount inside
  obtain ⟨value, member, rfl⟩ := List.mem_map.mp inside
  exact vanishes value member

end Sums

theorem stockOf_cons : stockOf (pair :: rest) = pair.numOfMerch + stockOf rest := List.sum_cons

theorem stockOf_perm {other : List ShelfPair} (perm : shelves.Perm other) : stockOf shelves = stockOf other :=
  (perm.map _).sum_eq

theorem stockOf_nonneg (nonNegative : NonNegative shelves) : 0 ≤ stockOf shelves :=
  sum_map_nonneg nonNegative

theorem NonNegative.tail (nonNegative : NonNegative (pair :: rest)) : NonNegative rest :=
  fun other member => nonNegative other (List.mem_cons_of_mem _ member)

theorem numForShelfs_ok (reads : Reads shelfs shelves) :
    numForShelfs shelfs = .ok (toInt32 (stockOf shelves)) := by
  rw [numForShelfs, reads.iterate]
  have sum : shelves.foldlM (fun num pair => (.ok (toInt32 (num + pair.numOfMerch)) : Except DemoFault ℤ))
      (toInt32 0) = .ok (toInt32 (0 + stockOf shelves)) :=
    foldlM_sum (fun _ _ => toInt32_toInt32_add) (fun _ _ _ => rfl) 0
  rwa [zero_add] at sum

theorem prependAll_ok {copied : List ShelfPair} {copy : LinkedList ShelfPair} (stores : Stores copy copied)
    (small : copied.length + shelves.length < 2 ^ 31) : ∃ copy',
      shelves.foldlM (fun newShelfs pair => newShelfs.prepend pair) copy = .ok copy' ∧
        Stores copy' (shelves.reverse ++ copied) := by
  induction shelves generalizing copied copy with
  | nil => exact ⟨copy, rfl, stores⟩
  | cons pair rest ih =>
    rw [List.length_cons] at small
    obtain ⟨copy₁, prepended, stores₁⟩ := stores.prepend pair (by omega)
    obtain ⟨copy', ran, stores'⟩ := ih stores₁ (by rw [List.length_cons]; omega)
    refine ⟨copy', ?_, by simpa using stores'⟩
    rw [List.foldlM_cons, prepended]
    exact ran

/-- A copy stores the same shelf pairs in reverse order. -/
theorem copyShelfs_ok (reads : Reads shelfs shelves) (small : shelves.length < 2 ^ 31) :
    ∃ copy, copyShelfs shelfs = .ok copy ∧ Stores copy shelves.reverse := by
  rw [copyShelfs, reads.iterate]
  obtain ⟨copy, ran, stores'⟩ := prependAll_ok Stores.create
    (show [].length + shelves.length < 2 ^ 31 by rwa [List.length_nil, Nat.zero_add])
  exact ⟨copy, ran, by simpa using stores'⟩

/-- The loop finds the first shelf of the name. -/
theorem indexFrom_ok (segment : Segment (arenaCell linkView shelfs.links) start cells none) (index : ℤ) :
    indexFrom shelfs name start index cells.length =
      .ok (match (cells.map Prod.snd).findIdx? fun pair => compareString pair.shelfName name with
        | none => -1
        | some found => index + found) := by
  induction cells generalizing start index with
  | nil => rfl
  | cons head rest ih =>
    obtain ⟨address, pair⟩ := head
    obtain ⟨rfl, next, found, tail⟩ := segment
    rw [List.length_cons, indexFrom, link_some found, List.map_cons, List.findIdx?_cons]
    cases agree : compareString pair.shelfName name with
    | true => simp [agree, bind, Except.bind]
    | false =>
      simp only [agree, Bool.false_eq_true, if_false, iteratorNext_segment found tail, bind, Except.bind]
      cases next with
      | none =>
        rw [tail.eq_nil_of_none]
        rfl
      | some following =>
        rw [if_neg (Option.some_ne_none following), ih tail]
        cases (rest.map Prod.snd).findIdx? fun pair => compareString pair.shelfName name with
        | none => rfl
        | some later =>
          simp
          omega

theorem indexForShelfPair_ok (stores : Stores shelfs shelves) :
    indexForShelfPair shelfs name =
      .ok (match shelves.findIdx? fun pair => compareString pair.shelfName name with
        | none => -1
        | some found => found) := by
  obtain ⟨cells, laid, rfl⟩ := stores
  rw [indexForShelfPair, laid.size, Int.toNat_natCast, indexFrom_ok laid.chain]
  simp only [zero_add]

/-- Draining takes the amount, and leaves no negative amount behind. -/
theorem stockOf_drain (nonNegative : NonNegative shelves) (lower : 0 ≤ amount) (upper : amount ≤ stockOf shelves) :
    stockOf (drain shelves amount) = stockOf shelves - amount ∧ NonNegative (drain shelves amount) := by
  induction shelves generalizing amount with
  | nil =>
    have zero : amount = 0 := le_antisymm upper lower
    rw [zero, drain, sub_zero]
    exact ⟨rfl, nonNegative⟩
  | cons pair rest ih =>
    have here := nonNegative pair List.mem_cons_self
    rw [stockOf_cons] at upper
    rw [drain]
    split
    · have zero : amount = 0 := by omega
      rw [zero, sub_zero]
      exact ⟨rfl, nonNegative⟩
    · split
      · obtain ⟨left, kept⟩ := ih nonNegative.tail (show 0 ≤ amount - pair.numOfMerch by omega) (by omega)
        refine ⟨?_, ?_⟩
        · rw [stockOf_cons, stockOf_cons, left]
          ring
        · intro other member
          rcases List.mem_cons.mp member with rfl | later
          · exact le_refl 0
          · exact kept other later
      · refine ⟨?_, ?_⟩
        · rw [stockOf_cons, stockOf_cons]
          ring
        · intro other member
          rcases List.mem_cons.mp member with rfl | later
          · dsimp only
            omega
          · exact nonNegative.tail other later

theorem length_drain : (drain shelves amount).length = shelves.length := by
  induction shelves generalizing amount with
  | nil => rfl
  | cons pair rest ih =>
    rw [drain]
    split
    · rfl
    · split
      · rw [List.length_cons, ih, List.length_cons]
      · rfl

/-- The loop of `decrease_stock` drains the shelves from the iterator on, and ends there. -/
theorem decreaseFrom_ok (laid : LaidOut shelfs (front ++ cells)) (nonNegative : NonNegative (cells.map Prod.snd))
    (here : cells ≠ [] → start = (cells.map Prod.fst).head?) (lower : 0 ≤ amount)
    (upper : amount ≤ stockOf (cells.map Prod.snd)) (small : amount < 2 ^ 31)
    (ints : ∀ pair ∈ cells.map Prod.snd, pair.numOfMerch < 2 ^ 31) (fueled : cells.length ≤ fuel) :
    ∃ shelfs', decreaseFrom shelfs start amount fuel = .ok shelfs' ∧
      Stores shelfs' (front.map Prod.snd ++ drain (cells.map Prod.snd) amount) := by
  induction cells generalizing front shelfs start amount fuel with
  | nil =>
    have zero : amount ≤ 0 := upper
    refine ⟨shelfs, ?_, _, laid, by simp [drain]⟩
    cases fuel <;> rw [decreaseFrom, if_pos zero]
  | cons head rest ih =>
    obtain ⟨fuel, rfl⟩ := Nat.exists_eq_succ_of_ne_zero (Nat.ne_of_gt (Nat.zero_lt_of_lt fueled))
    obtain ⟨address, pair⟩ := head
    obtain rfl := here (by simp)
    simp only [List.map_cons, stockOf_cons] at upper
    have holding : 0 ≤ pair.numOfMerch := nonNegative pair (by simp)
    have held : pair.numOfMerch < 2 ^ 31 := ints pair (by simp)
    obtain ⟨_, next, found, tail⟩ := laid.findLink
    have written (left : ℤ) : LaidOut { shelfs with
        links := shelfs.links.set address ⟨{ pair with numOfMerch := left }, next⟩ }
        ((front ++ [(address, { pair with numOfMerch := left })]) ++ rest) := by
      simpa using laid.setValue found { pair with numOfMerch := left }
    have moved (left : ℤ) : LinkedList.iteratorNext { shelfs with
        links := shelfs.links.set address ⟨{ pair with numOfMerch := left }, next⟩ } (some address) =
          .ok (if next = none then some address else next) :=
      iteratorNext_segment (arenaCell_set (lt_of_arenaCell (Option.isSome_of_eq_some found)))
        (tail.write_outside laid.apart.2)
    rcases le_or_gt amount 0 with none_left | some_left
    · refine ⟨shelfs, ?_, _, laid, ?_⟩
      · rw [decreaseFrom, if_pos none_left]
      · rw [List.map_cons, drain, if_pos none_left, List.map_append, List.map_cons]
    · simp only [List.map_cons, List.head?_cons, decreaseFrom, drain, if_neg (not_le.mpr some_left),
        link_some found, bind, Except.bind]
      rcases lt_or_ge pair.numOfMerch amount with short | enough
      · have exact_left : toInt32 (amount - pair.numOfMerch) = amount - pair.numOfMerch :=
          toInt32_of_range (by omega) (by omega)
        have following : rest ≠ [] → (if next = none then some address else next) =
            (rest.map Prod.fst).head? := by
          intro more
          cases rest with
          | nil => exact absurd rfl more
          | cons head others =>
            obtain rfl := tail.start_eq
            rfl
        obtain ⟨shelfs', ran, stores⟩ := ih (written 0) nonNegative.tail following
          (show 0 ≤ amount - pair.numOfMerch by omega) (by omega) (by omega)
          (fun other member => ints other (List.mem_cons_of_mem _ member)) (Nat.le_of_succ_le_succ fueled)
        refine ⟨shelfs', ?_, by simpa [if_pos short] using stores⟩
        simp only [if_pos short, exact_left, setLink_some (Option.isSome_of_eq_some found), moved 0]
        exact ran
      · have exact_left : toInt32 (pair.numOfMerch - amount) = pair.numOfMerch - amount :=
          toInt32_of_range (by omega) (by omega)
        refine ⟨_, ?_, _, written (pair.numOfMerch - amount), by simp [if_neg (not_lt.mpr enough)]⟩
        simp only [if_neg (not_lt.mpr enough), exact_left, setLink_some (Option.isSome_of_eq_some found), moved]
        cases fuel <;> rw [decreaseFrom, if_pos (le_refl 0)]

end GarbageCollector.Proofs
