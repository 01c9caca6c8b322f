import GarbageCollector.Proofs.StoreRuns
import GarbageCollector.Soundness.Replenished

/-! # What editing a merchandise does

`edit_merchandise` removes the merchandise, adds one with the new name and gives it a copy of the shelves. The
addition does nothing when another merchandise has the new name, which then keeps its description and its
price but loses its shelves to the copy.
-/

namespace GarbageCollector.Soundness

open Model Proofs

/-- The merchandise of a name. -/
def merchandiseAt (full : ℕ → ℕ → Bool) (db : Database) (name : CString) : Except DemoFault (Option Merch) := do
  match ← db.allMerch.lookup (stringFunctions full) name with
  | none => .ok none
  | some address => do
    let merch ← db.merch address
    .ok (some merch)

/-- The new name leads to the description, the price and the shelves, the old one to nothing unless it is the
new one, and any other to what it led to before. -/
structure Edited (full : ℕ → ℕ → Bool) (db db' : Database) (name newName description : CString) (price : ℤ)
    (merch : Merch) : Prop where
  renamed : ∃ merch' before after, merchandiseAt full db' newName = .ok (some merch') ∧
    merch'.description = description ∧ merch'.price = price ∧ shelvesOf merch.shelfs = .ok before ∧
    shelvesOf merch'.shelfs = .ok after ∧ after.Perm before
  gone : newName ≠ name → merchandiseAt full db' name = .ok none
  kept : ∀ other, other ≠ name → other ≠ newName →
    merchandiseAt full db' other = merchandiseAt full db other

/-- `edit_merchandise` returns, and has edited the merchandise. -/
def Edits (full : ℕ → ℕ → Bool) (db : Database) (name newName description : CString) (price : ℤ) (merch : Merch) :
    Prop :=
  ∃ db', db.editMerchandise full name newName description price = .ok db' ∧
    Edited full db db' name newName description price merch

/-- The new name can be hashed, an `int` counts the carts, and no other merchandise has the new name, or one
that is described and priced as asked for. -/
def Renamable (full : ℕ → ℕ → Bool) (db : Database) (name newName description : CString) (price : ℤ) : Prop :=
  HashableName newName ∧ db.allCarts.size < 2 ^ 31 ∧
    (newName = name ∨ ∀ merch, merchandiseAt full db newName = .ok (some merch) →
      merch.description = description ∧ merch.price = price)

variable {full : ℕ → ℕ → Bool} {meets : ℤ → Prop} {db db' : Database} {v : View}
  {name newName description other : CString} {price : ℤ} {address : ℕ} {merch : Merch} {calls : List StoreCall}

theorem merchandiseAt_eq (kept : Kept full meets db v) (hashable : HashableName name) :
    merchandiseAt full db name =
      .ok ((KeyedList.find compareString v.names name).bind fun address => db.merchs[address]?) := by
  rw [merchandiseAt, kept.allMerch.lookup hashable]
  cases found : KeyedList.find compareString v.names name with
  | none => rfl
  | some address =>
    obtain ⟨object, here, _⟩ := kept.merch _ (kept.names_iff.mp found)
    dsimp only at here
    simp only [Database.merch, here, bind, Except.bind, Option.bind]

/-- A merchandise that is found has an address. -/
theorem exists_of_merchandiseAt (kept : Kept full meets db v)
    (found : merchandiseAt full db name = .ok (some merch)) :
    ∃ address, (name, address) ∈ v.names ∧ db.merchs[address]? = some merch := by
  have hashable : HashableName name := by
    rw [merchandiseAt] at found
    obtain ⟨_, looked, _⟩ := Machine.bind_ok_iff.mp found
    exact (kept.allMerch.of_lookup looked).1
  rw [merchandiseAt_eq kept hashable] at found
  obtain ⟨address, here, read⟩ := Option.bind_eq_some_iff.mp (Except.ok.inj found)
  exact ⟨address, kept.names_iff.mp here, read⟩

/-- Names that lead to the same memory in two stores have the same merchandise there. -/
theorem merchandiseAt_congr {v' : View} {meets' : ℤ → Prop} (kept : Kept full meets db v)
    (kept' : Kept full meets' db' v')
    (same : KeyedList.find compareString v'.names other = KeyedList.find compareString v.names other)
    (memory : ∀ address, (other, address) ∈ v.names → db'.merchs[address]? = db.merchs[address]?) :
    merchandiseAt full db' other = merchandiseAt full db other := by
  by_cases hashable : HashableName other
  · rw [merchandiseAt_eq kept hashable, merchandiseAt_eq kept' hashable, same]
    cases found : KeyedList.find compareString v.names other with
    | none => rfl
    | some address => exact congrArg Except.ok (memory address (kept.names_iff.mp found))
  · rw [merchandiseAt, merchandiseAt, kept.allMerch.lookup_of_not_hashable hashable,
      kept'.allMerch.lookup_of_not_hashable hashable]
    rfl

/-- A name that is still listed without the edited one is another merchandise's. -/
theorem taken_of_erased {taken : ℕ} {object : Merch} (kept : Kept full meets db v)
    (there : (newName, taken) ∈ KeyedList.erase compareString v.names name)
    (read : db.merchs[taken]? = some object) :
    newName ≠ name ∧ merchandiseAt full db newName = .ok (some object) := by
  obtain ⟨listed, apart⟩ := List.mem_filter.mp there
  constructor
  · rintro rfl
    dsimp only at apart
    rw [compareString_iff.mpr rfl] at apart
    cases apart
  · rw [merchandiseAt_eq kept (kept.allMerch.hashable _ listed), kept.names_iff.mpr listed, Option.bind_some, read]

section Cases

variable {entries : ℕ → List (CString × CartPair)} {newShelfs : LinkedList ShelfPair}
  (kept : Kept full meets db v) (member : (name, address) ∈ v.names) (found : db.merchs[address]? = some merch)
  (hashable : HashableName newName) (copied : Reads newShelfs (v.shelves address).reverse)
include kept member found hashable copied

/-- A new name gets a new merchandise. -/
theorem edited_of_new
    (merchs : db'.merchs = db.merchs ++ [{ makeMerch newName description price with shelfs := newShelfs }])
    (kept' : Kept full meets db' { v with
      names := (newName, db.merchs.length) :: KeyedList.erase compareString v.names name
      shelves := Function.update v.shelves db.merchs.length (v.shelves address).reverse
      entries }) : Edited full db db' name newName description price merch := by
  have known : HashableName name := kept.allMerch.hashable _ member
  obtain ⟨reads, _⟩ := kept.shelves address merch found
  refine ⟨⟨{ makeMerch newName description price with shelfs := newShelfs }, _, _, ?_, rfl, rfl, reads.values_eq,
    copied.values_eq, List.reverse_perm _⟩, fun different => ?_, fun other apart fresh => ?_⟩
  · rw [merchandiseAt_eq kept' hashable]
    dsimp only
    rw [KeyedList.find_cons, if_pos (compareString_iff.mpr rfl), merchs, Option.bind_some,
      List.getElem?_concat_length]
  · rw [merchandiseAt_eq kept' known]
    dsimp only
    rw [KeyedList.find_cons, if_neg fun same => different (compareString_iff.mp same),
      KeyedList.find_erase_self compareString_comparison, Option.bind_none]
  · apply merchandiseAt_congr kept kept'
    · dsimp only
      rw [KeyedList.find_cons, if_neg fun same => fresh (compareString_iff.mp same).symm,
        KeyedList.find_erase compareString_comparison, if_neg fun same => apart (compareString_iff.mp same).symm]
    · intro here inside
      rw [merchs, List.getElem?_append_left (kept.merch_lt inside)]

/-- A name that is taken keeps its merchandise, but for the shelves. -/
theorem edited_of_taken {taken : ℕ} {object : Merch}
    (there : (newName, taken) ∈ KeyedList.erase compareString v.names name)
    (read : db.merchs[taken]? = some object)
    (merchs : db'.merchs = db.merchs.set taken { object with shelfs := newShelfs })
    (kept' : Kept full meets db' { v with
      names := KeyedList.erase compareString v.names name
      shelves := Function.update v.shelves taken (v.shelves address).reverse
      entries }) (described : object.description = description ∧ object.price = price) :
    Edited full db db' name newName description price merch := by
  have known : HashableName name := kept.allMerch.hashable _ member
  have bound := (List.getElem?_eq_some_iff.mp read).1
  obtain ⟨reads, _⟩ := kept.shelves address merch found
  refine ⟨⟨{ object with shelfs := newShelfs }, _, _, ?_, described.1, described.2, reads.values_eq,
    copied.values_eq, List.reverse_perm _⟩, fun _ => ?_, fun other apart fresh => ?_⟩
  · rw [merchandiseAt_eq kept' hashable, kept'.names_iff.mpr there, merchs, Option.bind_some,
      List.getElem?_set_self bound]
  · rw [merchandiseAt_eq kept' known]
    dsimp only
    rw [KeyedList.find_erase_self compareString_comparison, Option.bind_none]
  · apply merchandiseAt_congr kept kept'
    · dsimp only
      rw [KeyedList.find_erase compareString_comparison, if_neg fun same => apart (compareString_iff.mp same).symm]
    · intro here inside
      have elsewhere : taken ≠ here := by
        rintro rfl
        have listed := (List.mem_filter.mp there).1
        exact fresh (Prod.mk.inj (List.inj_on_of_nodup_map kept.merchApart inside listed rfl)).1
      rw [merchs, List.getElem?_set_ne elsewhere]

end Cases

/-- Whatever the store has been through, `edit_merchandise` edits the merchandise exactly when the new name is
fit for it. -/
theorem edits_iff (ran : Machine.run (Database.step full) Database.create calls = .ok db)
    (found : merchandiseAt full db name = .ok (some merch)) :
    Edits full db name newName description price merch ↔ Renamable full db name newName description price := by
  obtain ⟨v, kept⟩ := kept_of_run ran
  obtain ⟨address, member, read⟩ := exists_of_merchandiseAt kept found
  have positive : ∀ amount : ℤ, 0 < amount → amount < 2 ^ 31 → -2 ^ 31 ≤ amount ∧ amount < 2 ^ 31 :=
    fun amount lower upper => ⟨by omega, upper⟩
  have size := kept.allCarts.size
  constructor
  · rintro ⟨db', edited, ⟨merch', _, _, renamed, described, priced, _⟩, _, _⟩
    obtain ⟨_, known, _⟩ := kept.of_editMerchandise positive edited
    obtain ⟨count, hashable⟩ := known address member
    refine ⟨hashable, by omega, or_iff_not_imp_left.mpr fun different merch₀ before => ?_⟩
    obtain ⟨_, entries, newShelfs, edited', _, ⟨absent, _⟩ | ⟨taken, object, there, read', merchs, kept'⟩⟩ :=
      kept.editMerchandise positive member count hashable description price
    · rw [KeyedList.find_erase compareString_comparison,
        if_neg fun same => different (compareString_iff.mp same).symm] at absent
      rw [merchandiseAt_eq kept hashable, absent] at before
      cases before
    · cases edited.symm.trans edited'
      cases (taken_of_erased kept there read').2.symm.trans before
      rw [merchandiseAt_eq kept' hashable, kept'.names_iff.mpr there, merchs, Option.bind_some,
        List.getElem?_set_self (List.getElem?_eq_some_iff.mp read').1] at renamed
      cases renamed
      exact ⟨described, priced⟩
  · rintro ⟨hashable, count, free⟩
    obtain ⟨db', entries, newShelfs, edited, copied,
        ⟨_, merchs, kept'⟩ | ⟨taken, object, there, read', merchs, kept'⟩⟩ :=
      kept.editMerchandise positive member (by omega) hashable description price
    · exact ⟨db', edited, edited_of_new kept member read hashable copied merchs kept'⟩
    · refine ⟨db', edited, edited_of_taken kept member read hashable copied there read' merchs kept' ?_⟩
      obtain ⟨different, before⟩ := taken_of_erased kept there read'
      exact free.resolve_left different object before

/-- Two merchandise, of which the first has stock on two shelves and is in a cart. -/
def twoMerchandise : List StoreCall :=
  [.addMerchandise apple apple 3, .replenish apple shelfA 4, .replenish apple shelfB 2,
    .addMerchandise banana banana 5, .createCart 1, .addToCart 1 apple 2]

/-- The first is renamed to a name that no merchandise has. -/
theorem edits_iff_fresh_name :
    ∃ db merch, Machine.run (Database.step loadFactor) Database.create twoMerchandise = .ok db ∧
      merchandiseAt loadFactor db apple = .ok (some merch) ∧
      Edits loadFactor db apple shelfA shelfB 9 merch := by
  have seen : ((Machine.run (Database.step loadFactor) Database.create twoMerchandise).bind fun db => do
      let found ← merchandiseAt loadFactor db apple
      let free ← merchandiseAt loadFactor db shelfA
      .ok (found.isSome, free, db.allCarts.size)) = .ok (true, none, 1) := by decide +kernel
  obtain ⟨db, ran, seen⟩ := Machine.bind_ok_iff.mp seen
  obtain ⟨found, here, seen⟩ := Machine.bind_ok_iff.mp seen
  obtain ⟨free, absent, seen⟩ := Machine.bind_ok_iff.mp seen
  simp only [Except.ok.injEq, Prod.mk.injEq] at seen
  obtain ⟨present, rfl, size⟩ := seen
  obtain ⟨merch, rfl⟩ := Option.isSome_iff_exists.mp present
  refine ⟨db, merch, ran, here, (edits_iff ran here).mpr ⟨by decide, ?_, .inr fun taken there => ?_⟩⟩
  · rw [size]
    decide
  · cases absent.symm.trans there

/-- The first is renamed to the second, which keeps its description and its price and gets the shelves. -/
theorem not_edits_taken_name :
    ∃ db db' merch other merch', Machine.run (Database.step loadFactor) Database.create twoMerchandise = .ok db ∧
      merchandiseAt loadFactor db apple = .ok (some merch) ∧
      merchandiseAt loadFactor db banana = .ok (some other) ∧ shelvesOf other.shelfs = .ok [] ∧
      db.editMerchandise loadFactor apple banana shelfB 9 = .ok db' ∧
      merchandiseAt loadFactor db' banana = .ok (some merch') ∧
      merch'.description = banana ∧ merch'.price = 5 ∧
      shelvesOf merch'.shelfs = .ok [⟨shelfA, 4⟩, ⟨shelfB, 2⟩] ∧
      ¬ Edits loadFactor db apple banana shelfB 9 merch := by
  have seen : ((Machine.run (Database.step loadFactor) Database.create twoMerchandise).bind fun db => do
      let merch ← merchandiseAt loadFactor db apple
      let other ← merchandiseAt loadFactor db banana
      let db' ← db.editMerchandise loadFactor apple banana shelfB 9
      let merch' ← merchandiseAt loadFactor db' banana
      .ok [merch.isSome, other.any fun other => decide (shelvesOf other.shelfs = .ok []),
        merch'.any fun merch' => decide (merch'.description = banana ∧ merch'.price = 5 ∧
          shelvesOf merch'.shelfs = .ok [⟨shelfA, 4⟩, ⟨shelfB, 2⟩])]) =
      .ok [true, true, true] := by decide +kernel
  obtain ⟨db, ran, seen⟩ := Machine.bind_ok_iff.mp seen
  obtain ⟨merch, here, seen⟩ := Machine.bind_ok_iff.mp seen
  obtain ⟨other, there, seen⟩ := Machine.bind_ok_iff.mp seen
  obtain ⟨db', edited, seen⟩ := Machine.bind_ok_iff.mp seen
  obtain ⟨merch', after, seen⟩ := Machine.bind_ok_iff.mp seen
  simp only [Except.ok.injEq, List.cons.injEq, and_true, Option.any_eq_true, decide_eq_true_eq] at seen
  obtain ⟨present, ⟨other, rfl, empty⟩, ⟨merch', rfl, described, priced, shelves⟩⟩ := seen
  obtain ⟨merch, rfl⟩ := Option.isSome_iff_exists.mp present
  refine ⟨db, db', merch, other, merch', ran, here, there, empty, edited, after, described, priced, shelves, ?_⟩
  rintro ⟨_, edited', ⟨_, _, _, renamed, _, price, _⟩, _, _⟩
  cases edited.symm.trans edited'
  cases after.symm.trans renamed
  rw [priced] at price
  exact absurd price (by decide)

end GarbageCollector.Soundness
