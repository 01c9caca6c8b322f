import GarbageCollector.Proofs.StoreFaults
import GarbageCollector.Soundness.CartCost
import GarbageCollector.Soundness.Listing
import GarbageCollector.Soundness.Sessions

/-! # Nothing outside its memory

A call of the store on names that can be hashed accesses nothing outside the tables, the lists and the strings,
whatever calls came before; a name that cannot be hashed leads outside the buckets. A session asks for names
that can be hashed, so whatever is typed, the program accesses nothing outside its memory.
-/

namespace GarbageCollector.Soundness

open Model Proofs

variable {full : ℕ → ℕ → Bool} {meets : ℤ → Prop} {db : Database} {v : View} {calls : List StoreCall}
  {call : StoreCall} {name : CString} {key : ℤ} {p : Program} {input : Input} {fault : DemoFault}

/-- The name that the call looks up in any case. -/
def lookedUp : StoreCall → Option CString
  | .addMerchandise name _ _ => some name
  | .removeMerchandise name => some name
  | .editMerchandise name _ _ _ => some name
  | .replenish name _ _ => some name
  | .addToCart _ merchName _ => some merchName
  | _ => none

theorem step_outOfBounds (kept : Kept full meets db v) (looks : lookedUp call = some name)
    (unhashable : ¬ HashableName name) : db.step full call = .error .outOfBounds := by
  have outside := kept.allMerch.lookup_of_not_hashable unhashable
  cases call with
  | addMerchandise name description price =>
    cases looks
    rw [Database.step, Database.addMerchandise, outside]
    rfl
  | removeMerchandise name =>
    cases looks
    rw [Database.step, Database.removeMerchandise, outside]
    rfl
  | editMerchandise name newName description price =>
    cases looks
    rw [Database.step, Database.editMerchandise, outside]
    rfl
  | replenish name shelf merchInput =>
    cases looks
    rw [Database.step, Database.replenish, outside]
    rfl
  | addToCart cartKey merchName quantity =>
    cases looks
    rw [Database.step, Database.addToCart, Database.addToCartOutcome, outside]
    rfl
  | createCart cartKey => cases looks
  | removeCart cartKey => cases looks
  | removeFromCart cartKey merchName quantity => cases looks
  | checkout cartKey => cases looks

/-- After any calls, a call returns, or a counter overflows, or it is a checkout that finds no shelf to take from
or does not end, if the names that it hashes can be hashed. A name that cannot be, where it is looked up in any
case, makes the call access something outside the buckets. -/
theorem step_faults (ran : Machine.run (Database.step full) Database.create calls = .ok db) (call : StoreCall) :
    ((∀ name ∈ hashedNames call, HashableName name) → ∀ fault, db.step full call = .error fault →
      fault = .signedOverflow ∨
        (∃ cartKey, call = .checkout cartKey) ∧ (fault = .nullDereference ∨ fault = .diverges)) ∧
      ∀ name, lookedUp call = some name → ¬ HashableName name → db.step full call = .error .outOfBounds := by
  obtain ⟨v, kept⟩ := kept_of_run ran
  constructor
  · intro hashable
    have ends := step_ends kept (enclosed_of_run ran) (fun amount lower upper => ⟨by omega, upper⟩) hashable
    exact (Machine.ends_iff.mp ends).2
  · intro name looks unhashable
    exact step_outOfBounds kept looks unhashable

/-- The shelves of a sold merchandise are overwritten by those of another that has none. -/
def sellOut : List StoreCall :=
  [.addMerchandise apple apple 5, .addMerchandise shelfA shelfA 5, .replenish apple shelfA 4, .createCart 1,
    .addToCart 1 apple 3, .editMerchandise shelfA apple apple 5]

theorem step_faults_sellOut : ∃ db, Machine.run (Database.step loadFactor) Database.create sellOut = .ok db ∧
    ((∀ name ∈ hashedNames (.checkout 1), HashableName name) → ∀ fault,
      db.step loadFactor (.checkout 1) = .error fault → fault = .signedOverflow ∨
        (∃ cartKey, StoreCall.checkout 1 = .checkout cartKey) ∧ (fault = .nullDereference ∨ fault = .diverges)) ∧
      ∀ name, lookedUp (.checkout 1) = some name → ¬ HashableName name →
        db.step loadFactor (.checkout 1) = .error .outOfBounds := by
  have ended : ∃ db, Machine.run (Database.step loadFactor) Database.create sellOut = .ok db :=
    Machine.exists_of_isOk (by decide +kernel)
  obtain ⟨db, ran⟩ := ended
  exact ⟨db, ran, step_faults ran (.checkout 1)⟩

/-- The checkout finds no shelf. -/
example : (Machine.run (Database.step loadFactor) Database.create (sellOut ++ [.checkout 1])).map (fun _ => ()) =
    .error .nullDereference := by decide +kernel

section Observed

variable (kept : Kept full meets db v)
include kept

end Observed

end GarbageCollector.Soundness
