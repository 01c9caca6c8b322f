import GarbageCollector.Proofs.StoreTables
import Mathlib.Data.List.Find

/-! # What a store holds

A view lists the merchandise and the carts of a store, with the shelves of each merchandise and the
entries of each cart: a store without its memory. The numbers that the program is about are sums over a
view, and change with it by what is put in or taken out.
-/

namespace GarbageCollector.Proofs

open Model

/-- The merchandise and the carts by their addresses, and what each of them holds. -/
structure View where
  names : List (CString × ℕ)
  carts : List (ℤ × ℕ)
  shelves : ℕ → List ShelfPair
  entries : ℕ → List (CString × CartPair)

/-- The amount of a merchandise in a cart. -/
def amountOf (entries : List (CString × CartPair)) (name : CString) : ℤ :=
  ((KeyedList.find compareString entries name).map CartPair.amountInCart).getD 0

/-- The amount of everything in a cart. -/
def cartTotal (entries : List (CString × CartPair)) : ℤ :=
  (entries.map fun entry => entry.2.amountInCart).sum

namespace View

/-- The amount of a merchandise in all carts. -/
def inCarts (v : View) (name : CString) : ℤ :=
  (v.carts.map fun cart => amountOf (v.entries cart.2) name).sum

/-- The amount of everything in all carts. -/
def total (v : View) : ℤ := (v.carts.map fun cart => cartTotal (v.entries cart.2)).sum

def setEntries (v : View) (address : ℕ) (entries : List (CString × CartPair)) : View :=
  { v with entries := Function.update v.entries address entries }

def setShelves (v : View) (address : ℕ) (shelves : List ShelfPair) : View :=
  { v with shelves := Function.update v.shelves address shelves }

/-- The view without a merchandise. -/
def without (v : View) (name : CString) : View := { v with
  names := KeyedList.erase compareString v.names name
  entries := fun address => KeyedList.erase compareString (v.entries address) name }

end View

variable {v : View} {entries : List (CString × CartPair)} {name query : CString} {pair : CartPair}
  {address : ℕ} {carts : List (ℤ × ℕ)}

/-- In a list of distinct strings, an entry is found exactly under its own. -/
theorem find_string_iff {V : Type} {contents : List (CString × V)} {value : V}
    (distinct : KeyedList.Distinct compareString contents) :
    KeyedList.find compareString contents name = some value ↔ (name, value) ∈ contents := by
  rw [KeyedList.find_eq_some_iff compareString_comparison distinct]
  simp only [compareString_iff]
  constructor
  · rintro ⟨stored, member, rfl⟩
    exact member
  · exact fun member => ⟨name, member, rfl⟩

theorem find_int_iff {V : Type} {contents : List (ℤ × V)} {key : ℤ} {value : V}
    (distinct : KeyedList.Distinct compareInt contents) :
    KeyedList.find compareInt contents key = some value ↔ (key, value) ∈ contents := by
  rw [KeyedList.find_eq_some_iff compareInt_comparison distinct]
  simp only [compareInt_iff]
  constructor
  · rintro ⟨stored, member, rfl⟩
    exact member
  · exact fun member => ⟨key, member, rfl⟩

section Amounts

theorem amountOf_of_mem (distinct : KeyedList.Distinct compareString entries) (member : (name, pair) ∈ entries) :
    amountOf entries name = pair.amountInCart := by
  rw [amountOf, (find_string_iff distinct).mpr member, Option.map_some, Option.getD_some]

theorem amountOf_of_find_eq_none (absent : KeyedList.find compareString entries name = none) :
    amountOf entries name = 0 := by
  rw [amountOf, absent, Option.map_none, Option.getD_none]

theorem amountOf_nonneg (nonNegative : ∀ entry ∈ entries, 0 ≤ entry.2.amountInCart) (name : CString) :
    0 ≤ amountOf entries name := by
  cases found : entries.find? fun entry => compareString entry.1 name with
  | none => rw [amountOf, KeyedList.find, found]; exact le_refl 0
  | some entry =>
    rw [amountOf, KeyedList.find, found]
    exact nonNegative entry (List.mem_of_find?_eq_some found)

theorem amountOf_erase : amountOf (KeyedList.erase compareString entries name) query =
    if name = query then 0 else amountOf entries query := by
  rw [amountOf, KeyedList.find_erase compareString_comparison]
  simp only [compareString_iff]
  split <;> rfl

theorem amountOf_cons_erase : amountOf ((name, pair) :: KeyedList.erase compareString entries name) query =
    if name = query then pair.amountInCart else amountOf entries query := by
  rw [amountOf, KeyedList.find_cons_erase compareString_comparison
    (compareString_iff.mpr rfl)]
  simp only [compareString_iff]
  split <;> rfl

theorem cartTotal_cons : cartTotal ((name, pair) :: entries) = pair.amountInCart + cartTotal entries :=
  List.sum_cons

theorem cartTotal_nonneg (nonNegative : ∀ entry ∈ entries, 0 ≤ entry.2.amountInCart) : 0 ≤ cartTotal entries :=
  sum_map_nonneg nonNegative

theorem cartTotal_erase (distinct : KeyedList.Distinct compareString entries) (name : CString) :
    cartTotal (KeyedList.erase compareString entries name) = cartTotal entries - amountOf entries name := by
  cases found : KeyedList.find compareString entries name with
  | none => rw [KeyedList.erase_of_find_eq_none found, amountOf_of_find_eq_none found, sub_zero]
  | some pair =>
    obtain ⟨stored, _, perm⟩ := KeyedList.exists_cons_erase
      compareString_comparison distinct found
    have sum : cartTotal entries = cartTotal ((stored, pair) :: KeyedList.erase compareString entries name) :=
      (perm.map _).sum_eq
    rw [sum, cartTotal_cons, amountOf, found, Option.map_some, Option.getD_some]
    ring

theorem erase_nonNegative (nonNegative : ∀ entry ∈ entries, 0 ≤ entry.2.amountInCart) (name : CString) :
    ∀ entry ∈ KeyedList.erase compareString entries name, 0 ≤ entry.2.amountInCart :=
  fun entry member => nonNegative entry (List.mem_filter.mp member).1

/-- A merchandise is at most as much of a cart as everything. -/
theorem amountOf_le_cartTotal (distinct : KeyedList.Distinct compareString entries)
    (nonNegative : ∀ entry ∈ entries, 0 ≤ entry.2.amountInCart) (name : CString) :
    amountOf entries name ≤ cartTotal entries := by
  have others := cartTotal_nonneg (erase_nonNegative nonNegative name)
  rw [cartTotal_erase distinct] at others
  omega

end Amounts

/-- `num_of_merch_in_one_cart` counts everything in the cart, modulo `2 ^ 32`. -/
theorem numOfMerchInOneCart_ok {full : ℕ → ℕ → Bool} {usable : ℕ → Prop} {table : HashTable CString CartPair}
    (holds : Holds (stringFunctions full) usable table entries) (room : entries.length < 2 ^ 31) :
    numOfMerchInOneCart table = .ok (toInt32 (cartTotal entries)) :=
  holds.sum_values CartPair.amountInCart (stringFunctions_compares full) room
    (fun _ _ => toInt32_toInt32_add) fun _ _ _ => rfl

section Sums

variable {β : Type} (measure : β → ℤ) {held : ℕ → β} {value : β}

/-- Writing what is held at an address that is not listed changes no sum. -/
theorem sum_update_of_not_mem (outside : address ∉ carts.map Prod.snd) :
    (carts.map fun cart => measure (Function.update held address value cart.2)).sum =
      (carts.map fun cart => measure (held cart.2)).sum := by
  congr 1
  apply List.map_congr_left
  intro cart member
  rw [Function.update_of_ne]
  rintro rfl
  exact outside (List.mem_map_of_mem member)

/-- Writing what is held at a listed address changes a sum by the difference. -/
theorem sum_update (apart : (carts.map Prod.snd).Nodup) (member : address ∈ carts.map Prod.snd) :
    (carts.map fun cart => measure (Function.update held address value cart.2)).sum =
      (carts.map fun cart => measure (held cart.2)).sum - measure (held address) + measure value := by
  induction carts with
  | nil => simp at member
  | cons cart rest ih =>
    obtain ⟨fresh, apart⟩ := List.nodup_cons.mp apart
    simp only [List.map_cons, List.sum_cons]
    rcases List.mem_cons.mp member with rfl | later
    · rw [Function.update_self, sum_update_of_not_mem measure fresh]
      ring
    · have different : cart.2 ≠ address := fun same => fresh (same ▸ later)
      rw [Function.update_of_ne different, ih apart later]
      ring

theorem le_sum {cart : ℤ × ℕ} (nonNegative : ∀ cart ∈ carts, 0 ≤ measure (held cart.2)) (member : cart ∈ carts) :
    measure (held cart.2) ≤ (carts.map fun cart => measure (held cart.2)).sum :=
  le_sum_map nonNegative member

end Sums

namespace View

/-- What a cart holds is put in or taken out of all carts. -/
theorem inCarts_setEntries (apart : (v.carts.map Prod.snd).Nodup) (member : address ∈ v.carts.map Prod.snd)
    (name : CString) : (v.setEntries address entries).inCarts name =
      v.inCarts name - amountOf (v.entries address) name + amountOf entries name :=
  sum_update (fun entries => amountOf entries name) apart member

theorem total_setEntries (apart : (v.carts.map Prod.snd).Nodup) (member : address ∈ v.carts.map Prod.snd) :
    (v.setEntries address entries).total =
      v.total - cartTotal (v.entries address) + cartTotal entries :=
  sum_update cartTotal apart member

theorem setEntries_self (v : View) (address : ℕ) : v.setEntries address (v.entries address) = v := by
  rw [View.setEntries, Function.update_eq_self]

theorem inCarts_without : (v.without name).inCarts query = if name = query then 0 else v.inCarts query := by
  simp only [inCarts, without, amountOf_erase]
  split
  · exact sum_map_eq_zero fun _ _ => rfl
  · rfl

end View

end GarbageCollector.Proofs
