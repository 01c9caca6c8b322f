import GarbageCollector.Proofs.Restock
import GarbageCollector.Proofs.StoreView

/-! # The invariant of a store

A view is sound when its amounts are not negative and fit an `int` together, every entry of a cart is for
merchandise that the store has, and no merchandise is in the carts more often than on its shelves. Each
edit of a view keeps this under a condition on what it changes.
-/

namespace GarbageCollector.Proofs

open Model

/-- The shelves of a merchandise. -/
structure ShelvesSound (shelves : List ShelfPair) : Prop where
  nonNegative : NonNegative shelves
  stock : stockOf shelves < 2 ^ 31
  count : shelves.length < 2 ^ 31

/-- The entries of a cart. -/
structure CartSound (names : List (CString × ℕ)) (entries : List (CString × CartPair)) : Prop where
  distinct : KeyedList.Distinct compareString entries
  nonNegative : ∀ entry ∈ entries, 0 ≤ entry.2.amountInCart
  known : ∀ entry ∈ entries, (entry.1, entry.2.merch) ∈ names
  count : entries.length < 2 ^ 31

/-- The invariant of a store. -/
structure View.Sound (v : View) : Prop where
  hashable : ∀ entry ∈ v.names, HashableName entry.1
  namesDistinct : KeyedList.Distinct compareString v.names
  merchApart : (v.names.map Prod.snd).Nodup
  shelves : ∀ entry ∈ v.names, ShelvesSound (v.shelves entry.2)
  cartsDistinct : KeyedList.Distinct compareInt v.carts
  cartsApart : (v.carts.map Prod.snd).Nodup
  cartsCount : v.carts.length < 2 ^ 31
  cart : ∀ cart ∈ v.carts, CartSound v.names (v.entries cart.2)
  total : v.total < 2 ^ 31
  covered : ∀ entry ∈ v.names, v.inCarts entry.1 ≤ stockOf (v.shelves entry.2)

variable {v : View} {entries : List (CString × CartPair)} {name shelf : CString} {address merch : ℕ} {key amount : ℤ}
  {shelves : List ShelfPair} {names : List (CString × ℕ)}

namespace ShelvesSound

/-- A shelf holds no more than all of them. -/
theorem le_stock (sound : ShelvesSound shelves) {pair : ShelfPair} (member : pair ∈ shelves) :
    pair.numOfMerch ≤ stockOf shelves :=
  le_sum_map sound.nonNegative member

/-- What is put on a shelf fits an `int` if the new stock does. -/
theorem toInt32_held {held : ℤ} {others : List ShelfPair} (sound : ShelvesSound shelves)
    (split : shelves.Perm (⟨shelf, held⟩ :: others)) (lower : 0 ≤ amount)
    (upper : stockOf shelves + amount < 2 ^ 31) : 0 ≤ held ∧ toInt32 (held + amount) = held + amount := by
  have member : ⟨shelf, held⟩ ∈ shelves := split.mem_iff.mpr List.mem_cons_self
  have held_nonneg : 0 ≤ held := sound.nonNegative _ member
  have most : held ≤ stockOf shelves := sound.le_stock member
  exact ⟨held_nonneg, toInt32_of_range (by omega) (by omega)⟩

/-- The stock grows by what is put on a shelf. -/
theorem stockOf_restocked (sound : ShelvesSound shelves) (lower : 0 ≤ amount)
    (upper : stockOf shelves + amount < 2 ^ 31) :
    stockOf (restocked shelves shelf amount) = stockOf shelves + amount := by
  rcases restocked_cases shelves shelf amount with ⟨_, new⟩ | ⟨held, others, before, after⟩
  · rw [new, stockOf_cons, add_comm]
  · rw [stockOf_perm after, stockOf_perm before, stockOf_cons, stockOf_cons,
      (sound.toInt32_held before lower upper).2]
    ring

/-- An amount is put on a shelf. -/
theorem restock (sound : ShelvesSound shelves) (lower : 0 ≤ amount) (upper : stockOf shelves + amount < 2 ^ 31)
    (room : (restocked shelves shelf amount).length < 2 ^ 31) :
    ShelvesSound (restocked shelves shelf amount) where
  nonNegative := by
    rcases restocked_cases shelves shelf amount with ⟨_, new⟩ | ⟨held, others, before, after⟩
    · rw [new]
      exact List.forall_mem_cons.mpr ⟨lower, sound.nonNegative⟩
    · obtain ⟨held_nonneg, exact_sum⟩ := sound.toInt32_held before lower upper
      intro pair inside
      rcases List.mem_cons.mp (after.mem_iff.mp inside) with rfl | other
      · dsimp only
        omega
      · exact sound.nonNegative pair (before.mem_iff.mpr (List.mem_cons_of_mem _ other))
  stock := by rwa [sound.stockOf_restocked lower upper]
  count := room

/-- An amount is taken off the shelves. -/
theorem drain (sound : ShelvesSound shelves) (lower : 0 ≤ amount) (upper : amount ≤ stockOf shelves) :
    ShelvesSound (drain shelves amount) where
  nonNegative := (stockOf_drain sound.nonNegative lower upper).2
  stock := by
    have stock := sound.stock
    rw [(stockOf_drain sound.nonNegative lower upper).1]
    omega
  count := by rw [length_drain]; exact sound.count

end ShelvesSound

namespace CartSound

theorem amount_le_total (sound : CartSound names entries) (name : CString) :
    amountOf entries name ≤ cartTotal entries :=
  amountOf_le_cartTotal sound.distinct sound.nonNegative name

/-- A cart without the entry of a merchandise. -/
theorem erase (sound : CartSound names entries) (name : CString) :
    CartSound names (KeyedList.erase compareString entries name) where
  distinct := sound.distinct.erase name
  nonNegative := erase_nonNegative sound.nonNegative name
  known entry member := sound.known entry (List.mem_filter.mp member).1
  count := (List.length_filter_le _ _).trans_lt sound.count

/-- A cart with a new amount of a merchandise. -/
theorem cons_erase (sound : CartSound names entries) {pair : CartPair} (nonNegative : 0 ≤ pair.amountInCart)
    (known : (name, pair.merch) ∈ names)
    (room : KeyedList.find compareString entries name = none → entries.length + 1 < 2 ^ 31) :
    CartSound names ((name, pair) :: KeyedList.erase compareString entries name) where
  distinct := sound.distinct.cons_erase compareString_comparison (compareString_iff.mpr rfl)
  nonNegative entry member := by
    rcases List.mem_cons.mp member with rfl | later
    · exact nonNegative
    · exact (sound.erase name).nonNegative entry later
  known entry member := by
    rcases List.mem_cons.mp member with rfl | later
    · exact known
    · exact (sound.erase name).known entry later
  count := by
    rw [List.length_cons]
    cases found : KeyedList.find compareString entries name with
    | none => rw [KeyedList.erase_of_find_eq_none found]; exact room found
    | some held =>
      rw [KeyedList.length_erase compareString_comparison sound.distinct found]
      exact sound.count

/-- Merchandise that the store does not have is in no cart. -/
theorem find_eq_none (sound : CartSound names entries)
    (absent : KeyedList.find compareString names name = none) :
    KeyedList.find compareString entries name = none := by
  rw [KeyedList.find_eq_none_iff]
  intro entry member
  exact KeyedList.find_eq_none_iff.mp absent _ (sound.known entry member)

/-- The order of the entries does not matter. -/
theorem perm (sound : CartSound names entries) {other : List (CString × CartPair)} (same : entries.Perm other) :
    CartSound names other where
  distinct := sound.distinct.perm compareString_comparison same
  nonNegative entry member := sound.nonNegative entry (same.mem_iff.mpr member)
  known entry member := sound.known entry (same.mem_iff.mpr member)
  count := same.length_eq ▸ sound.count

/-- A cart stays sound while the store keeps the merchandise in it. -/
theorem mono (sound : CartSound names entries) {names' : List (CString × ℕ)}
    (kept : ∀ entry ∈ entries, (entry.1, entry.2.merch) ∈ names → (entry.1, entry.2.merch) ∈ names') :
    CartSound names' entries :=
  ⟨sound.distinct, sound.nonNegative, fun entry member => kept entry member (sound.known entry member),
    sound.count⟩

end CartSound

namespace View.Sound

theorem names_iff (sound : v.Sound) :
    KeyedList.find compareString v.names name = some merch ↔ (name, merch) ∈ v.names :=
  find_string_iff sound.namesDistinct

theorem carts_iff (sound : v.Sound) :
    KeyedList.find compareInt v.carts key = some address ↔ (key, address) ∈ v.carts :=
  find_int_iff sound.cartsDistinct

theorem mem_carts (_ : v.Sound) (member : (key, address) ∈ v.carts) : address ∈ v.carts.map Prod.snd :=
  List.mem_map_of_mem member

/-- What is in one cart is at most what is in all. -/
theorem amount_le (sound : v.Sound) (member : (key, address) ∈ v.carts) (name : CString) :
    amountOf (v.entries address) name ≤ v.inCarts name :=
  le_sum (fun entries => amountOf entries name)
    (fun cart inside => amountOf_nonneg (sound.cart cart inside).nonNegative name) member

theorem inCarts_le_total (sound : v.Sound) (name : CString) : v.inCarts name ≤ v.total :=
  List.sum_le_sum fun cart inside => (sound.cart cart inside).amount_le_total name

theorem cartTotal_le (sound : v.Sound) (member : (key, address) ∈ v.carts) :
    cartTotal (v.entries address) ≤ v.total :=
  le_sum cartTotal (fun cart inside => cartTotal_nonneg (sound.cart cart inside).nonNegative) member

theorem total_nonneg (sound : v.Sound) : 0 ≤ v.total :=
  sum_map_nonneg fun cart here => cartTotal_nonneg (sound.cart cart here).nonNegative

/-- A cart gets other entries. -/
theorem setEntries (sound : v.Sound) (member : (key, address) ∈ v.carts) (cart : CartSound v.names entries)
    (total : v.total - cartTotal (v.entries address) + cartTotal entries < 2 ^ 31)
    (covered : ∀ entry ∈ v.names, v.inCarts entry.1 - amountOf (v.entries address) entry.1 +
      amountOf entries entry.1 ≤ stockOf (v.shelves entry.2)) : (v.setEntries address entries).Sound where
  hashable := sound.hashable
  namesDistinct := sound.namesDistinct
  merchApart := sound.merchApart
  shelves := sound.shelves
  cartsDistinct := sound.cartsDistinct
  cartsApart := sound.cartsApart
  cartsCount := sound.cartsCount
  cart other inside := by
    dsimp only [View.setEntries]
    rcases eq_or_ne other.2 address with same | different
    · rwa [same, Function.update_self]
    · rw [Function.update_of_ne different]
      exact sound.cart other inside
  total := by
    rwa [View.total_setEntries sound.cartsApart (sound.mem_carts member)]
  covered entry inside := by
    rw [View.inCarts_setEntries sound.cartsApart (sound.mem_carts member)]
    exact covered entry inside

/-- A cart loses some of what it holds. -/
theorem setEntries_less (sound : v.Sound) (member : (key, address) ∈ v.carts)
    (cart : CartSound v.names entries) (total : cartTotal entries ≤ cartTotal (v.entries address))
    (less : ∀ name, amountOf entries name ≤ amountOf (v.entries address) name) :
    (v.setEntries address entries).Sound := by
  refine sound.setEntries member cart ?_ fun entry inside => ?_
  · have whole := sound.total
    omega
  · have covered := sound.covered entry inside
    have here := less entry.1
    omega

/-- A merchandise gets other shelves. -/
theorem setShelves (sound : v.Sound) (member : (name, merch) ∈ v.names) (sound' : ShelvesSound shelves)
    (covered : v.inCarts name ≤ stockOf shelves) : (v.setShelves merch shelves).Sound where
  hashable := sound.hashable
  namesDistinct := sound.namesDistinct
  merchApart := sound.merchApart
  shelves entry inside := by
    dsimp only [View.setShelves]
    rcases eq_or_ne entry.2 merch with same | different
    · rwa [same, Function.update_self]
    · rw [Function.update_of_ne different]
      exact sound.shelves entry inside
  cartsDistinct := sound.cartsDistinct
  cartsApart := sound.cartsApart
  cartsCount := sound.cartsCount
  cart := sound.cart
  total := sound.total
  covered entry inside := by
    dsimp only [View.setShelves]
    rcases eq_or_ne entry.2 merch with same | different
    · obtain rfl : entry = (name, merch) := List.inj_on_of_nodup_map sound.merchApart inside member same
      rwa [Function.update_self]
    · rw [Function.update_of_ne different]
      exact sound.covered entry inside

/-- Merchandise that the store does not have is in no cart. -/
theorem inCarts_eq_zero (sound : v.Sound) (absent : KeyedList.find compareString v.names name = none) :
    v.inCarts name = 0 :=
  sum_map_eq_zero fun cart here => amountOf_of_find_eq_none ((sound.cart cart here).find_eq_none absent)

theorem ne_of_fresh {α : Type} {listed : List (α × ℕ)} {entry : α × ℕ} (fresh : address ∉ listed.map Prod.snd)
    (member : entry ∈ listed) : entry.2 ≠ address :=
  fun same => fresh (same ▸ List.mem_map_of_mem member)

/-- An address behind the memory of the listed objects is new. -/
theorem fresh_of_lt {α : Type} {listed : List (α × ℕ)} (below : ∀ entry ∈ listed, entry.2 < address) :
    address ∉ listed.map Prod.snd := fun inside => by
  obtain ⟨entry, member, same⟩ := List.mem_map.mp inside
  exact absurd (below entry member) (by omega)

/-- The store gets a merchandise without shelves, at an address of its own. -/
theorem addName (sound : v.Sound) (hashable : HashableName name)
    (absent : KeyedList.find compareString v.names name = none) (fresh : merch ∉ v.names.map Prod.snd) :
    View.Sound { v with
      names := (name, merch) :: v.names, shelves := Function.update v.shelves merch [] } where
  hashable entry inside := by
    rcases List.mem_cons.mp inside with rfl | later
    · exact hashable
    · exact sound.hashable entry later
  namesDistinct := by
    refine List.pairwise_cons.mpr ⟨fun entry inside => ?_, sound.namesDistinct⟩
    rw [compareString_comparison.comm]
    exact KeyedList.find_eq_none_iff.mp absent entry inside
  merchApart := List.nodup_cons.mpr ⟨fresh, sound.merchApart⟩
  shelves entry inside := by
    dsimp only
    rcases List.mem_cons.mp inside with rfl | later
    · rw [Function.update_self]
      exact ⟨fun _ member => absurd member List.not_mem_nil, by decide, by decide⟩
    · rw [Function.update_of_ne (ne_of_fresh fresh later)]
      exact sound.shelves entry later
  cartsDistinct := sound.cartsDistinct
  cartsApart := sound.cartsApart
  cartsCount := sound.cartsCount
  cart cart inside := (sound.cart cart inside).mono fun _ _ known => List.mem_cons_of_mem _ known
  total := sound.total
  covered entry inside := by
    dsimp only
    rcases List.mem_cons.mp inside with rfl | later
    · rw [Function.update_self]
      exact (sound.inCarts_eq_zero absent).le
    · rw [Function.update_of_ne (ne_of_fresh fresh later)]
      exact sound.covered entry later

/-- The store drops a merchandise that is in no cart. -/
theorem dropName (sound : v.Sound) (name : CString)
    (unused : ∀ cart ∈ v.carts, KeyedList.find compareString (v.entries cart.2) name = none) :
    View.Sound { v with names := KeyedList.erase compareString v.names name } where
  hashable entry inside := sound.hashable entry (List.mem_filter.mp inside).1
  namesDistinct := sound.namesDistinct.erase name
  merchApart := sound.merchApart.sublist (List.filter_sublist.map _)
  shelves entry inside := sound.shelves entry (List.mem_filter.mp inside).1
  cartsDistinct := sound.cartsDistinct
  cartsApart := sound.cartsApart
  cartsCount := sound.cartsCount
  cart cart inside := (sound.cart cart inside).mono fun entry member known =>
    List.mem_filter.mpr ⟨known, by simp [KeyedList.find_eq_none_iff.mp (unused cart inside) entry member]⟩
  total := sound.total
  covered entry inside := sound.covered entry (List.mem_filter.mp inside).1

/-- Every cart loses a merchandise. -/
theorem eraseAll (sound : v.Sound) (name : CString) : View.Sound { v with
    entries := fun address => KeyedList.erase compareString (v.entries address) name } where
  hashable := sound.hashable
  namesDistinct := sound.namesDistinct
  merchApart := sound.merchApart
  shelves := sound.shelves
  cartsDistinct := sound.cartsDistinct
  cartsApart := sound.cartsApart
  cartsCount := sound.cartsCount
  cart cart inside := (sound.cart cart inside).erase name
  total := by
    refine (List.sum_le_sum fun cart inside => ?_).trans_lt sound.total
    have held := sound.cart cart inside
    rw [cartTotal_erase held.distinct]
    exact sub_le_self _ (amountOf_nonneg held.nonNegative name)
  covered entry inside := by
    refine (List.sum_le_sum fun cart inside => ?_).trans (sound.covered entry inside)
    dsimp only
    rw [amountOf_erase]
    split
    · exact amountOf_nonneg (sound.cart cart inside).nonNegative entry.1
    · exact le_refl _

/-- The store drops a merchandise, and so do all carts. -/
theorem without (sound : v.Sound) (name : CString) : (v.without name).Sound :=
  (sound.eraseAll name).dropName name fun _ _ => KeyedList.find_erase_self compareString_comparison

/-- Fewer carts hold no more. -/
theorem sum_erase_le {measure : ℤ × ℕ → ℤ} (nonNegative : ∀ cart ∈ v.carts, 0 ≤ measure cart) (key : ℤ) :
    ((KeyedList.erase compareInt v.carts key).map measure).sum ≤ (v.carts.map measure).sum := by
  apply (List.filter_sublist.map measure).sum_le_sum
  intro amount inside
  obtain ⟨cart, here, rfl⟩ := List.mem_map.mp inside
  exact nonNegative cart here

/-- The store drops a cart. -/
theorem dropCart (sound : v.Sound) (key : ℤ) :
    View.Sound { v with carts := KeyedList.erase compareInt v.carts key } where
  hashable := sound.hashable
  namesDistinct := sound.namesDistinct
  merchApart := sound.merchApart
  shelves := sound.shelves
  cartsDistinct := sound.cartsDistinct.erase key
  cartsApart := sound.cartsApart.sublist (List.filter_sublist.map _)
  cartsCount := (List.length_filter_le _ _).trans_lt sound.cartsCount
  cart cart inside := sound.cart cart (List.mem_filter.mp inside).1
  total := (sum_erase_le (fun cart inside => cartTotal_nonneg (sound.cart cart inside).nonNegative) key).trans_lt
    sound.total
  covered entry inside := (sum_erase_le (fun cart here =>
    amountOf_nonneg (sound.cart cart here).nonNegative entry.1) key).trans (sound.covered entry inside)

/-- A cart is checked out, and its amounts are taken off the shelves. -/
theorem checkout (sound : v.Sound) (member : (key, address) ∈ v.carts) {shelves : ℕ → List ShelfPair}
    (drained : ∀ entry ∈ v.names,
      shelves entry.2 = drain (v.shelves entry.2) (amountOf (v.entries address) entry.1)) :
    View.Sound { v with shelves, carts := KeyedList.erase compareInt v.carts key } := by
  have dropped := sound.dropCart key
  have lower (name : CString) := amountOf_nonneg (sound.cart _ member).nonNegative name
  have upper {entry : CString × ℕ} (listed : entry ∈ v.names) :
      amountOf (v.entries address) entry.1 ≤ stockOf (v.shelves entry.2) :=
    (sound.amount_le member entry.1).trans (sound.covered entry listed)
  exact { dropped with
    shelves := fun entry listed => by
      dsimp only
      rw [drained entry listed]
      exact (sound.shelves entry listed).drain (lower entry.1) (upper listed)
    covered := fun entry listed => by
      dsimp only
      rw [drained entry listed,
        (stockOf_drain (sound.shelves entry listed).nonNegative (lower entry.1) (upper listed)).1]
      obtain ⟨stored, agree, perm⟩ := KeyedList.exists_cons_erase compareInt_comparison sound.cartsDistinct
        (sound.carts_iff.mpr member)
      have split := (perm.map fun cart => amountOf (v.entries cart.2) entry.1).sum_eq
      rw [List.map_cons, List.sum_cons] at split
      have covered := sound.covered entry listed
      dsimp only [View.inCarts] at covered ⊢
      dsimp only at split
      omega }

/-- The store gets an empty cart, at an address of its own. -/
theorem addCart (sound : v.Sound) (absent : KeyedList.find compareInt v.carts key = none)
    (fresh : address ∉ v.carts.map Prod.snd) (room : v.carts.length + 1 < 2 ^ 31) :
    View.Sound { v with
      carts := (key, address) :: v.carts, entries := Function.update v.entries address [] } where
  hashable := sound.hashable
  namesDistinct := sound.namesDistinct
  merchApart := sound.merchApart
  shelves := sound.shelves
  cartsDistinct := by
    refine List.pairwise_cons.mpr ⟨fun cart inside => ?_, sound.cartsDistinct⟩
    rw [compareInt_comparison.comm]
    exact KeyedList.find_eq_none_iff.mp absent cart inside
  cartsApart := List.nodup_cons.mpr ⟨fresh, sound.cartsApart⟩
  cartsCount := room
  cart cart inside := by
    dsimp only
    rcases List.mem_cons.mp inside with rfl | later
    · rw [Function.update_self]
      exact ⟨List.Pairwise.nil, fun _ member => absurd member List.not_mem_nil,
        fun _ member => absurd member List.not_mem_nil, by decide⟩
    · rw [Function.update_of_ne (ne_of_fresh fresh later)]
      exact sound.cart cart later
  total := by
    simp only [View.total, List.map_cons, List.sum_cons, Function.update_self,
      sum_update_of_not_mem cartTotal fresh, show cartTotal [] = 0 from rfl, zero_add]
    exact sound.total
  covered entry inside := by
    simp only [View.inCarts, List.map_cons, List.sum_cons, Function.update_self,
      sum_update_of_not_mem (fun entries => amountOf entries entry.1) fresh,
      show amountOf [] entry.1 = 0 from rfl, zero_add]
    exact sound.covered entry inside

end View.Sound

end GarbageCollector.Proofs
