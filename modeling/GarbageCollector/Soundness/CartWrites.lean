import GarbageCollector.Soundness.CartRequests

/-! # What `add_to_cart` does to a cart

`add_to_cart` takes the entry of the merchandise out of the cart before it compares the stock with the sum
that it wants to store. When the first comparison, of a sum that wraps, has let the request pass, the entry
is lost or overwritten by another amount unless the stock covers the sum as an integer.
-/

namespace GarbageCollector.Soundness

open Model Proofs

/-- The store is as before, or the cart has the quantity more of the merchandise and all else is as before. -/
def KeepsCarts (full : ℕ → ℕ → Bool) (db db' : Database) (cartKey : ℤ) (name : CString) (quantity : ℤ) : Prop :=
  db' = db ∨ ∃ before after, pairAt full db cartKey name = .ok before ∧
    pairAt full db' cartKey name = .ok (some after) ∧ after.amountInCart = amountIn before + quantity ∧
    0 ≤ after.amountInCart ∧
    ∀ key other, (key, other) ≠ (cartKey, name) → pairAt full db' key other = pairAt full db key other

/-- The cart has no entry for the merchandise that is asked for, or the stock does not cover the quantity with
all that the carts are counted to hold, or it covers the quantity with the entry. -/
def SparesEntry (full : ℕ → ℕ → Bool) (db : Database) : StoreCall → Prop
  | .addToCart cartKey name quantity =>
    Returns (db.allMerch.lookup (stringFunctions full) name) fun found => ∀ address ∈ found,
      Returns (pairAt full db cartKey name) fun held => ∀ pair ∈ held,
        Returns db.numOfMerchInCarts fun inCarts => Returns (db.merch address) fun merch =>
          Returns (numForShelfs merch.shelfs) fun num =>
            num < toInt32 (quantity + inCarts) ∨ quantity + pair.amountInCart ≤ num
  | _ => True

instance (full : ℕ → ℕ → Bool) (db : Database) : DecidablePred (SparesEntry full db)
  | .addToCart _ name _ =>
    inferInstanceAs (Decidable (Returns (db.allMerch.lookup (stringFunctions full) name) _))
  | .addMerchandise _ _ _ | .removeMerchandise _ | .editMerchandise _ _ _ _ | .replenish _ _ _ | .createCart _
  | .removeCart _ | .removeFromCart _ _ _ | .checkout _ => isTrue trivial

/-- An `int` that is not negative. -/
def IsAmount (amount : ℤ) : Prop := 0 ≤ amount ∧ amount < 2 ^ 31

variable {full : ℕ → ℕ → Bool} {db db' : Database} {v : View} {name : CString}
  {cartKey quantity inCarts : ℤ} {address merch : ℕ} {pair : CartPair} {outcome : AddOutcome} {call : StoreCall}
  {calls : List StoreCall}

/-- A quantity that is not 0 changes every `int`. -/
theorem toInt32_add_ne {amount : ℤ} (positive : 0 < quantity) (upper : quantity < 2 ^ 31) (int : IsInt amount) :
    toInt32 (quantity + amount) ≠ amount := by
  obtain ⟨least, greatest⟩ := int
  simp only [toInt32, Int.bmod]
  split <;> omega

/-- The condition at a cart of the store, by what is counted. -/
theorem sparesEntry_iff (kept : Kept full IsAmount db v) (known : (name, merch) ∈ v.names)
    (member : (cartKey, address) ∈ v.carts) (counted : db.numOfMerchInCarts = .ok inCarts) :
    SparesEntry full db (.addToCart cartKey name quantity) ↔
      ∀ pair, KeyedList.find compareString (v.entries address) name = some pair →
        toInt32 (stockOf (v.shelves merch)) < toInt32 (quantity + inCarts) ∨
          quantity + pair.amountInCart ≤ toInt32 (stockOf (v.shelves merch)) := by
  have hashable : HashableName name := kept.allMerch.hashable _ known
  obtain ⟨object, read, _, stock⟩ := kept.numForShelfs known
  simp [SparesEntry, Returns, kept.allMerch.lookup hashable, kept.names_iff.mpr known,
    pairAt_of_mem kept member hashable, counted, read, stock]

/-- Without merchandise of the name or without the cart, there is no entry to lose. -/
theorem sparesEntry_of_absent (kept : Kept full IsAmount db v) (hashable : HashableName name)
    (absent : KeyedList.find compareString v.names name = none ∨ KeyedList.find compareInt v.carts cartKey = none) :
    SparesEntry full db (.addToCart cartKey name quantity) := by
  rcases absent with absent | absent
  · simp [SparesEntry, Returns, kept.allMerch.lookup hashable, absent]
  · simp [SparesEntry, Returns, pairAt, kept.allCarts.lookup, absent, bind, Except.bind]

theorem IsAmount.isInt {amount : ℤ} (range : IsAmount amount) : IsInt amount :=
  ⟨le_trans (by decide) range.1, range.2⟩

/-- A request that meets the condition stores only amounts that are not negative. -/
theorem isAmount_of_spares (kept : Kept full IsAmount db v) (amount : IsAmount quantity)
    (spares : SparesEntry full db (.addToCart cartKey name quantity))
    (ran : db.addToCartOutcome full cartKey name quantity = .ok (.added, db'))
    (member : (cartKey, address) ∈ v.carts) :
    IsAmount (toInt32 (quantity + amountOf (v.entries address) name)) := by
  rcases (kept.of_addToCartOutcome ran).2 with ⟨_, refused, _⟩ | ⟨merch, other, inCarts, known, member', counted⟩
  · exact absurd rfl refused
  · have same := kept.carts_iff.mpr member
    rw [kept.carts_iff.mpr member'] at same
    obtain rfl := Option.some.inj same
    obtain ⟨outcome, entries, _, put, ran', _⟩ := kept.addToCartOutcome known member counted quantity
    cases ran.symm.trans ran'
    obtain ⟨enough, _⟩ := putIn_added_iff.mp (congrArg Prod.fst put)
    have fits := (sparesEntry_iff kept known member counted).mp spares
    have stock := toInt32_range (stockOf (v.shelves merch))
    obtain ⟨lower, upper⟩ := amount
    cases held : KeyedList.find compareString (v.entries other) name with
    | none =>
      rw [amountOf_of_find_eq_none held, add_zero, toInt32_of_range (by omega) upper]
      exact ⟨lower, upper⟩
    | some pair =>
      have already : 0 ≤ pair.amountInCart := (kept.pair_meets member held).2.1
      have covered := (fits pair held).resolve_left (not_lt.mpr enough)
      rw [amountOf, held, Option.map_some, Option.getD_some, toInt32_of_range (by omega) (by omega)]
      exact ⟨by omega, by omega⟩

/-- A call with amounts that are not negative keeps the amounts in the carts so, if it spares the entries. -/
theorem spares_step (kept : Kept full IsAmount db v) (amount : NonNegativeAmount call)
    (spares : SparesEntry full db call) (ran : db.step full call = .ok db') : ∃ v', Kept full IsAmount db' v' := by
  apply kept_step kept _ _ ran
  · exact fun amount positive upper => ⟨positive.le, upper⟩
  · rintro cartKey name quantity rfl address db' ran member
    exact isAmount_of_spares kept amount spares ran member

/-- An entry is kept exactly when the request is refused at once or the stock covers it with the entry. -/
theorem keepsCarts_iff_of_held (kept : Kept full IsAmount db v) (amount : IsAmount quantity)
    (known : (name, merch) ∈ v.names) (member : (cartKey, address) ∈ v.carts)
    (counted : db.numOfMerchInCarts = .ok inCarts)
    (held : KeyedList.find compareString (v.entries address) name = some pair)
    (ran : db.addToCartOutcome full cartKey name quantity = .ok (outcome, db')) :
    KeepsCarts full db db' cartKey name quantity ↔
      toInt32 (stockOf (v.shelves merch)) < toInt32 (quantity + inCarts) ∨
        quantity + pair.amountInCart ≤ toInt32 (stockOf (v.shelves merch)) := by
  have hashable : HashableName name := kept.allMerch.hashable _ known
  have before := pairAt_of_mem kept member hashable
  rw [held] at before
  have already : amountOf (v.entries address) name = pair.amountInCart := by
    rw [amountOf, held, Option.map_some, Option.getD_some]
  obtain ⟨lower, upper⟩ := amount
  have stock := toInt32_range (stockOf (v.shelves merch))
  have range : IsAmount pair.amountInCart := (kept.pair_meets member held).2
  obtain ⟨atLeast, below⟩ := range
  obtain ⟨_, entries, _, put, ran', refused, _, ints⟩ :=
    (kept.mono fun _ => IsAmount.isInt).addToCartOutcome known member counted quantity
  cases ran.symm.trans ran'
  have kept' := ints fun _ => toInt32_range _
  rw [putIn, already] at put
  split at put
  · next short =>
    cases put
    exact iff_of_true (.inl (refused rfl)) (.inl short)
  · next enough =>
    rw [or_iff_right enough]
    split at put
    · next tooMuch =>
      cases put
      have after := pairAt_of_mem kept' member hashable
      dsimp only [View.setEntries] at after
      rw [Function.update_self, KeyedList.find_erase_self compareString_comparison] at after
      apply iff_of_false
      · rintro (rfl | ⟨_, _, _, found, _⟩)
        · cases before.symm.trans after
        · cases after.symm.trans found
      · intro covered
        have sum : toInt32 (quantity + pair.amountInCart) = quantity + pair.amountInCart :=
          toInt32_of_range (by omega) (by omega)
        omega
    · next stored =>
      cases put
      obtain ⟨after, others⟩ := pairAt_stored kept hashable kept' member
      rcases lt_or_ge (quantity + pair.amountInCart) (2 ^ 31) with fits | wraps
      · have sum : toInt32 (quantity + pair.amountInCart) = quantity + pair.amountInCart :=
          toInt32_of_range (by omega) fits
        rw [sum] at stored after
        refine iff_of_true (.inr ⟨_, _, before, after, ?_, ?_, others⟩) (not_lt.mp stored)
        · exact add_comm _ _
        · dsimp only
          omega
      · have below' := (toInt32_range (quantity + pair.amountInCart)).2
        apply iff_of_false
        · rintro (rfl | ⟨_, _, found, found', sum, _⟩)
          · have same := Option.some.inj (Except.ok.inj (before.symm.trans after))
            have amount := congrArg CartPair.amountInCart same
            exact toInt32_add_ne (show 0 < quantity by omega) upper ⟨by omega, below⟩ amount.symm
          · cases before.symm.trans found
            cases after.symm.trans found'
            rw [amountIn, Option.map_some, Option.getD_some] at sum
            dsimp only at sum
            omega
        · omega

/-- A request to a store without negative amounts, whether or not the cart has an entry. -/
theorem keepsCarts_iff_of_kept (kept : Kept full IsAmount db v) (amount : IsAmount quantity)
    (ran : db.addToCart full cartKey name quantity = .ok db') :
    KeepsCarts full db db' cartKey name quantity ↔ SparesEntry full db (.addToCart cartKey name quantity) := by
  rw [Database.addToCart] at ran
  obtain ⟨⟨outcome, _⟩, reported, rfl⟩ := Machine.map_ok_iff.mp ran
  obtain ⟨hashable, ⟨absent, _, same⟩ | ⟨merch, address, inCarts, known, member, counted⟩⟩ :=
    kept.of_addToCartOutcome reported
  · exact iff_of_true (.inl same) (sparesEntry_of_absent kept hashable absent)
  · rw [sparesEntry_iff kept known member counted]
    cases held : KeyedList.find compareString (v.entries address) name with
    | some pair =>
      rw [keepsCarts_iff_of_held kept amount known member counted held reported]
      simp only [Option.some.injEq, forall_eq']
    | none =>
      refine iff_of_true ?_ (by simp only [reduceCtorEq, false_implies, implies_true])
      obtain ⟨outcome', entries, _, put, reported', _, kept_as_is, written⟩ :=
        kept.addToCartOutcome known member counted quantity
      cases reported.symm.trans reported'
      have before := pairAt_of_mem kept member hashable
      rw [held] at before
      have nothing := amountOf_of_find_eq_none held
      have exact_amount : toInt32 (quantity + 0) = quantity := by
        rw [add_zero]
        exact toInt32_of_range amount.isInt.1 amount.isInt.2
      rcases eq_or_ne outcome .added with rfl | refused
      · have stored := putIn_added (congrArg Prod.fst put)
        rw [put, nothing, exact_amount] at stored
        rw [nothing, exact_amount] at written
        have kept' := written fun _ => amount
        dsimp only at stored
        rw [stored] at kept'
        obtain ⟨after, others⟩ := pairAt_stored kept hashable kept' member
        exact .inr ⟨_, _, before, after, (zero_add _).symm, amount.1, others⟩
      · exact .inl (kept_as_is refused held)

theorem nonNegative_of_kept (kept : Kept full IsAmount db v)
    (found : pairAt full db cartKey name = .ok (some pair)) : 0 ≤ pair.amountInCart := by
  rw [pairAt] at found
  obtain ⟨cart, lookedCart, found⟩ := Machine.bind_ok_iff.mp found
  cases cart with
  | none => cases found
  | some address =>
    have member := kept.lookupCart_iff.mp lookedCart
    obtain ⟨table, read, names⟩ := kept.readCart member
    obtain ⟨_, read', looked⟩ := Machine.bind_ok_iff.mp found
    cases read.symm.trans read'
    exact (kept.pair_meets member (names.of_lookup looked).2).2.1

/-- `add_to_cart` returns, where `int`s count the carts and their entries. -/
theorem exists_addToCart (kept : Kept full IsAmount db v) (hashable : HashableName name)
    (counted : Counted full db) : ∃ db', db.addToCart full cartKey name quantity = .ok db' := by
  cases found : KeyedList.find compareString v.names name with
  | none =>
    rw [Database.addToCart, Database.addToCartOutcome, kept.allMerch.lookup hashable, found]
    exact ⟨db, rfl⟩
  | some merch =>
    cases carts : KeyedList.find compareInt v.carts cartKey with
    | none =>
      rw [Database.addToCart, Database.addToCartOutcome, kept.allMerch.lookup hashable, kept.allCarts.lookup, found, carts]
      exact ⟨db, rfl⟩
    | some address =>
      obtain ⟨count, counts⟩ := counted.counts kept
      obtain ⟨_, _, db', _, ran, _⟩ := kept.addToCartOutcome (kept.names_iff.mp found) (kept.carts_iff.mp carts)
        (kept.numOfMerchInCarts count counts) quantity
      rw [Database.addToCart, ran]
      exact ⟨db', rfl⟩

/-- After any sequence of calls with amounts that are not negative, of which each request meets the condition,
no cart holds a negative amount, and the next request keeps the carts exactly when it meets the condition. -/
theorem keepsCarts_iff (amounts : ∀ call ∈ calls, NonNegativeAmount call)
    (spares : Machine.Along (Database.step full) (SparesEntry full) Database.create calls)
    (ran : Machine.run (Database.step full) Database.create calls = .ok db) (lower : 0 ≤ quantity)
    (upper : quantity < 2 ^ 31) :
    (∀ key other pair, pairAt full db key other = .ok (some pair) → 0 ≤ pair.amountInCart) ∧
      (∀ db', db.addToCart full cartKey name quantity = .ok db' →
        (KeepsCarts full db db' cartKey name quantity ↔
          SparesEntry full db (.addToCart cartKey name quantity))) ∧
      (HashableName name → Counted full db → ∃ db', db.addToCart full cartKey name quantity = .ok db') := by
  have along := spares.and (Machine.along_of_forall fun _ => amounts)
  obtain ⟨v, kept⟩ : ∃ v, Kept full IsAmount db v := by
    apply Machine.run_invariant (fun db => ∃ v, Kept full IsAmount db v) ?_ along ⟨_, Kept.create⟩ ran
    rintro _ _ _ ⟨_, kept⟩ ⟨spares, amount⟩ stepped
    exact spares_step kept amount spares stepped
  exact ⟨fun _ _ _ found => nonNegative_of_kept kept found,
    fun _ added => keepsCarts_iff_of_kept kept ⟨lower, upper⟩ added, exists_addToCart kept⟩

/-- A cart that holds two of five pieces asks for one more. -/
theorem keepsCarts_iff_one_more :
    ∃ db db', Machine.run (Database.step loadFactor) Database.create
        [.addMerchandise apple apple 5, .replenish apple shelfA 5, .createCart 1, .addToCart 1 apple 2] = .ok db ∧
      db.addToCart loadFactor 1 apple 1 = .ok db' ∧ KeepsCarts loadFactor db db' 1 apple 1 := by
  have seen : ((Machine.run (Database.step loadFactor) Database.create
      [.addMerchandise apple apple 5, .replenish apple shelfA 5, .createCart 1, .addToCart 1 apple 2]).bind
        fun db => (db.addToCart loadFactor 1 apple 1).map fun _ => ()) = .ok () := by decide +kernel
  have along : Machine.Along (Database.step loadFactor) (SparesEntry loadFactor) Database.create
      ([.addMerchandise apple apple 5, .replenish apple shelfA 5, .createCart 1, .addToCart 1 apple 2] ++
        [.addToCart 1 apple 1]) := by decide +kernel
  obtain ⟨db, ran, seen⟩ := Machine.bind_ok_iff.mp seen
  obtain ⟨db', added, _⟩ := Machine.map_ok_iff.mp seen
  obtain ⟨along, last⟩ := Machine.along_append_iff.mp along
  exact ⟨db, db', ran, added, ((keepsCarts_iff (by decide) along ran (by decide) (by decide)).2.1 db' added).mpr
    (last db ran).1⟩

/-- A cart holds as many pieces as an `int` can count. -/
def fullCart : List StoreCall :=
  [.addMerchandise apple apple 5, .replenish apple shelfA (2 ^ 31 - 1), .createCart 1,
    .addToCart 1 apple (2 ^ 31 - 1)]

/-- One more wraps, passes both comparisons, and a negative amount is stored. -/
theorem not_keepsCarts_wrapped : (∀ call ∈ fullCart, NonNegativeAmount call) ∧
    ∃ db db', Machine.run (Database.step loadFactor) Database.create fullCart = .ok db ∧
      db.addToCart loadFactor 1 apple 1 = .ok db' ∧
      pairAt loadFactor db 1 apple = .ok (some ⟨0, 2 ^ 31 - 1⟩) ∧
      pairAt loadFactor db' 1 apple = .ok (some ⟨0, -2 ^ 31⟩) ∧ ¬ KeepsCarts loadFactor db db' 1 apple 1 := by
  have seen : ((Machine.run (Database.step loadFactor) Database.create fullCart).bind fun db => do
      let db' ← db.addToCart loadFactor 1 apple 1
      let before ← pairAt loadFactor db 1 apple
      let after ← pairAt loadFactor db' 1 apple
      .ok [before, after]) = .ok [some ⟨0, 2 ^ 31 - 1⟩, some ⟨0, -2 ^ 31⟩] := by decide +kernel
  obtain ⟨db, ran, seen⟩ := Machine.bind_ok_iff.mp seen
  obtain ⟨db', added, seen⟩ := Machine.bind_ok_iff.mp seen
  obtain ⟨before, held, seen⟩ := Machine.bind_ok_iff.mp seen
  obtain ⟨after, stored, seen⟩ := Machine.bind_ok_iff.mp seen
  simp only [Except.ok.injEq, List.cons.injEq, and_true] at seen
  obtain ⟨rfl, rfl⟩ := seen
  refine ⟨by decide, db, db', ran, added, held, stored, ?_⟩
  rintro (rfl | ⟨_, _, _, found, _, nonNegative, _⟩)
  · cases held.symm.trans stored
  · cases stored.symm.trans found
    exact absurd nonNegative (by decide)

end GarbageCollector.Soundness
