import GarbageCollector.Proofs.CartKeys

/-! # Lists without wild pointers

Every pointer in the memory of a list leads to a link of that memory, reachable or not: no operation stores
any other. So a loop over a list may run into a null pointer or turn for ever, but it reads no memory outside
the links. What the calls of the store do to their lists of shelves keeps this.
-/

namespace GarbageCollector.Proofs

open Model

variable {α : Type} {list list' : LinkedList α} {link : Link α} {pointer : Option ℕ} {value : α} {index : ℤ}

/-- Every pointer in the memory of the list leads to a link of it. -/
structure Closed (list : LinkedList α) : Prop where
  first : ∀ address ∈ list.first, address < list.links.length
  next : ∀ link ∈ list.links, ∀ address ∈ link.next, address < list.links.length

theorem mem_of_link (read : list.link pointer = .ok link) : link ∈ list.links := by
  cases pointer with
  | none => cases read
  | some address =>
    rw [LinkedList.link] at read
    split at read
    · cases read
    · next found =>
      cases read
      exact List.mem_of_getElem? found

theorem length_of_setLink (written : list.setLink pointer link = .ok list') :
    list'.links.length = list.links.length ∧ list'.first = list.first := by
  cases pointer with
  | none => cases written
  | some address =>
    rw [LinkedList.setLink] at written
    split at written
    · cases written
      exact ⟨List.length_set, rfl⟩
    · cases written

namespace Closed

theorem create : Closed (LinkedList.create : LinkedList α) := by
  constructor
  · intro address member
    cases member
  · intro link member
    cases member

/-- A link that leads into the memory may be written anywhere. -/
theorem setLink (closed : Closed list) (written : list.setLink pointer link = .ok list')
    (inside : ∀ address ∈ link.next, address < list.links.length) : Closed list' := by
  obtain ⟨length, first⟩ := length_of_setLink written
  constructor
  · rw [length, first]
    exact closed.first
  · rw [length]
    cases pointer with
    | none => cases written
    | some address =>
      rw [LinkedList.setLink] at written
      split at written
      · cases written
        intro other member
        rcases List.mem_or_eq_of_mem_set member with before | rfl
        · exact closed.next other before
        · exact inside
      · cases written

theorem alloc (closed : Closed list) (value : α) : Closed (list.alloc value) := by
  have length : (list.alloc value).links.length = list.links.length + 1 := by
    simp [LinkedList.alloc]
  constructor
  · intro address member
    have old := closed.first address member
    omega
  · intro link member address here
    rcases List.mem_append.mp member with before | new
    · have old := closed.next link before address here
      omega
    · rw [List.mem_singleton.mp new] at here
      cases here

/-- The head of the list may be any link of the memory. -/
theorem setFirst (closed : Closed list) {first last : Option ℕ} {size : ℤ}
    (inside : ∀ address ∈ first, address < list.links.length) :
    Closed { list with first := first, last := last, size := size } :=
  ⟨inside, closed.next⟩

theorem newLink_lt (list : LinkedList α) (value : α) :
    ∀ address ∈ some list.links.length, address < (list.alloc value).links.length := by
  intro address member
  cases member
  simp [LinkedList.alloc]

theorem append (closed : Closed list) (ran : list.append value = .ok list') : Closed list' := by
  have allocated := closed.alloc value
  have new := newLink_lt list value
  rw [LinkedList.append] at ran
  dsimp only at ran
  split at ran
  · obtain ⟨longer, linked, ran⟩ := Machine.bind_ok_iff.mp ran
    obtain ⟨size, _, ran⟩ := Machine.bind_ok_iff.mp ran
    cases linked
    cases ran
    exact allocated.setFirst new
  · obtain ⟨last, _, ran⟩ := Machine.bind_ok_iff.mp ran
    obtain ⟨written, set, ran⟩ := Machine.bind_ok_iff.mp ran
    obtain ⟨longer, linked, ran⟩ := Machine.bind_ok_iff.mp ran
    obtain ⟨size, _, ran⟩ := Machine.bind_ok_iff.mp ran
    cases linked
    cases ran
    have closed' := allocated.setLink set new
    exact closed'.setFirst closed'.first

theorem prepend (closed : Closed list) (ran : list.prepend value = .ok list') : Closed list' := by
  have allocated := closed.alloc value
  have new := newLink_lt list value
  rw [LinkedList.prepend] at ran
  dsimp only at ran
  split at ran
  · obtain ⟨longer, linked, ran⟩ := Machine.bind_ok_iff.mp ran
    obtain ⟨size, _, ran⟩ := Machine.bind_ok_iff.mp ran
    cases linked
    cases ran
    exact allocated.setFirst new
  · obtain ⟨written, set, ran⟩ := Machine.bind_ok_iff.mp ran
    obtain ⟨longer, linked, ran⟩ := Machine.bind_ok_iff.mp ran
    obtain ⟨size, _, ran⟩ := Machine.bind_ok_iff.mp ran
    cases linked
    cases ran
    have closed' := allocated.setLink set allocated.first
    apply closed'.setFirst
    rwa [(length_of_setLink set).1]

theorem remove (closed : Closed list) (ran : list.remove index = .ok (value, list')) : Closed list' := by
  rw [LinkedList.remove] at ran
  split at ran
  · obtain ⟨first, _, ran⟩ := Machine.bind_ok_iff.mp ran
    cases ran
    exact closed
  split at ran
  · obtain ⟨last, _, ran⟩ := Machine.bind_ok_iff.mp ran
    cases ran
    exact closed
  obtain ⟨currentLink, _, ran⟩ := Machine.bind_ok_iff.mp ran
  obtain ⟨current, read, ran⟩ := Machine.bind_ok_iff.mp ran
  have behind := closed.next current (mem_of_link read)
  dsimp only at ran
  split at ran
  · obtain ⟨first, readFirst, ran⟩ := Machine.bind_ok_iff.mp ran
    obtain ⟨unlinked, set, ran⟩ := Machine.bind_ok_iff.mp ran
    obtain ⟨size, _, ran⟩ := Machine.bind_ok_iff.mp ran
    cases set
    cases ran
    exact closed.setFirst (closed.next first (mem_of_link readFirst))
  split at ran
  · obtain ⟨prevLink, _, ran⟩ := Machine.bind_ok_iff.mp ran
    obtain ⟨prev, _, ran⟩ := Machine.bind_ok_iff.mp ran
    obtain ⟨unlinked, set, ran⟩ := Machine.bind_ok_iff.mp ran
    obtain ⟨size, _, ran⟩ := Machine.bind_ok_iff.mp ran
    cases ran
    have closed' := closed.setLink set behind
    exact closed'.setFirst closed'.first
  · obtain ⟨unlinked, set, ran⟩ := Machine.bind_ok_iff.mp ran
    obtain ⟨size, _, ran⟩ := Machine.bind_ok_iff.mp ran
    cases set
    cases ran
    exact closed.setFirst closed.first

/-- `copy_shelfs` makes a closed list. -/
theorem copy {shelfs shelfs' : LinkedList ShelfPair} (copied : copyShelfs shelfs = .ok shelfs') :
    Closed shelfs' :=
  iterateFrom_invariant Closed (fun _ _ _ closed ran => closed.prepend ran) create copied

/-- An iterator stays in the memory. -/
theorem iteratorNext (closed : Closed list) {address : ℕ} (inside : address < list.links.length) :
    ∃ next, list.iteratorNext (some address) = .ok next ∧ ∀ following ∈ next, following < list.links.length := by
  have found := List.getElem?_eq_getElem inside
  have behind := closed.next _ (List.getElem_mem inside)
  rw [LinkedList.iteratorNext]
  simp only [LinkedList.link, found, Machine.ok_bind]
  cases next : list.links[address].next with
  | none => exact ⟨_, rfl, fun following member => by cases member; exact inside⟩
  | some following =>
    have there := List.getElem?_eq_getElem (behind following next)
    simp only [ne_eq, reduceCtorEq, not_false_eq_true, if_true, there, Machine.ok_bind]
    exact ⟨_, rfl, fun other member => by cases member; exact behind following next⟩

/-- The loop of `decrease_stock` stays in the memory: it ends, finds no shelf at all, or does not end. -/
theorem decreaseFrom {shelfs : LinkedList ShelfPair} (closed : Closed shelfs) {current : Option ℕ}
    (inside : ∀ address ∈ current, address < shelfs.links.length) (amount : ℤ) (fuel : ℕ) :
    Machine.Ends (fun fault => fault = .nullDereference ∨ fault = .diverges) Closed
      (Model.decreaseFrom shelfs current amount fuel) := by
  induction fuel generalizing shelfs current amount with
  | zero =>
    rw [Model.decreaseFrom]
    split
    · exact .ok closed
    · exact .error (.inr rfl)
  | succ fuel ih =>
    rw [Model.decreaseFrom]
    split
    · exact .ok closed
    cases current with
    | none => exact .error (.inl rfl)
    | some address =>
      have bound := inside address rfl
      have found := List.getElem?_eq_getElem bound
      have behind := closed.next _ (List.getElem_mem bound)
      simp only [LinkedList.link, found, Machine.ok_bind]
      have advance {left left' : ℤ} :
          Machine.Ends (fun fault => fault = .nullDereference ∨ fault = .diverges) Closed
          (do
            let shelfs ← shelfs.setLink (some address) { shelfs.links[address] with
              value := { shelfs.links[address].value with numOfMerch := left } }
            let current ← shelfs.iteratorNext (some address)
            Model.decreaseFrom shelfs current left' fuel) := by
        cases written : shelfs.setLink (some address) { shelfs.links[address] with
            value := { shelfs.links[address].value with numOfMerch := left } } with
        | error fault =>
          rw [LinkedList.setLink, if_pos bound] at written
          cases written
        | ok emptier =>
          have closed' := closed.setLink written behind
          have bound' : address < emptier.links.length := by rwa [(length_of_setLink written).1]
          obtain ⟨next, moved, inside'⟩ := closed'.iteratorNext bound'
          rw [Machine.ok_bind, moved, Machine.ok_bind]
          exact ih closed' inside' left'
      split
      · exact advance
      · exact advance

end Closed

/-- No list of shelves has a wild pointer. -/
def Enclosed (db : Database) : Prop := ∀ merch ∈ db.merchs, Closed merch.shelfs

variable {full : ℕ → ℕ → Bool} {meets : ℤ → Prop} {db db' : Database} {v : View} {name shelf : CString}
  {key amount : ℤ} {address : ℕ} {shelfs : LinkedList ShelfPair} {call : StoreCall} {calls : List StoreCall}

namespace Enclosed

theorem read {merch : Merch} (enclosed : Enclosed db) (read : db.merch address = .ok merch) :
    Closed merch.shelfs :=
  enclosed merch (List.mem_of_getElem? (getElem?_of_merch read))

theorem setShelfs (enclosed : Enclosed db) (closed : Closed shelfs) (ran : db.setShelfs address shelfs = .ok db') :
    Enclosed db' := by
  rw [Database.setShelfs] at ran
  obtain ⟨merch, _, ran⟩ := Machine.bind_ok_iff.mp ran
  cases ran
  intro other member
  rcases List.mem_or_eq_of_mem_set member with before | rfl
  · exact enclosed other before
  · exact closed

theorem addMerchandise {description : CString} {price : ℤ} (enclosed : Enclosed db)
    (ran : db.addMerchandise full name description price = .ok db') : Enclosed db' := by
  rw [Database.addMerchandise] at ran
  obtain ⟨found, _, ran⟩ := Machine.bind_ok_iff.mp ran
  cases found with
  | some address =>
    cases ran
    exact enclosed
  | none =>
    obtain ⟨allMerch, _, ran⟩ := Machine.bind_ok_iff.mp ran
    cases ran
    intro merch member
    rcases List.mem_append.mp member with before | new
    · exact enclosed merch before
    · rw [List.mem_singleton.mp new]
      exact Closed.create

theorem of_merchs (enclosed : Enclosed db) (same : db'.merchs = db.merchs) : Enclosed db' := by
  rw [Enclosed, same]
  exact enclosed

theorem editMerchandise {newName description : CString} {price : ℤ} (enclosed : Enclosed db)
    (kept : Kept full meets db v) (positive : ∀ amount, 0 < amount → amount < 2 ^ 31 → meets amount)
    (ran : db.editMerchandise full name newName description price = .ok db') : Enclosed db' := by
  rw [Database.editMerchandise] at ran
  obtain ⟨found, _, ran⟩ := Machine.bind_ok_iff.mp ran
  cases found with
  | none =>
    cases ran
    exact enclosed
  | some address =>
    obtain ⟨merch, _, ran⟩ := Machine.bind_ok_iff.mp ran
    obtain ⟨newShelfs, copied, ran⟩ := Machine.bind_ok_iff.mp ran
    obtain ⟨without, removed, ran⟩ := Machine.bind_ok_iff.mp ran
    obtain ⟨renamed, added, ran⟩ := Machine.bind_ok_iff.mp ran
    obtain ⟨found', _, ran⟩ := Machine.bind_ok_iff.mp ran
    obtain ⟨newMerch, _, ran⟩ := Machine.bind_ok_iff.mp ran
    obtain ⟨_, _, _, same, _⟩ := kept.of_removeMerchandise positive removed
    exact ((enclosed.of_merchs same).addMerchandise added).setShelfs (Closed.copy copied) ran

theorem replenish (enclosed : Enclosed db) (ran : db.replenish full name shelf amount = .ok db') :
    Enclosed db' := by
  rw [Database.replenish] at ran
  obtain ⟨found, _, ran⟩ := Machine.bind_ok_iff.mp ran
  cases found with
  | none =>
    cases ran
    exact enclosed
  | some address =>
    dsimp only at ran
    split at ran
    · obtain ⟨merch, read, ran⟩ := Machine.bind_ok_iff.mp ran
      obtain ⟨index, _, ran⟩ := Machine.bind_ok_iff.mp ran
      have closed := enclosed.read read
      split at ran
      · obtain ⟨shelfs, prepended, ran⟩ := Machine.bind_ok_iff.mp ran
        exact enclosed.setShelfs (closed.prepend prepended) ran
      · obtain ⟨⟨pair, shorter⟩, removed, ran⟩ := Machine.bind_ok_iff.mp ran
        obtain ⟨shelfs, appended, ran⟩ := Machine.bind_ok_iff.mp ran
        exact enclosed.setShelfs ((closed.remove removed).append appended) ran
    · cases ran
      exact enclosed

theorem decreaseStock (enclosed : Enclosed db) (ran : db.decreaseStock address amount = .ok db') :
    Enclosed db' := by
  rw [Database.decreaseStock] at ran
  obtain ⟨merch, read, ran⟩ := Machine.bind_ok_iff.mp ran
  obtain ⟨shelfs, decreased, ran⟩ := Machine.bind_ok_iff.mp ran
  have closed := enclosed.read read
  have ends := closed.decreaseFrom closed.first amount (merch.shelfs.links.length + 1)
  rw [decreased] at ends
  exact enclosed.setShelfs (Machine.ends_ok.mp ends) ran

theorem removeCart (enclosed : Enclosed db) (ran : db.removeCart full key = .ok db') : Enclosed db' := by
  rw [Database.removeCart] at ran
  obtain ⟨found, _, ran⟩ := Machine.bind_ok_iff.mp ran
  cases found with
  | none =>
    cases ran
    exact enclosed
  | some address =>
    obtain ⟨removed, _, ran⟩ := Machine.bind_ok_iff.mp ran
    cases ran
    exact enclosed

theorem checkout (enclosed : Enclosed db) (ran : db.checkout full key = .ok db') : Enclosed db' := by
  rw [Database.checkout] at ran
  obtain ⟨found, _, ran⟩ := Machine.bind_ok_iff.mp ran
  cases found with
  | none =>
    cases ran
    exact enclosed
  | some address =>
    obtain ⟨cart, _, ran⟩ := Machine.bind_ok_iff.mp ran
    obtain ⟨cartPairs, _, ran⟩ := Machine.bind_ok_iff.mp ran
    obtain ⟨paid, decreased, ran⟩ := Machine.bind_ok_iff.mp ran
    have sold : Enclosed paid := by
      apply iterateFrom_invariant Enclosed ?_ enclosed decreased
      intro _ _ _ enclosed ran
      obtain ⟨pair, _, ran⟩ := Machine.bind_ok_iff.mp ran
      exact enclosed.decreaseStock ran
    exact sold.removeCart ran

/-- A call keeps the lists of a store without wild pointers. -/
theorem step (enclosed : Enclosed db) (kept : Kept full meets db v)
    (positive : ∀ amount, 0 < amount → amount < 2 ^ 31 → meets amount) (ran : db.step full call = .ok db') :
    Enclosed db' := by
  have unwritten (keeps : Keeps Database.merchs db (db.step full call)) : Enclosed db' := by
    rw [ran] at keeps
    exact enclosed.of_merchs keeps.eq
  cases call with
  | addMerchandise name description price => exact enclosed.addMerchandise ran
  | removeMerchandise name =>
    obtain ⟨_, _, _, same, _⟩ := kept.of_removeMerchandise positive ran
    exact enclosed.of_merchs same
  | editMerchandise name newName description price => exact enclosed.editMerchandise kept positive ran
  | replenish name shelf merchInput => exact enclosed.replenish ran
  | createCart cartKey =>
    apply unwritten
    rw [Database.step, Database.createCart]
    apply Keeps.after
    intro allCarts
    exact .ok rfl
  | removeCart cartKey => exact enclosed.removeCart ran
  | addToCart cartKey name quantity => exact unwritten (.addToCart (fun _ _ _ => rfl) cartKey name quantity)
  | removeFromCart cartKey name quantity =>
    exact unwritten (.removeFromCart (fun _ _ _ => rfl) cartKey name quantity)
  | checkout cartKey => exact enclosed.checkout ran

end Enclosed

/-- The lists of a store that calls have built have no wild pointers. -/
theorem enclosed_of_run (ran : Machine.run (Database.step full) Database.create calls = .ok db) : Enclosed db := by
  induction calls using List.reverseRecOn generalizing db with
  | nil =>
    cases ran
    exact fun _ member => absurd member List.not_mem_nil
  | append_singleton calls call ih =>
    obtain ⟨middle, earlier, last⟩ := Machine.run_append_ok_iff.mp ran
    obtain ⟨db', stepped, same⟩ := Machine.run_cons_ok_iff.mp last
    cases same
    obtain ⟨v, kept⟩ := kept_of_run earlier
    exact (ih earlier).step kept (fun amount lower upper => ⟨by omega, upper⟩) stepped

end GarbageCollector.Proofs
