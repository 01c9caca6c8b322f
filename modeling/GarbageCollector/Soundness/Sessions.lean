import GarbageCollector.Proofs.CartKeys
import GarbageCollector.Soundness.Scripts

/-! # Sessions run the store

Whatever is typed, a session that ends has run the store through the calls that it records: their names are
short lines that can be hashed, their numbers are `int`s that are not negative, and the carts that it creates
are numbered from one. So a cart is only ever created under a key that no cart has.
-/

namespace GarbageCollector.Soundness

open Model Proofs

variable {full : ℕ → ℕ → Bool} {p p' : Program} {input : Input} {command : Command} {db db' : Database}
  {storeCall : StoreCall} {calls : List StoreCall} {text : CString}

/-- A string that a question accepts. -/
def IsName (text : CString) : Prop :=
  text.chars ≠ [] ∧ text.chars.length < 255 ∧ newline ∉ text.chars

/-- A number that a question returns. -/
def IsNumber (value : ℤ) : Prop := 0 ≤ value ∧ value < 2 ^ 31

/-- The arguments of the call can be typed. -/
def Entered : StoreCall → Prop
  | .addMerchandise name description price => IsName name ∧ IsName description ∧ IsNumber price
  | .removeMerchandise name => IsName name
  | .editMerchandise name newName description price =>
    IsName name ∧ IsName newName ∧ IsName description ∧ IsNumber price
  | .replenish name shelf merchInput => IsName name ∧ IsName shelf ∧ IsNumber merchInput
  | .createCart cartKey => IsNumber cartKey
  | .removeCart cartKey => IsNumber cartKey
  | .addToCart cartKey merchName quantity => IsNumber cartKey ∧ IsName merchName ∧ IsNumber quantity
  | .removeFromCart cartKey merchName quantity => IsNumber cartKey ∧ IsName merchName ∧ IsNumber quantity
  | .checkout cartKey => IsNumber cartKey

/-- What a session has done so far is what it records. -/
structure Recorded (full : ℕ → ℕ → Bool) (p : Program) : Prop where
  ran : Machine.run (Database.step full) Database.create p.calls = .ok p.db
  entered : ∀ call ∈ p.calls, Entered call
  created : 0 ≤ p.createdCarts ∧ p.createdCarts < 2 ^ 31
  numbered : p.calls.filterMap createdKey =
    (List.range p.createdCarts.toNat).map fun (count : ℕ) => (count : ℤ) + 1

theorem isName_text (name : Name) : IsName name.text := ⟨name.nonempty, name.short, name.oneLine⟩

theorem isNumber_value (number : Number) : IsNumber number.value :=
  ⟨Int.natCast_nonneg _, by have small := number.small; omega⟩

namespace Recorded

theorem start : Recorded full (Program.start input) :=
  ⟨rfl, fun _ member => absurd member List.not_mem_nil, ⟨le_refl 0, by norm_num [Program.start]⟩, rfl⟩

/-- A call that creates no cart. -/
theorem call (recorded : Recorded full p) (ran : p.call full p.input storeCall = .ok p')
    (entered : Entered storeCall) (noCart : createdKey storeCall = none) : Recorded full p' := by
  obtain ⟨db, stepped, ran⟩ := Machine.bind_ok_iff.mp ran
  cases ran
  refine ⟨?_, fun call member => ?_, recorded.created, ?_⟩
  · rw [Machine.run_append_ok_iff]
    refine ⟨p.db, recorded.ran, ?_⟩
    rw [Machine.run, stepped]
    rfl
  · rcases List.mem_append.mp member with earlier | last
    · exact recorded.entered call earlier
    · rwa [List.mem_singleton.mp last]
  · rw [List.filterMap_append, recorded.numbered, List.filterMap_cons, noCart]
    exact List.append_nil _

theorem createCart (recorded : Recorded full p) (ran : Command.createCart.step full p = .ok p') :
    Recorded full p' := by
  obtain ⟨createdCarts, counted, ran⟩ := Machine.bind_ok_iff.mp ran
  obtain ⟨db, stepped, ran⟩ := Machine.bind_ok_iff.mp ran
  cases ran
  obtain ⟨lower, _⟩ := recorded.created
  rw [checkedInt] at counted
  split at counted
  · next fits =>
    cases counted
    have next : (p.createdCarts + 1).toNat = p.createdCarts.toNat + 1 := by omega
    have number : ((p.createdCarts.toNat : ℕ) : ℤ) = p.createdCarts := Int.toNat_of_nonneg lower
    refine ⟨?_, fun call member => ?_, ⟨by dsimp only; omega, fits.2⟩, ?_⟩
    · rw [Machine.run_append_ok_iff]
      refine ⟨p.db, recorded.ran, ?_⟩
      rw [Machine.run, stepped]
      rfl
    · rcases List.mem_append.mp member with earlier | last
      · exact recorded.entered call earlier
      · rw [List.mem_singleton.mp last]
        exact ⟨by omega, fits.2⟩
    · rw [List.filterMap_append, recorded.numbered, next, List.range_succ, List.map_append]
      simp only [List.filterMap_cons, List.filterMap_nil, createdKey, List.map_cons, List.map_nil, number]
  · cases counted

/-- A command records what it does. -/
theorem step (recorded : Recorded full p) (stepped : command.step full p = .ok p') : Recorded full p' := by
  have observed {α : Type} {result : Except DemoFault α} (ran : (result.map fun _ => p) = .ok p') :
      Recorded full p' := by
    obtain ⟨_, _, same⟩ := Machine.map_ok_iff.mp ran
    rwa [← same]
  cases command with
  | addMerchandise name description price =>
    exact recorded.call stepped ⟨isName_text name, isName_text description, isNumber_value price⟩ rfl
  | removeMerchandise merchName confirmed =>
    cases confirmed with
    | true => exact recorded.call stepped (isName_text merchName) rfl
    | false => cases stepped; exact recorded
  | editMerchandise name newName description price =>
    exact recorded.call stepped
      ⟨isName_text name, isName_text newName, isName_text description, isNumber_value price⟩ rfl
  | listMerchandise answers => exact observed stepped
  | showStock merchName => exact observed stepped
  | replenish merchName shelfName numOfMerch =>
    exact recorded.call stepped ⟨isName_text merchName, isName_text shelfName, isNumber_value numOfMerch⟩ rfl
  | createCart => exact recorded.createCart stepped
  | removeCart cartKey confirmed =>
    cases confirmed with
    | true => exact recorded.call stepped (isNumber_value cartKey) rfl
    | false => cases stepped; exact recorded
  | addToCart merchName cartKey quantity =>
    exact recorded.call stepped ⟨isNumber_value cartKey, isName_text merchName, isNumber_value quantity⟩ rfl
  | removeFromCart merchName cartKey quantity =>
    exact recorded.call stepped ⟨isNumber_value cartKey, isName_text merchName, isNumber_value quantity⟩ rfl
  | calculateCost cartKey =>
    rw [Command.step] at stepped
    exact observed stepped
  | checkout cartKey => exact recorded.call stepped (isNumber_value cartKey) rfl
  | undo => cases stepped; exact recorded
  | quit confirmed => cases stepped; exact recorded

end Recorded

/-- What a session that ends has done. -/
theorem recorded_of_eventLoop (ran : (Program.start input).eventLoop full = .ok p) : Recorded full p := by
  obtain ⟨script, _, _, standsFor⟩ :=
    @exists_script full (Program.start []) input (input.length + 1) (Nat.lt_succ_self _)
  rw [← eventLoop_start, ran] at standsFor
  obtain ⟨p', executed, same⟩ := standsFor
  have recorded : Recorded full p' :=
    Machine.run_preserves (Recorded full) (fun holds stepped => holds.step stepped) Recorded.start executed
  rw [← same]
  exact ⟨recorded.ran, recorded.entered, recorded.created, recorded.numbered⟩

/-- Carts that are numbered from one have different numbers. -/
theorem Recorded.distinct (recorded : Recorded full p) : (p.calls.filterMap createdKey).Nodup := by
  rw [recorded.numbered]
  apply List.Nodup.map _ List.nodup_range
  intro first second same
  exact Int.ofNat_inj.mp (add_right_cancel same)

/-- A session that ends has run the store on calls that can be typed, and has created its carts under the
numbers from one on, each while no cart had the number. -/
theorem eventLoop_records (ran : (Program.start input).eventLoop full = .ok p) :
    Machine.run (Database.step full) Database.create p.calls = .ok p.db ∧ (∀ call ∈ p.calls, Entered call) ∧
      p.calls.filterMap createdKey = (List.range p.createdCarts.toNat).map (fun (count : ℕ) => (count : ℤ) + 1) ∧
      Machine.Along (Database.step full) (fun db call => ∀ cartKey, call = .createCart cartKey →
        db.allCarts.lookup (intFunctions full) cartKey = .ok none) Database.create p.calls := by
  have recorded := recorded_of_eventLoop ran
  exact ⟨recorded.ran, recorded.entered, recorded.numbered, along_fresh recorded.distinct⟩

/-- Two carts are created, the first is removed, and a third is created. -/
def threeCarts : List Command :=
  [.createCart, .createCart, .removeCart firstCart true, .createCart]

theorem eventLoop_threeCarts : ∃ p : Program,
    (Program.start (scriptText threeCarts)).eventLoop loadFactor = .ok p ∧
      Machine.run (Database.step loadFactor) Database.create p.calls = .ok p.db ∧
      (∀ call ∈ p.calls, Entered call) ∧
      p.calls.filterMap createdKey = (List.range p.createdCarts.toNat).map (fun (count : ℕ) => (count : ℤ) + 1) ∧
      Machine.Along (Database.step loadFactor) (fun db call => ∀ cartKey, call = .createCart cartKey →
        db.allCarts.lookup (intFunctions loadFactor) cartKey = .ok none) Database.create p.calls := by
  have executed := @eventLoop_scriptText loadFactor threeCarts (by decide) (by decide +kernel)
  have ended : ∃ p, Machine.run (Command.step loadFactor) (Program.start []) threeCarts = .ok p :=
    Machine.exists_of_isOk (by decide +kernel)
  obtain ⟨p, ran⟩ := ended
  exact ⟨p, executed.trans ran, eventLoop_records (executed.trans ran)⟩

end GarbageCollector.Soundness
