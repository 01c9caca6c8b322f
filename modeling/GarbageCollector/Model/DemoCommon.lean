import GarbageCollector.Model.Common

/-! # Faults, integers and strings of the demo program

The store of the demo is written over a linked list and a hash table of its own. Its faults are those
of plain C; the heap is assumed to return fresh zero-filled memory, so an allocation never fails here.
An `int` that counts, such as the size of a list, must stay in its range: C leaves the overflow
undefined. A string is its bytes before the terminator.
-/

namespace GarbageCollector.Model

/-- The ways in which a call of the demo program stops without returning. -/
inductive DemoFault where
  /-- A field of the null pointer is read or written. -/
  | nullDereference
  /-- An access outside an array or a string, or behind a pointer to nothing. -/
  | outOfBounds
  /-- An `int` counter leaves its range. -/
  | signedOverflow
  /-- A loop does not end. -/
  | diverges
deriving DecidableEq, Repr

/-- The value of an `int` expression, when C defines it. -/
def checkedInt (value : ℤ) : Except DemoFault ℤ :=
  if -2 ^ 31 ≤ value ∧ value < 2 ^ 31 then .ok value else .error .signedOverflow

theorem checkedInt_ok {value : ℤ} (lower : -2 ^ 31 ≤ value) (upper : value < 2 ^ 31) :
    checkedInt value = .ok value :=
  if_pos ⟨lower, upper⟩

theorem checkedInt_overflow {value : ℤ} (overflows : 2 ^ 31 ≤ value) :
    checkedInt value = .error .signedOverflow :=
  if_neg (by omega)

theorem checkedInt_cases (value : ℤ) :
    checkedInt value = .ok value ∧ value < 2 ^ 31 ∨ checkedInt value = .error .signedOverflow := by
  by_cases fits : -2 ^ 31 ≤ value ∧ value < 2 ^ 31
  · exact .inl ⟨if_pos fits, fits.2⟩
  · exact .inr (if_neg fits)

/-- A counter that is written back once it is known to fit. -/
theorem checkedInt_map {β : Type} {value : ℤ} {result : ℤ → β} :
    (checkedInt value).bind (fun size => .ok (result size)) =
      (checkedInt value).map fun _ => result value := by
  unfold checkedInt
  split <;> rfl

/-- What is built around a counter is returned exactly when the counter fits. -/
theorem checkedInt_map_ok_iff {β : Type} {value : ℤ} {result out : β} :
    (checkedInt value).map (fun _ => result) = .ok out ↔ (-2 ^ 31 ≤ value ∧ value < 2 ^ 31) ∧ result = out := by
  unfold checkedInt
  split
  · next fits =>
    rw [Except.map, Except.ok.injEq]
    exact (and_iff_right fits).symm
  · next exceeds => exact ⟨(fun failed => nomatch failed), fun ⟨fits, _⟩ => absurd fits exceeds⟩

/-- The bytes of a string, which a terminator follows in memory. -/
structure CString where
  chars : List (BitVec 8)
  terminated : 0#8 ∉ chars
deriving DecidableEq

/-- `compare_string`, by `strcmp`. -/
def compareString (first second : CString) : Bool := first.chars == second.chars

/-- `compare_int`. -/
def compareInt (first second : ℤ) : Bool := first == second

/-- `hash_int`; `%` has the sign of the dividend. -/
def hashInt (key : ℤ) (capacity : ℕ) : ℤ :=
  let index := key.tmod (toInt32 capacity)
  if index < 0 then index + toInt32 capacity else index

/-- `do { result += *str; } while (*++str != '\0')` from the given bytes on. -/
def sumString : List (BitVec 8) → ℤ → Except DemoFault ℤ
  | str :: next :: rest, result =>
    if next = 0 then .ok (toInt32 (result + str.toInt))
    else sumString (next :: rest) (toInt32 (result + str.toInt))
  | _, _ => .error .outOfBounds

/-- `hash_string_sum`; `abs` of the least `int` is that `int`. -/
def hashStringSum (key : CString) (capacity : ℕ) : Except DemoFault ℤ := do
  let result ← sumString (key.chars ++ [0]) 0
  .ok ((toInt32 |result|).tmod (toInt32 capacity))

end GarbageCollector.Model
