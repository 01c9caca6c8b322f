import GarbageCollector.Machine.Run

/-! # How a fallible computation ends

`Ends allowed post result` says that a computation returns a value of which `post` holds, or stops with a
fault that is `allowed`. The rules compose it: in sequence, by weakening both parts, over the steps of a fold
and over the events of a run. With no fault allowed it says that the computation returns.
-/

namespace Machine

variable {α β Fault State Event : Type}

/-- The computation returns a value of the postcondition, or stops with an allowed fault. -/
inductive Ends (allowed : Fault → Prop) (post : α → Prop) : Except Fault α → Prop
  | ok {value : α} (holds : post value) : Ends allowed post (.ok value)
  | error {fault : Fault} (faulty : allowed fault) : Ends allowed post (.error fault)

variable {allowed allowed' : Fault → Prop} {post : α → Prop} {post' : β → Prop} {result : Except Fault α}
  {next : α → Except Fault β} {value : α} {fault : Fault}

/-- A bind of a value. The proof is not by definition, so that a rewrite with it is checked as one. -/
theorem ok_bind : (Except.ok value >>= next) = next value := by
  cases computed : next value <;> exact computed

@[simp] theorem ends_ok : Ends allowed post (.ok value) ↔ post value := by
  constructor
  · intro ends
    cases ends with
    | ok holds => exact holds
  · exact .ok

@[simp] theorem ends_error : Ends allowed post (.error fault : Except Fault α) ↔ allowed fault := by
  constructor
  · intro ends
    cases ends with
    | error faulty => exact faulty
  · exact .error

/-- A fault is allowed with any postcondition. -/
theorem Ends.of_error {post' : β → Prop} (ends : Ends allowed post (.error fault : Except Fault α)) :
    Ends allowed post' (.error fault : Except Fault β) :=
  .error (ends_error.mp ends)

theorem ends_iff : Ends allowed post result ↔
    (∀ value, result = .ok value → post value) ∧ ∀ fault, result = .error fault → allowed fault := by
  cases result with
  | ok value => simp
  | error fault => simp

theorem Ends.mono (ends : Ends allowed post result) {post' : α → Prop}
    (weaker : ∀ value, post value → post' value) (more : ∀ fault, allowed fault → allowed' fault) :
    Ends allowed' post' result := by
  cases ends with
  | ok holds => exact .ok (weaker _ holds)
  | error faulty => exact .error (more _ faulty)

/-- The rule of sequence. -/
theorem Ends.bind (ends : Ends allowed post result)
    (continues : ∀ value, post value → Ends allowed post' (next value)) :
    Ends allowed post' (result >>= next) := by
  cases ends with
  | ok holds =>
    rw [ok_bind]
    exact continues _ holds
  | error faulty => exact .error faulty

theorem Ends.map (ends : Ends allowed post result) {change : α → β}
    (changed : ∀ value, post value → post' (change value)) : Ends allowed post' (result.map change) := by
  cases ends with
  | ok holds => exact .ok (changed _ holds)
  | error faulty => exact .error faulty

/-- A test that runs the computation. -/
theorem exists_of_isOk (returned : result.isOk = true) : ∃ value, result = .ok value := by
  cases result with
  | ok value => exact ⟨value, rfl⟩
  | error fault => cases returned

/-- Any computation at all, with any fault allowed. -/
theorem ends_trivial : Ends (fun _ => True) (fun _ => True) result := by
  cases result with
  | ok value => exact .ok trivial
  | error fault => exact .error trivial

/-- A fold keeps what each of its steps keeps. -/
theorem ends_foldlM {body : β → α → Except Fault β} {values : List α} {start : β} (invariant : β → Prop)
    (kept : ∀ state, ∀ value ∈ values, invariant state → Ends allowed invariant (body state value))
    (initial : invariant start) : Ends allowed invariant (values.foldlM body start) := by
  induction values generalizing start with
  | nil => exact .ok initial
  | cons value values ih =>
    rw [List.foldlM_cons]
    apply Ends.bind (kept start value List.mem_cons_self initial)
    intro state holds
    exact ih (fun state value member => kept state value (List.mem_cons_of_mem _ member)) holds

end Machine
