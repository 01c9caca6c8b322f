import GarbageCollector.Machine.Run

/-! # Foretelling a run

A forecast computes ahead what a machine will do, from what is known before the run. Where it has a value, the
computation that it is about returns a related one; where it meets an obstacle that is settled, the
computation stops with a fault; and any other obstacle leaves open what happens. The rules carry this through
sequences and whole runs.
-/

namespace Machine

variable {α β α' β' Obstacle Fault State State' Event : Type}

/-- What the forecast says of the computation is true. -/
inductive Foretells (settled : Obstacle → Prop) (related : α → β → Prop) :
    Except Obstacle α → Except Fault β → Prop
  | returns {value : α} {value' : β} (here : related value value') : Foretells settled related (.ok value) (.ok value')
  | faults {obstacle : Obstacle} {fault : Fault} (settles : settled obstacle) :
    Foretells settled related (.error obstacle) (.error fault)
  | leaves {obstacle : Obstacle} {result : Except Fault β} (unsettled : ¬ settled obstacle) :
    Foretells settled related (.error obstacle) result

variable {settled : Obstacle → Prop} {related : α → β → Prop} {later : α' → β' → Prop}
  {forecast : Except Obstacle α} {result : Except Fault β} {value : α} {obstacle : Obstacle}

/-- A fault, whatever is settled. -/
theorem Foretells.of_error {fault : Fault} : Foretells settled related (.error obstacle) (.error fault) := by
  by_cases settles : settled obstacle
  · exact .faults settles
  · exact .leaves settles

/-- The rule of sequence. -/
theorem Foretells.bind {next : α → Except Obstacle α'} {next' : β → Except Fault β'}
    (foretells : Foretells settled related forecast result)
    (continues : ∀ value value', forecast = .ok value → related value value' →
      Foretells settled later (next value) (next' value')) :
    Foretells settled later (forecast >>= next) (result >>= next') := by
  cases foretells with
  | returns here => exact continues _ _ rfl here
  | faults settles => exact .faults settles
  | leaves unsettled => exact .leaves unsettled

end Machine
