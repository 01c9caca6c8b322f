import GarbageCollector.Machine.Outcome

/-! # Traces of a machine that answers

A step of such a machine yields an answer with the next state. A trace is the answers of a run with the state
it ends in. One machine simulates another when related states give the same answer, or the same fault, and
related states again; then their traces from related states do so too. Where only one of two machines has to
complete, a relation that may depend on what has been visited carries its runs over to the other.
-/

namespace Machine

variable {State State' Event Answer Fault : Type}

/-- Execute the events in order and collect the answers, stopping at the first fault. -/
def trace (step : State → Event → Except Fault (Answer × State)) :
    State → List Event → Except Fault (List Answer × State)
  | state, [] => .ok ([], state)
  | state, event :: rest => do
    let (answer, next) ← step state event
    let (answers, last) ← trace step next rest
    .ok (answer :: answers, last)

/-- The same answer with related states, or the same fault. -/
def Matches {Answer : Type} (related : State → State' → Prop) :
    Except Fault (Answer × State) → Except Fault (Answer × State') → Prop
  | .ok (answer, state), .ok (answer', state') => answer = answer' ∧ related state state'
  | .error fault, .error fault' => fault = fault'
  | _, _ => False

variable {step : State → Event → Except Fault (Answer × State)}
  {step' : State' → Event → Except Fault (Answer × State')} {related weaker : State → State' → Prop}
  {state : State} {state' : State'} {events : List Event} {result : Except Fault (Answer × State)}
  {result' : Except Fault (Answer × State')}

theorem Matches.mono (same : Matches related result result')
    (follows : ∀ state state', related state state' → weaker state state') : Matches weaker result result' := by
  cases result with
  | error fault =>
    cases result' with
    | error fault' => exact same
    | ok value' => exact same.elim
  | ok value =>
    cases result' with
    | error fault' => exact same.elim
    | ok value' => exact ⟨same.1, follows _ _ same.2⟩

/-- The rule of sequence. -/
theorem Matches.bind {Answer' : Type} {next : Answer × State → Except Fault (Answer' × State)}
    {next' : Answer × State' → Except Fault (Answer' × State')} (same : Matches related result result')
    (continues : ∀ answer state state', related state state' →
      Matches weaker (next (answer, state)) (next' (answer, state'))) :
    Matches weaker (result >>= next) (result' >>= next') := by
  cases result with
  | error fault =>
    cases result' with
    | error fault' => exact same
    | ok value' => exact same.elim
  | ok value =>
    cases result' with
    | error fault' => exact same.elim
    | ok value' =>
      obtain ⟨answer, state⟩ := value
      obtain ⟨answer', state'⟩ := value'
      obtain ⟨rfl, related'⟩ := same
      rw [ok_bind, ok_bind]
      exact continues answer state state' related'

/-- A simulation of steps is a simulation of traces. -/
theorem trace_matches
    (simulates : ∀ state state' event, related state state' →
      Matches related (step state event) (step' state' event))
    (start : related state state') : Matches related (trace step state events) (trace step' state' events) := by
  induction events generalizing state state' with
  | nil => exact ⟨rfl, start⟩
  | cons event rest ih =>
    rw [trace, trace]
    apply Matches.bind (simulates state state' event start)
    intro answer next next' here
    apply Matches.bind (ih here)
    intro answers last last' later
    exact ⟨rfl, later⟩

/-- A machine completes its run where a machine that it refines completes its own on the same visits. -/
theorem run_refines {Visit Event' Fault' : Type} {visits : List Visit}
    {abstract : State → Event → Except Fault State}
    {concrete : State' → Event' → Except Fault' State'} {event : Visit → Event} {event' : Visit → Event'}
    (related : List Visit → State → State' → Prop)
    (advances : ∀ {done visit rest state state' next}, visits = done ++ visit :: rest →
      related done state state' → abstract state (event visit) = .ok next →
      ∃ next', concrete state' (event' visit) = .ok next' ∧ related (done ++ [visit]) next next')
    (start : related [] state state') {target : State}
    (ran : run abstract state (visits.map event) = .ok target) :
    ∃ target', run concrete state' (visits.map event') = .ok target' ∧ related visits target target' := by
  have from_done (rest : List Visit) : ∀ {done state state'}, visits = done ++ rest → related done state state' →
      run abstract state (rest.map event) = .ok target →
      ∃ target', run concrete state' (rest.map event') = .ok target' ∧ related visits target target' := by
    induction rest with
    | nil =>
      intro done state state' split here ran
      cases ran
      rw [split, List.append_nil]
      exact ⟨state', rfl, here⟩
    | cons visit rest ih =>
      intro done state state' split here ran
      obtain ⟨next, stepped, tail⟩ := run_cons_ok_iff.mp ran
      obtain ⟨next', stepped', there⟩ := advances split here stepped
      obtain ⟨target', ran', last⟩ := ih (split.trans (List.append_cons done visit rest)) there tail
      exact ⟨target', run_cons_ok_iff.mpr ⟨next', stepped', ran'⟩, last⟩
  exact from_done visits rfl start ran

end Machine
