import Mathlib.Data.List.Basic

/-! # Runs of a deterministic machine that may fault

A machine is a step function into `Except`: a step either yields the next state or faults, and a
run stops at its first fault. `Along` says that a condition holds at every step a run really
executes, so a run rule needs the condition only where it is used. The rules here are the whole
interface: cutting and joining runs, carrying an invariant, relating the endpoints, and finding
the first step that breaks a condition.
-/

namespace Machine

variable {State Event Fault : Type*}

/-- Execute the events in order, stopping at the first fault. -/
def run (step : State → Event → Except Fault State) : State → List Event → Except Fault State
  | state, [] => .ok state
  | state, event :: rest => (step state event).bind fun next => run step next rest

/-- The condition holds at every step that the run executes. -/
def Along (step : State → Event → Except Fault State) (condition : State → Event → Prop) :
    State → List Event → Prop
  | _, [] => True
  | state, event :: rest =>
      condition state event ∧ ∀ next, step state event = .ok next → Along step condition next rest

/-- Running the machine decides whether a condition holds along the run. -/
instance decidableAlong (step : State → Event → Except Fault State) (condition : State → Event → Prop)
    [∀ state event, Decidable (condition state event)] :
    ∀ state events, Decidable (Along step condition state events)
  | _, [] => isTrue trivial
  | state, event :: rest =>
    match stepped : step state event with
    | .error _ => decidable_of_iff (condition state event) (by simp [Along, stepped])
    | .ok next =>
      have := decidableAlong step condition next rest
      decidable_of_iff (condition state event ∧ Along step condition next rest) (by simp [Along, stepped])

variable {step : State → Event → Except Fault State} {condition : State → Event → Prop}
  {state middle target : State} {event : Event} {first second events : List Event}

theorem bind_ok_iff {α β : Type*} {result : Except Fault α} {next : α → Except Fault β} {value : β} :
    result.bind next = .ok value ↔ ∃ middle, result = .ok middle ∧ next middle = .ok value := by
  cases result with
  | error fault => simp [Except.bind]
  | ok middle => simp [Except.bind]

theorem map_ok_iff {α β : Type*} {result : Except Fault α} {change : α → β} {value : β} :
    result.map change = .ok value ↔ ∃ middle, result = .ok middle ∧ change middle = value := by
  cases result with
  | error fault => simp [Except.map]
  | ok middle => simp [Except.map]

@[simp] theorem run_nil : run step state [] = .ok state := rfl

theorem run_cons_ok_iff : run step state (event :: events) = .ok target ↔
    ∃ middle, step state event = .ok middle ∧ run step middle events = .ok target :=
  bind_ok_iff

/-- A run is cut at any point into two runs that share the state between them. -/
theorem run_append_ok_iff : run step state (first ++ second) = .ok target ↔
    ∃ middle, run step state first = .ok middle ∧ run step middle second = .ok target := by
  induction first generalizing state with
  | nil => simp
  | cons event rest ih =>
    simp only [List.cons_append, run_cons_ok_iff, ih]
    constructor
    · rintro ⟨next, stepped, middle, left, right⟩
      exact ⟨middle, ⟨next, stepped, left⟩, right⟩
    · rintro ⟨middle, ⟨next, stepped, left⟩, right⟩
      exact ⟨next, stepped, middle, left, right⟩

/-- The two halves of a run meet the condition when the whole run does. -/
theorem along_append_iff : Along step condition state (first ++ second) ↔
    Along step condition state first ∧
      ∀ middle, run step state first = .ok middle → Along step condition middle second := by
  induction first generalizing state with
  | nil => simp [Along]
  | cons event rest ih =>
    simp only [List.cons_append, Along, ih, run_cons_ok_iff]
    constructor
    · rintro ⟨here, later⟩
      refine ⟨⟨here, fun next stepped => (later next stepped).1⟩, ?_⟩
      rintro middle ⟨next, stepped, left⟩
      exact (later next stepped).2 middle left
    · rintro ⟨⟨here, left⟩, right⟩
      exact ⟨here, fun next stepped =>
        ⟨left next stepped, fun middle ran => right middle ⟨next, stepped, ran⟩⟩⟩

/-- Two conditions that hold along a run hold together along it. -/
theorem Along.and {other : State → Event → Prop} (left : Along step condition state events)
    (right : Along step other state events) :
    Along step (fun state event => condition state event ∧ other state event) state events := by
  induction events generalizing state with
  | nil => trivial
  | cons event rest ih =>
    exact ⟨⟨left.1, right.1⟩, fun next stepped => ih (left.2 next stepped) (right.2 next stepped)⟩

theorem along_of_forall (always : ∀ state, ∀ event ∈ events, condition state event) :
    Along step condition state events := by
  induction events generalizing state with
  | nil => trivial
  | cons event rest ih =>
    exact ⟨always _ _ List.mem_cons_self,
      fun _ _ => ih fun state other member => always state other (List.mem_cons_of_mem _ member)⟩

/-- The invariant rule: an invariant kept by every step that meets the condition holds at the end. -/
theorem run_invariant (invariant : State → Prop)
    (kept : ∀ {state event next}, invariant state → condition state event →
      step state event = .ok next → invariant next)
    (along : Along step condition state events) (initial : invariant state)
    (ran : run step state events = .ok target) : invariant target := by
  induction events generalizing state with
  | nil => cases ran; exact initial
  | cons event rest ih =>
    obtain ⟨next, stepped, tail⟩ := run_cons_ok_iff.mp ran
    exact ih (along.2 next stepped) (kept initial along.1 stepped) tail

/-- A condition that holds at every step of an invariant's states holds along the run. -/
theorem along_of_invariant {conclusion : State → Event → Prop} (invariant : State → Prop)
    (holds : ∀ {state event}, invariant state → condition state event → conclusion state event)
    (kept : ∀ {state event next}, invariant state → condition state event →
      step state event = .ok next → invariant next)
    (along : Along step condition state events) (initial : invariant state) :
    Along step conclusion state events := by
  induction events generalizing state with
  | nil => trivial
  | cons event rest ih =>
    exact ⟨holds initial along.1,
      fun next stepped => ih (along.2 next stepped) (kept initial along.1 stepped)⟩

/-- A run completes when every step that meets the condition completes and keeps the invariant. -/
theorem exists_run (invariant : State → Prop)
    (advances : ∀ {state event}, invariant state → condition state event →
      ∃ next, step state event = .ok next ∧ invariant next)
    (along : Along step condition state events) (initial : invariant state) :
    ∃ target, run step state events = .ok target ∧ invariant target := by
  induction events generalizing state with
  | nil => exact ⟨state, rfl, initial⟩
  | cons event rest ih =>
    obtain ⟨next, stepped, holds⟩ := advances initial along.1
    obtain ⟨target, ran, last⟩ := ih (along.2 next stepped) holds
    exact ⟨target, run_cons_ok_iff.mpr ⟨next, stepped, ran⟩, last⟩

/-- Along a completed run, two conditions that agree at every completed step are the same. -/
theorem along_iff_of_run {other : State → Event → Prop} (invariant : State → Prop)
    (agree : ∀ {state event next}, invariant state → event ∈ events → step state event = .ok next →
      (condition state event ↔ other state event))
    (kept : ∀ {state event next}, invariant state → step state event = .ok next → invariant next)
    (initial : invariant state) (ran : run step state events = .ok target) :
    Along step condition state events ↔ Along step other state events := by
  induction events generalizing state with
  | nil => exact Iff.rfl
  | cons event rest ih =>
    obtain ⟨middle, stepped, tail⟩ := run_cons_ok_iff.mp ran
    have later := ih (fun holds member => agree holds (List.mem_cons_of_mem _ member))
      (kept initial stepped) tail
    simp only [Along, agree initial List.mem_cons_self stepped, stepped, Except.ok.injEq,
      forall_eq', later]

/-- In the states of an invariant that every step keeps, two conditions that agree hold along the same
runs, completed or not. -/
theorem along_iff_of_invariant {other : State → Event → Prop} (invariant : State → Prop)
    (agree : ∀ {state event}, invariant state → event ∈ events →
      (condition state event ↔ other state event))
    (kept : ∀ {state event next}, invariant state → event ∈ events → step state event = .ok next →
      invariant next)
    (initial : invariant state) :
    Along step condition state events ↔ Along step other state events := by
  induction events generalizing state with
  | nil => exact Iff.rfl
  | cons event rest ih =>
    have later (next : State) (stepped : step state event = .ok next) :
        Along step condition next rest ↔ Along step other next rest :=
      ih (fun holds member => agree holds (List.mem_cons_of_mem _ member))
        (fun holds member => kept holds (List.mem_cons_of_mem _ member))
        (kept initial List.mem_cons_self stepped)
    simp only [Along, agree initial List.mem_cons_self]
    exact and_congr_right fun _ => forall_congr' fun next => forall_congr' (later next)

/-- Two conditions that agree at every step from an invariant's states, and keep the invariant there, hold
along the same runs among those that meet a common assumption. -/
theorem along_iff_of_kept {other assumption : State → Event → Prop} (invariant : State → Prop)
    (agree : ∀ {state event}, invariant state → assumption state event →
      (condition state event ↔ other state event))
    (kept : ∀ {state event next}, invariant state → assumption state event → condition state event →
      step state event = .ok next → invariant next)
    (along : Along step assumption state events) (initial : invariant state) :
    Along step condition state events ↔ Along step other state events := by
  induction events generalizing state with
  | nil => exact Iff.rfl
  | cons event rest ih =>
    have here := agree initial along.1
    constructor
    · rintro ⟨holds, tail⟩
      exact ⟨here.mp holds, fun next stepped =>
        (ih (along.2 next stepped) (kept initial along.1 holds stepped)).mp (tail next stepped)⟩
    · rintro ⟨holds, tail⟩
      exact ⟨here.mpr holds, fun next stepped =>
        (ih (along.2 next stepped) (kept initial along.1 (here.mpr holds) stepped)).mpr (tail next stepped)⟩

/-- The same rule where every step keeps the invariant. -/
theorem run_preserves (invariant : State → Prop)
    (kept : ∀ {state event next}, invariant state → step state event = .ok next → invariant next)
    (initial : invariant state) (ran : run step state events = .ok target) : invariant target :=
  have along : Along step (fun _ _ => True) state events := along_of_forall fun _ _ _ => trivial
  run_invariant invariant (fun holds _ stepped => kept holds stepped) along initial ran

/-- Two machines whose steps agree on what is viewed of their states agree on it after the same events. -/
theorem run_map_eq {State' View : Type*} {step' : State' → Event → Except Fault State'} (view : State → View)
    (view' : State' → View)
    (agree : ∀ {state state' event}, view state = view' state' →
      (step state event).map view = (step' state' event).map view')
    {state : State} {state' : State'} (same : view state = view' state') :
    (run step state events).map view = (run step' state' events).map view' := by
  induction events generalizing state state' with
  | nil => exact congrArg Except.ok same
  | cons event rest ih =>
    have here : (step state event).map view = (step' state' event).map view' := agree same
    rw [run, run]
    cases stepped : step state event with
    | error fault =>
      cases stepped' : step' state' event with
      | error fault' =>
        rw [stepped, stepped'] at here
        exact here
      | ok next' =>
        rw [stepped, stepped'] at here
        cases here
    | ok next =>
      cases stepped' : step' state' event with
      | error fault' =>
        rw [stepped, stepped'] at here
        cases here
      | ok next' =>
        rw [stepped, stepped'] at here
        exact ih (Except.ok.inj here)

/-- A run that breaks a condition has a first step that does, reached by a run that meets it. -/
theorem exists_first_violation (broken : ¬ Along step condition state events) :
    ∃ leading event rest middle, events = leading ++ event :: rest ∧
      Along step condition state leading ∧ run step state leading = .ok middle ∧
      ¬ condition middle event := by
  induction events generalizing state with
  | nil => exact (broken trivial).elim
  | cons event rest ih =>
    by_cases here : condition state event
    · have later : ∃ next, step state event = .ok next ∧ ¬ Along step condition next rest := by
        by_contra none
        push Not at none
        exact broken ⟨here, none⟩
      obtain ⟨next, stepped, tail⟩ := later
      obtain ⟨leading, other, after, middle, same, along, ran, violated⟩ := ih tail
      refine ⟨event :: leading, other, after, middle, congrArg (event :: ·) same, ?_, ?_, violated⟩
      · refine ⟨here, fun other stepped' => ?_⟩
        cases stepped.symm.trans stepped'
        exact along
      · exact run_cons_ok_iff.mpr ⟨next, stepped, ran⟩
    · exact ⟨[], event, rest, state, rfl, trivial, rfl, here⟩

end Machine
