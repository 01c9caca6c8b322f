import GarbageCollector.Proofs.Rounds
import GarbageCollector.Soundness.StockCovers

/-! # Sessions are scripts of commands

A session on the text of a script executes the commands of the script, one after the other, and nothing else,
with the same faults. And every session, whatever is typed, is the execution of some script, which ends where
the session ends unless a question is never answered or a number is no `int`.
-/

namespace GarbageCollector.Soundness

open Model Proofs

variable {full : ℕ → ℕ → Bool} {p p' : Program} {input rest left : Input} {command : Command}
  {script : List Command} {fuel : ℕ}

/-- What a user types for a script. -/
def scriptText (script : List Command) : Input := script.flatMap Command.render

/-- A command does not see the input. -/
theorem step_withInput (command : Command) : command.step full { p with input } =
    (command.step full p).map fun p' => { p' with input } := by
  have called (p : Program) (storeCall : StoreCall) : Program.call full { p with input } input storeCall =
      (p.call full p.input storeCall).map fun p' => { p' with input } := by
    simp only [Program.call]
    rcases p.db.step full storeCall with _ | db <;> rfl
  have observed {α : Type} (result : Except DemoFault α) : (result.map fun _ => { p with input }) =
      (result.map fun _ => p).map fun p' : Program => { p' with input } := by
    cases result <;> rfl
  cases command with
  | addMerchandise name description price => exact called p _
  | removeMerchandise merchName confirmed =>
    cases confirmed with
    | true => exact called p _
    | false => rfl
  | editMerchandise name newName description price => exact called p _
  | listMerchandise answers => exact observed _
  | showStock merchName => exact observed _
  | replenish merchName shelfName numOfMerch => exact called p _
  | createCart =>
    dsimp only [Command.step]
    rcases checkedInt (p.createdCarts + 1) with _ | createdCarts
    · rfl
    · rw [Machine.ok_bind, Machine.ok_bind]
      exact called { p with createdCarts } _
  | removeCart cartKey confirmed =>
    cases confirmed with
    | true => exact called p _
    | false => rfl
  | addToCart merchName cartKey quantity => exact called p _
  | removeFromCart merchName cartKey quantity => exact called p _
  | calculateCost cartKey =>
    dsimp only [Command.step]
    exact observed _
  | checkout cartKey => exact called p _
  | undo => rfl
  | quit confirmed => rfl

/-- A command leaves the input alone. -/
theorem step_input (stepped : command.step full p = .ok p') : p'.input = p.input := by
  have same := @step_withInput full p p.input command
  change command.step full p = _ at same
  rw [stepped] at same
  rw [Except.ok.inj same]

/-- The loop on a typed script executes it, and goes on with what follows. -/
theorem loop_script (goesOn : ∀ command ∈ script, command.continues = true)
    (fits : Machine.Along (Command.step full) Command.Fits p script) :
    Program.loop full (script.length + fuel) { p with input := scriptText script ++ rest } =
      (Machine.run (Command.step full) p script).bind fun p' =>
        Program.loop full fuel { p' with input := rest } := by
  induction script generalizing p with
  | nil =>
    rw [List.length_nil, Nat.zero_add]
    rfl
  | cons command script ih =>
    have here := goesOn command List.mem_cons_self
    rw [List.length_cons, Nat.add_right_comm, Program.loop, scriptText, List.flatMap_cons, List.append_assoc,
      round_render fits.1, Machine.run]
    cases stepped : command.step full p with
    | error fault => rfl
    | ok next =>
      have later := ih (fun command member => goesOn command (List.mem_cons_of_mem _ member)) (fits.2 next stepped)
      change (if command.continues = true then _ else _) = _
      rw [if_pos here]
      exact later

theorem length_le_scriptText (script : List Command) : script.length ≤ (scriptText script).length := by
  induction script with
  | nil => exact le_refl _
  | cons command script ih =>
    rw [scriptText, List.flatMap_cons, List.length_append, List.length_cons]
    have some : 0 < command.render.length := by
      rw [Command.render, List.length_append]
      exact Nat.add_pos_left (Nat.succ_pos _) _
    change script.length ≤ (script.flatMap Command.render).length at ih
    omega

/-- The end of the input ends the loop. -/
theorem loop_nil : Program.loop full (fuel + 1) { p with input := [] } = .ok { p with input := [] } := by
  obtain ⟨_, _, asked⟩ := @askMenuLoop_succ [] localBuffer 0 List.length_replicate
  rw [if_pos (by rfl)] at asked
  rw [Program.loop, Program.round, askQuestionMenu, List.length_nil, Nat.zero_add, asked]
  rfl

/-- A confirmed `q` ends the loop. -/
theorem loop_quit : Program.loop full (fuel + 1) { p with input := (Command.quit true).render ++ left } =
    .ok { p with input := left } := by
  rw [Program.loop, round_render (show Command.Fits p (.quit true) from trivial)]
  rfl

theorem eventLoop_start (input : Input) : (Program.start input).eventLoop full =
    Program.loop full (input.length + 1) { Program.start [] with input } := rfl

theorem run_input (ran : Machine.run (Command.step full) p script = .ok p') : p'.input = p.input :=
  Machine.run_preserves (fun p' => p'.input = p.input)
    (fun holds stepped => (step_input stepped).trans holds) rfl ran

section Executed

variable (goesOn : ∀ command ∈ script, command.continues = true)
  (fits : Machine.Along (Command.step full) Command.Fits (Program.start []) script)
include goesOn fits

/-- The input ends after the script. -/
theorem eventLoop_scriptText : (Program.start (scriptText script)).eventLoop full =
    Machine.run (Command.step full) (Program.start []) script := by
  have long := length_le_scriptText script
  obtain ⟨fuel, enough⟩ : ∃ fuel, (scriptText script).length + 1 = script.length + (fuel + 1) :=
    ⟨(scriptText script).length - script.length, by omega⟩
  have looped := @loop_script full (Program.start []) [] script (fuel + 1) goesOn fits
  rw [List.append_nil] at looped
  rw [eventLoop_start, enough, looped]
  cases ran : Machine.run (Command.step full) (Program.start []) script with
  | error fault => rfl
  | ok p =>
    have same : { p with input := [] } = p := by
      rw [← show p.input = [] from run_input ran]
    rw [Except.bind, loop_nil, same]

/-- The user quits after the script. -/
theorem eventLoop_quitText (left : Input) :
    (Program.start (scriptText script ++ ((Command.quit true).render ++ left))).eventLoop full =
      (Machine.run (Command.step full) (Program.start []) script).map fun p => { p with input := left } := by
  have long := length_le_scriptText script
  have longer : script.length ≤ (scriptText script ++ ((Command.quit true).render ++ left)).length := by
    rw [List.length_append]
    omega
  obtain ⟨fuel, enough⟩ : ∃ fuel, (scriptText script ++ ((Command.quit true).render ++ left)).length + 1 =
      script.length + (fuel + 1) :=
    ⟨(scriptText script ++ ((Command.quit true).render ++ left)).length - script.length, by omega⟩
  have looped :=
    @loop_script full (Program.start []) ((Command.quit true).render ++ left) script (fuel + 1) goesOn fits
  rw [eventLoop_start, enough, looped]
  cases Machine.run (Command.step full) (Program.start []) script with
  | error fault => rfl
  | ok p =>
    rw [Except.bind, loop_quit]
    rfl

/-- A session on the text of a script executes the script, whether the input ends there or the user quits. -/
theorem eventLoop_script : (Program.start (scriptText script)).eventLoop full =
      Machine.run (Command.step full) (Program.start []) script ∧
    ∀ left, (Program.start (scriptText script ++ ((Command.quit true).render ++ left))).eventLoop full =
      (Machine.run (Command.step full) (Program.start []) script).map fun p => { p with input := left } :=
  ⟨eventLoop_scriptText goesOn fits, eventLoop_quitText goesOn fits⟩

end Executed

def appleName : Name := ⟨apple, by decide, by decide, by decide⟩

def shelfName : Name := ⟨shelfA, by decide, by decide, by decide⟩

/-- The number of the first cart. -/
def firstCart : Number := ⟨1, by decide⟩

/-- A merchandise is added, listed, replenished, put into a cart and sold. -/
def shopping : List Command :=
  [.addMerchandise appleName appleName ⟨5, by decide⟩, .listMerchandise [],
    .replenish appleName shelfName ⟨12, by decide⟩,
    .createCart, .addToCart appleName firstCart ⟨10, by decide⟩, .removeMerchandise appleName false,
    .checkout firstCart]

theorem eventLoop_shopping : (Program.start (scriptText shopping)).eventLoop loadFactor =
      Machine.run (Command.step loadFactor) (Program.start []) shopping ∧
    ∀ left, (Program.start (scriptText shopping ++ ((Command.quit true).render ++ left))).eventLoop loadFactor =
      (Machine.run (Command.step loadFactor) (Program.start []) shopping).map fun p => { p with input := left } :=
  eventLoop_script (by decide) (by decide +kernel)

/-- The session on the input reaches the state of the program, with the rest of the input, in as many rounds as
the script has commands. -/
def Reaches (full : ℕ → ℕ → Bool) (p : Program) (script : List Command) (p' : Program) : Prop :=
  ∀ fuel, Program.loop full (script.length + fuel) p = Program.loop full fuel p'

/-- The next round fails at a question: it fails so on this input in every state. -/
def AsksInVain (full : ℕ → ℕ → Bool) (input : Input) (fault : DemoFault) : Prop :=
  QuestionFails fault ∧ ∀ q : Program, q.input = input → q.round full = .error fault

/-- The script stands for a session from here: the session ends as the script does, or it comes to where the
script ends and fails at a question there. -/
def StandsFor (full : ℕ → ℕ → Bool) (p : Program) (input : Input) (script : List Command) :
    Except DemoFault Program → Prop
  | .ok last => ∃ p', Machine.run (Command.step full) p script = .ok p' ∧ { p' with input := last.input } = last
  | .error fault => Machine.run (Command.step full) p script = .error fault ∨
      ∃ p' rest, Machine.run (Command.step full) p script = .ok p' ∧
        Reaches full { p with input } script { p' with input := rest } ∧ AsksInVain full rest fault

theorem StandsFor.cons {result : Except DemoFault Program} (stepped : command.step full p = .ok p')
    (rounds : Program.round full { p with input } = .ok (true, { p' with input := rest }))
    (standsFor : StandsFor full p' rest script result) : StandsFor full p input (command :: script) result := by
  have ran :
      Machine.run (Command.step full) p (command :: script) = Machine.run (Command.step full) p' script := by
    rw [Machine.run, stepped]
    rfl
  cases result with
  | ok last =>
    rw [StandsFor, ran]
    exact standsFor
  | error fault =>
    rw [StandsFor, ran]
    refine standsFor.imp_right ?_
    rintro ⟨last, left, ended, reaches, vain⟩
    refine ⟨last, left, ended, fun fuel => ?_, vain⟩
    rw [List.length_cons, Nat.add_right_comm, Program.loop, rounds, Machine.ok_bind]
    exact reaches fuel

/-- Every run of the loop that has enough rounds for its input is a script. -/
theorem exists_script (enough : input.length < fuel) : ∃ script : List Command,
    (∀ command ∈ script, command.continues = true) ∧
      Machine.Along (Command.step full) Command.Fits p script ∧
      StandsFor full p input script (Program.loop full fuel { p with input }) := by
  induction fuel generalizing p input with
  | zero => exact absurd enough (Nat.not_lt_zero _)
  | succ fuel ih =>
    rw [Program.loop]
    have nothing : Machine.run (Command.step full) p [] = .ok p := rfl
    have none : ∀ command ∈ ([] : List Command), command.continues = true :=
      fun _ member => absurd member List.not_mem_nil
    rcases round_cases full { p with input } with
      ⟨rest, ended⟩ | ⟨fault, asks, vain⟩ | ⟨command, rest, fits, shorter, same⟩
    · rw [ended]
      exact ⟨[], none, trivial, p, nothing, rfl⟩
    · rw [vain { p with input } rfl]
      have reaches : Reaches full { p with input } [] { p with input } := fun fuel => by
        rw [List.length_nil, Nat.zero_add]
      exact ⟨[], none, trivial, .inr ⟨p, input, nothing, reaches, asks, vain⟩⟩
    · have fits' : command.Fits p := by
        cases command <;> exact fits
      rw [step_withInput] at same
      cases stepped : command.step full p with
      | error fault =>
        have continues : command.continues = true := by
          cases command with
          | quit confirmed => cases stepped
          | _ => rfl
        rw [same, stepped]
        refine ⟨[command], fun other member => ?_, ⟨fits', fun next ran => ?_⟩, .inl ?_⟩
        · rwa [List.mem_singleton.mp member]
        · trivial
        · rw [Machine.run, stepped]
          rfl
      | ok next =>
        rw [stepped] at same
        simp only [Except.map] at same
        rw [same, Machine.ok_bind]
        cases continues : command.continues with
        | true =>
          obtain ⟨script, goesOn, along, standsFor⟩ := @ih next rest (by dsimp only at shorter; omega)
          rw [continues] at same
          refine ⟨command :: script, fun other member => ?_, ⟨fits', fun next' stepped' => ?_⟩,
            .cons stepped same ?_⟩
          · rcases List.mem_cons.mp member with rfl | later
            · exact continues
            · exact goesOn other later
          · cases stepped.symm.trans stepped'
            exact along
          · dsimp only
            rw [if_pos rfl]
            exact standsFor
        | false =>
          have unchanged : next = p := by
            cases command with
            | quit confirmed => cases stepped; rfl
            | _ => cases continues
          dsimp only
          rw [if_neg Bool.false_ne_true, unchanged]
          exact ⟨[], none, trivial, p, nothing, rfl⟩

/-- Whatever is typed, the session is a script, up to a question that fails. -/
theorem eventLoop_is_script (full : ℕ → ℕ → Bool) (input : Input) : ∃ script : List Command,
    (∀ command ∈ script, command.continues = true) ∧
      Machine.Along (Command.step full) Command.Fits (Program.start []) script ∧
      match (Program.start input).eventLoop full with
      | .ok p => (Program.start (scriptText script)).eventLoop full = .ok { p with input := [] }
      | .error fault => (Program.start (scriptText script)).eventLoop full = .error fault ∨
          (fault = .diverges ∨ fault = .signedOverflow) ∧
            ∃ p rest, (Program.start (scriptText script)).eventLoop full = .ok p ∧
              Reaches full (Program.start input) script { p with input := rest } ∧ AsksInVain full rest fault := by
  obtain ⟨script, goesOn, fits, standsFor⟩ :=
    @exists_script full (Program.start []) input (input.length + 1) (Nat.lt_succ_self _)
  refine ⟨script, goesOn, fits, ?_⟩
  rw [eventLoop_scriptText goesOn fits, eventLoop_start]
  cases looped : Program.loop full (input.length + 1) { Program.start [] with input } with
  | error fault =>
    rw [looped] at standsFor
    refine standsFor.imp_right ?_
    rintro ⟨p, rest, ran, reaches, vain⟩
    exact ⟨vain.1, p, rest, ran, reaches, vain⟩
  | ok p =>
    rw [looped] at standsFor
    obtain ⟨p', ran, same⟩ := standsFor
    have empty : p'.input = [] := run_input ran
    dsimp only
    rw [ran, ← same, ← empty]

end GarbageCollector.Soundness
