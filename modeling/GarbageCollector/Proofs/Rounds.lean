import GarbageCollector.Machine.Outcome
import GarbageCollector.Proofs.Commands

/-! # Rounds of the event loop

A listing stops at the first page whose question is not answered with `y`, so it reads one line for each page
up to there. With that, one round of `event_loop` on a typed command is the step of the command, and every
round is the step of some command or finds no choice.
-/

namespace GarbageCollector.Proofs

open Model

variable {full : ℕ → ℕ → Bool} {p p' : Program} {input rest : Input} {command : Command}
  {answers : List Bool} {names : List CString} {pages : ℕ} {allMerch : HashTable CString ℕ}

/-- The number of questions that the input answers with `y` before another answer. -/
def agreed (input : Input) : ℕ := ((lines input).takeWhile fun line => compareString yes line.1).length

/-- The input after so many questions. -/
def afterLines (count : ℕ) (input : Input) : Input := (remaining 255)^[count] input

theorem agreed_of_yes (answer : compareString yes (lineOf input) = true) :
    agreed input = agreed (remaining 255 input) + 1 := by
  have more : input ≠ [] := by
    rintro rfl
    exact absurd answer (by decide)
  rw [agreed, lines_of_ne more, List.takeWhile_cons, if_pos (by exact answer), List.length_cons, agreed]

theorem agreed_of_no (answer : compareString yes (lineOf input) = false) : agreed input = 0 := by
  rw [agreed, lines, List.takeWhile_cons, if_neg (by simp [answer])]
  rfl

theorem afterLines_succ (count : ℕ) (input : Input) :
    afterLines (count + 1) input = afterLines count (remaining 255 input) := rfl

/-- The loop of `list_merchandise` in the middle of a page. -/
theorem listFrom_eq {count : ℕ} (counted : count < 20) : listFrom count names input =
    .ok (names.take (20 * (agreed input + 1) - count),
      afterLines (min (agreed input + 1) ((names.length + count) / 20)) input) := by
  induction names generalizing count input with
  | nil =>
    have noPage : ([] : List CString).length + count < 20 := by rwa [List.length_nil, Nat.zero_add]
    rw [listFrom, List.take_nil, Nat.div_eq_of_lt noPage, Nat.min_zero]
    rfl
  | cons name names ih =>
    rw [listFrom, List.length_cons]
    by_cases lastOfPage : count + 1 = 20
    · have pages : (names.length + 1 + count) / 20 = (names.length + 0) / 20 + 1 := by omega
      have here : (count : ℤ) + 1 = 20 := by omega
      rw [if_pos here, confirmation_eq, pages]
      simp only [bind, Except.bind]
      cases answer : compareString yes (lineOf input) with
      | true =>
        rw [if_pos rfl, show (0 : ℤ) = ((0 : ℕ) : ℤ) from rfl, ih (by decide), agreed_of_yes answer]
        have shown : 20 * (agreed (remaining 255 input) + 1 + 1) - count =
            20 * (agreed (remaining 255 input) + 1) - 0 + 1 := by omega
        rw [shown, List.take_succ_cons, Nat.add_min_add_right, afterLines_succ]
      | false =>
        rw [if_neg Bool.false_ne_true, agreed_of_no answer]
        have shown : 20 * (0 + 1) - count = 0 + 1 := by omega
        have asked : min (0 + 1) ((names.length + 0) / 20 + 1) = 1 := by omega
        rw [shown, List.take_succ_cons, List.take_zero, asked]
        rfl
    · have notHere : ¬ (count : ℤ) + 1 = 20 := by omega
      rw [if_neg notHere, show (count : ℤ) + 1 = ((count + 1 : ℕ) : ℤ) by push_cast; rfl, ih (by omega)]
      have shown : 20 * (agreed input + 1) - count = 20 * (agreed input + 1) - (count + 1) + 1 := by omega
      simp only [bind, Except.bind]
      rw [shown, List.take_succ_cons, Nat.add_right_comm, ← Nat.add_assoc]

/-- `list_merchandise` prints whole pages of the sorted names. -/
theorem listMerchandise_eq : listMerchandise allMerch input =
    (sortedNames allMerch).map fun names => (names.take (20 * (agreed input + 1)),
      afterLines (min (agreed input + 1) (names.length / 20)) input) := by
  have listed : listMerchandise allMerch input =
      (sortedNames allMerch).bind fun names => listFrom (0 : ℕ) names input := by
    rw [listMerchandise, sortedNames]
    rcases allMerch.keys with _ | merchandise
    · rfl
    simp only [bind, Except.bind]
    rcases createArrayFromList merchandise with _ | merchArray
    · rfl
    dsimp only
    rcases sortKeys merchArray allMerch.size with _ | sorted <;> rfl
  rw [listed]
  cases sortedNames allMerch with
  | error fault => rfl
  | ok names =>
    change listFrom (0 : ℕ) names input = _
    rw [listFrom_eq (by decide)]
    rfl

/-- An array that is sorted has as many names as the table says. -/
theorem sortedNames_length (sorted : sortedNames allMerch = .ok names) : names.length = allMerch.size := by
  rw [sortedNames] at sorted
  obtain ⟨merchandise, _, sorted⟩ := Machine.bind_ok_iff.mp sorted
  obtain ⟨merchArray, _, sorted⟩ := Machine.bind_ok_iff.mp sorted
  obtain ⟨array, keysSorted, sorted⟩ := Machine.bind_ok_iff.mp sorted
  cases sorted
  rw [sortKeys] at keysSorted
  split at keysSorted
  · next enough =>
    cases keysSorted
    rw [List.length_take, List.length_append, List.length_insertionSort, List.length_take, List.length_drop]
    omega
  · cases keysSorted

/-- Answers that fit are read as a whole. -/
theorem afterLines_answers (fit : answersFit pages answers = true) :
    afterLines (min (agreed (answers.flatMap renderAnswer ++ rest) + 1) pages)
      (answers.flatMap renderAnswer ++ rest) = rest := by
  have reads (answer : Bool) (rest : Input) : compareString yes (lineOf (renderAnswer answer ++ rest)) = answer ∧
      remaining 255 (renderAnswer answer ++ rest) = rest := by
    have typed := @confirmation_render rest answer
    rw [confirmation_eq] at typed
    exact Prod.mk.inj (Except.ok.inj typed)
  induction pages generalizing answers with
  | zero =>
    rw [answersFit, decide_eq_true_eq] at fit
    subst fit
    rw [Nat.min_zero]
    rfl
  | succ pages ih =>
    rcases answers with _ | ⟨answer, answers⟩
    · cases fit
    rw [List.flatMap_cons, List.append_assoc]
    obtain ⟨read, left⟩ := reads answer (answers.flatMap renderAnswer ++ rest)
    cases answer with
    | false =>
      rw [answersFit, decide_eq_true_eq] at fit
      subst fit
      rw [agreed_of_no read, Nat.zero_add, Nat.min_eq_left (by omega)]
      exact left
    | true => rw [agreed_of_yes read, left, Nat.add_min_add_right, afterLines_succ, left, ih fit]

/-- A round on a typed command has the effect of the command, and leaves what follows it. -/
theorem round_render (fits : command.Fits p) :
    Program.round full { p with input := command.render ++ rest } =
      (command.step full p).map fun p' => (command.continues, { p' with input := rest }) := by
  rw [Program.round, Command.render, List.append_assoc, askQuestionMenu_render]
  simp only [Machine.ok_bind, letterString, List.headD_cons, Command.letter, Command.step, Command.continues]
  cases command with
  | addMerchandise name description price =>
    simp +decide only [Program.choose, Command.renderAnswers, List.append_assoc, ↓reduceIte,
      askQuestionString_render, askQuestionInt_render, Machine.ok_bind, Program.call]
    rcases p.db.step full _ with _ | db <;> rfl
  | removeMerchandise merchName confirmed =>
    simp +decide only [Program.choose, Command.renderAnswers, List.append_assoc, ↓reduceIte,
      askQuestionString_render, confirmation_render, Machine.ok_bind, Program.call]
    cases confirmed with
    | true => rcases p.db.step full _ with _ | db <;> rfl
    | false => rfl
  | editMerchandise name newName description price =>
    simp +decide only [Program.choose, Command.renderAnswers, List.append_assoc, ↓reduceIte,
      askQuestionString_render, askQuestionInt_render, Machine.ok_bind, Program.call]
    rcases p.db.step full _ with _ | db <;> rfl
  | listMerchandise answers =>
    simp +decide only [Program.choose, Command.renderAnswers, ↓reduceIte, listMerchandise_eq]
    cases sorted : sortedNames p.db.allMerch with
    | error fault => rfl
    | ok names =>
      have fit : answersFit (p.db.allMerch.size / 20) answers = true := fits
      have left := @afterLines_answers rest answers _ fit
      rw [← sortedNames_length sorted] at left
      simp only [Except.map, left, Machine.ok_bind]
  | showStock merchName =>
    simp +decide only [Program.choose, Command.renderAnswers, ↓reduceIte, askQuestionString_render,
      Machine.ok_bind]
    rcases p.db.showStock full merchName.text with _ | shelves <;> rfl
  | replenish merchName shelfName numOfMerch =>
    simp +decide only [Program.choose, Command.renderAnswers, List.append_assoc, ↓reduceIte,
      askQuestionString_render, askQuestionInt_render, Machine.ok_bind, Program.call]
    rcases p.db.step full _ with _ | db <;> rfl
  | createCart =>
    simp +decide only [Program.choose, Command.renderAnswers, ↓reduceIte, List.nil_append, Program.call]
    rcases checkedInt (p.createdCarts + 1) with _ | createdCarts
    · rfl
    · simp only [Machine.ok_bind]
      rcases p.db.step full _ with _ | db <;> rfl
  | removeCart cartKey confirmed =>
    simp +decide only [Program.choose, Command.renderAnswers, List.append_assoc, ↓reduceIte,
      askQuestionInt_render, confirmation_render, Machine.ok_bind, Program.call]
    cases confirmed with
    | true => rcases p.db.step full _ with _ | db <;> rfl
    | false => rfl
  | addToCart merchName cartKey quantity =>
    simp +decide only [Program.choose, Command.renderAnswers, List.append_assoc, ↓reduceIte,
      askQuestionString_render, askQuestionInt_render, Machine.ok_bind, Program.call]
    rcases p.db.step full _ with _ | db <;> rfl
  | removeFromCart merchName cartKey quantity =>
    simp +decide only [Program.choose, Command.renderAnswers, List.append_assoc, ↓reduceIte,
      askQuestionString_render, askQuestionInt_render, Machine.ok_bind, Program.call]
    rcases p.db.step full _ with _ | db <;> rfl
  | calculateCost cartKey =>
    simp +decide only [Program.choose, Command.renderAnswers, ↓reduceIte, askQuestionInt_render, Machine.ok_bind]
    rcases p.db.calculateCost full cartKey.value with _ | cost <;> rfl
  | checkout cartKey =>
    simp +decide only [Program.choose, Command.renderAnswers, ↓reduceIte, askQuestionInt_render, Machine.ok_bind,
      Program.call]
    rcases p.db.step full _ with _ | db <;> rfl
  | undo =>
    simp +decide only [Program.choose, Command.renderAnswers, ↓reduceIte, List.nil_append]
    rfl
  | quit confirmed =>
    simp +decide only [Program.choose, Command.renderAnswers, ↓reduceIte, confirmation_render, Machine.ok_bind]
    rfl

/-- A question that is not answered, or whose answer is a number that is no `int`. -/
def QuestionFails (fault : DemoFault) : Prop := fault = .diverges ∨ fault = .signedOverflow

/-- What a choice can come to: one of its questions fails, whatever the state is, or it is the step of a
command that leaves no more than so much input. -/
def ChoiceEnds (full : ℕ → ℕ → Bool) (p : Program) (bound : ℕ)
    (choice : Program → Except DemoFault (Bool × Program)) : Prop :=
  (∃ fault, QuestionFails fault ∧ ∀ q, choice q = .error fault) ∨
    ∃ (command : Command) (rest : Input), command.Fits p ∧ rest.length ≤ bound ∧
      choice p = (command.step full p).map fun p' => (command.continues, { p' with input := rest })

namespace ChoiceEnds

variable {bound : ℕ} {choice : Program → Except DemoFault (Bool × Program)}

theorem question {fault : DemoFault} (asks : QuestionFails fault) (fails : ∀ q, choice q = .error fault) :
    ChoiceEnds full p bound choice :=
  .inl ⟨fault, asks, fails⟩

theorem string {next : CString × Input → Program → Except DemoFault (Bool × Program)}
    (bounded : input.length ≤ bound) (continues : ∀ (name : Name) (rest : Input), rest.length ≤ bound →
      ChoiceEnds full p bound (next (name.text, rest))) :
    ChoiceEnds full p bound fun q => askQuestionString input >>= fun answer => next answer q := by
  rcases askQuestionString_cases input with stuck | ⟨name, rest, asked, shorter⟩
  · rw [stuck]
    exact .question (.inl rfl) fun _ => rfl
  · rw [asked]
    exact continues name rest (shorter.trans bounded)

theorem number {next : ℤ × Input → Program → Except DemoFault (Bool × Program)}
    (bounded : input.length ≤ bound) (continues : ∀ (number : Number) (rest : Input), rest.length ≤ bound →
      ChoiceEnds full p bound (next ((number.value : ℤ), rest))) :
    ChoiceEnds full p bound fun q => askQuestionInt input >>= fun answer => next answer q := by
  rcases askQuestionInt_cases input with stuck | overflow | ⟨number, rest, asked, shorter⟩
  · rw [stuck]
    exact .question (.inl rfl) fun _ => rfl
  · rw [overflow]
    exact .question (.inr rfl) fun _ => rfl
  · rw [asked]
    exact continues number rest (shorter.trans bounded)

theorem answer {next : Bool × Input → Program → Except DemoFault (Bool × Program)}
    (bounded : input.length ≤ bound) (continues : ∀ (answer : Bool) (rest : Input), rest.length ≤ bound →
      ChoiceEnds full p bound (next (answer, rest))) :
    ChoiceEnds full p bound fun q => confirmation input >>= fun answer => next answer q := by
  rw [confirmation_eq]
  exact continues _ _ (remaining_length_le.trans bounded)

theorem ofCommand (command : Command) (fits : command.Fits p) (bounded : rest.length ≤ bound)
    (same : choice p = (command.step full p).map fun p' => (command.continues, { p' with input := rest })) :
    ChoiceEnds full p bound choice :=
  .inr ⟨command, rest, fits, bounded, same⟩

end ChoiceEnds

/-- A call is the last thing that a choice does. -/
theorem call_then {storeCall : StoreCall} :
    (Program.call full { p with input } rest storeCall >>= fun p' => .ok (true, p')) =
      (p.call full p.input storeCall).map fun p' => (true, { p' with input := rest }) := by
  simp only [Program.call]
  rcases p.db.step full storeCall with _ | db <;> rfl

/-- The answers that a listing reads from any input. -/
def answersIn : ℕ → Input → List Bool
  | 0, _ => []
  | pages + 1, input =>
    if compareString yes (lineOf input) then true :: answersIn pages (remaining 255 input) else [false]

theorem answersIn_fit (pages : ℕ) (input : Input) : answersFit pages (answersIn pages input) = true := by
  induction pages generalizing input with
  | zero => rfl
  | succ pages ih =>
    rw [answersIn]
    split
    · exact ih _
    · rfl

theorem afterLines_length_le (count : ℕ) (input : Input) : (afterLines count input).length ≤ input.length := by
  induction count generalizing input with
  | zero => exact le_refl _
  | succ count ih => exact (ih _).trans remaining_length_le

/-- What the letter of the menu comes to, with the input behind it. -/
def LetterEnds (full : ℕ → ℕ → Bool) (p : Program) (input : Input) (letter : BitVec 8) : Prop :=
  ChoiceEnds full p input.length fun q => Program.choose full { q with input } letter

theorem letterEnds_addMerchandise : LetterEnds full p input 97 := by
  simp +decide only [LetterEnds, Program.choose, ↓reduceIte]
  apply ChoiceEnds.string (le_refl _)
  intro name input bounded
  apply ChoiceEnds.string bounded
  intro description input bounded
  apply ChoiceEnds.number bounded
  intro price input bounded
  exact .ofCommand (.addMerchandise name description price) trivial bounded call_then

theorem letterEnds_removeMerchandise : LetterEnds full p input 100 := by
  simp +decide only [LetterEnds, Program.choose, ↓reduceIte]
  apply ChoiceEnds.string (le_refl _)
  intro merchName input bounded
  apply ChoiceEnds.answer bounded
  intro confirmed input bounded
  apply ChoiceEnds.ofCommand (.removeMerchandise merchName confirmed) trivial bounded
  cases confirmed with
  | true => exact call_then
  | false => rfl

theorem letterEnds_editMerchandise : LetterEnds full p input 101 := by
  simp +decide only [LetterEnds, Program.choose, ↓reduceIte]
  apply ChoiceEnds.string (le_refl _)
  intro name input bounded
  apply ChoiceEnds.string bounded
  intro newName input bounded
  apply ChoiceEnds.string bounded
  intro description input bounded
  apply ChoiceEnds.number bounded
  intro price input bounded
  exact .ofCommand (.editMerchandise name newName description price) trivial bounded call_then

/-- A listing reads the answers that are there. -/
theorem letterEnds_listMerchandise : LetterEnds full p input 108 := by
  simp +decide only [LetterEnds, Program.choose, ↓reduceIte]
  have fits := answersIn_fit (p.db.allMerch.size / 20) input
  cases sorted : sortedNames p.db.allMerch with
  | error fault =>
    apply ChoiceEnds.ofCommand (.listMerchandise _) fits (le_refl _)
    rw [listMerchandise_eq, Command.step, sorted]
    rfl
  | ok names =>
    apply ChoiceEnds.ofCommand (.listMerchandise _) fits (afterLines_length_le _ input)
    rw [listMerchandise_eq, Command.step, sorted]
    rfl

theorem letterEnds_showStock : LetterEnds full p input 115 := by
  simp +decide only [LetterEnds, Program.choose, ↓reduceIte]
  apply ChoiceEnds.string (le_refl _)
  intro merchName input bounded
  apply ChoiceEnds.ofCommand (.showStock merchName) trivial bounded
  dsimp only [Command.step]
  rcases p.db.showStock full merchName.text with _ | shelves <;> rfl

theorem letterEnds_replenish : LetterEnds full p input 112 := by
  simp +decide only [LetterEnds, Program.choose, ↓reduceIte]
  apply ChoiceEnds.string (le_refl _)
  intro merchName input bounded
  apply ChoiceEnds.string bounded
  intro shelfName input bounded
  apply ChoiceEnds.number bounded
  intro numOfMerch input bounded
  exact .ofCommand (.replenish merchName shelfName numOfMerch) trivial bounded call_then

theorem letterEnds_createCart : LetterEnds full p input 99 := by
  simp +decide only [LetterEnds, Program.choose, ↓reduceIte]
  apply ChoiceEnds.ofCommand .createCart trivial (le_refl _)
  dsimp only [Command.step]
  rcases checkedInt (p.createdCarts + 1) with _ | createdCarts
  · rfl
  · rw [Machine.ok_bind, Machine.ok_bind]
    exact @call_then full { p with createdCarts } input input _

theorem letterEnds_removeCart : LetterEnds full p input 121 := by
  simp +decide only [LetterEnds, Program.choose, ↓reduceIte]
  apply ChoiceEnds.number (le_refl _)
  intro cartKey input bounded
  apply ChoiceEnds.answer bounded
  intro confirmed input bounded
  apply ChoiceEnds.ofCommand (.removeCart cartKey confirmed) trivial bounded
  cases confirmed with
  | true => exact call_then
  | false => rfl

theorem letterEnds_addToCart : LetterEnds full p input 43 := by
  simp +decide only [LetterEnds, Program.choose, ↓reduceIte]
  apply ChoiceEnds.string (le_refl _)
  intro merchName input bounded
  apply ChoiceEnds.number bounded
  intro cartKey input bounded
  apply ChoiceEnds.number bounded
  intro quantity input bounded
  exact .ofCommand (.addToCart merchName cartKey quantity) trivial bounded call_then

theorem letterEnds_removeFromCart : LetterEnds full p input 45 := by
  simp +decide only [LetterEnds, Program.choose, ↓reduceIte]
  apply ChoiceEnds.string (le_refl _)
  intro merchName input bounded
  apply ChoiceEnds.number bounded
  intro cartKey input bounded
  apply ChoiceEnds.number bounded
  intro quantity input bounded
  exact .ofCommand (.removeFromCart merchName cartKey quantity) trivial bounded call_then

theorem letterEnds_calculateCost : LetterEnds full p input 61 := by
  simp +decide only [LetterEnds, Program.choose, ↓reduceIte]
  apply ChoiceEnds.number (le_refl _)
  intro cartKey input bounded
  apply ChoiceEnds.ofCommand (.calculateCost cartKey) trivial bounded
  dsimp only [Command.step]
  rcases p.db.calculateCost full cartKey.value with _ | cost <;> rfl

theorem letterEnds_checkout : LetterEnds full p input 111 := by
  simp +decide only [LetterEnds, Program.choose, ↓reduceIte]
  apply ChoiceEnds.number (le_refl _)
  intro cartKey input bounded
  exact .ofCommand (.checkout cartKey) trivial bounded call_then

theorem letterEnds_undo : LetterEnds full p input 117 := by
  simp +decide only [LetterEnds, Program.choose, ↓reduceIte]
  exact .ofCommand .undo trivial (le_refl _) rfl

theorem letterEnds_quit : LetterEnds full p input 113 := by
  simp +decide only [LetterEnds, Program.choose, ↓reduceIte]
  apply ChoiceEnds.answer (le_refl _)
  intro confirmed input bounded
  exact .ofCommand (.quit confirmed) trivial bounded rfl

/-- What each letter of the menu comes to. -/
theorem choose_cases {letter : BitVec 8} (member : letter ∈ choices) : LetterEnds full p input letter := by
  simp only [choices, List.mem_cons, List.not_mem_nil, or_false] at member
  rcases member with rfl | rfl | rfl | rfl | rfl | rfl | rfl | rfl | rfl | rfl | rfl | rfl | rfl | rfl
  · exact letterEnds_addMerchandise
  · exact letterEnds_removeMerchandise
  · exact letterEnds_editMerchandise
  · exact letterEnds_listMerchandise
  · exact letterEnds_showStock
  · exact letterEnds_replenish
  · exact letterEnds_createCart
  · exact letterEnds_removeCart
  · exact letterEnds_addToCart
  · exact letterEnds_removeFromCart
  · exact letterEnds_calculateCost
  · exact letterEnds_checkout
  · exact letterEnds_undo
  · exact letterEnds_quit

/-- A round with a choice goes on with its letter. -/
theorem round_of_menu {text : CString} (asked : askQuestionMenu p.input = .ok (some text, rest)) :
    p.round full = Program.choose full { p with input := rest } (text.chars.headD 0) := by
  rw [Program.round, asked, Machine.ok_bind]

/-- What a round comes to: the end of the input or an empty line, a question that fails on this input in every
state, or the step of a command, which takes some input. -/
theorem round_cases (full : ℕ → ℕ → Bool) (p : Program) :
    (∃ rest, p.round full = .ok (false, { p with input := rest })) ∨
      (∃ fault, QuestionFails fault ∧ ∀ q : Program, q.input = p.input → q.round full = .error fault) ∨
      ∃ (command : Command) (rest : Input), command.Fits p ∧ rest.length < p.input.length ∧
        p.round full = (command.step full p).map fun p' => (command.continues, { p' with input := rest }) := by
  obtain ⟨choice, rest, asked, _, found⟩ :=
    @askMenuLoop_ok p.input localBuffer (p.input.length + 1) List.length_replicate (Nat.lt_succ_self _)
  cases choice with
  | none =>
    left
    refine ⟨rest, ?_⟩
    rw [Program.round, askQuestionMenu, asked, Machine.ok_bind]
  | some text =>
    obtain ⟨chosen, shorter⟩ := found text rfl
    obtain ⟨letter, member, chars⟩ := exists_of_isChoice chosen
    have chooses (q : Program) (same : q.input = p.input) :
        q.round full = Program.choose full { q with input := rest } letter := by
      have menu : askQuestionMenu q.input = .ok (some text, rest) := (congrArg askQuestionMenu same).trans asked
      rw [round_of_menu menu, chars]
      rfl
    rw [chooses p rfl]
    rcases @choose_cases full p rest letter member with
      ⟨fault, asks, fails⟩ | ⟨command, left, fits, bounded, same⟩
    · exact .inr (.inl ⟨fault, asks, fun q same => (chooses q same).trans (fails q)⟩)
    · exact .inr (.inr ⟨command, left, fits, Nat.lt_of_le_of_lt bounded shorter, same⟩)

end GarbageCollector.Proofs
