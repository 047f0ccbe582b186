import Dice.Command.Reply

namespace Dice.Command

open Dice.Random

/-!
# Runs of the calculator

A run takes its lines one by one, so that a run over two scripts, one after the other, is the run
over the first followed by the run over the second, unless the first one ends the run.

* `Prompt.step_of_entry` — what happens at a line that asks for something, in terms of its answer.
* `Prompt.Reaches`, `Prompt.run_append_of_reaches` — a script whose lines are all answered.
* `Prompt.run_append_of_not_reaches` — a script that ends the run.
-/

variable {S : Type}

/-- What happens at a line with an answer, or without one since the dice could not be rolled. -/
def Step.ofAnswer : Except RollError (String × Prompt S) → Step S
  | .ok (output, next) => .answered output next
  | .error e => .failed e.message

namespace Prompt

variable [WordSource S] {style : Style} {p : Prompt S}

/-! ### One line -/

/-- A line that is no text ends the calculator with a complaint. -/
theorem step_of_notUtf8 {line : Line} (h : line.text = none) :
    p.step style line = .failed notUtf8 := by
  simp only [step, h, Option.map_none]

/-- A line that asks to leave ends the calculator. -/
theorem step_of_leave {line : Line} (h : line.text.map Entry.ofLine = some .leave) :
    p.step style line = .left := by
  simp only [step, h]

/-- A line that asks for anything but the end of the run is answered, if dice can be rolled. -/
theorem step_of_entry {line : Line} {e : Entry} (h : line.text.map Entry.ofLine = some e)
    (hne : e ≠ .leave) : p.step style line = .ofAnswer (p.answer style line.time e) := by
  simp only [step, h]
  cases e with
  | leave => exact absurd rfl hne
  | help | clear | history | roll | past _ | dice _ => cases p.answer style line.time _ <;> rfl

/-! ### One script after another -/

/-- All lines of a script are answered, and the run goes on from there. -/
def Reaches (style : Style) (p : Prompt S) (lines : List Line) : Prop :=
  (p.run style lines).answers.length = lines.length

theorem reaches_nil : p.Reaches style [] := rfl

/-- The end of some lines is reached if a line is answered and the end of the others is reached
    after it. -/
theorem reaches_cons {next : Prompt S} {line : Line} {output : String} {rest : List Line}
    (h : p.step style line = .answered output next) :
    p.Reaches style (line :: rest) ↔ next.Reaches style rest := by
  unfold Reaches
  rw [run_cons_of_answered rest h, List.length_cons, List.length_cons, Nat.add_right_cancel_iff]

/-- Only answered lines are reached beyond. -/
theorem exists_answered_of_reaches {line : Line} {rest : List Line}
    (h : p.Reaches style (line :: rest)) :
    ∃ output next, p.step style line = .answered output next ∧ next.Reaches style rest := by
  cases hline : p.step style line with
  | answered output next => exact ⟨output, next, rfl, (reaches_cons hline).mp h⟩
  | left =>
    rw [Reaches, run_cons_of_left rest hline] at h
    cases h
  | failed message =>
    rw [Reaches, run_cons_of_failed rest hline] at h
    cases h

/-- After lines that are all answered the run goes on with the others. -/
theorem run_append_of_reaches {before : List Line} (after : List Line)
    (h : p.Reaches style before) :
    p.run style (before ++ after) =
      { (p.run style before).final.run style after with
        answers :=
          (p.run style before).answers ++
            ((p.run style before).final.run style after).answers } := by
  induction before generalizing p with
  | nil => rfl
  | cons line rest ih =>
    obtain ⟨output, next, hline, hrest⟩ := exists_answered_of_reaches h
    rw [List.cons_append, run_cons_of_answered _ hline, run_cons_of_answered _ hline, ih hrest]
    rfl

/-- After a line that ends the run no other line counts. -/
theorem run_append_of_not_reaches {before : List Line} (after : List Line)
    (h : ¬ p.Reaches style before) : p.run style (before ++ after) = p.run style before := by
  induction before generalizing p with
  | nil => exact absurd reaches_nil h
  | cons line rest ih =>
    rw [List.cons_append]
    cases hline : p.step style line with
    | answered output next =>
      rw [run_cons_of_answered _ hline, run_cons_of_answered _ hline,
        ih (mt (reaches_cons hline).mpr h)]
    | left => rw [run_cons_of_left _ hline, run_cons_of_left _ hline]
    | failed message => rw [run_cons_of_failed _ hline, run_cons_of_failed _ hline]

/-- No more lines are answered than there are. -/
theorem length_answers_le (style : Style) (p : Prompt S) (lines : List Line) :
    (p.run style lines).answers.length ≤ lines.length := by
  induction lines generalizing p with
  | nil => exact Nat.le_refl 0
  | cons line rest ih =>
    cases hline : p.step style line with
    | answered output next =>
      rw [run_cons_of_answered rest hline]
      exact Nat.succ_le_succ (ih next)
    | left =>
      rw [run_cons_of_left rest hline]
      exact Nat.zero_le _
    | failed message =>
      rw [run_cons_of_failed rest hline]
      exact Nat.zero_le _

/-- Lines that are all answered do not fail. -/
theorem failure_of_reaches {lines : List Line} (h : p.Reaches style lines) :
    (p.run style lines).failure = none := by
  induction lines generalizing p with
  | nil => rfl
  | cons line rest ih =>
    obtain ⟨output, next, hline, hrest⟩ := exists_answered_of_reaches h
    rw [run_cons_of_answered rest hline]
    exact ih hrest

end Prompt

end Dice.Command
