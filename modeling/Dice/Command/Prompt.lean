import Dice.Session.Session
import Dice.Text.Blank
import Dice.Text.Word
import Dice.View.Summary
import Dice.View.Table

namespace Dice.Command

open Dice.Calendar Dice.Random Dice.Text Dice.View

/-!
# The interactive calculator

The calculator reads lines.  A line is a word of its own, such as `roll`, or the number of a past
roll, or else dice to select.  Every line is answered, and a mark then asks for the next one.

* `Entry`, `Entry.ofLine` — what a line asks for.
* `Prompt`, `Prompt.answer` — the state of the calculator, and its answer to an entry.
* `Prompt.step` — what happens at a line.
* `Prompt.run` — what happens at several lines.
-/

/-! ### Lines -/

/-- What the user can be told to do. -/
def helpText : String := unlines
  ["Type a dice notation (e.g. 3d6+7) to select it.",
   "  <enter> or roll   roll the selected dice",
   "  history           show past rolls",
   "  #N                select the dice of history entry N",
   "  clear             clear the history",
   "  help              show this message",
   "  quit              exit"]

/-- What a line asks for. -/
inductive Entry where
  /-- The end of the run. -/
  | leave
  /-- The help text. -/
  | help
  /-- No more past rolls. -/
  | clear
  /-- The table of past rolls. -/
  | history
  /-- A roll of the selected dice. -/
  | roll
  /-- The dice of a past roll, whose number in the table follows the sign. -/
  | past (text : String)
  /-- The dice that the text describes. -/
  | dice (text : String)
deriving DecidableEq, Repr

/-- What a line asks for.  White space around it does not count. -/
def Entry.ofLine (line : String) : Entry :=
  let text := trim line
  if text = "quit" ∨ text = "exit" then .leave
  else if text = "help" then .help
  else if text = "clear" then .clear
  else if text = "history" then .history
  else if text = "" ∨ text = "roll" then .roll
  else if text.toList.head? = some '#' then .past text
  else .dice text

/-- The place of a past roll, from 0 at the newest, that a text such as `#1` names: rolls are
    numbered from 1. -/
def pastIndex? (text : String) : Option Nat :=
  match wordOf? text.toList.tail with
  | some (n + 1) => some n
  | _ => none

/-- A line that was typed, with the time at which it came in. -/
structure Line where
  /-- The time. -/
  time : Timestamp
  /-- The text; there is none if the line is not UTF-8. -/
  text : Option String

/-- What the user is told about a line that is not UTF-8. -/
def notUtf8 : String := "stream did not contain valid UTF-8"

/-! ### Answers -/

/-- How the calculator shows things. -/
structure Style where
  /-- Whether labels are colored. -/
  color : Bool
  /-- The width of the longest bar. -/
  width : Nat
deriving DecidableEq, Repr

/-- The state of the calculator. -/
structure Prompt (S : Type) where
  /-- The session. -/
  session : Session
  /-- Where random words come from. -/
  source : S

/-- The dice selected, as they are shown. -/
def Style.shown (style : Style) (s : Session) : String :=
  match s.selection with
  | some d => d.law.shown d.pool style.width
  | none => ""

/-- A refused text with a caret under the place of its fault. -/
def caretText (text : String) (f : Notation.Fault) : String :=
  text ++ "\n" ++ String.ofList (List.replicate f.position ' ') ++ "^ " ++ f.message ++ "\n"

/-- The answer to a roll: its record, or why there is none. -/
def rollText (s : Session) : Option Record → String
  | some r => r.text ++ "\n"
  | none =>
    match s.fault with
    | some f => "Cannot roll " ++ quoted s.raw ++ ": " ++ f.message ++ "\n"
    | none => "No dice selected\n"

section Prompt

variable {S : Type}

namespace Prompt

/-- Goes on with another session. -/
def withSession (p : Prompt S) (s : Session) : Prompt S := { p with session := s }

/-- The answer to an entry, and the state after it. -/
def answer [WordSource S] (style : Style) (now : Timestamp) (p : Prompt S) :
    Entry → Except RollError (String × Prompt S)
  | .leave => .ok ("", p)
  | .help => .ok (helpText, p)
  | .clear => .ok ("", p.withSession p.session.clear)
  | .history => .ok (historyTable style.color p.session.history, p)
  | .roll =>
    (p.session.roll now p.source).map fun (record, session, source) =>
      (rollText session record, ⟨session, source⟩)
  | .past text =>
    match (pastIndex? text).bind p.session.reselect with
    | none => .ok ("No history entry " ++ text ++ "\n", p)
    | some s =>
      let shown := match s.fault with
        | some f => f.message ++ "\n"
        | none => style.shown s
      .ok (shown, p.withSession s)
  | .dice text =>
    let s := p.session.edit text
    let shown := match s.fault with
      | some f => caretText text f
      | none => style.shown s
    .ok (shown, p.withSession s)

end Prompt

/-! ### Runs -/

/-- What happens at a line. -/
inductive Step (S : Type) where
  /-- The line is answered, and the next one is asked for. -/
  | answered (output : String) (next : Prompt S)
  /-- The run ends. -/
  | left
  /-- The run fails. -/
  | failed (message : String)

/-- What happens at several lines, up to the end of the run. -/
structure Transcript (S : Type) where
  /-- The answer to each line. -/
  answers : List String
  /-- Why the run failed, if it did. -/
  failure : Option String
  /-- The state at the end. -/
  final : Prompt S

/-- The mark that asks for a line. -/
def promptMark : String := "> "

namespace Prompt

/-- What is printed before the first line is read. -/
def opening (style : Style) (p : Prompt S) : String :=
  helpText ++ style.shown p.session ++ promptMark

variable [WordSource S]

/-- What happens at a line. -/
def step (style : Style) (p : Prompt S) (line : Line) : Step S :=
  match line.text.map Entry.ofLine with
  | none => .failed notUtf8
  | some .leave => .left
  | some entry =>
    match p.answer style line.time entry with
    | .ok (output, next) => .answered output next
    | .error e => .failed e.message

/-- What happens at several lines. -/
def run (style : Style) : Prompt S → List Line → Transcript S
  | p, [] => ⟨[], none, p⟩
  | p, line :: rest =>
    match p.step style line with
    | .answered output next =>
      let t := run style next rest
      { t with answers := output :: t.answers }
    | .left => ⟨[], none, p⟩
    | .failed message => ⟨[], some message, p⟩

/-! ### Runs line by line -/

@[simp] theorem run_nil (style : Style) (p : Prompt S) : p.run style [] = ⟨[], none, p⟩ := rfl

/-- A line that is answered adds its answer to the run of the lines after it. -/
theorem run_cons_of_answered {style : Style} {p next : Prompt S} {line : Line} {output : String}
    (rest : List Line) (h : p.step style line = .answered output next) :
    p.run style (line :: rest) =
      { next.run style rest with answers := output :: (next.run style rest).answers } := by
  simp only [run, h]

/-- Nothing after the line that ends the run counts. -/
theorem run_cons_of_left {style : Style} {p : Prompt S} {line : Line} (rest : List Line)
    (h : p.step style line = .left) : p.run style (line :: rest) = ⟨[], none, p⟩ := by
  simp only [run, h]

/-- Nothing after the line at which the run fails counts. -/
theorem run_cons_of_failed {style : Style} {p : Prompt S} {line : Line} {message : String}
    (rest : List Line) (h : p.step style line = .failed message) :
    p.run style (line :: rest) = ⟨[], some message, p⟩ := by
  simp only [run, h]

end Prompt

end Prompt

/-- What is printed in answer to lines: a mark follows every answer. -/
def Transcript.text {S : Type} (t : Transcript S) : String :=
  String.join (t.answers.map (· ++ promptMark))

example : Entry.ofLine " quit\u3000" = .leave ∧ Entry.ofLine "\t" = .roll ∧
    Entry.ofLine "#2 " = .past "#2" ∧ Entry.ofLine "Roll" = .dice "Roll" := by decide +kernel

example : pastIndex? "#1" = some 0 ∧ pastIndex? "#+02" = some 1 ∧ pastIndex? "#0" = none ∧
    pastIndex? "#" = none := by decide +kernel

end Dice.Command
