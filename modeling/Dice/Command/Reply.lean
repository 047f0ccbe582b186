import Dice.Command.Arguments
import Dice.Command.Prompt
import Dice.Json.Forms
import Dice.Random.Roller

namespace Dice.Command

open Dice.Calendar Dice.Json Dice.Random Dice.View

/-!
# Replies to command lines

* `Reply` — what the program prints, and how it ends.
* `statsReply`, `rollReply`, `promptReply` — the replies to the three commands.
* `reply` — the reply to a command line.
-/

/-- How the program ends. -/
inductive Ending where
  /-- All was done. -/
  | done
  /-- Something went wrong. -/
  | failed (message : String)
  /-- The command line was not understood. -/
  | refused
deriving DecidableEq, Repr

/-- The number that the program ends with. -/
def Ending.code : Ending → UInt8
  | done => 0
  | failed _ => 1
  | refused => 2

/-- What is told about an end, apart from the output. -/
def Ending.complaint? : Ending → Option String
  | failed message => some ("Error: " ++ message)
  | _ => none

/-- What the program prints, and how it ends. -/
structure Reply where
  /-- What is printed. -/
  output : String
  /-- How the program ends. -/
  ending : Ending
deriving DecidableEq, Repr

/-- The reply that prints something and is done. -/
def Reply.done (output : String) : Reply := ⟨output, .done⟩

/-- The reply that prints nothing and fails. -/
def Reply.failed (message : String) : Reply := ⟨"", .failed message⟩

/-- The name of the program and its version. -/
def versionText : String := "dicecalc 0.1.0\n"

/-- The law of the dice that a text describes. -/
def statsReply (text : String) (json : Bool) (width : Nat) : Reply :=
  match Selection.read text with
  | .error f => .failed f.message
  | .ok d => .done (if json then toJson .pretty d.law ++ "\n" else d.law.shown d.pool width)

section Rolls

variable {S : Type} [WordSource S]

/-- Rolls the selected dice several times.  The clock tells the time of each roll by the number of
    rolls made before. -/
def rollTimes (clock : Nat → Timestamp) (made : Nat) :
    Nat → Prompt S → Except RollError (Prompt S)
  | 0, p => .ok p
  | count + 1, p =>
    match p.session.roll (clock made) p.source with
    | .ok (_, session, source) => rollTimes clock (made + 1) count ⟨session, source⟩
    | .error e => .error e

/-- Some rolls of the dice that a text describes.  All of them are kept. -/
def rollReply (color : Bool) (clock : Nat → Timestamp) (text : String) (count : Nat) (json : Bool)
    (source : S) : Reply :=
  let s := Session.start ⟨count, text⟩
  match s.fault with
  | some f => .failed f.message
  | none =>
    match rollTimes clock 0 count ⟨s, source⟩ with
    | .error e => .failed e.message
    | .ok p =>
      let h := p.session.history
      .done (if json then toJson .pretty h.records ++ "\n" else historyTable color h)

/-- The calculator as it starts: with a limit for its history, and dice selected. -/
def Prompt.start (history : Nat) (source : S) : Prompt S :=
  ⟨.start { historyLimit := history }, source⟩

/-- The interactive calculator. -/
def promptReply (style : Style) (history : Nat) (source : S) (lines : List Line) : Reply :=
  let p := Prompt.start history source
  let t := p.run style lines
  ⟨p.opening style ++ t.text, match t.failure with
    | some message => .failed message
    | none => .done⟩

end Rolls

/-- The roller of a seed; without a seed it is the one that is at hand. -/
def rollerOf (fresh : Roller) (seed : Option UInt64) : Roller :=
  (seed.map Roller.ofSeed).getD fresh

/-- The reply to a request.  The clock tells when each roll of a command is made; lines tell their
    own times. -/
def Request.reply (r : Request) (fresh : Roller) (clock : Nat → Timestamp) (lines : List Line) :
    Reply :=
  match r.action with
  | .stats text json width => statsReply text json width
  | .roll text count seed json => rollReply r.color clock text count json (rollerOf fresh seed)
  | .prompt seed history width => promptReply ⟨r.color, width⟩ history (rollerOf fresh seed) lines

/-- The reply to a command line that is not carried out. -/
def Halt.reply : Halt → Reply
  | refused => ⟨"", .refused⟩
  | version => .done versionText

/-- The reply to a command line.  Rolls without a seed are made by a roller that is at hand. -/
def reply (arguments : List String) (fresh : Roller) (clock : Nat → Timestamp) (lines : List Line) :
    Reply :=
  match Request.read arguments with
  | .error h => h.reply
  | .ok r => r.reply fresh clock lines

end Dice.Command
