import Dice.Command.Reply
import Dice.Text.Lines
import Std.Time.DateTime.Timestamp

namespace Dice.Command

open Dice.Random Dice.Text

/-!
# The program

The program reads its arguments, gets random bytes and the time, and prints the reply.  The
interactive calculator is answered line by line.
-/

/-- The time now. -/
def readClock : IO Calendar.Timestamp := do
  let now ← Std.Time.Timestamp.now
  let nanos := now.toNanosecondsSinceUnixEpoch.val
  return (Calendar.Timestamp.ofEpoch? (nanos / 1000000000) (nanos % 1000000000).toNat).getD .epoch

/-- A roller with a random key. -/
def freshRoller : IO Roller := do
  let bytes ← IO.getRandomBytes 32
  return .ofKey (Roller.keyOfBytes bytes.toList)

/-- Prints a text at once. -/
def printNow (text : String) : IO Unit := do
  let output ← IO.getStdout
  output.putStr text
  output.flush

/-- Reads bytes up to a line feed or the end of the input. -/
partial def readLine (input : IO.FS.Stream) (bytes : ByteArray) : IO ByteArray := do
  let next ← input.read 1
  match next.toList with
  | [] => return bytes
  | byte :: _ =>
    if byte = 10 then return bytes.push byte
    else readLine input (bytes.push byte)

/-- Answers lines until the run ends. -/
partial def serve (style : Style) (p : Prompt Roller) (input : IO.FS.Stream) : IO Ending := do
  let bytes ← readLine input .empty
  match byteLines bytes.toList with
  | [] => return .done
  | line :: _ =>
    match p.step style ⟨← readClock, lineText? line⟩ with
    | .answered output next => do
      printNow (output ++ promptMark)
      serve style next input
    | .left => return .done
    | .failed message => return .failed message

/-- Ends the program. -/
def finish (ending : Ending) : IO UInt32 := do
  match ending.complaint? with
  | some text => IO.eprintln text
  | none => pure ()
  return ending.code.toUInt32

/-- The times of the rolls that a command line asks for, if the dice to roll are in notation. -/
def readRollTimes (arguments : List String) : IO (Array Calendar.Timestamp) := do
  match Request.read arguments with
  | .ok ⟨_, .roll text count _ _⟩ =>
    match Pool.read text with
    | .ok _ => (Array.range count).mapM fun _ => readClock
    | .error _ => return #[]
  | _ => return #[]

/-- Carries out a command line. -/
def perform (arguments : List String) : IO UInt32 := do
  let roller ← freshRoller
  match Request.read arguments with
  | .ok ⟨color, .prompt seed history width⟩ => do
    let style : Style := ⟨color, width⟩
    let p := Prompt.start history (rollerOf roller seed)
    printNow (p.opening style)
    finish (← serve style p (← IO.getStdin))
  | _ => do
    let times ← readRollTimes arguments
    let r := reply arguments roller (times.getD · .epoch) []
    printNow r.output
    finish r.ending

end Dice.Command

def main (arguments : List String) : IO UInt32 :=
  Dice.Command.perform arguments
