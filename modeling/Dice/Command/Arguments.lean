import Dice.Session.Session
import Dice.Text.Word

namespace Dice.Command

open Dice.Text

/-!
# Arguments of the command line

The first word names a command: `stats`, `roll` or `repl`, which is also the command where none is
named.  Options may stand anywhere.  A value follows its option, or is joined to it: `-w 5`, `-w5`,
`-w=5`, `--width 5` and `--width=5` are the same.  Letters of options without a value may share a
dash.  After `--` everything is a word.

* `Action`, `Request` — what can be asked of the program.
* `Scope.long?`, `Scope.short?` — the options of each command.
* `Settings` — the options read so far; each may come once.
* `Request.read` — what a command line asks for, or why it is not carried out.
-/

/-- What can be asked of the program. -/
inductive Action where
  /-- The law of a pool, as a histogram or as JSON. -/
  | stats (text : String) (json : Bool) (width : Nat)
  /-- Some rolls of a pool, as a table or as JSON. -/
  | roll (text : String) (count : Nat) (seed : Option UInt64) (json : Bool)
  /-- The interactive calculator. -/
  | prompt (seed : Option UInt64) (history : Nat) (width : Nat)
deriving DecidableEq, Repr

/-- An action, and whether it may use colors. -/
structure Request where
  /-- Whether labels are colored. -/
  color : Bool
  /-- What is asked for. -/
  action : Action
deriving DecidableEq, Repr

/-- Why a command line is not carried out. -/
inductive Halt where
  /-- It has an argument that is unknown, missing, repeated or out of range. -/
  | refused
  /-- It asks for the version of the program only. -/
  | version
deriving DecidableEq, Repr

/-- Options without a value. -/
inductive Switch where
  /-- More messages about the run. -/
  | verbose
  /-- No colors. -/
  | noColor
  /-- JSON instead of text. -/
  | json
  /-- The version of the program, and nothing else. -/
  | version
deriving DecidableEq, Repr

/-- Options with a value, which is a word of 64 bits. -/
inductive Amount where
  /-- The width of the longest bar. -/
  | width
  /-- How many rolls are made. -/
  | count
  /-- The seed of the random words. -/
  | seed
  /-- How many past rolls are kept. -/
  | history
deriving DecidableEq, Repr

/-- An option of either kind. -/
inductive Setting where
  /-- An option without a value. -/
  | switch (s : Switch)
  /-- An option with a value. -/
  | amount (a : Amount)
deriving DecidableEq, Repr

/-- Where an option stands: before the name of the command, or after it. -/
inductive Scope where
  /-- Before the name of a command. -/
  | top
  /-- After `stats`. -/
  | stats
  /-- After `roll`. -/
  | roll
  /-- After `repl`. -/
  | prompt
deriving DecidableEq, Repr

/-- The option of a long name. -/
def Scope.long? : Scope → String → Option Setting
  | _, "verbose" => some (.switch .verbose)
  | _, "no-color" => some (.switch .noColor)
  | .top, "version" => some (.switch .version)
  | .stats, "json" | .roll, "json" => some (.switch .json)
  | .stats, "width" | .prompt, "width" => some (.amount .width)
  | .roll, "count" => some (.amount .count)
  | .roll, "seed" | .prompt, "seed" => some (.amount .seed)
  | .prompt, "history" => some (.amount .history)
  | _, _ => none

/-- The option of a letter. -/
def Scope.short? : Scope → Char → Option Setting
  | _, 'v' => some (.switch .verbose)
  | .top, 'V' => some (.switch .version)
  | .stats, 'w' | .prompt, 'w' => some (.amount .width)
  | .roll, 'n' => some (.amount .count)
  | _, _ => none

/-- The options read so far. -/
structure Settings where
  /-- Whether colors are off. -/
  noColor : Bool := false
  /-- Whether JSON is wanted. -/
  json : Bool := false
  /-- The width of the longest bar. -/
  width : Option Nat := none
  /-- How many rolls are wanted. -/
  count : Option Nat := none
  /-- The seed. -/
  seed : Option Nat := none
  /-- How many past rolls are kept. -/
  history : Option Nat := none
deriving DecidableEq, Repr

namespace Settings

/-- The settings with one more option without a value. -/
def turnOn (s : Settings) : Switch → Except Halt Settings
  | .verbose => .ok s
  | .version => .error .version
  | .noColor => if s.noColor then .error .refused else .ok { s with noColor := true }
  | .json => if s.json then .error .refused else .ok { s with json := true }

/-- The settings with one more option that has a value. -/
def give (s : Settings) (a : Amount) (text : List Char) : Except Halt Settings :=
  match wordOf? text with
  | none => .error .refused
  | some n => match a with
    | .width => if s.width.isSome then .error .refused else .ok { s with width := some n }
    | .count => if s.count.isSome then .error .refused else .ok { s with count := some n }
    | .seed => if s.seed.isSome then .error .refused else .ok { s with seed := some n }
    | .history => if s.history.isSome then .error .refused else .ok { s with history := some n }

/-- Reads an option by its long name, which a value may be joined to.  The answer tells which
    option still waits for its value. -/
def readLong (scope : Scope) (text : List Char) (s : Settings) :
    Except Halt (Settings × Option Amount) :=
  let name := text.takeWhile (· ≠ '=')
  match scope.long? (String.ofList name), text.drop name.length with
  | some (.switch w), [] => (s.turnOn w).map (·, none)
  | some (.amount a), [] => .ok (s, some a)
  | some (.amount a), _ :: joined => (s.give a joined).map (·, none)
  | _, _ => .error .refused

/-- Reads options by their letters.  What follows the letter of an option with a value is the
    value. -/
def readShort (scope : Scope) : List Char → Settings → Except Halt (Settings × Option Amount)
  | [], s => .ok (s, none)
  | c :: rest, s =>
    match scope.short? c with
    | some (.switch w) => do readShort scope rest (← s.turnOn w)
    | some (.amount a) => match rest with
      | [] => .ok (s, some a)
      | '=' :: joined => (s.give a joined).map (·, none)
      | joined => (s.give a joined).map (·, none)
    | none => .error .refused

end Settings

/-- What an argument looks like. -/
inductive Shape where
  /-- The mark after which everything is a word. -/
  | mark
  /-- An option by its long name. -/
  | long (text : List Char)
  /-- Options by their letters. -/
  | short (letters : List Char)
  /-- A word.  A lone dash is one. -/
  | word
deriving DecidableEq, Repr

/-- What an argument looks like. -/
def Shape.of (argument : String) : Shape :=
  match argument.toList with
  | ['-', '-'] => .mark
  | '-' :: '-' :: text => .long text
  | '-' :: c :: rest => .short (c :: rest)
  | _ => .word

/-- Reads the arguments after the name of a command: the settings and the words.  A value must not
    look like an option. -/
def readArguments (scope : Scope) :
    Option Amount → List String → Settings → Except Halt (Settings × List String)
  | none, [], s => .ok (s, [])
  | some _, [], _ => .error .refused
  | some a, argument :: rest, s =>
    match Shape.of argument with
    | .word => do readArguments scope none rest (← s.give a argument.toList)
    | _ => .error .refused
  | none, argument :: rest, s =>
    match Shape.of argument with
    | .mark => .ok (s, rest)
    | .long text => do
      let (s, waiting) ← s.readLong scope text
      readArguments scope waiting rest s
    | .short letters => do
      let (s, waiting) ← s.readShort scope letters
      readArguments scope waiting rest s
    | .word => do
      let (s, words) ← readArguments scope none rest s
      .ok (s, argument :: words)

/-- Reads the arguments up to the name of a command: the settings, and the name with the arguments
    after it. -/
def readTop : List String → Settings → Except Halt (Settings × List String)
  | [], s => .ok (s, [])
  | argument :: rest, s =>
    match Shape.of argument with
    | .mark => if rest = [] then .ok (s, []) else .error .refused
    | .long text => do readTop rest (← s.readLong .top text).1
    | .short letters => do readTop rest (← s.readShort .top letters).1
    | .word => .ok (s, argument :: rest)

namespace Request

/-- The width of the longest bar, unless another one is asked for. -/
def defaultWidth : Nat := 40

/-- How many past rolls are kept, unless another number is asked for. -/
def defaultHistory : Nat := ({} : Config).historyLimit

/-- The action of a command with its settings and words. -/
def actionOf (scope : Scope) (s : Settings) (words : List String) : Except Halt Action :=
  let seed := s.seed.map UInt64.ofNat
  match scope, words with
  | .stats, [text] => .ok (.stats text s.json (s.width.getD defaultWidth))
  | .roll, [text] => .ok (.roll text (s.count.getD 1) seed s.json)
  | .prompt, [] => .ok (.prompt seed (s.history.getD defaultHistory) (s.width.getD defaultWidth))
  | _, _ => .error .refused

/-- The command of a name. -/
def scopeOf? : String → Option Scope
  | "stats" => some .stats
  | "roll" => some .roll
  | "repl" => some .prompt
  | _ => none

/-- What a command line asks for. -/
def read (arguments : List String) : Except Halt Request := do
  let (top, rest) ← readTop arguments {}
  match rest with
  | [] => .ok ⟨!top.noColor, .prompt none defaultHistory defaultWidth⟩
  | name :: rest =>
    match scopeOf? name with
    | none => .error .refused
    | some scope =>
      let (s, words) ← readArguments scope none rest {}
      let action ← actionOf scope s words
      .ok ⟨!(top.noColor || s.noColor), action⟩

end Request

end Dice.Command
