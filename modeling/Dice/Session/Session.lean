import Dice.Notation.Reader
import Dice.Session.History

namespace Dice

open Dice.Notation Dice.Random

/-!
# Sessions

A session is the state of a calculator: the text being edited, the dice it last stood for, the
fault that keeps it from standing for dice, and the past rolls.

* `Selection` — the dice selected, with their law.
* `Config`, `Session.start` — what a session starts from.
* `Session.edit` — replacing the text.
* `Session.roll` — rolling the selected dice.
* `Session.reselect`, `Session.clear` — going back to a past roll, and forgetting them all.
-/

/-- The dice selected. -/
structure Selection where
  /-- The notation as it was typed. -/
  raw : String
  /-- The pool that it describes. -/
  pool : Pool
  /-- The law of the pool. -/
  law : Law Float
deriving Inhabited

/-- The dice that a pool selects. -/
def Selection.ofPool (raw : String) (pool : Pool) : Selection := ⟨raw, pool, pool.law⟩

/-- The dice that a text selects. -/
def Selection.read (raw : String) : Except Fault Selection :=
  (Pool.read raw).map (ofPool raw)

/-- What a session starts from. -/
structure Config where
  /-- How many past rolls are kept. -/
  historyLimit : Nat := 50
  /-- The text to start with. -/
  initialText : String := "d6"
deriving DecidableEq, Inhabited

/-- The state of a calculator. -/
structure Session where
  /-- The text being edited. -/
  raw : String
  /-- The fault of the text, if it is not notation. -/
  fault : Option Fault
  /-- The dice that were last selected. -/
  selection : Option Selection
  /-- The past rolls. -/
  history : History
deriving Inhabited

/-- The record of a roll of the selected dice. -/
def Selection.record (d : Selection) (r : Roll) (now : Calendar.Timestamp) : Record where
  raw := d.raw
  pool := d.pool
  outcome := r.total
  faces := r.faces
  probability := d.law.distribution.weightOf r.total
  rolledAt := now

namespace Session

/-- Replaces the text.  Notation selects its dice; any other text is kept with its fault, and the
    dice selected before stay selected. -/
def edit (s : Session) (text : String) : Session :=
  match Selection.read text with
  | .ok d => { s with raw := text, fault := none, selection := some d }
  | .error f => { s with raw := text, fault := some f }

/-- The session that a configuration starts. -/
def start (c : Config) : Session :=
  edit ⟨"", none, none, .empty c.historyLimit⟩ c.initialText

/-- The dice that are rolled: those selected, unless the text has a fault. -/
def rollable (s : Session) : Option Selection :=
  match s.fault with
  | some _ => none
  | none => s.selection

/-- Rolls the selected dice and keeps the record.  Without dice to roll, or with a text that has a
    fault, nothing happens.  The answer is the newest record kept. -/
def roll {S : Type} [WordSource S] (s : Session) (now : Calendar.Timestamp) (source : S) :
    Except RollError (Option Record × Session × S) :=
  match s.rollable with
  | none => .ok (none, s, source)
  | some d =>
    (d.pool.roll source).map fun (r, source) =>
      let history := s.history.push (d.record r now)
      (history.latest, { s with history }, source)

/-- Selects the dice of a past roll again, counted from 0 at the newest, if there are as many. -/
def reselect (s : Session) (index : Nat) : Option Session :=
  (s.history.get? index).map fun r => s.edit r.raw

/-- Forgets all past rolls. -/
def clear (s : Session) : Session :=
  { s with history := s.history.clear }

/-- What the text of the session stands for: the dice selected or the fault. -/
def selected (s : Session) : Except Fault (Option Selection) :=
  match s.fault with
  | some f => .error f
  | none => .ok s.selection

/-! ### What each operation leaves alone -/

/-- The text is what was typed last, notation or not. -/
@[simp] theorem raw_edit (s : Session) (text : String) : (s.edit text).raw = text := by
  unfold edit
  cases Selection.read text <;> rfl

/-- A text that is given leaves the records alone. -/
@[simp] theorem history_edit (s : Session) (text : String) : (s.edit text).history = s.history := by
  unfold edit
  cases Selection.read text <;> rfl

@[simp] theorem raw_clear (s : Session) : s.clear.raw = s.raw := rfl

@[simp] theorem fault_clear (s : Session) : s.clear.fault = s.fault := rfl

@[simp] theorem selection_clear (s : Session) : s.clear.selection = s.selection := rfl

@[simp] theorem history_clear (s : Session) : s.clear.history = s.history.clear := rfl

end Session

end Dice
