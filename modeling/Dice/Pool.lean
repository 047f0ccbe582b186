namespace Dice

/-!
# Dice pools

A pool is what one line of dice notation describes: how many dice, with how many faces each, and a
number added to their sum.

* `Mode` — which of the two letters the dice were written with.
* `Pool` — the description itself.
* `Pool.lowest`, `Pool.highest` — the bounds of the totals the pool can give.
-/

/-- The letter between the number of dice and the number of faces.  It is kept with the pool, but
    dice of either mode roll alike. -/
inductive Mode where
  /-- Ordinary dice, written `d`. -/
  | standard
  /-- Unique dice, written `u`. -/
  | unique
deriving DecidableEq, Repr, Inhabited

namespace Mode

/-- The letter of a mode. -/
def letter : Mode → Char
  | standard => 'd'
  | unique => 'u'

/-- The mode of a letter, if it is one of the two. -/
def ofLetter? : Char → Option Mode
  | 'd' => some standard
  | 'u' => some unique
  | _ => none

/-- Every letter written is read back as its mode. -/
@[simp] theorem ofLetter?_letter (m : Mode) : ofLetter? m.letter = some m := by
  cases m <;> rfl

/-- Only the letter of a mode is read as it. -/
theorem eq_letter_of_ofLetter? {c : Char} {m : Mode} (h : ofLetter? c = some m) : c = m.letter := by
  unfold ofLetter? at h
  split at h <;> cases h <;> rfl

end Mode

/-- A number of dice with equally many faces, and an offset for their sum.  The fields are words of
    the sizes that notation admits; a pool read from notation has at least one die and one face. -/
structure Pool where
  /-- How many dice are rolled. -/
  count : UInt32
  /-- The letter they were written with. -/
  mode : Mode
  /-- The faces of each die, numbered from 1. -/
  faces : UInt32
  /-- What is added to the sum of the faces rolled. -/
  offset : Int32
deriving DecidableEq, Repr, Inhabited

namespace Pool

/-- The total when every die shows 1. -/
def lowest (p : Pool) : Int :=
  p.count.toNat + p.offset.toInt

/-- The total when every die shows its last face. -/
def highest (p : Pool) : Int :=
  p.count.toNat * p.faces.toNat + p.offset.toInt

end Pool

end Dice
