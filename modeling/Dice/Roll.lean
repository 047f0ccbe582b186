import Dice.Notation.Written
import Dice.Random.Face

namespace Dice

open Dice.Random Dice.Text

/-!
# Rolling a pool

* `RollError` — why a pool cannot be rolled.
* `Roll` — the faces that came up and their total.
* `Pool.roll` — drawing the faces of a pool from a source of words, with the exact total.
-/

/-- Why a pool cannot be rolled. -/
inductive RollError where
  /-- The dice have no faces. -/
  | noFaces
  /-- The source of words ends, or repeats itself, before all dice have a face. -/
  | noWords
deriving DecidableEq, Repr

/-- The sentence that tells the user why a pool cannot be rolled. -/
def RollError.message : RollError → String
  | noFaces => "low > high (or equal if exclusive) in uniform distribution"
  | noWords => "out of random words"

/-- What came up when a pool was rolled. -/
structure Roll where
  /-- The sum of the faces and the offset. -/
  total : Int
  /-- The faces in the order in which they were drawn. -/
  faces : List UInt32
  /-- The pool that was rolled. -/
  pool : Pool
deriving DecidableEq, Repr

/-- The sum of some faces. -/
def faceSum (faces : List UInt32) : Int :=
  faces.foldr (fun face total => face.toNat + total) 0

/-- Faces as a list in brackets. -/
def facesText (faces : List UInt32) : String :=
  "[" ++ String.intercalate ", " (faces.map fun face => natural face.toNat) ++ "]"

namespace Roll

/-- The roll of a pool that shows some faces. -/
def ofFaces (pool : Pool) (faces : List UInt32) : Roll where
  total := pool.offset.toInt + faceSum faces
  faces := faces
  pool := pool

/-- The sentence that tells the user about a roll. -/
def text (r : Roll) : String :=
  "Rolled " ++ r.pool.text ++ ": " ++ facesText r.faces ++ " = " ++ integer r.total

end Roll

/-- Rolls a pool: its faces are drawn one after the other.  Dice without faces draw no word.  The
    total is the exact sum; `Pool.roll?` adds the faces in words of 64 bits, and does the same unless
    a sum overflows.  A pool whose law fits in memory is too small for that. -/
def Pool.roll {S : Type} [WordSource S] (p : Pool) (s : S) : Except RollError (Roll × S) :=
  if p.faces = 0 then .error .noFaces
  else match drawFaces p.faces p.count.toNat s with
    | none => .error .noWords
    | some (faces, s) => .ok (.ofFaces p faces, s)

example : Roll.text ⟨12, [3, 2], ⟨2, .standard, 6, 7⟩⟩ = "Rolled 2d6+7: [3, 2] = 12" := by
  decide +kernel

end Dice
