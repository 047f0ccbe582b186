import Dice.Text.Digits
import Dice.Pool

namespace Dice.Pool

open Dice.Text

/-!
# Writing dice notation

The canonical text of a pool: the number of dice is always written, numbers have no leading zeros,
and an offset of zero is left out.

* `offsetText` — an offset with its sign.
* `text` — a pool.
-/

/-- An offset with its sign; an offset of zero is nothing. -/
def offsetText (offset : Int32) : String :=
  if 0 < offset.toInt then "+" ++ integer offset.toInt
  else if offset.toInt < 0 then integer offset.toInt
  else ""

/-- The canonical notation of a pool. -/
def text (p : Pool) : String :=
  natural p.count.toNat ++ p.mode.letter.toString ++ natural p.faces.toNat ++ offsetText p.offset

example : text ⟨1, .unique, 20, -3⟩ = "1u20-3" ∧ text ⟨3, .standard, 6, 7⟩ = "3d6+7" ∧
    text ⟨1, .standard, 6, 0⟩ = "1d6" := by decide +kernel

end Dice.Pool
