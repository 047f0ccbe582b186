import Dice.Decimal.Rounding
import Dice.Text.Digits

namespace Dice.Decimal

open Float.Model Dice.Text

/-!
# The shortest decimal of a float

A finite float stands for all numbers that round to it: an interval around its value.  Its
shortest decimal is the multiple of the greatest power of ten that lies in the interval, and of
several such multiples the nearest to the value.

* `Scientific` — a decimal as digits and an exponent of ten.
* `nearestMultiple` — the nearest multiple of a unit in an interval.
* `shortest` — the shortest decimal of `m * 2 ^ e`.
-/

/-- The number `digits * 10 ^ exponent`. -/
structure Scientific where
  /-- The digits, as a whole number. -/
  digits : Nat
  /-- The exponent of ten. -/
  exponent : Int
deriving DecidableEq, Repr

/-- Of the multiples of a unit that lie between two bounds, the number of the nearest to a value;
    of two equally near ones the even one.  The bounds count if the interval is closed. -/
def nearestMultiple (closed : Bool) (low value high unit : Nat) : Option Nat :=
  let inside (n : Nat) : Bool :=
    if closed then low ≤ n * unit && n * unit ≤ high else low < n * unit && n * unit < high
  let below := value / unit
  let nearest := roundEven value unit
  if inside nearest then some nearest
  else if inside below then some below
  else if inside (below + 1) then some (below + 1)
  else none

/-- The shortest decimal for the interval around `value * 2 ^ e`, tried for exponents of ten from
    `k` down. -/
def shortestFrom (closed : Bool) (low value high : Nat) (e : Int) : Nat → Int → Scientific
  | 0, k => ⟨value, k⟩
  | steps + 1, k =>
    let scale := Nat.pow 2 e.toNat * Nat.pow 10 (-k).toNat
    let unit := Nat.pow 10 k.toNat * Nat.pow 2 (-e).toNat
    match nearestMultiple closed (low * scale) (value * scale) (high * scale) unit with
    | some n => ⟨n, k⟩
    | none => shortestFrom closed low value high e steps (k - 1)

/-- The exponent of ten of a power of ten above `m * 2 ^ e`. -/
def exponentAbove (m : Nat) (e : Int) : Int :=
  (m.log2 + 1 + e) * 30103 / 100000 + 1

/-- The shortest decimal of `m * 2 ^ e`, a float in canonical form.  The interval reaches half way
    to the neighbours, of which the lower one is nearer where `m` is the least of its exponent; the
    ends round to the float if `m` is even. -/
def shortest (m : Nat) (e : Int) : Scientific :=
  let nearer : Bool := m == Nat.pow 2 52 && -1074 < e
  let low := if nearer then 4 * m - 1 else 4 * m - 2
  shortestFrom (m % 2 == 0) low (4 * m) (4 * m + 2) (e - 2) 25 (exponentAbove m e)

end Dice.Decimal
