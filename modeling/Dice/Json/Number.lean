import Dice.Decimal.Shortest
import Dice.Json.Value

namespace Dice.Json

open Dice.Decimal Dice.Text Float.Model

/-!
# Numbers in JSON

Whole numbers are written in decimal.  Floats are written with the fewest digits that stand for
them, with a point or an exponent, so that they look different from whole numbers.  A float is read
by taking in as many digits as a word of 64 bits holds and scaling by powers of ten, which may be
off by a unit in the last place.

* `Numeral.ofInt`, `Numeral.ofFloat?` — the spelling of a number.
* `Numeral.int?`, `Numeral.float?` — the number of a spelling.
-/

namespace Numeral

/-- The spelling of a whole number. -/
def ofInt (n : Int) : Numeral where
  negative := n < 0
  whole := Nat.toDigits 10 n.natAbs
  fraction := []
  exponent := none

/-- As many zeros. -/
def zeros (n : Nat) : List Char :=
  List.replicate n '0'

/-- The spelling of a decimal.  From `0.00001` up to below 10 to the 16th, the point stands where it
    belongs; other decimals have it after the first digit, and an exponent with its sign. -/
def ofScientific (negative : Bool) (s : Scientific) : Numeral :=
  let digits := Nat.toDigits 10 s.digits
  let point : Int := digits.length + s.exponent
  if 0 ≤ s.exponent ∧ point ≤ 16 then
    ⟨negative, digits ++ zeros s.exponent.toNat, ['0'], none⟩
  else if 0 < point ∧ point ≤ 16 then
    ⟨negative, digits.take point.toNat, digits.drop point.toNat, none⟩
  else if -5 < point ∧ point ≤ 0 then
    ⟨negative, ['0'], zeros (-point).toNat ++ digits, none⟩
  else
    ⟨negative, digits.take 1, digits.drop 1,
      some ⟨some (if point ≤ 0 then '-' else '+'), Nat.toDigits 10 (point - 1).natAbs⟩⟩

/-- Whether a sign is the minus sign. -/
def isNegative : UnpackedFloat.Sign → Bool
  | .negative => true
  | .positive => false

/-- The spelling of a float.  Infinities and what is no number have none. -/
def ofFloat? (x : Float) : Option Numeral :=
  match x.toModel.unpack with
  | .notANumber => none
  | .infinity _ => none
  | .zero s => some ⟨isNegative s, ['0'], ['0'], none⟩
  | .finite s m e _ => some (ofScientific (isNegative s) (shortest m e))

/-! ### Reading -/

/-- The value of a digit. -/
def digitValue (c : Char) : Nat := c.toNat - '0'.toNat

/-- Digits taken in so far: the number they make, and the power of ten that is still to come. -/
structure Intake where
  /-- The number that the digits make. -/
  significand : Nat
  /-- The power of ten to multiply it with. -/
  exponent : Int
  /-- Whether a digit was too much for a word of 64 bits. -/
  full : Bool
deriving DecidableEq, Repr

/-- Takes in a digit before the point.  From the first digit that does not fit on, digits only
    count. -/
def Intake.whole (i : Intake) (c : Char) : Intake :=
  let more := 10 * i.significand + digitValue c
  if !i.full && more ≤ maxWord then { i with significand := more }
  else { i with exponent := i.exponent + 1, full := true }

/-- Takes in a digit after the point.  From the first digit that does not fit on, digits are
    dropped. -/
def Intake.fraction (i : Intake) (c : Char) : Intake :=
  let more := 10 * i.significand + digitValue c
  if !i.full && more ≤ maxWord then
    { i with significand := more, exponent := i.exponent - 1 }
  else { i with full := true }

/-- The greatest exponent that is read. -/
def maxExponent : Int := Int32.maxValue.toInt

/-- The float nearest to a power of ten. -/
def powerOfTen (n : Nat) : Float :=
  Float.ofScientific 1 false n

/-- A float times a power of ten, in steps of at most 308.  There is none beyond the greatest
    float. -/
def scaled? (x : Float) (exponent : Int) : Option Float :=
  if h : exponent.natAbs ≤ 308 then
    if 0 ≤ exponent then
      let y := x * powerOfTen exponent.natAbs
      if y.isInf then none else some y
    else some (x / powerOfTen exponent.natAbs)
  else if x == 0 then some x
  else if 0 ≤ exponent then none
  else scaled? (x / powerOfTen 308) (exponent + 308)
termination_by exponent.natAbs

/-- A float with a sign. -/
def signed (negative : Bool) (x : Float) : Float :=
  if negative then -x else x

/-- The sum of two exponents, kept within words of 32 bits. -/
def addExponent (x y : Int) : Int :=
  max (-maxExponent - 1) (min maxExponent (x + y))

/-- The float that some digits and an exponent stand for. -/
def assembled? (negative : Bool) (i : Intake) (exponent : Option Exponent) : Option Float :=
  let significand := Float.ofNat i.significand
  match exponent with
  | none => (scaled? significand i.exponent).map (signed negative)
  | some e =>
    let size : Int := value e.digits
    let isDown := e.sign == some '-'
    if maxExponent < size then
      if i.significand ≠ 0 ∧ !isDown then none else some (signed negative 0.0)
    else
      (scaled? significand (addExponent i.exponent (if isDown then -size else size))).map
        (signed negative)

/-- The whole number of a spelling without point and exponent, if it is a word of 64 bits, or a
    negative number of as many.  Negative zero is no whole number. -/
def int? (n : Numeral) : Option Int :=
  if n.fraction = [] ∧ n.exponent = none then
    let v := value n.whole
    if n.negative then
      if 0 < v ∧ v ≤ UInt64.size / 2 then some (-(v : Int)) else none
    else if v ≤ maxWord then some v else none
  else none

/-- The float of a spelling. -/
def float? (n : Numeral) : Option Float :=
  let whole := n.whole.foldl Intake.whole ⟨0, 0, false⟩
  if n.fraction = [] ∧ n.exponent = none ∧ whole.full = false then
    some (signed n.negative (Float.ofNat whole.significand))
  else
    let all := n.fraction.foldl Intake.fraction { whole with full := false }
    assembled? n.negative all n.exponent

end Numeral

/-- The number of a whole number. -/
def Value.ofInt (n : Int) : Value :=
  .number (.ofInt n)

/-- The number of a float; what is not finite is nothing. -/
def Value.ofFloat (x : Float) : Value :=
  match Numeral.ofFloat? x with
  | some n => .number n
  | none => .null

/-- The whole number of a value that lies between two bounds. -/
def Value.intWithin? (low high : Int) : Value → Option Int
  | .number n =>
    match n.int? with
    | some k => if low ≤ k ∧ k ≤ high then some k else none
    | none => none
  | _ => none

/-- The float of a number. -/
def Value.float? : Value → Option Float
  | .number n => n.float?
  | _ => none

end Dice.Json
