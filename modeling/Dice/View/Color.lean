import Dice.Decimal.Rounding
import Dice.Text.Digest
import Dice.Text.Digits

namespace Dice.View

/-!
# Colors for labels

A label always has the same color, so that it is known again.  Its digest gives a hue, a strength
and a brightness; they are kept within bounds that read well on a terminal.

* `Color` — the parts of red, green and blue.
* `Color.ofHue` — a color from hue, strength and brightness.
* `labelColor` — the color of a label.
* `colored` — a text in a color.
-/

/-- Red, green and blue parts of a color. -/
structure Color where
  /-- The red part. -/
  red : UInt8
  /-- The green part. -/
  green : UInt8
  /-- The blue part. -/
  blue : UInt8
deriving DecidableEq, Repr

/-- A part of a color, given as a part of the whole. -/
def channel (v : Float) : UInt8 :=
  UInt8.ofNat (min (Decimal.wholeWord (v * 255.0)) 255)

/-- The remainder of a non-negative number by 2. -/
def remTwo (h : Float) : Float :=
  h - 2.0 * (h / 2.0).toUInt32.toFloat

/-- The color of a hue in degrees below 360, a strength and a brightness from 0 to 1. -/
def Color.ofHue (hue strength brightness : Float) : Color :=
  let chroma := (1.0 - (2.0 * brightness - 1.0).abs) * strength
  let h := hue / 60.0
  let x := chroma * (1.0 - (remTwo h - 1.0).abs)
  let (r, g, b) := match h.toUInt32 with
    | 0 => (chroma, x, 0.0)
    | 1 => (x, chroma, 0.0)
    | 2 => (0.0, chroma, x)
    | 3 => (0.0, x, chroma)
    | 4 => (x, 0.0, chroma)
    | _ => (chroma, 0.0, x)
  let base := brightness - chroma / 2.0
  ⟨channel (r + base), channel (g + base), channel (b + base)⟩

/-- The color of a label. -/
def labelColor (label : String) : Color :=
  let digest := Text.textDigest label
  let hue := (digest % 360).toFloat
  let strength := 0.5 + ((digest >>> 16) % 40).toFloat / 100.0
  let brightness := 0.45 + ((digest >>> 32) % 20).toFloat / 100.0
  Color.ofHue hue strength brightness

/-- The character that starts a control sequence of a terminal. -/
def escape : Char := '\x1b'

/-- The control sequence after which a terminal writes in a color. -/
def Color.start (c : Color) : String :=
  escape.toString ++ "[38;2;" ++ Text.natural c.red.toNat ++ ";" ++ Text.natural c.green.toNat ++
    ";" ++ Text.natural c.blue.toNat ++ "m"

/-- The control sequence after which a terminal writes as before. -/
def colorEnd : String :=
  escape.toString ++ "[0m"

/-- A text in a color. -/
def colored (c : Color) (text : String) : String :=
  c.start ++ text ++ colorEnd

example : Color.ofHue 0 1 0.5 = ⟨255, 0, 0⟩ ∧ Color.ofHue 120 1 0.5 = ⟨0, 255, 0⟩ ∧
    Color.ofHue 240 1 0.5 = ⟨0, 0, 255⟩ := by decide +kernel

end Dice.View
