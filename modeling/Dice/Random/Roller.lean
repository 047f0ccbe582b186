import Dice.Random.ChaCha
import Dice.Random.Face

namespace Dice.Random

/-!
# Rollers

A roller is a place in the stream of a key.  Its next word is the word at that place.

* `Roller` — the key and the place.
* `Roller.ofSeed` — the start of the stream whose key is spread out from a seed.
-/

/-- A place in the stream of a key. -/
structure Roller where
  /-- The key of the stream. -/
  key : Key
  /-- How many words have been drawn. -/
  position : Nat
deriving DecidableEq, Repr

namespace Roller

/-- The word at the roller's place, and the roller after it. -/
instance : WordSource Roller where
  next? r := some (streamWord r.key r.position, { r with position := r.position + 1 })
  span _ := streamPeriod

/-- The start of a key's stream. -/
def ofKey (key : Key) : Roller := ⟨key, 0⟩

/-- The key that 32 bytes make: each word has four of them, the lowest first.  Bytes that are not
    there count as zero. -/
def keyOfBytes (bytes : List UInt8) : Key :=
  Vector.ofFn fun i : Fin 8 =>
    (List.range 4).foldr (fun j word => word * 256 + (bytes.getD (4 * i + j) 0).toUInt32) 0

/-- The step of the generator that spreads a seed out. -/
def spread (state : UInt64) : UInt64 :=
  state * 6364136223846793005 + 11634580027462260723

/-- The word that a state of the spreading generator gives: its upper bits folded together and
    rotated right by its topmost five. -/
def spreadWord (state : UInt64) : UInt32 :=
  let folded := (((state >>> 18) ^^^ state) >>> 27).toUInt32
  let places := (state >>> 59).toUInt32
  (folded >>> places) ||| (folded <<< ((32 - places) % 32))

/-- The key of a seed: the words of the first eight states after it. -/
def keyOfSeed (seed : UInt64) : Key :=
  Vector.ofFn fun i : Fin 8 => spreadWord (Nat.repeat spread (i + 1) seed)

/-- The start of the stream of a seed. -/
def ofSeed (seed : UInt64) : Roller :=
  ofKey (keyOfSeed seed)

end Roller

end Dice.Random
