namespace Dice.Text

/-!
# A digest of a text

A word of 64 bits that stands for the UTF-8 bytes of a text.  Two words of state take in the bytes
in chunks of sixteen, and are folded into each other by long multiplication.

* `littleEndian` — bytes as a number.
* `foldedProduct` — the two halves of a long product, together.
* `bytesDigest`, `textDigest` — the digest of some bytes, and of a text.
-/

/-- The number that bytes stand for, the lowest first. -/
def littleEndian (bytes : List UInt8) : UInt64 :=
  UInt64.ofNat (bytes.foldr (fun b n => b.toNat + 256 * n) 0)

/-- The exclusive or of the two halves of the product of two words. -/
def foldedProduct (x y : UInt64) : UInt64 :=
  let product := x.toNat * y.toNat
  UInt64.ofNat product ^^^ UInt64.ofNat (product / UInt64.size)

/-- The state after all chunks of sixteen bytes that leave at least one byte. -/
def takeChunks (s t : UInt64) (bytes : List UInt8) : UInt64 × UInt64 :=
  if h : 16 < bytes.length then
    let low := littleEndian (bytes.take 8)
    let high := littleEndian ((bytes.drop 8).take 8)
    takeChunks t (foldedProduct (s ^^^ low) (0xa4093822299f31d0 ^^^ high)) (bytes.drop 16)
  else (s, t)
termination_by bytes.length

/-- The last bytes, as many as a number says. -/
def lastBytes (n : Nat) (bytes : List UInt8) : List UInt8 :=
  bytes.drop (bytes.length - n)

/-- What the first and the second word of the state take in at the end: the first and the last few
    bytes, or the last sixteen if there were chunks. -/
def ends (bytes : List UInt8) : UInt64 × UInt64 :=
  let n := bytes.length
  if n = 0 then (0, 0)
  else if n < 4 then
    (littleEndian (bytes.take 1),
      littleEndian ((bytes.drop (n / 2)).take 1 ++ bytes.drop (n - 1)))
  else if n < 8 then (littleEndian (bytes.take 4), littleEndian (lastBytes 4 bytes))
  else if n ≤ 16 then (littleEndian (bytes.take 8), littleEndian (lastBytes 8 bytes))
  else (littleEndian ((lastBytes 16 bytes).take 8), littleEndian (lastBytes 8 bytes))

/-- The digest of some bytes. -/
def bytesDigest (bytes : List UInt8) : UInt64 :=
  let (s, t) := takeChunks 0x243f6a8885a308d3 0x13198a2e03707344 bytes
  let (first, last) := ends bytes
  foldedProduct (s ^^^ first) (t ^^^ last) ^^^ UInt64.ofNat bytes.length

/-- The multiplier that spreads a digest over all bits. -/
def spreadFactor : UInt64 := 0xf1357aea2e62a9c5

/-- The digest of a text: that of its bytes and an end mark, with the well-mixed upper bits moved
    to the lower end. -/
def textDigest (text : String) : UInt64 :=
  let h := (bytesDigest text.toUTF8.toList * spreadFactor + 0xff) * spreadFactor
  (h <<< 26) ||| (h >>> 38)

end Dice.Text
