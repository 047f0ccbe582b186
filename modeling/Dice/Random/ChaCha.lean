namespace Dice.Random

/-!
# The ChaCha key stream

The stream of a key is the concatenation of blocks of 16 words.  A block is made from the key and
the number of the block by rounds of additions, rotations and exclusive ors.

* `quarterRound`, `doubleRound` — one step on four words, and on all words by columns and by
  diagonals.
* `initialBlock`, `streamBlock` — constants, key, block number and an empty nonce, and what the
  rounds make of them.
* `streamWord` — one word of the stream.
-/

/-- Sixteen words. -/
abbrev Block := Vector UInt32 16

/-- The eight words of a key. -/
abbrev Key := Vector UInt32 8

/-- A word with its bits moved left by some places, those moved out coming in at the right. -/
def rotateLeft (word places : UInt32) : UInt32 :=
  (word <<< places) ||| (word >>> (32 - places))

/-- Stirs four words of a block. -/
def quarterRound (v : Block) (a b c d : Fin 16) : Block :=
  let v := v.set a (v[a] + v[b])
  let v := v.set d (rotateLeft (v[d] ^^^ v[a]) 16)
  let v := v.set c (v[c] + v[d])
  let v := v.set b (rotateLeft (v[b] ^^^ v[c]) 12)
  let v := v.set a (v[a] + v[b])
  let v := v.set d (rotateLeft (v[d] ^^^ v[a]) 8)
  let v := v.set c (v[c] + v[d])
  v.set b (rotateLeft (v[b] ^^^ v[c]) 7)

/-- Stirs the four columns of a block, then its four diagonals. -/
def doubleRound (v : Block) : Block :=
  let v := quarterRound v 0 4 8 12
  let v := quarterRound v 1 5 9 13
  let v := quarterRound v 2 6 10 14
  let v := quarterRound v 3 7 11 15
  let v := quarterRound v 0 5 10 15
  let v := quarterRound v 1 6 11 12
  let v := quarterRound v 2 7 8 13
  quarterRound v 3 4 9 14

/-- The block that the rounds start from, given the low and the high word of its number. -/
def initialBlock (key : Key) (low high : UInt32) : Block :=
  #v[0x61707865, 0x3320646e, 0x79622d32, 0x6b206574,
     key[0], key[1], key[2], key[3], key[4], key[5], key[6], key[7],
     low, high, 0, 0]

/-- What twelve rounds make of a block: the block they end with added to the one they start from. -/
def stirred (start : Block) : Block :=
  Vector.zipWith (· + ·) (Nat.repeat doubleRound 6 start) start

/-- A block of the stream.  Blocks are numbered by 64 bits. -/
def streamBlock (key : Key) (number : Nat) : Block :=
  stirred (initialBlock key (UInt32.ofNat number) (UInt32.ofNat (number / UInt32.size)))

/-- How many words there are before the stream starts over. -/
def streamPeriod : Nat := 16 * UInt64.size

/-- A word of the stream. -/
def streamWord (key : Key) (position : Nat) : UInt32 :=
  (streamBlock key (position / 16)).get (Fin.ofNat 16 position)

/-- Whole turns of the block number change nothing. -/
theorem streamBlock_add (key : Key) (number turns : Nat) :
    streamBlock key (number + turns * UInt64.size) = streamBlock key number := by
  have hlow : UInt32.ofNat (number + turns * UInt64.size) = UInt32.ofNat number := by
    apply UInt32.toNat.inj
    simp only [UInt32.toNat_ofNat', UInt64.size]
    omega
  have hhigh : UInt32.ofNat ((number + turns * UInt64.size) / UInt32.size) =
      UInt32.ofNat (number / UInt32.size) := by
    apply UInt32.toNat.inj
    simp only [UInt32.toNat_ofNat', UInt32.size, UInt64.size]
    omega
  rw [streamBlock, hlow, hhigh, streamBlock]

/-- The stream starts over after its period. -/
theorem streamWord_add_period (key : Key) (position turns : Nat) :
    streamWord key (position + turns * streamPeriod) = streamWord key position := by
  have hdiv : (position + turns * streamPeriod) / 16 = position / 16 + turns * UInt64.size := by
    simp only [streamPeriod, UInt64.size]; omega
  have hmod : Fin.ofNat 16 (position + turns * streamPeriod) = Fin.ofNat 16 position := by
    apply Fin.ext
    simp only [Fin.ofNat, streamPeriod, UInt64.size]
    omega
  rw [streamWord, hdiv, streamBlock_add, hmod, streamWord]

end Dice.Random
