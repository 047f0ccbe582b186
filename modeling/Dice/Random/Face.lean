namespace Dice.Random

/-!
# Faces from random words

A face of a fair die is taken from a word of 32 bits by multiplying the word with the number of
faces: the high half of the product counts the faces below.  Some faces would get one word more
than others; the words whose product has a low half under the threshold are the excess, and a new
word is drawn instead.

* `WordSource` — where words come from.
* `threshold`, `faceOf?` — the excess, and the face of a word.
* `drawFace`, `drawFaces` — drawing until a word gives a face, and doing so several times.
-/

/-- A state that words of 32 bits are drawn from. -/
class WordSource (S : Type) where
  /-- The next word and the state after it, unless there is none left. -/
  next? : S → Option (UInt32 × S)
  /-- After as many words the source has ended, or starts over. -/
  span : S → Nat

/-- A list of words is drawn from its head. -/
instance : WordSource (List UInt32) where
  next?
    | [] => none
    | word :: rest => some (word, rest)
  span words := words.length

/-- How many words are in excess of an equal number for each face. -/
def threshold (faces : UInt32) : Nat :=
  (UInt32.size - faces.toNat) % faces.toNat

/-- The face that a word gives, unless the word is in excess. -/
def faceOf? (faces word : UInt32) : Option UInt32 :=
  let product := word.toNat * faces.toNat
  if product % UInt32.size < threshold faces then none
  else some (UInt32.ofNat (1 + product / UInt32.size))

section Drawing

variable {S : Type} [WordSource S]

/-- Draws words, at most as many as are given, until one gives a face. -/
def drawWithin (faces : UInt32) : Nat → S → Option (UInt32 × S)
  | 0, _ => none
  | tries + 1, s =>
    match WordSource.next? s with
    | none => none
    | some (word, s) =>
      match faceOf? faces word with
      | some face => some (face, s)
      | none => drawWithin faces tries s

/-- Draws words until one gives a face.  There is no face if the source ends first, or starts over
    without having given one. -/
def drawFace (faces : UInt32) (s : S) : Option (UInt32 × S) :=
  drawWithin faces (WordSource.span s) s

/-- Draws some faces and puts them after the faces drawn before, which are listed from the last to
    the first. -/
def drawAfter (faces : UInt32) : Nat → List UInt32 → S → Option (List UInt32 × S)
  | 0, drawn, s => some (drawn.reverse, s)
  | count + 1, drawn, s =>
    match drawFace faces s with
    | none => none
    | some (face, s) => drawAfter faces count (face :: drawn) s

/-- Draws some faces, one after the other. -/
def drawFaces (faces : UInt32) (count : Nat) (s : S) : Option (List UInt32 × S) :=
  drawAfter faces count [] s

/-- Drawing after some faces gives these faces, and then those drawn from here on. -/
theorem drawAfter_eq (faces : UInt32) (count : Nat) (drawn : List UInt32) (s : S) :
    drawAfter faces count drawn s =
      (drawFaces faces count s).map fun r => (drawn.reverse ++ r.1, r.2) := by
  unfold drawFaces
  induction count generalizing drawn s with
  | zero => simp [drawAfter]
  | succ count ih =>
    simp only [drawAfter]
    cases drawFace faces s with
    | none => rfl
    | some r =>
      obtain ⟨face, s⟩ := r
      simp only
      rw [ih, ih [face]]
      simp [Option.map_map, Function.comp_def]

@[simp] theorem drawFaces_zero (faces : UInt32) (s : S) : drawFaces faces 0 s = some ([], s) := rfl

/-- The first face is drawn first, the others from the state after it. -/
theorem drawFaces_succ (faces : UInt32) (count : Nat) (s : S) :
    drawFaces faces (count + 1) s =
      (drawFace faces s).bind fun r =>
        (drawFaces faces count r.2).map fun rest => (r.1 :: rest.1, rest.2) := by
  show drawAfter faces (count + 1) [] s = _
  simp only [drawAfter]
  cases drawFace faces s with
  | none => rfl
  | some r =>
    simp only [Option.bind_some]
    rw [drawAfter_eq]
    simp

end Drawing

end Dice.Random
