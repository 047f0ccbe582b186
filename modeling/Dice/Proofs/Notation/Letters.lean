import Dice.Proofs.Notation.Parts

namespace Dice

open Dice.Text

/-!
# Exchanging the letters

Notation has two letters, and a text in which they are exchanged is notation of the same dice with
the other letter.  What is not notation stays so, with its fault at the same place.

* `swapLetter`, `swapText` — a character and a text with the letters exchanged.
* `Pool.swap`, `Notation.Fault.swap` — what becomes of pools and of faults.
* `Notation.readParts_map_swapLetter` — the parts of the reader do not tell the letters apart.
* `Notation.readChars_map_swapLetter` — nor does the reader, with the fault it finds.
* `Pool.read_swapText_eq_ok`, `Pool.read_swapText_eq_error` — the same for whole texts.
-/

/-! ### The exchange -/

/-- A character, with the two letters exchanged. -/
def swapLetter (c : Char) : Char :=
  if c = 'd' then 'u' else if c = 'u' then 'd' else c

/-- A text with the two letters exchanged. -/
def swapText (text : String) : String :=
  String.ofList (text.toList.map swapLetter)

/-- The mode of the other letter. -/
def Mode.other : Mode → Mode
  | standard => unique
  | unique => standard

/-- The same dice, written with the other letter. -/
def Pool.swap (p : Pool) : Pool := { p with mode := p.mode.other }

/-- The same fault, with the letters exchanged where it was found. -/
def Notation.Fault.swap (f : Fault) : Fault := { f with found := f.found.map swapLetter }

/-- Exchanging the letters twice changes nothing. -/
@[simp] theorem swapLetter_swapLetter (c : Char) : swapLetter (swapLetter c) = c := by
  by_cases hd : c = 'd'
  · rw [hd]
    decide
  by_cases hu : c = 'u'
  · rw [hu]
    decide
  simp [swapLetter, hd, hu]

@[simp] theorem Mode.other_other (m : Mode) : m.other.other = m := by
  cases m <;> rfl

@[simp] theorem Pool.swap_swap (p : Pool) : p.swap.swap = p := by
  simp [swap]

@[simp] theorem Notation.Fault.swap_swap (f : Fault) : f.swap.swap = f := by
  obtain ⟨position, found, expected⟩ := f
  cases found <;> simp [swap]

@[simp] theorem toList_swapText (text : String) :
    (swapText text).toList = text.toList.map swapLetter := by
  simp [swapText]

/-- Only the letters are exchanged. -/
theorem swapLetter_eq_self {c : Char} (hd : c ≠ 'd') (hu : c ≠ 'u') : swapLetter c = c := by
  rw [swapLetter, if_neg hd, if_neg hu]

/-- A digit is none of the letters. -/
theorem swapLetter_eq_self_of_isDigit {c : Char} (h : c.isDigit = true) : swapLetter c = c := by
  apply swapLetter_eq_self
  · rintro rfl
    exact absurd h (by decide)
  · rintro rfl
    exact absurd h (by decide)

/-- Digits stay digits, and nothing else becomes one. -/
theorem isDigit_swapLetter (c : Char) : (swapLetter c).isDigit = c.isDigit := by
  by_cases h : c.isDigit = true
  · rw [swapLetter_eq_self_of_isDigit h]
  · -- A letter becomes the other one, and neither is a digit.
    unfold swapLetter
    split
    · simp_all
    · split
      · simp_all
      · rfl

/-- The letter exchanged is that of the other mode. -/
theorem Mode.ofLetter?_swapLetter (c : Char) :
    ofLetter? (swapLetter c) = (ofLetter? c).map other := by
  by_cases hd : c = 'd'
  · rw [hd]
    rfl
  by_cases hu : c = 'u'
  · rw [hu]
    rfl
  have hnone : ofLetter? c = none := by
    cases hm : ofLetter? c with
    | none => rfl
    | some m =>
      have hc := eq_letter_of_ofLetter? hm
      cases m
      · exact absurd hc hd
      · exact absurd hc hu
  rw [swapLetter_eq_self hd hu, hnone, Option.map_none]

namespace Notation

/-! ### Digits and places -/

/-- The digits at the start of a text stay. -/
@[simp] theorem digitRun_map_swapLetter (text : List Char) :
    digitRun (text.map swapLetter) = digitRun text := by
  induction text with
  | nil => rfl
  | cons c rest ih =>
    unfold digitRun at ih ⊢
    rw [List.map_cons, List.takeWhile_cons, List.takeWhile_cons, isDigit_swapLetter, ih]
    split
    · rename_i hdigit
      rw [swapLetter_eq_self_of_isDigit hdigit]
    · rfl

/-- What follows the digits has its letters exchanged. -/
@[simp] theorem afterRun_map_swapLetter (text : List Char) :
    afterRun (text.map swapLetter) = (afterRun text).map swapLetter := by
  unfold afterRun
  rw [List.dropWhile_map]
  congr 1
  exact congrArg (List.dropWhile · text) (funext isDigit_swapLetter)

/-- The same place in the text with the letters exchanged. -/
def Place.swap (p : Place) : Place := ⟨p.rest.map swapLetter⟩

/-- The same stop in the text with the letters exchanged. -/
def Stop.swap (s : Stop) : Stop := { s with rest := s.rest.map swapLetter }

namespace Place

@[simp] theorem digits_swap (p : Place) : p.swap.digits = p.digits :=
  digitRun_map_swapLetter p.rest

@[simp] theorem afterDigits_swap (p : Place) : p.swap.afterDigits = p.afterDigits.swap := by
  simp [afterDigits, swap]

@[simp] theorem next_swap (p : Place) : p.swap.next = p.next.swap := by
  simp [next, swap]

@[simp] theorem stop_swap (p : Place) (x : Expected) : p.swap.stop x = (p.stop x).swap := rfl

end Place

/-! ### The parts of the reader do not tell the letters apart -/

/-- What is read of a part after the exchange: what is left where reading stops has its letters
    exchanged, and a function says what becomes of anything else. -/
def swapParts {α : Type} (f : α → α) : Except Stop α → Except Stop α
  | .ok a => .ok (f a)
  | .error s => .error s.swap

/-- Two steps follow the exchange if each of them does. -/
theorem swapParts_bind {α β : Type} {f : α → α} {g : β → β} {x x' : Except Stop α}
    {k k' : α → Except Stop β} (hx : x' = swapParts f x)
    (hk : ∀ a, k' (f a) = swapParts g (k a)) : (x' >>= k') = swapParts g (x >>= k) := by
  rw [hx]
  cases x with
  | error s => rfl
  | ok a => exact hk a

/-- What a part of the reader gives: something, and a place. -/
def swapAt {α : Type} (f : α → α) (r : α × Place) : α × Place := (f r.1, r.2.swap)

variable (p : Place)

/-- Numbers are read alike. -/
theorem readNumber_swap (limit : Nat) :
    readNumber limit p.swap = swapParts id (readNumber limit p) := by
  unfold readNumber
  rw [p.digits_swap, p.stop_swap, p.stop_swap]
  split
  · rfl
  · split <;> rfl

/-- Positive numbers are read alike. -/
theorem readPositive_swap : readPositive p.swap = swapParts id (readPositive p) := by
  unfold readPositive
  refine swapParts_bind (readNumber_swap p maxCount) fun n => ?_
  rw [id_eq, p.stop_swap]
  split <;> rfl

/-- The number of dice is read alike. -/
theorem readCount_swap : readCount p.swap = swapParts (swapAt id) (readCount p) := by
  unfold readCount
  rw [p.digits_swap, p.afterDigits_swap]
  split
  · rfl
  · exact swapParts_bind (readPositive_swap p) fun _ => rfl

/-- The other letter is read. -/
theorem readMode_swap : readMode p.swap = swapParts (swapAt Mode.other) (readMode p) := by
  have hmode : p.swap.rest.head?.bind Mode.ofLetter? =
      (p.rest.head?.bind Mode.ofLetter?).map Mode.other := by
    rw [Place.swap, List.head?_map]
    cases p.rest.head? with
    | none => rfl
    | some c => exact Mode.ofLetter?_swapLetter c
  unfold readMode
  rw [hmode, p.next_swap, p.stop_swap]
  cases p.rest.head?.bind Mode.ofLetter? <;> rfl

/-- The number of faces is read alike. -/
theorem readFaces_swap : readFaces p.swap = swapParts (swapAt id) (readFaces p) := by
  unfold readFaces
  rw [p.afterDigits_swap]
  exact swapParts_bind (readPositive_swap p) fun _ => rfl

/-- Where no sign stands, a number without a sign is looked for. -/
theorem readOffset_unsigned (h : ∀ (s : Sign) (tail : List Char), p.rest ≠ s.char :: tail) :
    readOffset p =
      if p.digits = [] then .ok (0, p)
      else readNumber maxOffset p >>= fun n => .ok (Int32.ofNat n, p.afterDigits) := by
  unfold readOffset
  split
  · rename_i hrest
    exact absurd hrest (h .plus _)
  · rename_i hrest
    exact absurd hrest (h .minus _)
  · rfl

/-- A sign is none of the letters. -/
@[simp] theorem Sign.swapLetter_char (s : Sign) : swapLetter s.char = s.char := by
  cases s <;> decide

/-- A sign stands at a place if it stands there after the exchange. -/
theorem Place.rest_of_rest_swap {s : Sign} {tail : List Char} (h : p.swap.rest = s.char :: tail) :
    p.rest = s.char :: tail.map swapLetter := by
  have hback : p.rest = p.swap.rest.map swapLetter := by
    simp [Place.swap, List.map_map, Function.comp_def]
  rw [hback, h, List.map_cons, s.swapLetter_char]

/-- The offset is read alike, for no sign is a letter. -/
theorem readOffset_swap : readOffset p.swap = swapParts (swapAt id) (readOffset p) := by
  by_cases hsign : ∃ (s : Sign) (tail : List Char), p.rest = s.char :: tail
  · obtain ⟨s, tail, hrest⟩ := hsign
    have hswap : p.swap.rest = s.char :: tail.map swapLetter := by
      rw [Place.swap, hrest, List.map_cons, s.swapLetter_char]
    rw [readOffset_sign hrest, readOffset_sign hswap, p.next_swap, p.next.afterDigits_swap]
    exact swapParts_bind (readNumber_swap p.next maxOffset) fun _ => rfl
  · have hnone : ∀ (s : Sign) (tail : List Char), p.rest ≠ s.char :: tail := by simpa using hsign
    have hswap : ∀ (s : Sign) (tail : List Char), p.swap.rest ≠ s.char :: tail :=
      fun s tail h => hnone s _ (p.rest_of_rest_swap h)
    rw [readOffset_unsigned p hnone, readOffset_unsigned p.swap hswap, p.digits_swap,
      p.afterDigits_swap]
    split
    · rfl
    · exact swapParts_bind (readNumber_swap p maxOffset) fun _ => rfl

/-- All four parts are read in the same way after the exchange. -/
theorem readParts_map_swapLetter (text : List Char) :
    readParts (text.map swapLetter) = swapParts Pool.swap (readParts text) := by
  unfold readParts
  refine swapParts_bind (readCount_swap ⟨text⟩) fun ⟨count, p⟩ => ?_
  refine swapParts_bind (readMode_swap p) fun ⟨mode, q⟩ => ?_
  refine swapParts_bind (readFaces_swap q) fun ⟨faces, r⟩ => ?_
  refine swapParts_bind (readOffset_swap r) fun ⟨offset, e⟩ => ?_
  -- All four parts were found, and what is left is nothing on both sides or on neither.
  have hend : e.swap.rest = [] ↔ e.rest = [] := by simp [Place.swap]
  simp only [swapAt, hend, e.stop_swap]
  split <;> rfl

/-! ### Faults are found at the same place -/

/-- The two letters take up as many bytes. -/
@[simp] theorem utf8Size_swapLetter (c : Char) : (swapLetter c).utf8Size = c.utf8Size := by
  by_cases hd : c = 'd'
  · rw [hd]
    rfl
  by_cases hu : c = 'u'
  · rw [hu]
    rfl
  rw [swapLetter_eq_self hd hu]

/-- A text takes up as many bytes after the exchange. -/
@[simp] theorem byteSize_map_swapLetter (text : List Char) :
    byteSize (text.map swapLetter) = byteSize text := by
  induction text with
  | nil => rfl
  | cons c rest ih => rw [List.map_cons, byteSize, byteSize, utf8Size_swapLetter, ih]

/-- As many characters take up as many bytes after the exchange. -/
@[simp] theorem charsWithin?_map_swapLetter (bytes : Nat) (text : List Char) :
    charsWithin? bytes (text.map swapLetter) = charsWithin? bytes text := by
  induction text generalizing bytes with
  | nil => rfl
  | cons c rest ih =>
    cases bytes with
    | zero => rfl
    | succ bytes => rw [List.map_cons, charsWithin?, charsWithin?, utf8Size_swapLetter, ih]

/-- Counting the bytes finds the same place after the exchange. -/
theorem Fault.locate?_map_swapLetter (text rest : List Char) (x : Expected) :
    locate? (text.map swapLetter) (rest.map swapLetter) x = (locate? text rest x).map swap := by
  simp only [locate?, byteSize_map_swapLetter, charsWithin?_map_swapLetter, Option.map_map,
    List.head?_map]
  rfl

/-- The fault at which a reader stops is found at the same place, with the other letter if one
    stands there. -/
theorem Stop.fault_swap (text : List Char) (s : Stop) :
    s.swap.fault (text.map swapLetter) = (s.fault text).swap := by
  simp only [fault, swap, Fault.locate?_map_swapLetter]
  cases Fault.locate? text s.rest s.expected <;> rfl

/-- What is read after the exchange: faults have their characters exchanged, and a function says
    what becomes of anything else. -/
def swapRead {α : Type} (f : α → α) : Except Fault α → Except Fault α
  | .ok a => .ok (f a)
  | .error e => .error e.swap

/-- The reader does not tell the letters apart: it finds the same dice with the other letter, or the
    same fault. -/
theorem readChars_map_swapLetter (text : List Char) :
    readChars (text.map swapLetter) = swapRead Pool.swap (readChars text) := by
  rw [readChars, readChars, readParts_map_swapLetter]
  cases readParts text with
  | error s => exact congrArg Except.error (s.fault_swap text)
  | ok pool => rfl

end Notation

open Dice.Notation

/-- A text with the letters exchanged is read as the dice, or as the fault, with the letters
    exchanged. -/
theorem Pool.read_swapText (text : String) :
    Pool.read (swapText text) = swapRead Pool.swap (Pool.read text) := by
  unfold Pool.read
  rw [toList_swapText, readChars_map_swapLetter]

/-- A text is notation of dice if it is notation of the same dice with the other letter once the
    letters are exchanged. -/
theorem Pool.read_swapText_eq_ok {text : String} {p : Pool} :
    Pool.read (swapText text) = .ok p.swap ↔ Pool.read text = .ok p := by
  rw [Pool.read_swapText]
  cases Pool.read text with
  | error f => simp [swapRead]
  | ok q =>
    simp only [swapRead, Except.ok.injEq]
    exact ⟨fun h => by rw [← q.swap_swap, h, p.swap_swap], fun h => by rw [h]⟩

/-- A text has a fault if it has the same fault, but for the character found, once the letters are
    exchanged. -/
theorem Pool.read_swapText_eq_error {text : String} {f : Fault} :
    Pool.read (swapText text) = .error f.swap ↔ Pool.read text = .error f := by
  rw [Pool.read_swapText]
  cases Pool.read text with
  | ok q => simp [swapRead]
  | error g =>
    simp only [swapRead, Except.error.injEq]
    exact ⟨fun h => by rw [← g.swap_swap, h, f.swap_swap], fun h => by rw [h]⟩

end Dice
