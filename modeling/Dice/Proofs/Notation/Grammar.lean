import Dice.Proofs.Notation.Parts

namespace Dice

namespace Notation

open Dice.Text

/-!
# The grammar of dice notation

A second description of the texts that are dice notation, which knows nothing of places and of the
order in which the parts are read: a text is cut into pieces, the pieces have a shape and a range,
and they denote a pool.

* `Pieces` — the number of dice, the letter, the number of faces, and the offset with its sign.
* `Pieces.Shaped`, `Pieces.InRange` — which pieces are written down, and which are small enough.
* `Pieces.Denotes` — the pool that pieces stand for.
* `Pieces.Shaped.chars_inj` — a text is cut in one way only.
* `Pool.read_eq_ok_iff_pieces` — the reader accepts exactly the texts of such pieces, as the pool
  they denote.
-/

/-! ### Pieces of a text -/

/-- The pieces that a text of dice notation is written from. -/
structure Pieces where
  /-- The digits of the number of dice; there are none where the number is left out. -/
  count : List Char
  /-- The letter. -/
  mode : Mode
  /-- The digits of the number of faces. -/
  faces : List Char
  /-- The sign and the digits of the offset, if there is one. -/
  offset : Option (Sign × List Char)

namespace Pieces

/-- An offset as it is written. -/
def offsetChars : Option (Sign × List Char) → List Char
  | none => []
  | some (sign, run) => sign.char :: run

/-- The text that pieces are written as. -/
def chars (p : Pieces) : List Char :=
  p.count ++ p.mode.letter :: (p.faces ++ offsetChars p.offset)

/-- Every number is a run of digits, and only the number of dice may be empty. -/
structure Shaped (p : Pieces) : Prop where
  count : IsRun p.count
  faces : IsRun p.faces
  faces_ne : p.faces ≠ []
  offset : ∀ o ∈ p.offset, IsRun o.2 ∧ o.2 ≠ []

/-- Dice and faces are numbered by the positive words of 32 bits, and the offset without its sign
    has 31 bits.  How many digits a number is written with does not matter. -/
structure InRange (p : Pieces) : Prop where
  count : p.count ≠ [] → 1 ≤ value p.count ∧ value p.count ≤ 2 ^ 32 - 1
  faces : 1 ≤ value p.faces ∧ value p.faces ≤ 2 ^ 32 - 1
  offset : ∀ o ∈ p.offset, value o.2 ≤ 2 ^ 31 - 1

/-- The number that an offset stands for. -/
def offsetValue : Option (Sign × List Char) → Int
  | none => 0
  | some (sign, run) => sign.signed (value run)

/-- The pool that pieces stand for. -/
structure Denotes (p : Pieces) (pool : Pool) : Prop where
  count : pool.count.toNat = if p.count = [] then 1 else value p.count
  mode : pool.mode = p.mode
  faces : pool.faces.toNat = value p.faces
  offset : pool.offset.toInt = offsetValue p.offset

/-- Pieces stand for one pool only. -/
theorem Denotes.unique {p : Pieces} {s t : Pool} (hs : p.Denotes s) (ht : p.Denotes t) : s = t := by
  obtain ⟨count, mode, faces, offset⟩ := s
  obtain ⟨count', mode', faces', offset'⟩ := t
  have hcount : count = count' := UInt32.toNat.inj (hs.count.trans ht.count.symm)
  have hmode : mode = mode' := hs.mode.trans ht.mode.symm
  have hfaces : faces = faces' := UInt32.toNat.inj (hs.faces.trans ht.faces.symm)
  have hoffset : offset = offset' := Int32.toInt.inj (hs.offset.trans ht.offset.symm)
  rw [hcount, hmode, hfaces, hoffset]

/-- No digits are left at an offset, since its sign comes first. -/
@[simp] theorem digitRun_offsetChars (o : Option (Sign × List Char)) :
    digitRun (offsetChars o) = [] := by
  cases o with
  | none => rfl
  | some o => exact o.1.digitRun_char_cons o.2

/-- Different offsets are written differently. -/
theorem offsetChars_injective : Function.Injective offsetChars := by
  intro o o' h
  match o, o' with
  | none, none => rfl
  | none, some _ => cases h
  | some _, none => cases h
  | some (sign, run), some (sign', run') =>
    obtain ⟨hsign, hrun⟩ := List.cons.inj h
    rw [Sign.char_injective hsign, hrun]

/-! Every run of digits in a text of pieces is a whole piece, as no other piece starts with one. -/

/-- The digits that a text starts with are those of the number of dice. -/
theorem Shaped.digitRun_chars {p : Pieces} (hs : p.Shaped) : digitRun p.chars = p.count :=
  digitRun_append hs.count (digitRun_letter_cons ..)

/-- The letter, the faces and the offset come after the digits of the dice. -/
theorem Shaped.afterRun_chars {p : Pieces} (hs : p.Shaped) :
    afterRun p.chars = p.mode.letter :: (p.faces ++ offsetChars p.offset) :=
  afterRun_append hs.count (digitRun_letter_cons ..)

/-- The digits after the letter are those of the number of faces. -/
theorem Shaped.digitRun_faces {p : Pieces} (hs : p.Shaped) :
    digitRun (p.faces ++ offsetChars p.offset) = p.faces :=
  digitRun_append hs.faces (digitRun_offsetChars _)

/-- The offset comes after the digits of the faces. -/
theorem Shaped.afterRun_faces {p : Pieces} (hs : p.Shaped) :
    afterRun (p.faces ++ offsetChars p.offset) = offsetChars p.offset :=
  afterRun_append hs.faces (digitRun_offsetChars _)

/-- A text is cut into pieces in one way only. -/
theorem Shaped.chars_inj {p q : Pieces} (hp : p.Shaped) (hq : q.Shaped)
    (h : p.chars = q.chars) : p = q := by
  -- From the left: each run ends where the next piece starts, since no piece starts with a digit.
  have hcount : p.count = q.count := by
    rw [← hp.digitRun_chars, h, hq.digitRun_chars]
  have hafter := congrArg afterRun h
  rw [hp.afterRun_chars, hq.afterRun_chars] at hafter
  obtain ⟨hletter, hrest⟩ := List.cons.inj hafter
  have hmode : p.mode = q.mode :=
    Option.some.inj (by rw [← Mode.ofLetter?_letter p.mode, hletter, Mode.ofLetter?_letter])
  have hfaces : p.faces = q.faces := by
    rw [← hp.digitRun_faces, hrest, hq.digitRun_faces]
  have hoffset : p.offset = q.offset := by
    apply offsetChars_injective
    rw [← hp.afterRun_faces, hrest, hq.afterRun_faces]
  cases p
  cases q
  simp only [Pieces.mk.injEq]
  exact ⟨hcount, hmode, hfaces, hoffset⟩

end Pieces

/-! ### The reader accepts the grammar -/

/-- If the reader ends a text with an offset, that is a sign and a number that is not too great, or
    nothing. -/
theorem exists_offset_of_readOffset {n : Int32} {p q : Place} (hd : p.digits = [])
    (h : readOffset p = .ok (n, q)) (hend : q.rest = []) :
    ∃ o, p.rest = Pieces.offsetChars o ∧ (∀ r ∈ o, IsRun r.2 ∧ r.2 ≠ []) ∧
      (∀ r ∈ o, value r.2 ≤ 2 ^ 31 - 1) ∧ n.toInt = Pieces.offsetValue o := by
  by_cases hsign : ∃ (s : Sign) (tail : List Char), p.rest = s.char :: tail
  · obtain ⟨s, tail, hrest⟩ := hsign
    rw [readOffset_sign hrest, bind_eq_ok] at h
    obtain ⟨k, hk, h⟩ := h
    cases h
    obtain ⟨hne, hle, rfl⟩ := readNumber_eq_ok.mp hk
    -- Nothing is left after the digits, so all that follows the sign is digits.
    have htail : p.next.digits = tail := by
      have hrun := digitRun_append_afterRun p.next.rest
      rw [show afterRun p.next.rest = [] from hend, List.append_nil] at hrun
      rw [Place.digits, hrun, Place.next, hrest, List.tail_cons]
    have hrun : IsRun tail := htail ▸ isRun_digitRun p.next.rest
    rw [htail] at hne hle ⊢
    refine ⟨some (s, tail), hrest, ?_, ?_, s.toInt_word hle⟩
    · rintro r ⟨⟩
      exact ⟨hrun, hne⟩
    · rintro r ⟨⟩
      exact hle
  · -- No digits are left either, so the reader has found no offset and stayed where it was.
    rw [readOffset_none hd (by simpa using hsign)] at h
    cases h
    exact ⟨none, hend, by simp, by simp, rfl⟩

/-- A sign with a number that is not too great is read as an offset up to the end of the text. -/
theorem readOffset_of_run {n : Int32} {p : Place} {s : Sign} {run : List Char}
    (hrest : p.rest = s.char :: run) (hrun : IsRun run) (hne : run ≠ [])
    (hle : value run ≤ 2 ^ 31 - 1) (hn : n.toInt = s.signed (value run)) :
    ∃ q, readOffset p = .ok (n, q) ∧ q.rest = [] := by
  have hnext : p.next.rest = run := by rw [Place.next, hrest, List.tail_cons]
  have hdigits : p.next.digits = run := by rw [Place.digits, hnext, hrun.digitRun_eq]
  have hafter : p.next.afterDigits.rest = [] := by rw [Place.afterDigits, hnext, hrun.afterRun_eq]
  have hnumber : readNumber maxOffset p.next = .ok (value run) := by
    rw [readNumber_eq_ok, hdigits]
    exact ⟨hne, hle, rfl⟩
  have hword : n = s.word (value run) := Int32.toInt.inj (hn.trans (s.toInt_word hle).symm)
  refine ⟨p.next.afterDigits, ?_, hafter⟩
  rw [readOffset_sign hrest, bind_eq_ok, hword]
  exact ⟨value run, hnumber, rfl⟩

/-- Where no digits are left, the text ends with an offset exactly if that is a sign and a number
    that is not too great, or nothing. -/
theorem readOffset_eq_ok {n : Int32} {p : Place} (hd : p.digits = []) :
    (∃ q, readOffset p = .ok (n, q) ∧ q.rest = []) ↔
      ∃ o, p.rest = Pieces.offsetChars o ∧ (∀ r ∈ o, IsRun r.2 ∧ r.2 ≠ []) ∧
        (∀ r ∈ o, value r.2 ≤ 2 ^ 31 - 1) ∧ n.toInt = Pieces.offsetValue o := by
  constructor
  · rintro ⟨q, hq, hend⟩
    exact exists_offset_of_readOffset hd hq hend
  · rintro ⟨o, hrest, hshape, hrange, hn⟩
    cases o with
    | none =>
      have hzero : n = 0 := Int32.toInt.inj hn
      rw [hzero]
      exact ⟨p, readOffset_none hd (by simp [hrest, Pieces.offsetChars]), hrest⟩
    | some r =>
      obtain ⟨hrun, hne⟩ := hshape r rfl
      exact readOffset_of_run hrest hrun hne (hrange r rfl) hn

/-- An accepted text is cut where its parts were read. -/
theorem exists_pieces_of_readChars {text : List Char} {pool : Pool}
    (h : readChars text = .ok pool) :
    ∃ p : Pieces, (p.Shaped ∧ p.InRange) ∧ p.chars = text ∧ p.Denotes pool := by
  obtain ⟨p, q, r, hcount, hmode, hfaces, hend⟩ := readChars_eq_ok.mp h
  obtain ⟨rfl, hcount, hcount'⟩ := readCount_eq_ok.mp hcount
  obtain ⟨hletter, rfl⟩ := readMode_eq_ok.mp hmode
  obtain ⟨rfl, hne, hfaces, hfaces'⟩ := readFaces_eq_ok.mp hfaces
  obtain ⟨o, hrest, hshape, hrange, hoffset⟩ :=
    (readOffset_eq_ok (Place.digits_afterDigits _)).mp hend
  -- The rest of the text after each part, in terms of the part after it.
  have hafter : afterRun text = pool.mode.letter :: (afterRun text).tail :=
    List.eq_cons_of_mem_head? hletter
  have htail : (afterRun text).tail = digitRun (afterRun text).tail ++ Pieces.offsetChars o := by
    rw [← hrest]
    exact (digitRun_append_afterRun _).symm
  refine ⟨⟨digitRun text, pool.mode, digitRun (afterRun text).tail, o⟩, ⟨?_, ?_⟩, ?_, ?_⟩
  · exact ⟨isRun_digitRun _, isRun_digitRun _, hne, hshape⟩
  · exact ⟨hcount, hfaces, hrange⟩
  · rw [Pieces.chars, ← htail, ← hafter, digitRun_append_afterRun]
  · exact ⟨hcount', rfl, hfaces', hoffset⟩

/-- The text of pieces that have the right shape and range is accepted. -/
theorem readChars_chars {p : Pieces} {pool : Pool} (hs : p.Shaped) (hr : p.InRange)
    (hd : p.Denotes pool) : readChars p.chars = .ok pool := by
  have htail : (afterRun p.chars).tail = p.faces ++ Pieces.offsetChars p.offset := by
    rw [hs.afterRun_chars, List.tail_cons]
  have hcount : digitRun p.chars = p.count := hs.digitRun_chars
  have hfaces : digitRun (afterRun p.chars).tail = p.faces := by rw [htail, hs.digitRun_faces]
  have hrest : afterRun (afterRun p.chars).tail = Pieces.offsetChars p.offset := by
    rw [htail, hs.afterRun_faces]
  refine readChars_eq_ok.mpr ⟨_, _, _, readCount_eq_ok.mpr ⟨rfl, ?_, ?_⟩,
    readMode_eq_ok.mpr ⟨?_, rfl⟩, readFaces_eq_ok.mpr ⟨rfl, ?_, ?_, ?_⟩,
    (readOffset_eq_ok (Place.digits_afterDigits _)).mpr
      ⟨p.offset, hrest, hs.offset, hr.offset, hd.offset⟩⟩
  · show digitRun p.chars ≠ [] →
      1 ≤ value (digitRun p.chars) ∧ value (digitRun p.chars) ≤ 2 ^ 32 - 1
    rw [hcount]
    exact hr.count
  · show _ = if digitRun p.chars = [] then 1 else value (digitRun p.chars)
    rw [hcount]
    exact hd.count
  · show (afterRun p.chars).head? = _
    rw [hs.afterRun_chars, hd.mode, List.head?_cons]
  · show digitRun (afterRun p.chars).tail ≠ []
    rw [hfaces]
    exact hs.faces_ne
  · show 1 ≤ value (digitRun (afterRun p.chars).tail) ∧
      value (digitRun (afterRun p.chars).tail) ≤ 2 ^ 32 - 1
    rw [hfaces]
    exact hr.faces
  · show _ = value (digitRun (afterRun p.chars).tail)
    rw [hfaces]
    exact hd.faces

/-- A pool that is read has dice, and its dice have faces. -/
theorem positive_of_readChars {text : List Char} {pool : Pool} (h : readChars text = .ok pool) :
    1 ≤ pool.count.toNat ∧ 1 ≤ pool.faces.toNat := by
  obtain ⟨p, ⟨-, hrange⟩, -, hd⟩ := exists_pieces_of_readChars h
  refine ⟨?_, hd.faces ▸ hrange.faces.1⟩
  rw [hd.count]
  split
  · -- A number of dice that is left out is one.
    exact Nat.le_refl 1
  · rename_i hcount
    exact (hrange.count hcount).1

/-- Digits after the faces belong to the faces, whatever the pieces before them say. -/
theorem Pieces.denotes_of_digits_after {p : Pieces} {run : List Char} {pool : Pool} (hp : p.Shaped)
    (hnone : p.offset = none) (hrun : IsRun run) (h : readChars (p.chars ++ run) = .ok pool) :
    pool.faces.toNat = value (p.faces ++ run) ∧ pool.offset = 0 := by
  obtain ⟨q, ⟨hq, -⟩, hchars, hd⟩ := exists_pieces_of_readChars h
  -- The same text is also cut with the digits moved to the faces, and there is one cut only.
  have hmore : Shaped { p with faces := p.faces ++ run } :=
    ⟨hp.count, hp.faces.append hrun, by simp [hp.faces_ne], hp.offset⟩
  have hsame : q.chars = chars { p with faces := p.faces ++ run } := by
    rw [hchars, chars, chars, hnone]
    simp [offsetChars]
  obtain rfl := hq.chars_inj hmore hsame
  refine ⟨hd.faces, Int32.toInt.inj ?_⟩
  rw [hd.offset, hnone]
  rfl

end Notation

namespace Pool

open Dice.Notation Dice.Text

/-- The texts read as pools are exactly those cut into well-shaped pieces in range, and the pool is
    the one that the pieces denote.  There is one such cut only: digits after the number of faces
    are more digits of it, and never an offset without a sign. -/
theorem read_eq_ok_iff_pieces (t : String) (s : Pool) :
    (Pool.read t = .ok s ↔
      ∃ p : Pieces, (p.Shaped ∧ p.InRange) ∧ p.chars = t.toList ∧ p.Denotes s) ∧
    (∀ p q : Pieces, p.Shaped → q.Shaped → p.chars = t.toList → q.chars = t.toList → p = q) ∧
    (∀ (p : Pieces) (run : List Char), p.Shaped → p.offset = none → IsRun run →
      p.chars ++ run = t.toList → Pool.read t = .ok s →
        s.faces.toNat = value (p.faces ++ run) ∧ s.offset = 0) := by
  refine ⟨⟨exists_pieces_of_readChars, ?_⟩, ?_, ?_⟩
  · rintro ⟨p, ⟨hshaped, hrange⟩, hchars, hd⟩
    rw [Pool.read, ← hchars]
    exact readChars_chars hshaped hrange hd
  · intro p q hp hq hchars hchars'
    exact hp.chars_inj hq (hchars.trans hchars'.symm)
  · intro p run hp hnone hrun hchars hread
    rw [Pool.read, ← hchars] at hread
    exact Pieces.denotes_of_digits_after hp hnone hrun hread

end Pool

end Dice
