import Dice.Proofs.Notation.Refusals

namespace Dice.Notation

open Dice.Text

/-!
# Reading from cut to cut

While a text is read, it is cut in two: what has been read, and the rest.  Where it can be cut is
described here apart from the reader, and the reader is shown to go from cut to cut, until the rest
is refused or nothing is left.

* `Cut` — the text before a part of dice notation, and the text from it on.
* `Cut.exchange` — a cut stays where it is when another text follows it.
* `Fault.locate?_append` — counting the bytes of the rest finds the cut.
* `Reached` — the places of the reader are cuts.
* `readParts_eq_error`, `readChars_eq_error` — the faults are exactly the cuts with a rest that is
  refused.
* `exists_pool_of_cut` — a text is accepted if nothing is left at a cut where it may end.
-/

/-! ### Cuts of a text -/

/-- Letters, signs and the end of a text come after the last of some digits. -/
def Part.FollowsRun : Part → Prop
  | .letter | .sign | .ending => True
  | .count | .faces | .offset => False

/-- The text is cut in two where a part may come next: before the cut are the parts up to it, each
    of them as it has to be. -/
inductive Cut (text : List Char) : Part → List Char → List Char → Prop where
  | start : Cut text .count [] text
  | count {before rest : List Char} (h : Cut text .count before rest)
      (hrange : digitRun rest ≠ [] →
        1 ≤ value (digitRun rest) ∧ value (digitRun rest) ≤ 2 ^ 32 - 1) :
      Cut text .letter (before ++ digitRun rest) (afterRun rest)
  | letter {before rest : List Char} {m : Mode} (h : Cut text .letter before (m.letter :: rest)) :
      Cut text .faces (before ++ [m.letter]) rest
  | faces {before rest : List Char} (h : Cut text .faces before rest) (hsome : digitRun rest ≠ [])
      (hrange : 1 ≤ value (digitRun rest) ∧ value (digitRun rest) ≤ 2 ^ 32 - 1) :
      Cut text .sign (before ++ digitRun rest) (afterRun rest)
  | sign {before rest : List Char} {s : Sign} (h : Cut text .sign before (s.char :: rest)) :
      Cut text .offset (before ++ [s.char]) rest
  | offset {before rest : List Char} (h : Cut text .offset before rest) (hsome : digitRun rest ≠ [])
      (hrange : value (digitRun rest) ≤ 2 ^ 31 - 1) :
      Cut text .ending (before ++ digitRun rest) (afterRun rest)

namespace Cut

variable {text before rest : List Char} {part : Part}

/-- Both sides of a cut make up the text. -/
theorem append_eq (h : Cut text part before rest) : before ++ rest = text := by
  induction h with
  | start => rfl
  | count _ _ ih | faces _ _ _ ih | offset _ _ _ ih =>
    rw [List.append_assoc, digitRun_append_afterRun, ih]
  | letter _ ih | sign _ ih => rw [List.append_assoc, List.singleton_append, ih]

/-- No digits are left at a cut that comes after digits. -/
theorem digitRun_rest (h : Cut text part before rest) (hpart : part.FollowsRun) :
    digitRun rest = [] := by
  cases h with
  | start | letter | sign => exact hpart.elim
  | count | faces | offset => exact digitRun_afterRun _

/-- The digits that a text starts with end there if no digit follows. -/
theorem split_digits (rest : List Char) {other : List Char} (hother : digitRun other = []) :
    digitRun (digitRun rest ++ other) = digitRun rest ∧ afterRun (digitRun rest ++ other) = other :=
  ⟨digitRun_append (isRun_digitRun rest) hother, afterRun_append (isRun_digitRun rest) hother⟩

/-- Where a text is cut does not depend on what follows, unless that adds to the digits before the
    cut. -/
theorem exchange (h : Cut text part before rest) (other : List Char)
    (hother : part.FollowsRun → digitRun other = []) :
    Cut (before ++ other) part before other := by
  induction h generalizing other with
  | start => exact .start
  | @count before rest h hrange ih =>
    have hcut := ih (digitRun rest ++ other) False.elim
    obtain ⟨hdigits, hafter⟩ := split_digits rest (hother trivial)
    have hnext := hcut.count (hdigits.symm ▸ hrange)
    rwa [hdigits, hafter, ← List.append_assoc] at hnext
  | @letter before rest m h ih =>
    have hcut := ih (m.letter :: other) fun _ => digitRun_letter_cons m other
    rw [List.append_cons] at hcut
    exact hcut.letter
  | @faces before rest h hsome hrange ih =>
    have hcut := ih (digitRun rest ++ other) False.elim
    obtain ⟨hdigits, hafter⟩ := split_digits rest (hother trivial)
    have hnext := hcut.faces (hdigits.symm ▸ hsome) (hdigits.symm ▸ hrange)
    rwa [hdigits, hafter, ← List.append_assoc] at hnext
  | @sign before rest s h ih =>
    have hcut := ih (s.char :: other) fun _ => s.digitRun_char_cons other
    rw [List.append_cons] at hcut
    exact hcut.sign
  | @offset before rest h hsome hrange ih =>
    have hcut := ih (digitRun rest ++ other) False.elim
    obtain ⟨hdigits, hafter⟩ := split_digits rest (hother trivial)
    have hnext := hcut.offset (hdigits.symm ▸ hsome) (hdigits.symm ▸ hrange)
    rwa [hdigits, hafter, ← List.append_assoc] at hnext

end Cut

/-! ### Counting bytes -/

/-- The bytes of two texts add up. -/
theorem byteSize_append (before rest : List Char) :
    byteSize (before ++ rest) = byteSize before + byteSize rest := by
  induction before with
  | nil => rw [List.nil_append, byteSize, Nat.zero_add]
  | cons c before ih => rw [List.cons_append, byteSize, byteSize, ih, Nat.add_assoc]

/-- As many bytes as some characters have are taken up by these characters. -/
theorem charsWithin?_append (before rest : List Char) :
    charsWithin? (byteSize before) (before ++ rest) = some before.length := by
  induction before with
  | nil => rw [byteSize, charsWithin?, List.length_nil]
  | cons c before ih =>
    -- Every character has a byte, so there still is a byte to go.
    obtain ⟨k, hk⟩ : ∃ k, byteSize (c :: before) = k + 1 :=
      Nat.exists_eq_add_one.mpr (Nat.add_pos_left c.utf8Size_pos _)
    have hsize : k + 1 = c.utf8Size + byteSize before := hk.symm
    have hleft : k + 1 - c.utf8Size = byteSize before := by rw [hsize, Nat.add_sub_cancel_left]
    rw [hk, List.cons_append, charsWithin?, if_pos (by omega), hleft, ih, Option.map_some,
      List.length_cons]

/-- Counting the bytes of a rest finds the place after the characters before it. -/
theorem Fault.locate?_append (before rest : List Char) (x : Expected) :
    Fault.locate? (before ++ rest) rest x = some ⟨before.length, rest.head?, x⟩ := by
  rw [locate?, byteSize_append, Nat.add_sub_cancel, charsWithin?_append, Option.map_some]

/-- What is left at a cut is found again as the place of the cut. -/
theorem Cut.locate?_eq {text before rest : List Char} {part : Part}
    (h : Cut text part before rest) (x : Expected) :
    Fault.locate? text rest x = some ⟨before.length, rest.head?, x⟩ := by
  rw [← h.append_eq, Fault.locate?_append]

/-! ### The reader goes from cut to cut -/

/-- The reader is at a cut of the text where a part may come next. -/
def Reached (text : List Char) (part : Part) (p : Place) : Prop :=
  ∃ before, Cut text part before p.rest

section Reading

variable {text : List Char} {p q : Place}

/-- No digits are left where the reader has read some. -/
theorem Reached.digits_eq_nil {part : Part} (h : Reached text part p) (hpart : part.FollowsRun) :
    p.digits = [] := by
  obtain ⟨before, hcut⟩ := h
  exact hcut.digitRun_rest hpart

/-- Numbers of 32 bits are words. -/
theorem exists_word {n : Nat} (h : n ≤ 2 ^ 32 - 1) : ∃ word : UInt32, word.toNat = n :=
  ⟨UInt32.ofNat n, UInt32.toNat_ofNat_of_lt' (by simp only [UInt32.size]; omega)⟩

/-- The number of dice is read up to the letter. -/
theorem reached_letter : Reached text .letter q ↔ ∃ n, readCount ⟨text⟩ = .ok (n, q) := by
  constructor
  · rintro ⟨before, hcut⟩
    obtain ⟨rest⟩ := q
    cases hcut with
    | @count before rest hcut hrange =>
      cases hcut
      have hword : (if digitRun text = [] then 1 else value (digitRun text)) ≤ 2 ^ 32 - 1 := by
        split
        · decide
        · rename_i hsome
          exact (hrange hsome).2
      obtain ⟨n, hn⟩ := exists_word hword
      exact ⟨n, readCount_eq_ok.mpr ⟨rfl, hrange, hn⟩⟩
  · rintro ⟨n, h⟩
    obtain ⟨rfl, hrange, -⟩ := readCount_eq_ok.mp h
    exact ⟨_, .count .start hrange⟩

/-- The letter is read up to the faces. -/
theorem reached_faces :
    Reached text .faces q ↔ ∃ p m, Reached text .letter p ∧ readMode p = .ok (m, q) := by
  constructor
  · rintro ⟨before, hcut⟩
    obtain ⟨rest⟩ := q
    cases hcut with
    | @letter before rest m hcut =>
      exact ⟨⟨m.letter :: rest⟩, m, ⟨before, hcut⟩, readMode_eq_ok.mpr ⟨rfl, rfl⟩⟩
  · rintro ⟨p, m, ⟨before, hcut⟩, h⟩
    obtain ⟨hletter, rfl⟩ := readMode_eq_ok.mp h
    rw [List.eq_cons_of_mem_head? hletter] at hcut
    exact ⟨before ++ [m.letter], hcut.letter⟩

/-- The faces are read up to where a sign may come. -/
theorem reached_sign :
    Reached text .sign q ↔ ∃ p n, Reached text .faces p ∧ readFaces p = .ok (n, q) := by
  constructor
  · rintro ⟨before, hcut⟩
    obtain ⟨rest⟩ := q
    cases hcut with
    | @faces before rest hcut hsome hrange =>
      obtain ⟨n, hn⟩ := exists_word hrange.2
      exact ⟨⟨rest⟩, n, ⟨before, hcut⟩, readFaces_eq_ok.mpr ⟨rfl, hsome, hrange, hn⟩⟩
  · rintro ⟨p, n, ⟨before, hcut⟩, h⟩
    obtain ⟨rfl, hsome, hrange, -⟩ := readFaces_eq_ok.mp h
    exact ⟨_, hcut.faces hsome hrange⟩

/-- The number of an offset comes after a sign. -/
theorem reached_offset :
    Reached text .offset q ↔
      ∃ p, Reached text .sign p ∧ q = p.next ∧
        ∃ (s : Sign) (tail : List Char), p.rest = s.char :: tail := by
  constructor
  · rintro ⟨before, hcut⟩
    obtain ⟨rest⟩ := q
    cases hcut with
    | @sign before rest s hcut => exact ⟨⟨s.char :: rest⟩, ⟨before, hcut⟩, rfl, s, rest, rfl⟩
  · rintro ⟨p, ⟨before, hcut⟩, rfl, s, tail, hrest⟩
    rw [hrest] at hcut
    refine ⟨before ++ [s.char], ?_⟩
    rw [Place.next, hrest]
    exact hcut.sign

/-- The number of an offset is read up to where the text has to end. -/
theorem reached_ending :
    Reached text .ending q ↔
      ∃ p n, Reached text .offset p ∧ readNumber maxOffset p = .ok n ∧ q = p.afterDigits := by
  constructor
  · rintro ⟨before, hcut⟩
    obtain ⟨rest⟩ := q
    cases hcut with
    | @offset before rest hcut hsome hrange =>
      exact ⟨⟨rest⟩, _, ⟨before, hcut⟩, readNumber_eq_ok.mpr ⟨hsome, hrange, rfl⟩, rfl⟩
  · rintro ⟨p, n, ⟨before, hcut⟩, h, rfl⟩
    obtain ⟨hsome, hrange, -⟩ := readNumber_eq_ok.mp h
    exact ⟨_, hcut.offset hsome hrange⟩

/-- All four parts have been read at the end of an offset, and where a sign could come but does
    not. -/
theorem exists_readOffset :
    (∃ r offset, Reached text .sign r ∧ readOffset r = .ok (offset, q)) ↔
      Reached text .ending q ∨
        (Reached text .sign q ∧ ∀ s : Sign, q.rest.head? ≠ some s.char) := by
  constructor
  · rintro ⟨r, offset, hr, hoffset⟩
    by_cases hsign : ∃ (s : Sign) (tail : List Char), r.rest = s.char :: tail
    · obtain ⟨s, tail, hrest⟩ := hsign
      rw [readOffset_sign hrest] at hoffset
      obtain ⟨n, hn, h⟩ := bind_eq_ok.mp hoffset
      cases h
      have hnext : Reached text .offset r.next := reached_offset.mpr ⟨r, hr, rfl, s, tail, hrest⟩
      exact .inl (reached_ending.mpr ⟨r.next, n, hnext, hn, rfl⟩)
    · rw [readOffset_none (hr.digits_eq_nil trivial) (by simpa using hsign)] at hoffset
      cases hoffset
      exact .inr ⟨hr, fun s hs => hsign ⟨s, _, List.eq_cons_of_mem_head? hs⟩⟩
  · rintro (h | ⟨h, hno⟩)
    · obtain ⟨p, n, hp, hn, rfl⟩ := reached_ending.mp h
      obtain ⟨r, hr, rfl, s, tail, hrest⟩ := reached_offset.mp hp
      refine ⟨r, s.word n, hr, ?_⟩
      rw [readOffset_sign hrest]
      exact bind_eq_ok.mpr ⟨n, hn, rfl⟩
    · have hnone : ∀ (s : Sign) (tail : List Char), q.rest ≠ s.char :: tail := by
        intro s tail hrest
        exact hno s (by rw [hrest, List.head?_cons])
      exact ⟨q, 0, h, readOffset_none (h.digits_eq_nil trivial) hnone⟩

/-- The parts before a sign have been read one after the other. -/
theorem exists_parts (h : Reached text .sign p) :
    ∃ count r mode q faces, readCount ⟨text⟩ = .ok (count, r) ∧
      readMode r = .ok (mode, q) ∧ readFaces q = .ok (faces, p) := by
  obtain ⟨q, faces, hq, hfaces⟩ := reached_sign.mp h
  obtain ⟨r, mode, hr, hmode⟩ := reached_faces.mp hq
  obtain ⟨count, hcount⟩ := reached_letter.mp hr
  exact ⟨count, r, mode, q, faces, hcount, hmode, hfaces⟩

/-- Once all four parts have been read, only what is left of the text decides. -/
theorem readParts_of_readOffset {offset : Int32} (h : Reached text .sign p)
    (hoffset : readOffset p = .ok (offset, q)) :
    ∃ pool, readParts text = if q.rest = [] then .ok pool else .error (q.stop .ending) := by
  obtain ⟨count, r, mode, t, faces, hcount, hmode, hfaces⟩ := exists_parts h
  refine ⟨⟨count, mode, faces, offset⟩, ?_⟩
  simp only [readParts, hcount, hmode, hfaces, hoffset, bind, Except.bind]

/-- The reader fails only at a cut where the rest is refused. -/
theorem exists_refused_of_readParts {e : Stop} (h : readParts text = .error e) :
    ∃ part p x, Reached text part p ∧ Refuses p.rest part x ∧ e = p.stop x := by
  unfold readParts at h
  rcases bind_eq_error.mp h with hcount | ⟨⟨count, p⟩, hcount, h⟩
  · obtain ⟨x, hx, he⟩ := readCount_eq_error.mp hcount
    exact ⟨.count, ⟨text⟩, x, ⟨[], .start⟩, hx, he⟩
  have hp : Reached text .letter p := reached_letter.mpr ⟨count, hcount⟩
  rcases bind_eq_error.mp h with hmode | ⟨⟨mode, q⟩, hmode, h⟩
  · obtain ⟨x, hx, he⟩ := readMode_eq_error.mp hmode
    exact ⟨.letter, p, x, hp, hx, he⟩
  have hq : Reached text .faces q := reached_faces.mpr ⟨p, mode, hp, hmode⟩
  rcases bind_eq_error.mp h with hfaces | ⟨⟨faces, r⟩, hfaces, h⟩
  · obtain ⟨x, hx, he⟩ := readFaces_eq_error.mp hfaces
    exact ⟨.faces, q, x, hq, hx, he⟩
  have hr : Reached text .sign r := reached_sign.mpr ⟨q, faces, hq, hfaces⟩
  rcases bind_eq_error.mp h with hoffset | ⟨⟨offset, z⟩, hoffset, h⟩
  · obtain ⟨s, tail, hrest, x, hx, he⟩ :=
      (readOffset_eq_error (hr.digits_eq_nil trivial)).mp hoffset
    exact ⟨.offset, r.next, x, reached_offset.mpr ⟨r, hr, rfl, s, tail, hrest⟩, hx, he⟩
  -- All four parts were found, so there is something after them.
  simp only at h
  split at h
  · cases h
  · rename_i hsome
    cases h
    rcases exists_readOffset.mp ⟨r, offset, hr, hoffset⟩ with hz | ⟨hz, hno⟩
    · exact ⟨.ending, z, .ending, hz, .ending hsome, rfl⟩
    · exact ⟨.sign, z, .ending, hz, .sign hsome hno, rfl⟩

/-- Every cut where the rest is refused is where the reader fails. -/
theorem readParts_of_refuses {part : Part} {x : Expected} (h : Reached text part p)
    (hx : Refuses p.rest part x) : readParts text = .error (p.stop x) := by
  -- The parts before the cut have been read; the one after it fails.
  cases part with
  | count =>
    obtain ⟨rest⟩ := p
    obtain ⟨before, hcut⟩ := h
    cases hcut
    have hfail := readCount_eq_error.mpr ⟨x, hx, rfl⟩
    simp only [readParts, hfail, bind, Except.bind]
  | letter =>
    obtain ⟨count, hcount⟩ := reached_letter.mp h
    have hfail := readMode_eq_error.mpr ⟨x, hx, rfl⟩
    simp only [readParts, hcount, hfail, bind, Except.bind]
  | faces =>
    obtain ⟨q, mode, hq, hmode⟩ := reached_faces.mp h
    obtain ⟨count, hcount⟩ := reached_letter.mp hq
    have hfail := readFaces_eq_error.mpr ⟨x, hx, rfl⟩
    simp only [readParts, hcount, hmode, hfail, bind, Except.bind]
  | offset =>
    obtain ⟨q, hq, rfl, s, tail, hrest⟩ := reached_offset.mp h
    obtain ⟨count, r, mode, t, faces, hcount, hmode, hfaces⟩ := exists_parts hq
    have hfail := (readOffset_eq_error (hq.digits_eq_nil trivial)).mpr ⟨s, tail, hrest, x, hx, rfl⟩
    simp only [readParts, hcount, hmode, hfaces, hfail, bind, Except.bind]
  | sign =>
    cases hx with
    | number hpart | smaller hpart | nonZero hpart => simp at hpart
    | sign hsome hno =>
      obtain ⟨r, offset, hr, hoffset⟩ := exists_readOffset.mpr (.inr ⟨h, hno⟩)
      obtain ⟨pool, hread⟩ := readParts_of_readOffset hr hoffset
      rw [hread, if_neg hsome]
  | ending =>
    cases hx with
    | number hpart | smaller hpart | nonZero hpart => simp at hpart
    | ending hsome =>
      obtain ⟨r, offset, hr, hoffset⟩ := exists_readOffset.mpr (.inl h)
      obtain ⟨pool, hread⟩ := readParts_of_readOffset hr hoffset
      rw [hread, if_neg hsome]

/-- Reading stops at a cut of the text where the rest is refused. -/
theorem readParts_eq_error {e : Stop} :
    readParts text = .error e ↔
      ∃ part before rest x, Cut text part before rest ∧ Refuses rest part x ∧ e = ⟨rest, x⟩ := by
  constructor
  · intro h
    obtain ⟨part, p, x, ⟨before, hcut⟩, hx, rfl⟩ := exists_refused_of_readParts h
    exact ⟨part, before, p.rest, x, hcut, hx, rfl⟩
  · rintro ⟨part, before, rest, x, hcut, hx, rfl⟩
    exact readParts_of_refuses (p := ⟨rest⟩) ⟨before, hcut⟩ hx

/-- The place of a cut is the fault that is made of stopping there. -/
theorem Cut.fault_eq {before rest : List Char} {part : Part} (h : Cut text part before rest)
    (x : Expected) : Stop.fault text ⟨rest, x⟩ = ⟨before.length, rest.head?, x⟩ := by
  rw [Stop.fault, h.locate?_eq, Option.getD_some]

/-- A fault is a cut of the text where the rest is refused. -/
theorem readChars_eq_error {e : Fault} :
    readChars text = .error e ↔
      ∃ part before rest x, Cut text part before rest ∧ Refuses rest part x ∧
        e = ⟨before.length, rest.head?, x⟩ := by
  have hstop : readChars text = .error e ↔ ∃ s, readParts text = .error s ∧ e = s.fault text := by
    rw [readChars]
    cases readParts text <;> simp [Except.mapError, eq_comm]
  rw [hstop]
  constructor
  · rintro ⟨s, hs, rfl⟩
    obtain ⟨part, before, rest, x, hcut, hx, rfl⟩ := readParts_eq_error.mp hs
    exact ⟨part, before, rest, x, hcut, hx, hcut.fault_eq x⟩
  · rintro ⟨part, before, rest, x, hcut, hx, rfl⟩
    exact ⟨⟨rest, x⟩, readParts_eq_error.mpr ⟨part, before, rest, x, hcut, hx, rfl⟩,
      (hcut.fault_eq x).symm⟩

/-- A text is accepted if nothing is left where a sign could come or after an offset. -/
theorem exists_pool_of_cut {before : List Char}
    (h : Cut text .ending before [] ∨ Cut text .sign before []) :
    ∃ pool, readChars text = .ok pool := by
  have hparts : Reached text .ending ⟨[]⟩ ∨
      (Reached text .sign ⟨[]⟩ ∧ ∀ s : Sign, [].head? ≠ some s.char) := by
    rcases h with h | h
    · exact .inl ⟨before, h⟩
    · exact .inr ⟨⟨before, h⟩, by simp⟩
  obtain ⟨r, offset, hr, hoffset⟩ := exists_readOffset.mpr hparts
  obtain ⟨pool, hread⟩ := readParts_of_readOffset hr hoffset
  exact ⟨pool, readChars_eq_ok_iff.mpr (by rw [hread, if_pos rfl])⟩

end Reading

end Dice.Notation
