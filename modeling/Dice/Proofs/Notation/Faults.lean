import Dice.Proofs.Notation.Cuts

namespace Dice

namespace Notation

open Dice.Text

/-!
# What a fault says about its text

The fault of a text that is not dice notation stands at the end of the longest part of the text that
could still have become notation, or at the digits of a number that is zero or too great.

* `Cut.exists_accepted` — at every cut there is a way to go on to the end.
* `Cut.readChars_exchange` — where a character is needed that is not there, nothing that follows it
  helps.
* `Pool.read_eq_error_at_fault` — what the fault of a refused text says about the text.
-/

/-! ### Going on from a cut -/

section GoingOn

variable {text before rest : List Char} {part : Part}

/-- One face is enough where the faces come next. -/
theorem Cut.exists_pool_of_faces (h : Cut text .faces before ['1']) :
    ∃ pool, readChars text = .ok pool :=
  exists_pool_of_cut (.inr (h.faces (by decide) (by decide)))

/-- A letter and one face are enough where the letter comes next. -/
theorem Cut.exists_pool_of_letter (h : Cut text .letter before ['d', '1']) :
    ∃ pool, readChars text = .ok pool :=
  exists_pool_of_faces (h.letter (m := .standard))

/-- At every cut there is a way to go on to the end of an accepted text. -/
theorem Cut.exists_accepted (h : Cut text part before rest) :
    ∃ more pool, readChars (before ++ more) = .ok pool := by
  cases part with
  | count =>
    have hcut : Cut (before ++ ['d', '1']) .count before ['d', '1'] := h.exchange _ False.elim
    exact ⟨_, exists_pool_of_letter (hcut.count (by decide))⟩
  | letter => exact ⟨_, exists_pool_of_letter (h.exchange _ fun _ => rfl)⟩
  | faces => exact ⟨_, exists_pool_of_faces (h.exchange _ False.elim)⟩
  | sign => exact ⟨_, exists_pool_of_cut (.inr (h.exchange _ fun _ => rfl))⟩
  | offset =>
    have hcut : Cut (before ++ ['1']) .offset before ['1'] := h.exchange _ False.elim
    exact ⟨_, exists_pool_of_cut (.inl (hcut.offset (by decide) (by decide)))⟩
  | ending => exact ⟨_, exists_pool_of_cut (.inl (h.exchange _ fun _ => rfl))⟩

/-- Where the end of the text may come, the text before the cut is accepted. -/
theorem Cut.exists_pool_of_ending (h : Cut text part before rest) (hx : Refuses rest part .ending) :
    ∃ pool, readChars before = .ok pool := by
  have hcut : Cut before part before [] := by
    have hnone := h.exchange [] fun _ => rfl
    rwa [List.append_nil] at hnone
  cases hx with
  | sign => exact exists_pool_of_cut (.inr hcut)
  | ending => exact exists_pool_of_cut (.inl hcut)

/-- A text starts with no digits if its first character is none. -/
theorem digitRun_cons_eq_nil {c : Char} {tail : List Char} :
    digitRun (c :: tail) = [] ↔ c.isDigit = false := by
  simp [digitRun, List.takeWhile_cons]

/-- That a character cannot come at a cut does not depend on what follows it. -/
theorem Refuses.exchange {c : Char} {tail other : List Char} {x : Expected}
    (h : Refuses (c :: tail) part x) (hx : x = .mode ∨ x = .number ∨ x = .ending) :
    Refuses (c :: other) part x := by
  cases h with
  | number hpart hnone =>
    exact .number hpart (digitRun_cons_eq_nil.mpr (digitRun_cons_eq_nil.mp hnone))
  | nonZero | smaller | smallerOffset => simp at hx
  | mode hletter => exact .mode hletter
  | sign _ hsign => exact .sign (List.cons_ne_nil _ _) hsign
  | ending => exact .ending (List.cons_ne_nil _ _)

/-- Where a character is needed that is not there, the fault is the same whatever follows. -/
theorem Cut.readChars_exchange {c : Char} {tail : List Char} {x : Expected}
    (h : Cut text part before (c :: tail)) (hrefuse : Refuses (c :: tail) part x)
    (hx : x = .mode ∨ x = .number ∨ x = .ending) (other : List Char) :
    readChars (before ++ c :: other) = .error ⟨before.length, c, x⟩ := by
  have hcut : Cut (before ++ c :: other) part before (c :: other) := h.exchange _ fun hpart =>
    digitRun_cons_eq_nil.mpr (digitRun_cons_eq_nil.mp (h.digitRun_rest hpart))
  exact readChars_eq_error.mpr ⟨part, before, c :: other, x, hcut, hrefuse.exchange hx, rfl⟩

/-- No accepted text starts like a text up to a character that cannot come where it stands. -/
theorem Cut.not_prefix_of_accepted {c : Char} {tail other : List Char} {x : Expected} {pool : Pool}
    (h : Cut text part before (c :: tail)) (hrefuse : Refuses (c :: tail) part x)
    (hx : x = .mode ∨ x = .number ∨ x = .ending) (hother : readChars other = .ok pool) :
    ¬ text.take (before.length + 1) <+: other := by
  rintro ⟨more, hmore⟩
  have hsame : before ++ c :: more = other := by
    rw [← hmore, ← h.append_eq, List.take_length_add_append]
    simp
  rw [← hsame, h.readChars_exchange hrefuse hx more] at hother
  cases hother

end GoingOn

/-! ### Refused numbers -/

/-- Digits with the value zero are zeros. -/
theorem eq_zero_of_value_eq_zero {run : List Char} (hrun : IsRun run) (h : value run = 0) :
    ∀ c ∈ run, c = '0' := by
  induction run with
  | nil => simp
  | cons d run ih =>
    rw [value, Nat.ofDigitChars_cons, Nat.ofDigitChars_eq_ofDigitChars_zero] at h
    obtain ⟨hfirst, hothers⟩ := Nat.add_eq_zero_iff.mp h
    have hd : d = '0' := by
      have hdigit : d.isDigit = true := hrun d List.mem_cons_self
      have hlow : '0'.toNat ≤ d.toNat := by
        simp only [Char.isDigit, Bool.and_eq_true, decide_eq_true_eq] at hdigit
        exact UInt32.le_iff_toNat_le.mp hdigit.1
      have hpow : 0 < 10 ^ run.length := Nat.pow_pos (by decide)
      have hzero := (Nat.mul_eq_zero.mp hfirst).resolve_left hpow.ne'
      exact Char.toNat_inj.mp (by omega)
    intro c hc
    rcases List.mem_cons.mp hc with rfl | hc
    · exact hd
    · exact ih (fun c hc => hrun c (List.mem_cons_of_mem _ hc)) hothers c hc

/-- A number refused as zero is one of dice or faces, written with zeros only. -/
theorem Refuses.of_nonZero {rest : List Char} {part : Part} (h : Refuses rest part .nonZero) :
    (part = .count ∨ part = .faces) ∧ digitRun rest ≠ [] ∧ ∀ c ∈ digitRun rest, c = '0' := by
  cases h with
  | nonZero hpart hsome hzero =>
    exact ⟨hpart, hsome, eq_zero_of_value_eq_zero (isRun_digitRun rest) hzero⟩

/-- A cut before a number that has to be positive is one before the dice or before the faces. -/
theorem Cut.of_positive {text before rest : List Char} {part : Part}
    (h : Cut text part before rest) (hpart : part = .count ∨ part = .faces) :
    Cut text .count before rest ∨ Cut text .faces before rest := by
  rcases hpart with rfl | rfl
  · exact .inl h
  · exact .inr h

end Notation

namespace Pool

open Dice.Notation Dice.Text

@[simp] theorem read_ofList (text : List Char) :
    Pool.read (String.ofList text) = readChars text := by
  rw [Pool.read, String.toList_ofList]

/-- The fault of a text that is refused says where and why it is no dice notation.

    The place lies in the text or at its end, with the character found there.  The text before the
    place starts an accepted text.  With the character found it starts none, if a letter, a number
    or the end was needed; if the end was needed, the text before the place is itself accepted.  A
    number that should not be zero is one of dice or faces and is written with zeros only; a number
    that should be smaller is one of dice or faces beyond 32 bits, or an offset beyond 31.  And
    counting bytes from the end of the text finds the same place, which is never inside a
    character. -/
theorem read_eq_error_at_fault (t : String) (e : Fault) (h : Pool.read t = .error e) :
    let before := t.toList.take e.position
    let rest := t.toList.drop e.position
    (e.position ≤ t.length ∧ e.found = t.toList[e.position]? ∧
      (e.found = none ↔ e.position = t.length)) ∧
    (∃ u s, Pool.read u = .ok s ∧ before <+: u.toList) ∧
    (e.expected = .mode ∨ e.expected = .number ∨ e.expected = .ending → e.found ≠ none →
      ∀ u s, Pool.read u = .ok s → ¬ t.toList.take (e.position + 1) <+: u.toList) ∧
    (e.expected = .ending →
      (∃ s, Pool.read (String.ofList before) = .ok s) ∧ e.found ≠ none) ∧
    (e.expected = .nonZero →
      (Cut t.toList .count before rest ∨ Cut t.toList .faces before rest) ∧
        digitRun rest ≠ [] ∧ ∀ c ∈ digitRun rest, c = '0') ∧
    (e.expected = .smaller →
      ((Cut t.toList .count before rest ∨ Cut t.toList .faces before rest) ∧
        2 ^ 32 - 1 < value (digitRun rest)) ∨
      (Cut t.toList .offset before rest ∧ 2 ^ 31 - 1 < value (digitRun rest))) ∧
    Fault.locate? t.toList rest e.expected = some e := by
  obtain ⟨part, before, rest, x, hcut, hrefuse, rfl⟩ := readChars_eq_error.mp h
  have htext : t.toList = before ++ rest := hcut.append_eq.symm
  have hlength : t.length = before.length + rest.length := by
    rw [← String.length_toList, htext, List.length_append]
  have hbefore : t.toList.take before.length = before := by rw [htext, List.take_left]
  have hrest : t.toList.drop before.length = rest := by rw [htext, List.drop_left]
  simp only [hbefore, hrest]
  refine ⟨⟨by omega, ?_, ?_⟩, ?_, ?_, ?_, ?_, ?_, hcut.locate?_eq x⟩
  · rw [htext, List.getElem?_append_right (Nat.le_refl _), Nat.sub_self, List.head?_eq_getElem?]
  · rw [List.head?_eq_none_iff, hlength, Nat.left_eq_add, List.length_eq_zero_iff]
  · obtain ⟨more, s, hs⟩ := hcut.exists_accepted
    refine ⟨String.ofList (before ++ more), s, by rwa [read_ofList], ?_⟩
    rw [String.toList_ofList]
    exact List.prefix_append before more
  · intro hx hfound u s hu
    cases rest with
    | nil => exact absurd rfl hfound
    | cons c tail => exact hcut.not_prefix_of_accepted hrefuse hx hu
  · rintro rfl
    obtain ⟨s, hs⟩ := hcut.exists_pool_of_ending hrefuse
    refine ⟨⟨s, by rwa [read_ofList]⟩, ?_⟩
    cases hrefuse with
    | sign hsome | ending hsome => simpa using hsome
  · rintro rfl
    obtain ⟨hpart, hzeros⟩ := hrefuse.of_nonZero
    exact ⟨hcut.of_positive hpart, hzeros⟩
  · rintro rfl
    cases hrefuse with
    | smaller hpart hgreat => exact .inl ⟨hcut.of_positive hpart, hgreat⟩
    | smallerOffset hgreat => exact .inr ⟨hcut, hgreat⟩

/-- After the faces of two dice an accented letter is a fault: the dice alone are accepted, no text
    goes on from them with the letter, and its two bytes are one character. -/
theorem fault_at_accent :
    Pool.read "2d6é" = .error ⟨3, some 'é', .ending⟩ ∧
      (∃ s, Pool.read "2d6" = .ok s) ∧
      (∀ u s, Pool.read u = .ok s → ¬ ['2', 'd', '6', 'é'] <+: u.toList) ∧
      Fault.locate? "2d6é".toList "é".toList .ending = some ⟨3, some 'é', .ending⟩ := by
  have hread : Pool.read "2d6é" = .error ⟨3, some 'é', .ending⟩ := by decide +kernel
  obtain ⟨-, -, hnone, hending, -, -, hbytes⟩ := read_eq_error_at_fault "2d6é" _ hread
  exact ⟨hread, (hending rfl).1, hnone (.inr (.inr rfl)) (hending rfl).2, hbytes⟩

end Pool

end Dice
