import Dice.Json.Number
import Dice.Json.Printer
import Dice.Json.Spelling
import Dice.Proofs.Decimal.Digits
import Mathlib.Tactic.SplitIfs

namespace Dice.Json

open Dice.Decimal Dice.Notation Dice.Text

/-!
# Spellings that are read back

What is written of a string or of a number is read as the same spelling, whatever comes after it.
After a number this must be nothing that could go on with it.

* `IsSpelling` — the reader takes these characters for a string.
* `Numeral.WellSpelled`, `readNumeral?_print` — the numbers that the reader takes as they are.
* `isSpelling_spell`, `isSpelling_print` — texts and whole numbers between quotes.
* `Numeral.wellSpelled_ofInt`, `Numeral.wellSpelled_ofFloat?` — whole numbers and floats.
-/

/-! ### Strings -/

/-- Between quotes the characters are read as they are. -/
def IsSpelling (spelling : List Char) : Prop :=
  ∀ rest, readString? (spelling ++ '"' :: rest) = some (spelling, rest)

/-- A character that is neither a quote nor a backslash nor a control is read as it is. -/
theorem readString?_cons {c : Char} (hquote : c ≠ '"') (hescape : c ≠ '\\')
    (hcontrol : 32 ≤ c.toNat) (text : List Char) :
    readString? (c :: text) = (readString? text).map fun r => (c :: r.1, r.2) := by
  rw [readString?.eq_def]
  split
  · simp_all
  · simp_all
  · simp_all
  · simp_all
  · rename_i heq
    obtain ⟨rfl, rfl⟩ := List.cons.inj heq
    rw [if_neg (by simp only [hescape, false_or]; omega)]

/-- A run of such characters is read as it is. -/
theorem isSpelling_of_plain {spelling : List Char}
    (h : ∀ c ∈ spelling, c ≠ '"' ∧ c ≠ '\\' ∧ 32 ≤ c.toNat) : IsSpelling spelling := by
  intro rest
  induction spelling with
  | nil => simp [readString?]
  | cons c spelling ih =>
    obtain ⟨hquote, hescape, hcontrol⟩ := h c List.mem_cons_self
    rw [List.cons_append, readString?_cons hquote hescape hcontrol,
      ih fun d hd => h d (List.mem_cons_of_mem c hd)]
    rfl

/-- Such a character is spelled as it is. -/
theorem spellChar_of_plain {c : Char} (hquote : c ≠ '"') (hescape : c ≠ '\\')
    (hcontrol : 32 ≤ c.toNat) : spellChar c = [c] := by
  have hne : ∀ d : Char, d.toNat < 32 → c ≠ d := by
    rintro d hd rfl
    omega
  rw [spellChar, if_neg hquote, if_neg hescape, if_neg (hne _ (by decide)),
    if_neg (hne _ (by decide)), if_neg (hne _ (by decide)), if_neg (hne _ (by decide)),
    if_neg (hne _ (by decide)), if_neg (by omega)]

/-- The digits written are those that are read. -/
theorem isHexDigit_hexDigit {n : Nat} (h : n < 16) : isHexDigit (hexDigit n) = true := by
  rw [isHexDigit, hexDigit?_hexDigit n h]
  rfl

/-- The spelling of a character is read as it is. -/
theorem readString?_spellChar (c : Char) (text : List Char) :
    readString? (spellChar c ++ text) =
      (readString? text).map fun r => (spellChar c ++ r.1, r.2) := by
  unfold spellChar
  split_ifs with hquote hescape _ _ _ _ _ hcontrol
  -- Seven characters have an escape of their own.
  iterate 7 · simp [readString?]
  · have hzero : isHexDigit '0' = true := by decide
    have hhigh := isHexDigit_hexDigit (n := c.toNat / 16) (by omega)
    have hlow := isHexDigit_hexDigit (n := c.toNat % 16) (Nat.mod_lt _ (by decide))
    simp only [List.cons_append, List.nil_append, readString?, hzero, hhigh, hlow, Bool.and_self,
      if_true]
  · exact readString?_cons hquote hescape (by omega) text

/-- A text is read as it is spelled. -/
theorem isSpelling_spell (text : String) : IsSpelling (spell text) := by
  have h : ∀ (cs rest : List Char),
      readString? (cs.flatMap spellChar ++ '"' :: rest) = some (cs.flatMap spellChar, rest) := by
    intro cs rest
    induction cs with
    | nil => simp [readString?]
    | cons c cs ih =>
      rw [List.flatMap_cons, List.append_assoc, readString?_spellChar, ih]
      rfl
  exact h text.toList

/-! ### Numbers -/

/-- Nothing that could go on with a number. -/
def EndsNumber (rest : List Char) : Prop :=
  ∀ c ∈ rest.head?, c.isDigit = false ∧ c ≠ '.' ∧ c ≠ 'e' ∧ c ≠ 'E'

theorem endsNumber_nil : EndsNumber [] := fun _ h => nomatch h

/-- A character that is no part of a number ends it. -/
theorem endsNumber_cons {c : Char} {rest : List Char}
    (h : c.isDigit = false ∧ c ≠ '.' ∧ c ≠ 'e' ∧ c ≠ 'E') : EndsNumber (c :: rest) := by
  intro d hd
  obtain rfl : c = d := by simpa using hd
  exact h

/-- No digits are left where a number ends. -/
theorem EndsNumber.digitRun_eq_nil {rest : List Char} (h : EndsNumber rest) :
    digitRun rest = [] := by
  cases rest with
  | nil => rfl
  | cons c rest => simp [digitRun, (h c rfl).1]

/-- The exponent is written as the reader expects it. -/
structure Exponent.WellSpelled (e : Exponent) : Prop where
  sign : ∀ c ∈ e.sign, c = '+' ∨ c = '-'
  digits : IsRun e.digits
  digits_ne : e.digits ≠ []

/-- The number is written as the reader expects it: no zero comes before other digits. -/
structure Numeral.WellSpelled (n : Numeral) : Prop where
  whole : IsRun n.whole
  whole_ne : n.whole ≠ []
  leading : n.whole.head? = some '0' → n.whole = ['0']
  fraction : IsRun n.fraction
  exponent : ∀ e ∈ n.exponent, e.WellSpelled

/-- The digits before the point are read up to the last of them. -/
theorem readWhole?_append {digits rest : List Char} (hrun : IsRun digits) (hne : digits ≠ [])
    (hleading : digits.head? = some '0' → digits = ['0']) (hrest : digitRun rest = []) :
    readWhole? (digits ++ rest) = some (digits, rest) := by
  unfold readWhole?
  rw [digitRun_append hrun hrest, afterRun_append hrun hrest]
  split
  · exact absurd rfl hne
  · rfl
  · next hzero => exact absurd (List.cons.inj (hleading rfl)).2 hzero
  · rfl

/-- The digits of an exponent are read up to the last of them. -/
theorem readExponentDigits?_append {digits rest : List Char} (sign : Option Char)
    (hrun : IsRun digits) (hne : digits ≠ []) (hrest : digitRun rest = []) :
    readExponentDigits? sign (digits ++ rest) = some (some ⟨sign, digits⟩, rest) := by
  rw [readExponentDigits?, digitRun_append hrun hrest, afterRun_append hrun hrest, if_neg hne]

/-- An exponent is read back. -/
theorem readExponent?_print {e : Option Exponent} (h : ∀ x ∈ e, x.WellSpelled) {rest : List Char}
    (hrest : EndsNumber rest) :
    readExponent? ((e.map Exponent.print).getD [] ++ rest) = some (e, rest) := by
  cases e with
  | none =>
    unfold readExponent?
    split
    case h_7 => rfl
    all_goals
      next heq =>
        have hhead := hrest _ (by rw [Option.map_none, Option.getD_none, List.nil_append] at heq
                                  rw [heq]; rfl)
        simp at hhead
  | some e =>
    obtain ⟨sign, digits⟩ := e
    obtain ⟨hsign, hrun, hne⟩ := h _ rfl
    have hdigits := readExponentDigits?_append sign hrun hne hrest.digitRun_eq_nil
    cases sign with
    | none =>
      -- The digits do not start with a sign.
      obtain ⟨c, digits, rfl⟩ := List.exists_cons_of_ne_nil hne
      have hdigit : c.isDigit = true := hrun c List.mem_cons_self
      simp only [Option.map_some, Option.getD_some, Exponent.print, Option.toList_none,
        List.nil_append, List.cons_append] at hdigits ⊢
      unfold readExponent?
      split <;> simp_all
    | some c =>
      rcases hsign c rfl with rfl | rfl <;> simpa [Exponent.print, readExponent?] using hdigits

/-- What comes after the digits before the point is a point, an exponent, or what ends a number. -/
theorem readFraction?_print {n : Numeral} (h : n.WellSpelled) {rest : List Char}
    (hrest : digitRun rest = []) (hpoint : rest.head? ≠ some '.') :
    readFraction? ((if n.fraction = [] then [] else '.' :: n.fraction) ++ rest) =
      some (n.fraction, rest) := by
  by_cases hfraction : n.fraction = []
  · rw [if_pos hfraction, hfraction, List.nil_append]
    unfold readFraction?
    split
    · simp at hpoint
    · rfl
  · rw [if_neg hfraction, List.cons_append]
    simp only [readFraction?]
    rw [digitRun_append h.fraction hrest, afterRun_append h.fraction hrest, if_neg hfraction]

/-- A text that starts with no digit has no run of them. -/
theorem digitRun_of_head? {text : List Char} (h : ∀ c ∈ text.head?, c.isDigit = false) :
    digitRun text = [] := by
  cases text with
  | nil => rfl
  | cons c rest => simp [digitRun, h c rfl]

/-- A number that is written well is read back. -/
theorem readUnsigned?_print {n : Numeral} (h : n.WellSpelled) {rest : List Char}
    (hrest : EndsNumber rest) :
    readUnsigned? n.negative
        (n.whole ++ ((if n.fraction = [] then [] else '.' :: n.fraction) ++
          ((n.exponent.map Exponent.print).getD [] ++ rest))) = some (n, rest) := by
  -- Neither an exponent nor what comes after it starts with a digit or a point.
  have hexponent : ∀ c ∈ ((n.exponent.map Exponent.print).getD [] ++ rest).head?,
      c.isDigit = false ∧ c ≠ '.' := by
    intro c hc
    cases hcase : n.exponent with
    | none =>
      rw [hcase] at hc
      exact ⟨(hrest c hc).1, (hrest c hc).2.1⟩
    | some e =>
      rw [hcase] at hc
      obtain rfl : 'e' = c := by simpa [Exponent.print] using hc
      decide
  have hend := digitRun_of_head? fun c hc => (hexponent c hc).1
  have hfraction := readFraction?_print h hend fun hc => (hexponent '.' hc).2 rfl
  have hpoint : digitRun ((if n.fraction = [] then [] else '.' :: n.fraction) ++
      ((n.exponent.map Exponent.print).getD [] ++ rest)) = [] := by
    by_cases hnone : n.fraction = []
    · rwa [if_pos hnone, List.nil_append]
    · rw [if_neg hnone]
      rfl
  have hwhole := readWhole?_append h.whole h.whole_ne h.leading hpoint
  simp only [readUnsigned?, hwhole, hfraction, readExponent?_print h.exponent hrest,
    Option.bind_eq_bind, Option.bind_some]

/-- A number is read up to where it ends. -/
theorem readNumeral?_print {n : Numeral} (h : n.WellSpelled) {rest : List Char}
    (hrest : EndsNumber rest) : readNumeral? (n.print ++ rest) = some (n, rest) := by
  have hread := readUnsigned?_print h hrest
  obtain ⟨negative, whole, fraction, exponent⟩ := n
  cases negative with
  | true => simpa [Numeral.print, readNumeral?] using hread
  | false =>
    obtain ⟨c, digits, rfl⟩ := List.exists_cons_of_ne_nil h.whole_ne
    have hdigit : c.isDigit = true := h.whole c List.mem_cons_self
    simp only [Numeral.print, Bool.false_eq_true, if_false, List.nil_append, List.append_assoc,
      List.cons_append] at hread ⊢
    unfold readNumeral?
    split
    · simp_all
    · exact hread

/-! ### Whole numbers -/

namespace Numeral

/-- The digits of whole numbers start with no zero but their own. -/
theorem wellSpelled_ofInt (n : Int) : (ofInt n).WellSpelled where
  whole := isRun_toDigits _
  whole_ne := Nat.toDigits_ne_nil
  leading := leading_toDigits _
  fraction := fun _ h => nomatch h
  exponent := fun _ h => nomatch h

/-- A whole number within a word of 64 bits is read back. -/
theorem int?_ofInt {n : Int} (hlow : Int64.minValue.toInt ≤ n) (hhigh : n < UInt64.size) :
    (ofInt n).int? = some n := by
  have hvalue : value (Nat.toDigits 10 n.natAbs) = n.natAbs := value_toDigits _
  have hmax : maxWord = UInt64.size - 1 := by decide
  have hmin : Int64.minValue.toInt = -(UInt64.size / 2 : Nat) := by decide
  rw [hmin] at hlow
  simp only [int?, ofInt, and_self, if_true, hvalue, hmax, decide_eq_true_eq]
  by_cases hneg : n < 0
  · rw [if_pos hneg, if_pos ⟨by omega, by omega⟩]
    congr 1
    omega
  · rw [if_neg hneg, if_pos (by omega)]
    congr 1
    omega

end Numeral

/-- A whole number is read between quotes as it is. -/
theorem isSpelling_print (n : Int) : IsSpelling (Numeral.ofInt n).print := by
  apply isSpelling_of_plain
  intro c hc
  have hmem : c = '-' ∨ c.isDigit = true := by
    have hprint : c ∈ (if (Numeral.ofInt n).negative then ['-'] else []) ++
        Nat.toDigits 10 n.natAbs := by
      simpa [Numeral.print, Numeral.ofInt] using hc
    rcases List.mem_append.mp hprint with hsign | hdigit
    · split at hsign
      · exact .inl (List.mem_singleton.mp hsign)
      · exact absurd hsign List.not_mem_nil
    · exact .inr (isRun_toDigits _ c hdigit)
  rcases hmem with rfl | hdigit
  · decide
  · simp only [Char.isDigit, Bool.and_eq_true, decide_eq_true_eq] at hdigit
    have hrange : 48 ≤ c.toNat ∧ c.toNat ≤ 57 := hdigit
    refine ⟨?_, ?_, by omega⟩
    · rintro rfl
      exact absurd hrange (by decide)
    · rintro rfl
      exact absurd hrange (by decide)

/-! ### Floats -/

/-- A multiple in an interval above zero is not zero. -/
theorem nearestMultiple_pos {closed : Bool} {low value high unit n : Nat} (hlow : 0 < low)
    (h : nearestMultiple closed low value high unit = some n) : 0 < n := by
  rw [Nat.pos_iff_ne_zero]
  rintro rfl
  unfold nearestMultiple at h
  cases closed <;> grind

/-- The search never settles for nothing between bounds above zero. -/
theorem shortestFrom_pos {closed : Bool} {low value high : Nat} {e : Int} (hlow : 0 < low)
    (hvalue : 0 < value) (steps : Nat) (k : Int) :
    0 < (shortestFrom closed low value high e steps k).digits := by
  induction steps generalizing k with
  | zero => exact hvalue
  | succ steps ih =>
    rw [shortestFrom]
    split
    · next heq =>
      exact nearestMultiple_pos (Nat.mul_pos hlow
        (Nat.mul_pos (Nat.pow_pos (by omega)) (Nat.pow_pos (by omega)))) heq
    · exact ih (k - 1)

/-- The shortest decimal of a float other than zero has a digit other than zero. -/
theorem shortest_pos {m : Nat} (h : 0 < m) (e : Int) : 0 < (shortest m e).digits := by
  unfold shortest
  refine shortestFrom_pos ?_ (by omega) 25 _
  split <;> omega

namespace Numeral

/-- Zeros are digits. -/
theorem isRun_zeros (n : Nat) : IsRun (zeros n) := by
  intro c hc
  obtain rfl := List.eq_of_mem_replicate hc
  decide

/-- A decimal other than zero is written as the reader expects it. -/
theorem wellSpelled_ofScientific (negative : Bool) {s : Scientific} (h : 0 < s.digits) :
    (ofScientific negative s).WellSpelled := by
  have hrun := isRun_toDigits s.digits
  have hhead := head?_toDigits h
  have hne : Nat.toDigits 10 s.digits ≠ [] := Nat.toDigits_ne_nil
  -- Where the digits are cut, some are left before the point, and the first of them is no zero.
  have htake : ∀ n, 0 < n → (Nat.toDigits 10 s.digits).take n ≠ [] ∧
      ((Nat.toDigits 10 s.digits).take n).head? ≠ some '0' := by
    intro n hn
    obtain ⟨c, digits, hdigits⟩ := List.exists_cons_of_ne_nil hne
    obtain ⟨n, rfl⟩ := Nat.exists_eq_add_of_lt hn
    rw [hdigits] at hhead ⊢
    simpa using hhead
  have hcut : ∀ n, IsRun ((Nat.toDigits 10 s.digits).take n) :=
    fun n c hc => hrun c (List.mem_of_mem_take hc)
  have hrest : ∀ n, IsRun ((Nat.toDigits 10 s.digits).drop n) :=
    fun n c hc => hrun c (List.mem_of_mem_drop hc)
  unfold ofScientific
  extract_lets digits point
  split
  · refine ⟨hrun.append (isRun_zeros _), List.append_ne_nil_of_left_ne_nil hne _,
      fun hzero => ?_, isRun_zeros 1, fun _ h => nomatch h⟩
    rw [List.head?_append_of_ne_nil _ hne] at hzero
    exact absurd hzero hhead
  · split
    · next hpoint =>
      have hfirst := htake point.toNat (by omega)
      exact ⟨hcut _, hfirst.1, fun hzero => absurd hzero hfirst.2, hrest _, fun _ h => nomatch h⟩
    · split
      · exact ⟨isRun_zeros 1, by simp, fun _ => rfl, (isRun_zeros _).append hrun,
          fun _ h => nomatch h⟩
      · have hfirst := htake 1 (by omega)
        refine ⟨hcut _, hfirst.1, fun hzero => absurd hzero hfirst.2, hrest _, fun e he => ?_⟩
        obtain rfl := Option.some.inj he
        refine ⟨fun c hc => ?_, isRun_toDigits _, Nat.toDigits_ne_nil⟩
        obtain rfl := Option.some.inj hc
        split <;> simp

/-- Every float that has a spelling is written as the reader expects it. -/
theorem wellSpelled_ofFloat? {x : Float} {n : Numeral} (h : ofFloat? x = some n) :
    n.WellSpelled := by
  unfold ofFloat? at h
  split at h
  · cases h
  · cases h
  · obtain rfl := Option.some.inj h
    exact ⟨isRun_zeros 1, by simp, fun _ => rfl, isRun_zeros 1, fun _ h => nomatch h⟩
  · next hm _ =>
    obtain rfl := Option.some.inj h
    exact wellSpelled_ofScientific _ (shortest_pos hm _)

end Numeral

end Dice.Json
