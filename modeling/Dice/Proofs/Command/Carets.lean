import Dice.Proofs.Command.Idle
import Dice.Proofs.Decimal.Digits
import Dice.Proofs.Notation.Faults

namespace Dice.Command

open Dice.Decimal Dice.Notation Dice.Random Dice.Text

/-!
# The caret under a refused text

The calculator writes a refused text again, and below it a caret after as many blanks as characters
stand before the fault.  A text may hold characters of any width, but the reader gets past none but
those of notation, and each of these takes one cell.  So the caret stands under the character that
the fault names.

* `charCells_of_notation` — the width of the characters of notation.
* `exists_before_of_read` — the text before a fault is made of them.
* `Prompt.caret_under_fault` — where the caret stands.
-/

/-- Each character of notation takes one cell. -/
theorem charCells_of_notation {c : Char} (h : c.isDigit = true ∨ c ∈ ['d', 'u', '+', '-']) :
    charCells c = 1 := by
  rcases h with hdigit | hmem
  · have hone : ∀ k < 10, charCells (Nat.digitChar k) = 1 := by decide +kernel
    obtain ⟨k, hk, rfl⟩ := exists_digitChar hdigit
    exact hone k hk
  · simp only [List.mem_cons, List.not_mem_nil, or_false] at hmem
    rcases hmem with rfl | rfl | rfl | rfl <;> decide +kernel

/-- A refused text is cut where its fault is.  The characters before the cut are as many as the fault
    says and take one cell each, and the first one after it is the one that the fault names. -/
theorem exists_before_of_read {text : String} {f : Fault} (h : Pool.read text = .error f) :
    ∃ before after : String, text = before ++ after ∧ before.length = f.position ∧
      cells before = f.position ∧ after.toList.head? = f.found := by
  obtain ⟨part, before, rest, x, hcut, -, rfl⟩ := readChars_eq_error.mp h
  -- The characters before a cut start a text that is accepted, so they are those of notation.
  obtain ⟨more, pool, hmore⟩ := hcut.exists_accepted
  have hone : ∀ c ∈ before, charCells c = 1 := fun c hc =>
    charCells_of_notation (mem_of_readChars hmore c (List.mem_append_left more hc))
  refine ⟨String.ofList before, String.ofList rest, ?_, String.length_ofList, ?_, ?_⟩
  · rw [← String.ofList_append, hcut.append_eq, String.ofList_toList]
  · exact cells_ofList_eq_length hone
  · rw [String.toList_ofList]

variable {S : Type} [WordSource S]

/-- Where a text is refused, it is written again with the caret under the character that the fault
    names, or after its end: there are as many blanks before the caret as the characters before the
    place take cells, whatever characters the rest is made of. -/
theorem Prompt.caret_under_fault (style : Style) (p : Prompt S) {line : Line} {text : String}
    {f : Fault} (h : line.Refused text f) :
    ∃ before after : String, text = before ++ after ∧ before.length = f.position ∧
      after.toList.head? = f.found ∧ (f.found = none → before = text) ∧
      ∃ next, p.step style line =
        .answered (text ++ "\n" ++ blanks (cells before) ++ "^ " ++ f.message ++ "\n") next := by
  obtain ⟨before, after, htext, hlength, hcells, hfound⟩ := exists_before_of_read h.read
  refine ⟨before, after, htext, hlength, hfound, fun hnone => ?_,
    p.withSession { p.session with raw := text, fault := some f }, ?_⟩
  · -- Nothing was found, so nothing is left.
    rw [hnone, List.head?_eq_none_iff, String.toList_eq_nil_iff] at hfound
    rw [htext, hfound, String.append_empty]
  · rw [hcells]
    exact step_of_refused h

/-- A wide character after two dice is refused; three cells stand before it and the caret. -/
theorem Prompt.caret_under_wide :
    let style : Style := ⟨false, 4⟩
    let p : Prompt (List UInt32) := .start 3 []
    let f : Fault := ⟨3, some '日', .ending⟩
    Line.Refused ⟨.epoch, some " 2d6日本 "⟩ "2d6日本" f ∧
      ∃ before after : String, "2d6日本" = before ++ after ∧ before.length = 3 ∧
        after.toList.head? = some '日' ∧ (some '日' = none → before = "2d6日本") ∧
        ∃ next, p.step style ⟨.epoch, some " 2d6日本 "⟩ =
          .answered ("2d6日本" ++ "\n" ++ blanks (cells before) ++ "^ " ++ f.message ++ "\n")
            next := by
  intro style p f
  have hrefused : Line.Refused ⟨.epoch, some " 2d6日本 "⟩ "2d6日本" f :=
    ⟨⟨_, rfl, by decide +kernel⟩, by decide, by decide, by decide +kernel⟩
  exact ⟨hrefused, caret_under_fault style p hrefused⟩

end Dice.Command
