import Dice.Command.Prompt
import Dice.Proofs.Notation.Grammar

namespace Dice.Command

open Dice.Notation Dice.Text

/-!
# What lines ask for

A line is taken without the white space around it.  What is left is a word that the calculator
knows, or starts with a number sign, or is taken for dice.  Notation is never taken for anything
else.

* `Line.Says` — the text of a line without the white space around it.
* `Entry.ofText`, `Line.Says.entry` — what such a text asks for.
* `words` — the words that are not taken for dice.
* `ofText_of_read` — notation asks for its dice.
-/

/-- The text of the line, without the white space around it. -/
def Line.Says (line : Line) (text : String) : Prop :=
  ∃ typed, line.text = some typed ∧ trim typed = text

/-- What a text without white space around it asks for. -/
def Entry.ofText (text : String) : Entry :=
  if text = "quit" ∨ text = "exit" then .leave
  else if text = "help" then .help
  else if text = "clear" then .clear
  else if text = "history" then .history
  else if text = "" ∨ text = "roll" then .roll
  else if text.toList.head? = some '#' then .past text
  else .dice text

/-- What a line asks for is what its text asks for. -/
theorem Line.Says.entry {line : Line} {text : String} (h : line.Says text) :
    line.text.map Entry.ofLine = some (.ofText text) := by
  obtain ⟨typed, hline, rfl⟩ := h
  rw [hline]
  rfl

/-- Only two words ask for the end of the run. -/
theorem Entry.eq_of_ofText_eq_leave {text : String} (h : ofText text = .leave) :
    text = "quit" ∨ text = "exit" := by
  by_contra hno
  rw [ofText, if_neg hno] at h
  repeat' split at h
  all_goals cases h

/-- The words that the calculator knows. -/
def words : List String := ["quit", "exit", "help", "clear", "history", "", "roll"]

/-- A text with a number sign at its start asks for a past roll. -/
theorem Entry.ofText_past {text : String} (h : text.toList.head? = some '#') :
    ofText text = .past text := by
  have hsigns : ∀ word ∈ words, word.toList.head? ≠ some '#' := by decide +kernel
  have hword : text ∉ words := fun hmem => hsigns text hmem h
  simp only [words, List.mem_cons, List.not_mem_nil, or_false, not_or] at hword
  simp [ofText, hword, h]

/-- Any text that is no word and has no number sign at its start is taken for dice. -/
theorem Entry.ofText_dice {text : String} (hword : text ∉ words)
    (hsign : text.toList.head? ≠ some '#') : ofText text = .dice text := by
  simp only [words, List.mem_cons, List.not_mem_nil, or_false, not_or] at hword
  simp [ofText, hword, hsign]

/-! ### Notation -/

/-- The characters of notation. -/
theorem mem_of_readChars {text : List Char} {pool : Pool} (h : readChars text = .ok pool) :
    ∀ c ∈ text, c.isDigit = true ∨ c ∈ ['d', 'u', '+', '-'] := by
  obtain ⟨p, ⟨hshaped, -⟩, rfl, -⟩ := exists_pieces_of_readChars h
  intro c hc
  simp only [Pieces.chars, List.mem_append, List.mem_cons] at hc
  rcases hc with hc | rfl | hc | hc
  · exact .inl (hshaped.count c hc)
  · cases p.mode <;> exact .inr (by decide)
  · exact .inl (hshaped.faces c hc)
  · cases hoffset : p.offset with
    | none => simp [hoffset, Pieces.offsetChars] at hc
    | some o =>
      obtain ⟨sign, run⟩ := o
      simp only [hoffset, Pieces.offsetChars, List.mem_cons] at hc
      rcases hc with rfl | hc
      · cases sign <;> exact .inr (by decide)
      · exact .inl ((hshaped.offset _ hoffset).1 c hc)

/-- None of the characters of notation is white space. -/
theorem isBlank_eq_false_of_notation {c : Char}
    (h : c.isDigit = true ∨ c ∈ ['d', 'u', '+', '-']) : isBlank c = false := by
  rcases h with hdigit | hmem
  · exact isBlank_eq_false_of_isDigit hdigit
  · have hsolid : ∀ d ∈ ['d', 'u', '+', '-'], isBlank d = false := by simp [isBlank]
    exact hsolid c hmem

/-- Without white space there is nothing to take away. -/
theorem trim_eq_self {text : String} (h : ∀ c ∈ text.toList, isBlank c = false) :
    trim text = text := by
  have hstart : ∀ l : List Char, (∀ c ∈ l, isBlank c = false) → trimStart l = l := by
    intro l hl
    cases l with
    | nil => rfl
    | cons c rest => exact trimStart_cons (hl c List.mem_cons_self) rest
  rw [trim, hstart _ h, hstart _ (by simpa using h), List.reverse_reverse, String.ofList_toList]

/-- Notation asks for its dice, and for nothing else. -/
theorem Entry.ofText_of_read {text : String} {pool : Pool} (h : Pool.read text = .ok pool) :
    ofText text = .dice text := by
  apply ofText_dice
  · -- None of the words is notation.
    intro hword
    have hnone : ∀ word ∈ words, (Pool.read word).toOption = none := by decide +kernel
    have hsome := hnone text hword
    rw [h] at hsome
    cases hsome
  · intro hsign
    have hmem := mem_of_readChars h '#' (List.mem_of_mem_head? hsign)
    revert hmem
    decide

/-- Notation has no white space around it. -/
theorem trim_of_read {text : String} {pool : Pool} (h : Pool.read text = .ok pool) :
    trim text = text :=
  trim_eq_self fun c hc => isBlank_eq_false_of_notation (mem_of_readChars h c hc)

end Dice.Command
