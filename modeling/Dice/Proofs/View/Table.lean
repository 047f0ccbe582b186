import Dice.Proofs.Command.Entries
import Dice.Proofs.Decimal.Digits
import Dice.View.Table

namespace Dice.View

open Dice.Decimal Dice.Notation Dice.Text

/-!
# Rows of the table of past rolls

The table is a header and one line for each record.  If the records are of dice in notation, no line
breaks within a row.

* `Lacks`, `Foreign` — a character that is not in a text, and one that is in no number of a row.
* `OneLine` — texts without a line end.
* `recordLine`, `historyTable_eq` — the line of a record, and the table as such lines.
* `oneLine_recordLine` — a row is one line.
-/

/-! ### Characters that are not in a text -/

/-- The character is nowhere in the text. -/
def Lacks (c : Char) (text : String) : Prop := c ∉ text.toList

instance (c : Char) (text : String) : Decidable (Lacks c text) :=
  inferInstanceAs (Decidable (_ ∉ _))

/-- A character that is in neither of two texts is not in both together. -/
theorem Lacks.append {c : Char} {text more : String} (htext : Lacks c text) (hmore : Lacks c more) :
    Lacks c (text ++ more) := by
  simp only [Lacks, String.toList_append, List.mem_append, not_or]
  exact ⟨htext, hmore⟩

/-- The characters that stand beside digits in a row. -/
def rowSigns : List Char := [' ', '-', '.', '%', 'N', 'a', 'i', 'n', 'f']

/-- The character is no digit, and none that stands beside digits in a row. -/
def Foreign (c : Char) : Prop := c.isDigit = false ∧ c ∉ rowSigns

instance (c : Char) : Decidable (Foreign c) := inferInstanceAs (Decidable (_ ∧ _))

namespace Foreign

variable {c : Char}

/-- No text has the character that is written with blanks, signs and a point only. -/
theorem lacks (hc : Foreign c) {text : String} (h : text.toList.all rowSigns.contains = true) :
    Lacks c text := by
  intro hmem
  have hsign := List.all_eq_true.mp h c hmem
  exact hc.2 (List.contains_iff_mem.mp hsign)

/-- A foreign character is not in a text of digits. -/
theorem lacks_of_isRun (hc : Foreign c) {text : String} (h : IsRun text.toList) : Lacks c text := by
  intro hmem
  have hdigit := h c hmem
  rw [hc.1] at hdigit
  cases hdigit

/-- A foreign character is not in a number. -/
theorem lacks_natural (hc : Foreign c) (n : Nat) : Lacks c (natural n) :=
  hc.lacks_of_isRun (isRun_natural n)

/-- A foreign character is not in a number with a sign. -/
theorem lacks_integer (hc : Foreign c) (n : Int) : Lacks c (integer n) := by
  unfold integer
  split
  · exact (hc.lacks (by decide)).append (hc.lacks_natural _)
  · exact hc.lacks_natural _

/-- A foreign character is not among blanks. -/
theorem lacks_blanks (hc : Foreign c) (n : Nat) : Lacks c (blanks n) := by
  intro hmem
  simp only [blanks, String.toList_ofList, List.mem_replicate] at hmem
  exact hc.2 (by simp [rowSigns, hmem.2])

/-- A foreign character is not in the text of a float, which may be infinite or no number. -/
theorem lacks_fixedText (hc : Foreign c) (places : Nat) (x : Float) :
    Lacks c (fixedText places x) := by
  have hsign : ∀ s, Lacks c (signText s) := by
    intro s
    cases s <;> exact hc.lacks (by decide)
  have hplaced : ∀ units, Lacks c (placedText places units) := by
    intro units
    have hpoint : Lacks c "." := hc.lacks (by decide)
    exact ((hc.lacks_natural _).append hpoint).append (hc.lacks_of_isRun (isRun_zeroPadded _ _))
  unfold fixedText
  split
  · exact hc.lacks (by decide)
  · exact (hsign _).append (hc.lacks (by decide))
  · exact (hsign _).append (hplaced _)
  · exact (hsign _).append (hplaced _)

/-- A foreign character is not in a percentage. -/
theorem lacks_percentage (hc : Foreign c) (p : Float) : Lacks c (Drawn.percentage p) :=
  (hc.lacks_fixedText _ _).append (hc.lacks (by decide))

/-- A foreign character is not in a padded text if it is not in the text. -/
theorem lacks_padRight (hc : Foreign c) {text : String} (h : Lacks c text) (width : Nat) :
    Lacks c (padRight width text) :=
  h.append (hc.lacks_blanks _)

end Foreign

/-! ### Texts of one line -/

/-- There is no line end in the text. -/
def OneLine (text : String) : Prop := '\n' ∉ text.toList

instance (text : String) : Decidable (OneLine text) := inferInstanceAs (Decidable (_ ∉ _))

theorem foreign_lineEnd : Foreign '\n' := by decide

/-- A text in notation is one line. -/
theorem oneLine_of_read {text : String} {pool : Pool} (h : Pool.read text = .ok pool) :
    OneLine text := by
  intro hmem
  have hchar := Command.mem_of_readChars h '\n' hmem
  revert hchar
  decide

/-- A text of one line is one line in a color. -/
theorem oneLine_colored {text : String} (h : OneLine text) (c : Color) :
    OneLine (colored c text) := by
  have hnumber : ∀ n, Lacks '\n' (natural n) := foreign_lineEnd.lacks_natural
  have hescape : Lacks '\n' (escape.toString ++ "[38;2;") := by decide
  have hsemicolon : Lacks '\n' ";" := by decide
  have hred := (hescape.append (hnumber c.red.toNat)).append hsemicolon
  have hgreen := (hred.append (hnumber c.green.toNat)).append hsemicolon
  have hstart : Lacks '\n' c.start := (hgreen.append (hnumber c.blue.toNat)).append (by decide)
  exact (hstart.append h).append (by decide)

/-! ### Rows -/

/-- The line of a record in a table whose first columns have some widths: the text that was typed,
    the outcome, and how likely it was. -/
def recordLine (color : Bool) (diceWidth resultWidth : Nat) (r : Record) : String :=
  let typed := padRight diceWidth r.raw
  (if color then colored (labelColor r.raw) typed else typed) ++ "  " ++
    padRight resultWidth (integer r.outcome) ++ "  " ++ Drawn.percentage r.probability

/-- What follows the first cell in the line of a record. -/
def afterDice (resultWidth : Nat) (r : Record) : String :=
  "  " ++ padRight resultWidth (integer r.outcome) ++ "  " ++ Drawn.percentage r.probability

/-- Color only dresses the first cell. -/
theorem recordLine_eq (color : Bool) (diceWidth resultWidth : Nat) (r : Record) :
    recordLine color diceWidth resultWidth r =
      (if color then colored (labelColor r.raw) (padRight diceWidth r.raw)
        else padRight diceWidth r.raw) ++ afterDice resultWidth r := by
  simp only [recordLine, afterDice, String.append_assoc]

/-- A foreign character is not in what follows the first cell of a row. -/
theorem Foreign.lacks_afterDice {c : Char} (hc : Foreign c) (resultWidth : Nat) (r : Record) :
    Lacks c (afterDice resultWidth r) := by
  have hgap : Lacks c "  " := hc.lacks (by decide)
  have hresult := hc.lacks_padRight (hc.lacks_integer r.outcome) resultWidth
  exact ((hgap.append hresult).append hgap).append (hc.lacks_percentage r.probability)

/-- The row of a record with a text of one line is one line. -/
theorem oneLine_recordLine {r : Record} (h : OneLine r.raw) (color : Bool)
    (diceWidth resultWidth : Nat) : OneLine (recordLine color diceWidth resultWidth r) := by
  have hpadded : OneLine (padRight diceWidth r.raw) := foreign_lineEnd.lacks_padRight h diceWidth
  have hrest := foreign_lineEnd.lacks_afterDice resultWidth r
  rw [recordLine_eq]
  cases color with
  | false => exact Lacks.append hpadded hrest
  | true => exact Lacks.append (oneLine_colored hpadded _) hrest

/-- The header of a table. -/
def headerLine (diceWidth resultWidth : Nat) : String :=
  tableLine id diceWidth resultWidth tableHeader

/-- A foreign character is not in the header if it is in none of its cells. -/
theorem Foreign.lacks_headerLine {c : Char} (hc : Foreign c)
    (h : ∀ cell ∈ ["Dice", "Result", "Chance"], Lacks c cell) (diceWidth resultWidth : Nat) :
    Lacks c (headerLine diceWidth resultWidth) := by
  have hdice := hc.lacks_padRight (h "Dice" (by simp)) diceWidth
  have hresult := hc.lacks_padRight (h "Result" (by simp)) resultWidth
  have hgap : Lacks c "  " := hc.lacks (by decide)
  exact (((hdice.append hgap).append hresult).append hgap).append (h "Chance" (by simp))

/-- The header is one line. -/
theorem oneLine_headerLine (diceWidth resultWidth : Nat) :
    OneLine (headerLine diceWidth resultWidth) :=
  foreign_lineEnd.lacks_headerLine (by decide) diceWidth resultWidth

/-- No line of a table breaks. -/
theorem oneLine_of_mem {records : List Record} (h : ∀ r ∈ records, OneLine r.raw) (color : Bool)
    (diceWidth resultWidth : Nat) :
    ∀ line ∈ headerLine diceWidth resultWidth ::
      records.map (recordLine color diceWidth resultWidth), OneLine line := by
  intro line hline
  rcases List.mem_cons.mp hline with rfl | hline
  · exact oneLine_headerLine diceWidth resultWidth
  · obtain ⟨r, hr, rfl⟩ := List.mem_map.mp hline
    exact oneLine_recordLine (h r hr) color diceWidth resultWidth

/-! ### The table -/

/-- The rows of a table, its header first. -/
def tableRows (h : History) : List TableRow := tableHeader :: h.records.map .ofRecord

/-- The width of the first column: that of its widest cell. -/
def diceWidth (h : History) : Nat := widest ((tableRows h).map (·.dice))

/-- The width of the second column. -/
def resultWidth (h : History) : Nat := widest ((tableRows h).map (·.result))

/-- The table is its header and a line for each record. -/
theorem historyTable_eq (color : Bool) (h : History) :
    historyTable color h =
      unlines (headerLine (diceWidth h) (resultWidth h) ::
        h.records.map (recordLine color (diceWidth h) (resultWidth h))) := by
  have hline : ∀ r : Record,
      tableLine (if color then colored (labelColor (TableRow.ofRecord r).dice) else id)
        (diceWidth h) (resultWidth h) (.ofRecord r) =
          recordLine color (diceWidth h) (resultWidth h) r := by
    intro r
    cases color <;> rfl
  show unlines (headerLine (diceWidth h) (resultWidth h) ::
    (h.records.map TableRow.ofRecord).map _) = _
  rw [List.map_map]
  exact congrArg (fun rows => unlines (_ :: rows)) (List.map_congr_left fun r _ => hline r)

/-- A table is made of its header and a line for each record, in columns of some widths. -/
theorem historyTable_eq_unlines (color : Bool) (h : History) :
    ∃ diceWidth resultWidth, historyTable color h =
      unlines (headerLine diceWidth resultWidth ::
        h.records.map (recordLine color diceWidth resultWidth)) :=
  ⟨diceWidth h, resultWidth h, historyTable_eq color h⟩

end Dice.View
