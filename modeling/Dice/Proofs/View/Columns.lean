import Dice.Proofs.View.Table

namespace Dice.View

open Dice.Text

/-!
# Columns and colors of the table of past rolls

In the plain table every column starts at one display column in all lines.  The colored table is the
plain one with control sequences around the first cell of each row.  A scanner that knows nothing of
tables takes them out again.

* `IsWidth`, `isWidth_widest` — the width of the widest of some texts.
* `repeated` — blanks, and other characters that fill cells.
* `Laid`, `laid_tableLine` — a line in which the cells of a row start at given display columns.
* `dropControls` — a text without its control sequences.
* `Shows`, `shows_recordLine` — what is left of a text before anything that follows.
* `historyTable_in_columns` — the columns and the colors of a table.
-/

/-! ### Widths of columns -/

/-- The width of the widest of some texts. -/
structure IsWidth (width : Nat) (texts : List String) : Prop where
  /-- No text is wider. -/
  le : ∀ t ∈ texts, cells t ≤ width
  /-- One text is as wide. -/
  reached : ∃ t ∈ texts, cells t = width

/-- The width of the widest of some texts is reached, if there is a text. -/
theorem isWidth_widest {texts : List String} (h : texts ≠ []) : IsWidth (widest texts) texts := by
  cases hmax : (texts.map cells).max? with
  | none =>
    rw [List.max?_eq_none_iff, List.map_eq_nil_iff] at hmax
    exact absurd hmax h
  | some width =>
    have hwidest : widest texts = width := by
      rw [widest, List.foldl_max, hmax, Option.getD_some, Nat.zero_max]
    obtain ⟨hmem, hle⟩ := List.max?_eq_some_iff.mp hmax
    rw [hwidest]
    exact ⟨fun t ht => hle _ (List.mem_map_of_mem ht), List.mem_map.mp hmem⟩

/-! ### Rows in columns -/

/-- A character as often as asked for. -/
def repeated (c : Char) (n : Nat) : String :=
  String.ofList (List.replicate n c)

/-- The repetitions of a sum are those of both numbers, one after the other. -/
theorem repeated_add (c : Char) (m n : Nat) : repeated c (m + n) = repeated c m ++ repeated c n := by
  rw [repeated, List.replicate_add, String.ofList_append]
  rfl

/-- A character of one cell takes as many cells as it is repeated. -/
theorem cells_repeated {c : Char} (h : charCells c = 1) (n : Nat) : cells (repeated c n) = n := by
  rw [repeated, cells_ofList_eq_length fun d hd => List.eq_of_mem_replicate hd ▸ h,
    List.length_replicate]

/-- The line holds the cells of a row with blanks between them, and the second and the third cell
    start at given display columns. -/
def Laid (result chance : Nat) (row : TableRow) (line : String) : Prop :=
  ∃ gap gap' : Nat,
    line = row.dice ++ repeated ' ' gap ++ (row.result ++ repeated ' ' gap') ++ row.chance ∧
    cells (row.dice ++ repeated ' ' gap) = result ∧
    cells (row.dice ++ repeated ' ' gap ++ (row.result ++ repeated ' ' gap')) = chance

/-- A text that is padded and followed by two blanks is two cells wider than its column. -/
theorem padRight_gap {width : Nat} {text : String} (h : cells text ≤ width) :
    padRight width text ++ "  " = text ++ repeated ' ' (width - cells text + 2) ∧
      cells (text ++ repeated ' ' (width - cells text + 2)) = width + 2 := by
  refine ⟨?_, ?_⟩
  · rw [repeated_add, padRight, String.append_assoc]
    rfl
  · rw [cells_append, cells_repeated (by decide)]
    omega

/-- A line of a table starts the second and the third column two blanks after the widest cells
    before them. -/
theorem laid_tableLine {diceWidth resultWidth : Nat} {row : TableRow}
    (hdice : cells row.dice ≤ diceWidth) (hresult : cells row.result ≤ resultWidth) :
    Laid (diceWidth + 2) (diceWidth + 2 + (resultWidth + 2)) row
      (tableLine id diceWidth resultWidth row) := by
  obtain ⟨hfirst, hwidth⟩ := padRight_gap hdice
  obtain ⟨hsecond, hwidth'⟩ := padRight_gap hresult
  refine ⟨_, resultWidth - cells row.result + 2, ?_, hwidth, ?_⟩
  · rw [← hfirst, ← hsecond]
    simp only [tableLine, id, String.append_assoc]
  · rw [cells_append, hwidth, hwidth']

/-- Every row of a history, and the header, is laid out so. -/
theorem laid_of_mem {h : History} {row : TableRow} (hrow : row ∈ tableRows h) :
    Laid (diceWidth h + 2) (diceWidth h + 2 + (resultWidth h + 2)) row
      (tableLine id (diceWidth h) (resultWidth h) row) :=
  laid_tableLine ((isWidth_widest (by simp [tableRows])).le _ (List.mem_map_of_mem hrow))
    ((isWidth_widest (by simp [tableRows])).le _ (List.mem_map_of_mem hrow))

/-- The row of a record, cut after its first cell. -/
theorem laid_record {h : History} {r : Record} (hr : r ∈ h.records) :
    Laid (diceWidth h + 2) (diceWidth h + 2 + (resultWidth h + 2)) (.ofRecord r)
      (padRight (diceWidth h) r.raw ++ afterDice (resultWidth h) r) := by
  have hline : tableLine id (diceWidth h) (resultWidth h) (.ofRecord r) =
      padRight (diceWidth h) r.raw ++ afterDice (resultWidth h) r :=
    recordLine_eq false (diceWidth h) (resultWidth h) r
  rw [← hline]
  exact laid_of_mem (List.mem_cons_of_mem _ (List.mem_map_of_mem hr))

/-! ### Control sequences -/

/-- The digits of the numbers in a control sequence, and the semicolons that part them. -/
def isNumeric (c : Char) : Bool := c.isDigit || c == ';'

/-- What follows a control sequence, from the character after the escape: the sequence is a bracket,
    numbers that are parted by semicolons, and the letter `m`. -/
def afterControl? : List Char → Option (List Char)
  | '[' :: rest =>
    match rest.dropWhile isNumeric with
    | 'm' :: after => some after
    | _ => none
  | _ => none

/-- Less is left after a control sequence. -/
theorem length_of_afterControl? {text after : List Char} (h : afterControl? text = some after) :
    after.length < text.length := by
  unfold afterControl? at h
  split at h
  · next rest =>
    split at h
    · next more hmore =>
      cases h
      have hsuffix := (List.dropWhile_suffix (l := rest) isNumeric).length_le
      rw [hmore, List.length_cons] at hsuffix
      rw [List.length_cons]
      omega
    · cases h
  · cases h

/-- A text without its control sequences. -/
def dropControls : List Char → List Char
  | [] => []
  | c :: rest =>
    if c = '\x1b' then
      match _ : afterControl? rest with
      | some after => dropControls after
      | none => c :: dropControls rest
    else c :: dropControls rest
termination_by text => text.length
decreasing_by
  · next hafter =>
    have hlength := length_of_afterControl? hafter
    rw [List.length_cons]
    omega
  · rw [List.length_cons]
    omega
  · rw [List.length_cons]
    omega

/-- Any other character stays. -/
theorem dropControls_cons {c : Char} (hc : c ≠ '\x1b') (rest : List Char) :
    dropControls (c :: rest) = c :: dropControls rest := by
  rw [dropControls, if_neg hc]

/-- The characters between the bracket and the letter of a control sequence. -/
def IsNumbers (chars : List Char) : Prop := ∀ c ∈ chars, isNumeric c = true

/-- A control sequence is taken out. -/
theorem dropControls_control {numbers : List Char} (h : IsNumbers numbers) (rest : List Char) :
    dropControls ('\x1b' :: '[' :: (numbers ++ 'm' :: rest)) = dropControls rest := by
  have hend : (numbers ++ 'm' :: rest).dropWhile isNumeric = 'm' :: rest := by
    rw [List.dropWhile_append_of_pos h]
    exact List.dropWhile_cons_of_neg (by decide)
  have hafter : afterControl? ('[' :: (numbers ++ 'm' :: rest)) = some rest := by
    rw [afterControl?, hend]
    rfl
  rw [dropControls, if_pos rfl]
  split
  · next after hsome =>
    rw [hafter] at hsome
    cases hsome
    rfl
  · next hnone =>
    rw [hafter] at hnone
    cases hnone

/-! ### What a text shows -/

/-- Without control sequences the text is the other one, whatever follows it. -/
def Shows (text plain : String) : Prop :=
  ∀ rest : List Char, dropControls (text.toList ++ rest) = plain.toList ++ dropControls rest

/-- Texts written one behind the other show what they show. -/
theorem Shows.append {s t s' t' : String} (h : Shows s t) (h' : Shows s' t') :
    Shows (s ++ s') (t ++ t') := by
  intro rest
  rw [String.toList_append, String.toList_append, List.append_assoc, h, h', List.append_assoc]

/-- A text without escapes shows itself. -/
theorem shows_of_lacks {text : String} (h : Lacks '\x1b' text) : Shows text text := by
  intro rest
  unfold Lacks at h
  generalize text.toList = chars at h ⊢
  induction chars with
  | nil => rfl
  | cons c chars ih =>
    rw [List.mem_cons, not_or] at h
    rw [List.cons_append, dropControls_cons (Ne.symm h.1), ih h.2, List.cons_append]

/-- The numbers of the control sequence that starts a color. -/
def startNumbers (c : Color) : String :=
  "38;2;" ++ natural c.red.toNat ++ ";" ++ natural c.green.toNat ++ ";" ++ natural c.blue.toNat

/-- The numbers of a color are digits and semicolons. -/
theorem isNumbers_start (c : Color) : IsNumbers (startNumbers c).toList := by
  have hrun : ∀ n, IsNumbers (natural n).toList := by
    intro n d hd
    rw [isNumeric, Notation.isRun_natural n d hd, Bool.true_or]
  have hmode : IsNumbers "38;2;".toList := by simp [IsNumbers, isNumeric]
  have hsemicolon : IsNumbers ";".toList := by simp [IsNumbers, isNumeric]
  simp only [IsNumbers, startNumbers, String.toList_append, List.forall_mem_append]
  exact ⟨⟨⟨⟨⟨hmode, hrun _⟩, hsemicolon⟩, hrun _⟩, hsemicolon⟩, hrun _⟩

/-- The start of a color shows nothing. -/
theorem shows_start (c : Color) : Shows c.start "" := by
  intro rest
  have hchars : c.start.toList ++ rest =
      '\x1b' :: '[' :: ((startNumbers c).toList ++ 'm' :: rest) := by
    simp only [Color.start, startNumbers, String.toList_append, List.append_assoc]
    rfl
  rw [hchars, dropControls_control (isNumbers_start c)]
  rfl

/-- The end of a color shows nothing. -/
theorem shows_colorEnd : Shows colorEnd "" := by
  intro rest
  have hzero : IsNumbers ['0'] := by simp [IsNumbers, isNumeric]
  exact dropControls_control hzero rest

/-- A text in a color shows the text. -/
theorem shows_colored {text : String} (h : Lacks '\x1b' text) (c : Color) :
    Shows (colored c text) text := by
  have hshows := ((shows_start c).append (shows_of_lacks h)).append shows_colorEnd
  rwa [String.empty_append, String.append_empty] at hshows

/-- A line and the lines after it show together what each of them shows. -/
theorem Shows.unlines_cons {line plain : String} {lines plains : List String}
    (hline : Shows line plain) (hlines : Shows (unlines lines) (unlines plains)) :
    Shows (unlines (line :: lines)) (unlines (plain :: plains)) := by
  have hend : Shows "\n" "\n" := shows_of_lacks (by decide)
  simp only [unlines, List.map_cons, String.join_cons]
  exact (hline.append hend).append hlines

/-- Lines show what each of them shows. -/
theorem shows_unlines {α : Type} {xs : List α} {line plain : α → String}
    (h : ∀ x ∈ xs, Shows (line x) (plain x)) :
    Shows (unlines (xs.map line)) (unlines (xs.map plain)) := by
  induction xs with
  | nil =>
    intro rest
    rfl
  | cons x xs ih =>
    have hlines := ih fun y hy => h y (List.mem_cons_of_mem x hy)
    exact (h x List.mem_cons_self).unlines_cons hlines

/-! ### The table -/

/-- No number of a row has an escape. -/
theorem foreign_escape : Foreign '\x1b' := by decide

/-- The colored line of a record shows the plain one. -/
theorem shows_recordLine {r : Record} (h : Lacks '\x1b' r.raw) (diceWidth resultWidth : Nat) :
    Shows (recordLine true diceWidth resultWidth r) (recordLine false diceWidth resultWidth r) := by
  have hpadded := foreign_escape.lacks_padRight h diceWidth
  have hrest := shows_of_lacks (foreign_escape.lacks_afterDice resultWidth r)
  rw [recordLine_eq, recordLine_eq]
  exact (shows_colored hpadded _).append hrest

/-- The header shows itself. -/
theorem shows_headerLine (diceWidth resultWidth : Nat) :
    Shows (headerLine diceWidth resultWidth) (headerLine diceWidth resultWidth) :=
  shows_of_lacks (foreign_escape.lacks_headerLine (by decide) diceWidth resultWidth)

/-- A text in a color stands between the control sequence of its red, green and blue parts and the
    one that ends all colors. -/
theorem colored_eq (c : Color) (text : String) :
    colored c text = "\x1b[38;2;" ++ toString c.red.toNat ++ ";" ++ toString c.green.toNat ++ ";" ++
      toString c.blue.toNat ++ "m" ++ text ++ "\x1b[0m" := rfl

/-- The table of a history has three columns, the second and the third of which start two blanks
    after the widest cell before them, in the header and in every row.  The rows are those of the
    records, in their order.  The colored table is the same table with the padded first cell of each
    row between one control sequence, that sets a color of 24 bits got from the label alone, and one
    that ends it.  A text without its control sequences is the plain table if no label has an
    escape. -/
theorem historyTable_in_columns (h : History) :
    ∃ (diceWidth resultWidth : Nat) (header : String) (first rest : Record → String),
      IsWidth diceWidth ((tableRows h).map (·.dice)) ∧
      IsWidth resultWidth ((tableRows h).map (·.result)) ∧
      historyTable false h =
        String.join ((header :: h.records.map fun r => first r ++ rest r).map (· ++ "\n")) ∧
      historyTable true h =
        String.join ((header :: h.records.map fun r =>
          "\x1b[38;2;" ++ toString (labelColor r.raw).red.toNat ++ ";" ++
            toString (labelColor r.raw).green.toNat ++ ";" ++
            toString (labelColor r.raw).blue.toNat ++ "m" ++ first r ++ "\x1b[0m" ++ rest r).map
              (· ++ "\n")) ∧
      Laid (diceWidth + 2) (diceWidth + 2 + (resultWidth + 2)) tableHeader header ∧
      (∀ r ∈ h.records,
        Laid (diceWidth + 2) (diceWidth + 2 + (resultWidth + 2)) (.ofRecord r) (first r ++ rest r) ∧
        (∃ gap, first r = r.raw ++ repeated ' ' gap) ∧ cells (first r) = diceWidth) ∧
      ((∀ r ∈ h.records, Lacks '\x1b' r.raw) →
        dropControls (historyTable true h).toList = (historyTable false h).toList) := by
  have hdice : IsWidth (diceWidth h) ((tableRows h).map (·.dice)) :=
    isWidth_widest (by simp [tableRows])
  have hresult : IsWidth (resultWidth h) ((tableRows h).map (·.result)) :=
    isWidth_widest (by simp [tableRows])
  refine ⟨diceWidth h, resultWidth h, headerLine (diceWidth h) (resultWidth h),
    fun r => padRight (diceWidth h) r.raw, afterDice (resultWidth h), hdice, hresult, ?plain,
    ?colored, ?header, ?rows, ?dropped⟩
  case plain =>
    rw [historyTable_eq, List.map_congr_left fun r _ => recordLine_eq false _ _ r]
    rfl
  case colored =>
    have hline : ∀ r, recordLine true (diceWidth h) (resultWidth h) r = _ := fun r =>
      (recordLine_eq true _ _ r).trans (congrArg (· ++ _) (colored_eq _ _))
    rw [historyTable_eq, List.map_congr_left fun r _ => hline r]
    rfl
  case header => exact laid_of_mem List.mem_cons_self
  case rows =>
    intro r hr
    have hrow : TableRow.ofRecord r ∈ tableRows h :=
      List.mem_cons_of_mem _ (List.mem_map_of_mem hr)
    have hwidth : cells r.raw ≤ diceWidth h := hdice.le _ (List.mem_map_of_mem hrow)
    refine ⟨laid_record hr, ⟨_, rfl⟩, ?_⟩
    rw [cells_padRight, Nat.max_eq_left hwidth]
  case dropped =>
    intro hlabels
    have hrows : Shows (unlines (h.records.map (recordLine true (diceWidth h) (resultWidth h))))
        (unlines (h.records.map (recordLine false (diceWidth h) (resultWidth h)))) :=
      shows_unlines fun r hr => shows_recordLine (hlabels r hr) _ _
    have hshows := (shows_headerLine (diceWidth h) (resultWidth h)).unlines_cons hrows
    rw [← historyTable_eq, ← historyTable_eq] at hshows
    have hall := hshows []
    rwa [List.append_nil, dropControls, List.append_nil] at hall

/-- Two past rolls, the first under a label that takes two cells for each of its characters. -/
def wideHistory : History :=
  ⟨8, [⟨"骰骰骰", default, -3, [], 0.5, default⟩, ⟨"d6", default, 4, [4], 0.25, default⟩]⟩

/-- A label of wide characters shifts no column, and its color shows nothing. -/
theorem historyTable_in_columns_wide :
    (∀ r ∈ wideHistory.records, Lacks '\x1b' r.raw) ∧ diceWidth wideHistory = 6 ∧
      dropControls (historyTable true wideHistory).toList =
        (historyTable false wideHistory).toList := by
  have hlabels : ∀ r ∈ wideHistory.records, Lacks '\x1b' r.raw := by
    simp only [wideHistory, List.forall_mem_cons]
    exact ⟨by decide, by decide, by simp⟩
  obtain ⟨_, _, _, _, _, _, _, _, _, _, _, hdrop⟩ := historyTable_in_columns wideHistory
  exact ⟨hlabels, by decide +kernel, hdrop hlabels⟩

end Dice.View
