import Dice.Json.Reader
import Dice.Proofs.Json.Spellings

namespace Dice.Json

/-!
# Written values are read back

The text of a value is read as the same value in either layout, as long as its strings and numbers
are spelled as the reader expects them.

* `Value.WellSpelled` — all spellings in a value are of this kind.
* `Value.ReadsBack` — the reader takes the characters of a value for that value, and no more.
* `readItems?_print`, `readMembers?_print` — the items of a list, and named values.
* `Value.WellSpelled.readsBack`, `Value.read?_text` — a value, and a whole text.
-/

/-- All strings and numbers of the value, and the names in it, are spelled as the reader expects
    them. -/
inductive Value.WellSpelled : Value → Prop where
  | null : Value.null.WellSpelled
  | bool (b : Bool) : (Value.bool b).WellSpelled
  | number {n : Numeral} (h : n.WellSpelled) : (Value.number n).WellSpelled
  | string {spelling : List Char} (h : IsSpelling spelling) : (Value.string spelling).WellSpelled
  | array {items : List Value} (h : ∀ v ∈ items, v.WellSpelled) : (Value.array items).WellSpelled
  | object {members : List (List Char × Value)} (hnames : ∀ m ∈ members, IsSpelling m.1)
      (h : ∀ m ∈ members, m.2.WellSpelled) : (Value.object members).WellSpelled

/-! ### White space -/

/-- Blanks end at the first other character. -/
theorem skipBlanks_cons {c : Char} (h : c ∉ [' ', '\n', '\t', '\r']) (text : List Char) :
    skipBlanks (c :: text) = c :: text := by
  simp only [List.mem_cons, List.not_mem_nil, or_false] at h
  simp [skipBlanks, h]

theorem skipBlanks_space (text : List Char) : skipBlanks (' ' :: text) = skipBlanks text := rfl

theorem skipBlanks_newline (text : List Char) : skipBlanks ('\n' :: text) = skipBlanks text := rfl

/-- The white space of a layout is skipped. -/
@[simp] theorem skipBlanks_lineStart (l : Layout) (level : Nat) (text : List Char) :
    skipBlanks (l.lineStart level ++ text) = skipBlanks text := by
  cases l with
  | compact => rfl
  | pretty =>
    have hspaces : ∀ n, skipBlanks (List.replicate n ' ' ++ text) = skipBlanks text := by
      intro n
      induction n with
      | zero => rfl
      | succ n ih => rwa [List.replicate_succ, List.cons_append, skipBlanks_space]
    rw [Layout.lineStart, List.cons_append, skipBlanks_newline, hspaces]

/-- A character that is no blank is found where it stands. -/
theorem expect?_eq_some {c : Char} (h : c ∉ [' ', '\n', '\t', '\r']) (text : List Char) :
    expect? c (c :: text) = some text := by
  simp [expect?, skipBlanks_cons h]

/-- A character is not found where another one stands. -/
theorem expect?_eq_none {c d : Char} (h : d ∉ [' ', '\n', '\t', '\r']) (hne : d ≠ c)
    (text : List Char) : expect? c (d :: text) = none := by
  simp [expect?, skipBlanks_cons h, hne]

/-- White space before a value does not count. -/
theorem readValue?_congr {text text' : List Char} (h : skipBlanks text = skipBlanks text')
    (steps : Nat) : readValue? steps text = readValue? steps text' := by
  cases steps with
  | zero => rfl
  | succ steps => simp only [readValue?, h]

/-- Blanks before a character do not matter. -/
theorem expect?_congr {text text' : List Char} (h : skipBlanks text = skipBlanks text') (c : Char) :
    expect? c text = expect? c text' := by
  simp only [expect?, h]

/-- A name is read with its colon. -/
theorem readName?_print {name : List Char} (h : IsSpelling name) (l : Layout) (level : Nat)
    (text : List Char) :
    ∃ rest, readName? (l.lineStart level ++ printString name ++ l.colon ++ text) =
        some (name, rest) ∧ skipBlanks rest = skipBlanks text := by
  have hquote : expect? '"' (l.lineStart level ++ printString name ++ l.colon ++ text) =
      some (name ++ '"' :: (l.colon ++ text)) := by
    rw [List.append_assoc, List.append_assoc, expect?_congr (skipBlanks_lineStart ..)]
    simpa [printString] using expect?_eq_some (by decide) (name ++ '"' :: (l.colon ++ text))
  refine ⟨(l.colon ++ text).tail, ?_, ?_⟩
  · have hcolon : expect? ':' (l.colon ++ text) = some (l.colon ++ text).tail := by
      cases l <;> exact expect?_eq_some (by decide) _
    simp only [readName?, hquote, h _, hcolon, Option.bind_eq_bind, Option.bind_some]
  · cases l with
    | compact => rfl
    | pretty => simp [Layout.colon, skipBlanks]

/-! ### Lists of values -/

/-- The reader takes the characters of the value for that value, whatever comes after it that does
    not go on with a number. -/
def Value.ReadsBack (l : Layout) (v : Value) : Prop :=
  ∀ (level steps : Nat) (rest : List Char), EndsNumber rest → (v.print l level).length < steps →
    readValue? steps (v.print l level ++ rest) = some (v, rest)

/-- A number ends where a new line starts, if it ends at what stands there. -/
theorem endsNumber_lineStart (l : Layout) (level : Nat) {c : Char} {rest : List Char}
    (h : EndsNumber (c :: rest)) : EndsNumber (l.lineStart level ++ c :: rest) := by
  cases l with
  | compact => exact h
  | pretty => exact endsNumber_cons (by decide)

/-- A number ends where further items of an array, or its end, follow. -/
theorem endsNumber_printItems (l : Layout) (level : Nat) (items : List Value) (rest : List Char) :
    EndsNumber (printItems l level items ++ rest) := by
  cases items with
  | nil =>
    rw [printItems, List.append_assoc]
    exact endsNumber_lineStart l level (endsNumber_cons (by decide))
  | cons v items => exact endsNumber_cons (by decide)

/-- A number ends where further members of an object, or its end, follow. -/
theorem endsNumber_printMembers (l : Layout) (level : Nat) (members : List (List Char × Value))
    (rest : List Char) : EndsNumber (printMembers l level members ++ rest) := by
  cases members with
  | nil =>
    rw [printMembers, List.append_assoc]
    exact endsNumber_lineStart l level (endsNumber_cons (by decide))
  | cons m members => exact endsNumber_cons (by decide)

/-- Items after an item are read back. -/
theorem readItems?_print {l : Layout} {items : List Value} (h : ∀ v ∈ items, v.ReadsBack l)
    (level steps : Nat) (rest : List Char)
    (hsteps : (printItems l level items).length < steps) :
    readItems? steps (printItems l level items ++ rest) = some (items, rest) := by
  induction items generalizing steps with
  | nil =>
    obtain ⟨steps, rfl⟩ := Nat.exists_eq_add_of_lt (Nat.zero_lt_of_lt hsteps)
    simp only [printItems, List.append_assoc, readItems?, skipBlanks_lineStart, List.cons_append,
      skipBlanks_cons (c := ']') (by decide), List.nil_append]
  | cons v items ih =>
    obtain ⟨steps, rfl⟩ := Nat.exists_eq_add_of_lt (Nat.zero_lt_of_lt hsteps)
    simp only [printItems, List.length_append, List.length_cons] at hsteps
    have hv := h v List.mem_cons_self (level + 1) steps (printItems l level items ++ rest)
      (endsNumber_printItems _ _ _ _) (by omega)
    have hitems := ih (fun w hw => h w (List.mem_cons_of_mem v hw)) steps (by omega)
    rw [← readValue?_congr (skipBlanks_lineStart l (level + 1) _)] at hv
    simp only [printItems, List.append_assoc, Nat.zero_add, readItems?, List.cons_append,
      skipBlanks_cons (c := ',') (by decide), hv, hitems, Option.bind_eq_bind, Option.bind_some]

/-- Named values after a named value are read back. -/
theorem readMembers?_print {l : Layout} {members : List (List Char × Value)}
    (hnames : ∀ m ∈ members, IsSpelling m.1) (h : ∀ m ∈ members, m.2.ReadsBack l)
    (level steps : Nat) (rest : List Char)
    (hsteps : (printMembers l level members).length < steps) :
    readMembers? steps (printMembers l level members ++ rest) = some (members, rest) := by
  induction members generalizing steps with
  | nil =>
    obtain ⟨steps, rfl⟩ := Nat.exists_eq_add_of_lt (Nat.zero_lt_of_lt hsteps)
    simp only [printMembers, List.append_assoc, readMembers?, skipBlanks_lineStart,
      List.cons_append, skipBlanks_cons (c := '\x7d') (by decide), List.nil_append]
  | cons m members ih =>
    obtain ⟨name, v⟩ := m
    obtain ⟨steps, rfl⟩ := Nat.exists_eq_add_of_lt (Nat.zero_lt_of_lt hsteps)
    simp only [printMembers, List.length_append, List.length_cons] at hsteps
    have hv := h _ List.mem_cons_self (level + 1) steps (printMembers l level members ++ rest)
      (endsNumber_printMembers _ _ _ _) (by simp only; omega)
    have hmembers := ih (fun n hn => hnames n (List.mem_cons_of_mem _ hn))
      (fun n hn => h n (List.mem_cons_of_mem _ hn)) steps (by omega)
    obtain ⟨after, hname, hafter⟩ := readName?_print (hnames _ List.mem_cons_self) l (level + 1)
      (v.print l (level + 1) ++ (printMembers l level members ++ rest))
    rw [← readValue?_congr hafter] at hv
    simp only [List.append_assoc] at hname
    simp only [printMembers, List.append_assoc, Nat.zero_add, readMembers?, List.cons_append,
      skipBlanks_cons (c := ',') (by decide), hname, hv, hmembers, Option.bind_eq_bind,
      Option.bind_some]

/-! ### Values -/

/-- A number starts with a minus sign or a digit. -/
theorem Numeral.WellSpelled.exists_print_eq_cons {n : Numeral} (h : n.WellSpelled) :
    ∃ c text, n.print = c :: text ∧ (c = '-' ∨ c.isDigit = true) := by
  obtain ⟨negative, whole, fraction, exponent⟩ := n
  cases negative with
  | true => exact ⟨'-', _, rfl, .inl rfl⟩
  | false =>
    obtain ⟨c, digits, rfl⟩ := List.exists_cons_of_ne_nil h.whole_ne
    exact ⟨c, _, rfl, .inr (h.whole c List.mem_cons_self)⟩

/-- What stands at the start of a number is neither white space nor a mark nor a letter. -/
theorem notMem_of_numberStart {c : Char} (h : c = '-' ∨ c.isDigit = true) :
    c ∉ [' ', '\n', '\t', '\r', ']', '\x7d', 'n', 't', 'f', '"', '[', '\x7b'] := by
  rcases h with rfl | hdigit
  · decide
  · intro hmem
    have hnone : ∀ d ∈ [' ', '\n', '\t', '\r', ']', '\x7d', 'n', 't', 'f', '"', '[', '\x7b'],
        d.isDigit = false := by simp
    rw [hnone c hmem] at hdigit
    cases hdigit

/-- The characters of a value start neither with white space nor with the end of a list. -/
theorem Value.WellSpelled.exists_print_eq_cons {v : Value} (h : v.WellSpelled) (l : Layout)
    (level : Nat) :
    ∃ c text, v.print l level = c :: text ∧ c ∉ [' ', '\n', '\t', '\r', ']', '\x7d'] := by
  cases h with
  | null => exact ⟨'n', _, rfl, by decide⟩
  | bool b => cases b <;> exact ⟨_, _, rfl, by decide⟩
  | number h =>
    obtain ⟨c, text, hprint, hc⟩ := h.exists_print_eq_cons
    refine ⟨c, text, by rw [print, hprint], fun hmem => notMem_of_numberStart hc ?_⟩
    exact List.mem_append_left ['n', 't', 'f', '"', '[', '\x7b'] hmem
  | string h => exact ⟨'"', _, rfl, by decide⟩
  | @array items h => cases items <;> exact ⟨'[', _, rfl, by decide⟩
  | @object members hnames h =>
    cases members with
    | nil => exact ⟨'\x7b', _, rfl, by decide⟩
    | cons m members => exact ⟨'\x7b', _, rfl, by decide⟩

/-- A number is read back. -/
theorem Value.readsBack_number {n : Numeral} (h : n.WellSpelled) (l : Layout) :
    (Value.number n).ReadsBack l := by
  intro level steps rest hrest hsteps
  obtain ⟨steps, rfl⟩ := Nat.exists_eq_add_of_lt (Nat.zero_lt_of_lt hsteps)
  have hread := readNumeral?_print h hrest
  obtain ⟨c, text, hprint, hc⟩ := h.exists_print_eq_cons
  have hstart := notMem_of_numberStart hc
  rw [hprint, List.cons_append] at hread
  rw [print, hprint, List.cons_append, Nat.zero_add, readValue?,
    skipBlanks_cons fun hmem => hstart (List.mem_append_left _ hmem)]
  simp only [List.mem_cons, List.not_mem_nil, or_false, not_or] at hstart
  split
  case h_7 => rw [hread]; rfl
  all_goals simp_all

/-- The first item of a list is read back with those after it. -/
theorem Value.readsBack_array {l : Layout} {items : List Value}
    (hitems : ∀ v ∈ items, v.WellSpelled) (h : ∀ v ∈ items, v.ReadsBack l) : (Value.array items).ReadsBack l := by
  intro level steps rest _ hsteps
  obtain ⟨steps, rfl⟩ := Nat.exists_eq_add_of_lt (Nat.zero_lt_of_lt hsteps)
  cases items with
  | nil =>
    simp [print, readValue?, skipBlanks, expect?]
  | cons v items =>
    simp only [print, List.length_append, List.length_cons] at hsteps
    have hv := h v List.mem_cons_self (level + 1) steps (printItems l level items ++ rest)
      (endsNumber_printItems _ _ _ _) (by omega)
    have hmore := readItems?_print (fun w hw => h w (List.mem_cons_of_mem v hw)) level steps rest
      (by omega)
    obtain ⟨c, text, hprint, hc⟩ :=
      (hitems v List.mem_cons_self).exists_print_eq_cons l (level + 1)
    have hfirst : expect? ']' (l.lineStart (level + 1) ++
        (v.print l (level + 1) ++ (printItems l level items ++ rest))) = none := by
      rw [expect?_congr (skipBlanks_lineStart ..), hprint]
      simp only [List.mem_cons, List.not_mem_nil, or_false, not_or] at hc
      exact expect?_eq_none (by simp [hc]) hc.2.2.2.2.1 _
    rw [← readValue?_congr (skipBlanks_lineStart l (level + 1) _)] at hv
    simp only [print, List.append_assoc, Nat.zero_add, readValue?, List.cons_append,
      skipBlanks_cons (c := '[') (by decide), hfirst, hv, hmore, Option.bind_eq_bind,
      Option.bind_some]

/-- The first named value of an object is read back with those after it. -/
theorem Value.readsBack_object {l : Layout} {members : List (List Char × Value)}
    (hnames : ∀ m ∈ members, IsSpelling m.1) (h : ∀ m ∈ members, m.2.ReadsBack l) :
    (Value.object members).ReadsBack l := by
  intro level steps rest _ hsteps
  obtain ⟨steps, rfl⟩ := Nat.exists_eq_add_of_lt (Nat.zero_lt_of_lt hsteps)
  cases members with
  | nil => simp [print, readValue?, skipBlanks, expect?]
  | cons m members =>
    obtain ⟨name, v⟩ := m
    simp only [print, List.length_append, List.length_cons] at hsteps
    have hv := h _ List.mem_cons_self (level + 1) steps (printMembers l level members ++ rest)
      (endsNumber_printMembers _ _ _ _) (by simp only; omega)
    have hmore := readMembers?_print (fun n hn => hnames n (List.mem_cons_of_mem _ hn))
      (fun n hn => h n (List.mem_cons_of_mem _ hn)) level steps rest (by omega)
    obtain ⟨after, hname, hafter⟩ := readName?_print (hnames _ List.mem_cons_self) l (level + 1)
      (v.print l (level + 1) ++ (printMembers l level members ++ rest))
    have hfirst : expect? '\x7d' (l.lineStart (level + 1) ++ (printString name ++ (l.colon ++
        (v.print l (level + 1) ++ (printMembers l level members ++ rest))))) = none := by
      rw [expect?_congr (skipBlanks_lineStart ..)]
      exact expect?_eq_none (by decide) (by decide) _
    rw [← readValue?_congr hafter] at hv
    simp only [List.append_assoc] at hname
    simp only [print, List.append_assoc, Nat.zero_add, readValue?, List.cons_append,
      skipBlanks_cons (c := '\x7b') (by decide), hfirst, hname, hv, hmore, Option.bind_eq_bind,
      Option.bind_some]

/-- A value whose spellings the reader expects is read back. -/
theorem Value.WellSpelled.readsBack {v : Value} (h : v.WellSpelled) (l : Layout) :
    v.ReadsBack l := by
  induction h with
  | null =>
    intro level steps rest _ hsteps
    obtain ⟨steps, rfl⟩ := Nat.exists_eq_add_of_lt (Nat.zero_lt_of_lt hsteps)
    simp [print, readValue?, skipBlanks]
  | bool b =>
    intro level steps rest _ hsteps
    obtain ⟨steps, rfl⟩ := Nat.exists_eq_add_of_lt (Nat.zero_lt_of_lt hsteps)
    cases b <;> simp [print, readValue?, skipBlanks]
  | number h => exact readsBack_number h l
  | @string spelling h =>
    intro level steps rest _ hsteps
    obtain ⟨steps, rfl⟩ := Nat.exists_eq_add_of_lt (Nat.zero_lt_of_lt hsteps)
    simp [print, printString, readValue?, skipBlanks, h rest]
  | array hitems ih => exact readsBack_array hitems ih
  | object hnames _ ih => exact readsBack_object hnames ih

/-- A text is read although white space comes after its value. -/
theorem Value.readChars?_print {v : Value} (h : v.WellSpelled) (l : Layout) {after : List Char}
    (hafter : skipBlanks after = []) : readChars? (v.print l 0 ++ after) = some v := by
  have hend : EndsNumber after := by
    cases after with
    | nil => exact endsNumber_nil
    | cons c after =>
      -- The first character is white space, or it would not have been skipped.
      have hblank : c ∈ [' ', '\n', '\t', '\r'] := by
        by_contra hsolid
        rw [skipBlanks_cons hsolid] at hafter
        cases hafter
      have hsolid : ∀ d ∈ [' ', '\n', '\t', '\r'],
          d.isDigit = false ∧ d ≠ '.' ∧ d ≠ 'e' ∧ d ≠ 'E' := by simp
      exact endsNumber_cons (hsolid c hblank)
  have hread := h.readsBack l 0 ((v.print l 0 ++ after).length + 1) after hend
    (by rw [List.length_append]; omega)
  simp only [readChars?, hread, Option.bind_eq_bind, Option.bind_some, if_pos hafter]

/-- The text of a value is read back. -/
theorem Value.read?_text {v : Value} (h : v.WellSpelled) (l : Layout) :
    Value.read? (v.text l) = some v := by
  have hread : readChars? (v.print l 0 ++ []) = some v := readChars?_print h l rfl
  rw [List.append_nil] at hread
  rwa [read?, text, String.toList_ofList]

/-- The text of a value on a line of its own is read back. -/
theorem Value.read?_line {v : Value} (h : v.WellSpelled) (l : Layout) :
    Value.read? (v.text l ++ "\n") = some v := by
  rw [read?, text, String.toList_append, String.toList_ofList]
  exact readChars?_print h l rfl

end Dice.Json
