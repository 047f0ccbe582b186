import Dice.Json.Reader

namespace Dice.Json

/-!
# How strings are spelled

* `spell` — a text as it stands between quotes: quotes, backslashes and controls are escaped.
* `unspell?` — the text of a spelling.  A character beyond 16 bits may be spelled as a pair of
  surrogates; a lone surrogate stands for no text.
-/

/-- The hexadecimal digit of a number below 16, in lower case. -/
def hexDigit (n : Nat) : Char :=
  Nat.digitChar n

/-- The spelling of a character. -/
def spellChar (c : Char) : List Char :=
  if c = '"' then ['\\', '"']
  else if c = '\\' then ['\\', '\\']
  else if c = '\x08' then ['\\', 'b']
  else if c = '\x0c' then ['\\', 'f']
  else if c = '\n' then ['\\', 'n']
  else if c = '\r' then ['\\', 'r']
  else if c = '\t' then ['\\', 't']
  else if c.toNat < 32 then ['\\', 'u', '0', '0', hexDigit (c.toNat / 16), hexDigit (c.toNat % 16)]
  else [c]

/-- The spelling of a text. -/
def spell (text : String) : List Char :=
  text.toList.flatMap spellChar

/-- The number of four hexadecimal digits. -/
def hexCode? (a b c d : Char) : Option Nat := do
  some (4096 * (← hexDigit? a) + 256 * (← hexDigit? b) + 16 * (← hexDigit? c) + (← hexDigit? d))

/-- The character that a letter after a backslash stands for. -/
def escapeOf? : Char → Option Char
  | '"' => some '"'
  | '\\' => some '\\'
  | '/' => some '/'
  | 'b' => some '\x08'
  | 'f' => some '\x0c'
  | 'n' => some '\n'
  | 'r' => some '\r'
  | 't' => some '\t'
  | _ => none

/-- Whether a number is the first half of a surrogate pair. -/
def isHighSurrogate (n : Nat) : Bool := 0xd800 ≤ n && n ≤ 0xdbff

/-- Whether a number is the second half of a surrogate pair. -/
def isLowSurrogate (n : Nat) : Bool := 0xdc00 ≤ n && n ≤ 0xdfff

/-- The character of a surrogate pair. -/
def pairedChar (high low : Nat) : Char :=
  Char.ofNat (0x10000 + 1024 * (high - 0xd800) + (low - 0xdc00))

/-- The characters that a spelling stands for. -/
def unspellChars? : List Char → Option (List Char)
  | [] => some []
  | '\\' :: 'u' :: a :: b :: c :: d :: rest =>
    match hexCode? a b c d with
    | none => none
    | some n =>
      if isLowSurrogate n then none
      else if isHighSurrogate n then
        match rest with
        | '\\' :: 'u' :: a :: b :: c :: d :: rest =>
          match hexCode? a b c d with
          | none => none
          | some m =>
            if isLowSurrogate m then (unspellChars? rest).map (pairedChar n m :: ·) else none
        | _ => none
      else (unspellChars? rest).map (Char.ofNat n :: ·)
  | '\\' :: c :: rest =>
    match escapeOf? c with
    | none => none
    | some e => (unspellChars? rest).map (e :: ·)
  | c :: rest => if c = '\\' then none else (unspellChars? rest).map (c :: ·)

/-- The text that a spelling stands for. -/
def unspell? (spelling : List Char) : Option String :=
  (unspellChars? spelling).map String.ofList

/-- The text of a string. -/
def Value.string? : Value → Option String
  | .string spelling => unspell? spelling
  | _ => none

/-- The string of a text. -/
def Value.ofString (text : String) : Value :=
  .string (spell text)

/-! ### Spellings are read back -/

/-- A hexadecimal digit is read as the number it was written for. -/
theorem hexDigit?_hexDigit : ∀ n < 16, hexDigit? (hexDigit n) = some n := by
  decide

/-- A character is read from its spelling, whatever follows. -/
theorem unspellChars?_spellChar (c : Char) (rest : List Char) :
    unspellChars? (spellChar c ++ rest) = (unspellChars? rest).map (c :: ·) := by
  unfold spellChar
  repeat' split
  case isTrue h => subst h; simp [unspellChars?, escapeOf?]
  case isTrue h => subst h; simp [unspellChars?, escapeOf?]
  case isTrue h => subst h; simp [unspellChars?, escapeOf?]
  case isTrue h => subst h; simp [unspellChars?, escapeOf?]
  case isTrue h => subst h; simp [unspellChars?, escapeOf?]
  case isTrue h => subst h; simp [unspellChars?, escapeOf?]
  case isTrue h => subst h; simp [unspellChars?, escapeOf?]
  case isTrue h =>
    have hhigh := hexDigit?_hexDigit (c.toNat / 16) (by omega)
    have hlow := hexDigit?_hexDigit (c.toNat % 16) (by omega)
    have hcode : hexCode? '0' '0' (hexDigit (c.toNat / 16)) (hexDigit (c.toNat % 16)) =
        some c.toNat := by
      have h0 : hexDigit? '0' = some 0 := by decide
      simp only [hexCode?, h0, hhigh, hlow, Option.bind_eq_bind, Option.bind_some, Option.some.injEq]
      omega
    have hnot : isLowSurrogate c.toNat = false ∧ isHighSurrogate c.toNat = false := by
      simp only [isLowSurrogate, isHighSurrogate, Bool.and_eq_false_iff, decide_eq_false_iff_not]
      omega
    simp only [List.cons_append, List.nil_append]
    rw [unspellChars?, hcode]
    simp [hnot.1, hnot.2, Char.ofNat_toNat]
  case isFalse h1 h2 _ _ _ _ _ _ =>
    simp only [List.cons_append, List.nil_append]
    rw [unspellChars?.eq_def]
    split <;> simp_all

/-- A text is what its spelling stands for. -/
@[simp] theorem unspell?_spell (text : String) : unspell? (spell text) = some text := by
  have h : ∀ cs : List Char, unspellChars? (cs.flatMap spellChar) = some cs := by
    intro cs
    induction cs with
    | nil => rfl
    | cons c cs ih => rw [List.flatMap_cons, unspellChars?_spellChar, ih]; rfl
  simp [unspell?, spell, h]

end Dice.Json
