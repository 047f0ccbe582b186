import Dice.Command.Arguments
import Dice.Proofs.Command.Entries
import Dice.Proofs.Notation.Canonical

namespace Dice.Command

open Dice.Notation Dice.Text

/-!
# Command lines for rolls

What is asked for by a command line with a notation and a number of rolls, and by one that starts
the interactive calculator with as many past rolls kept.

* `rollArguments`, `promptArguments` — the two command lines, each with a seed.
* `Request.read_rollArguments`, `Request.read_promptArguments` — what they ask for.
-/

/-- The arguments that turn colors off, where they are off. -/
def colorArguments (color : Bool) : List String := if color then [] else ["--no-color"]

/-- The arguments that ask for JSON, where it is wanted. -/
def jsonArguments (json : Bool) : List String := if json then ["--json"] else []

/-- The command line for some rolls of the dice that a text describes, with a seed. -/
def rollArguments (text : String) (count seed : UInt64) (color json : Bool) : List String :=
  ["roll", text, "-n", natural count.toNat, "--seed", natural seed.toNat] ++ colorArguments color ++
    jsonArguments json

/-- The command line for the interactive calculator with a seed and a limit for past rolls. -/
def promptArguments (seed history : UInt64) (color : Bool) : List String :=
  ["repl", "--seed", natural seed.toNat, "--history", natural history.toNat] ++ colorArguments color

/-! ### Words among the arguments -/

/-- An argument that does not start with a dash is a word. -/
theorem Shape.of_eq_word {argument : String} (h : argument.toList.head? ≠ some '-') :
    Shape.of argument = .word := by
  unfold Shape.of
  split <;> simp_all

/-- A number is a word. -/
theorem Shape.of_natural (n : Nat) : Shape.of (natural n) = .word := by
  apply of_eq_word
  intro hdash
  cases isRun_natural n '-' (List.mem_of_mem_head? hdash)

/-- Notation is a word: it starts with a digit or with the letter of a mode. -/
theorem Shape.of_notation {text : String} {pool : Pool} (h : Pool.read text = .ok pool) :
    Shape.of text = .word := by
  apply of_eq_word
  obtain ⟨p, ⟨hshaped, -⟩, hchars, -⟩ := exists_pieces_of_readChars h
  rw [← hchars, Pieces.chars]
  cases hcount : p.count with
  | nil => cases p.mode <;> simp [Mode.letter]
  | cons c count =>
    intro hdash
    obtain rfl : c = '-' := by simpa using hdash
    cases hshaped.count '-' (hcount ▸ List.mem_cons_self)

/-- A word of 64 bits is read back from its decimal text. -/
theorem wordOf?_natural (n : UInt64) : wordOf? (natural n.toNat).toList = some n.toNat := by
  have hrun := isRun_natural n.toNat
  have hne := natural_ne_nil n.toNat
  have hvalue := value_natural n.toNat
  have hsize : n.toNat < UInt64.size := n.toNat_lt_size
  obtain ⟨c, digits, hdigits⟩ := List.exists_cons_of_ne_nil hne
  rw [hdigits] at hrun hvalue ⊢
  have hsign : c ≠ '+' := fun h => by cases h ▸ hrun c List.mem_cons_self
  have hall : (c :: digits).all Char.isDigit = true := List.all_eq_true.mpr hrun
  unfold wordOf?
  extract_lets unsigned
  have hunsigned : unsigned = c :: digits := by
    unfold unsigned
    split
    · next heq => exact absurd (List.cons.inj heq).1 hsign
    · rfl
  simp only [hunsigned]
  rw [if_pos ⟨by simp, hall, by omega⟩, hvalue]

/-! ### Arguments one after the other -/

/-- A word is put before the words after it. -/
theorem readArguments_word {scope : Scope} {word : String} (h : Shape.of word = .word)
    (rest : List String) (s : Settings) :
    readArguments scope none (word :: rest) s =
      (readArguments scope none rest s).map fun r => (r.1, word :: r.2) := by
  simp only [readArguments, h]
  cases readArguments scope none rest s <;> rfl

/-- An option that waits for its value is given the number after it. -/
theorem readArguments_amount {scope : Scope} {option : String} {a : Amount} {n : UInt64}
    {s s' : Settings} (rest : List String)
    (hoption : ∀ tail, readArguments scope none (option :: tail) s =
      readArguments scope (some a) tail s)
    (hgive : s.give a (natural n.toNat).toList = .ok s') :
    readArguments scope none (option :: natural n.toNat :: rest) s =
      readArguments scope none rest s' := by
  rw [hoption]
  simp only [readArguments, Shape.of_natural, hgive]
  rfl

/-- What is asked for after the name of a command. -/
theorem Request.read_cons {name : String} {scope : Scope} {rest words : List String} {s : Settings}
    {action : Action} (hname : Shape.of name = .word) (hscope : scopeOf? name = some scope)
    (hread : readArguments scope none rest {} = .ok (s, words))
    (haction : actionOf scope s words = .ok action) :
    Request.read (name :: rest) = .ok ⟨!s.noColor, action⟩ := by
  simp only [Request.read, readTop, hname, bind, Except.bind, hscope, hread, haction,
    Bool.false_or]

/-! ### The requests -/

/-- The command line asks for that many rolls from that seed. -/
theorem Request.read_rollArguments {text : String} (h : Shape.of text = .word)
    (count seed : UInt64) (color json : Bool) :
    Request.read (rollArguments text count seed color json) =
      .ok ⟨color, .roll text count.toNat (some seed) json⟩ := by
  have hread : readArguments .roll none (text :: "-n" :: natural count.toNat :: "--seed" ::
        natural seed.toNat :: (colorArguments color ++ jsonArguments json)) {} =
      .ok (⟨!color, json, none, some count.toNat, some seed.toNat, none⟩, [text]) := by
    have hcount : ({} : Settings).give .count (natural count.toNat).toList =
        .ok { count := some count.toNat } := by
      simp only [Settings.give, wordOf?_natural]
      rfl
    have hseed : ({ count := some count.toNat } : Settings).give .seed (natural seed.toNat).toList =
        .ok { count := some count.toNat, seed := some seed.toNat } := by
      simp only [Settings.give, wordOf?_natural]
      rfl
    rw [readArguments_word h, readArguments_amount _ (fun _ => rfl) hcount,
      readArguments_amount _ (fun _ => rfl) hseed]
    cases color <;> cases json <;> rfl
  have haction :
      actionOf .roll ⟨!color, json, none, some count.toNat, some seed.toNat, none⟩ [text] =
        .ok (.roll text count.toNat (some seed) json) := by
    simp only [actionOf, Option.map_some, UInt64.ofNat_toNat, Option.getD_some]
  have h := read_cons (show Shape.of "roll" = .word from rfl) rfl hread haction
  rwa [Bool.not_not] at h

/-- The command line starts the calculator with that seed and that limit. -/
theorem Request.read_promptArguments (seed history : UInt64) (color : Bool) :
    Request.read (promptArguments seed history color) =
      .ok ⟨color, .prompt (some seed) history.toNat defaultWidth⟩ := by
  have hread : readArguments .prompt none ("--seed" :: natural seed.toNat :: "--history" ::
        natural history.toNat :: colorArguments color) {} =
      .ok (⟨!color, false, none, none, some seed.toNat, some history.toNat⟩, []) := by
    have hseed : ({} : Settings).give .seed (natural seed.toNat).toList =
        .ok { seed := some seed.toNat } := by
      simp only [Settings.give, wordOf?_natural]
      rfl
    have hhistory : ({ seed := some seed.toNat } : Settings).give .history
        (natural history.toNat).toList =
        .ok { seed := some seed.toNat, history := some history.toNat } := by
      simp only [Settings.give, wordOf?_natural]
      rfl
    rw [readArguments_amount _ (fun _ => rfl) hseed, readArguments_amount _ (fun _ => rfl) hhistory]
    cases color <;> rfl
  have haction : actionOf .prompt
        ⟨!color, false, none, none, some seed.toNat, some history.toNat⟩ [] =
      .ok (.prompt (some seed) history.toNat defaultWidth) := by
    simp only [actionOf, Option.map_some, UInt64.ofNat_toNat, Option.getD_some, Option.getD_none]
  have h := read_cons (show Shape.of "repl" = .word from rfl) rfl hread haction
  rwa [Bool.not_not] at h

end Dice.Command
