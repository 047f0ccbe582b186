import Dice.Json.Number
import Dice.Json.Printer
import Dice.Json.Spelling

namespace Dice.Json

/-!
# Types with a JSON form

* `JsonForm` — how the values of a type are written as JSON and read from it.
* `Value.record`, `fieldsOf?` — a structure as an object of its fields.  It is also read from an
  array of all its fields; unknown names are skipped.
* `toJson`, `ofJson?` — whole texts.

Instances for numbers, texts, characters, options and lists stand here.
-/

/-- How the values of a type are written as JSON and read from it. -/
class JsonForm (α : Type) where
  /-- The JSON of a value. -/
  encode : α → Value
  /-- The value of a JSON. -/
  decode? : Value → Option α

export JsonForm (encode decode?)

/-- The text of a value's JSON. -/
def toJson {α : Type} [JsonForm α] (l : Layout) (a : α) : String :=
  (encode a).text l

/-- The value of a JSON text. -/
def ofJson? (α : Type) [JsonForm α] (text : String) : Option α :=
  (Value.read? text).bind decode?

/-! ### Plain values -/

/-- The whole numbers of a word of 64 bits with a sign. -/
instance : JsonForm Int where
  encode := .ofInt
  decode? := Value.intWithin? Int64.minValue.toInt Int64.maxValue.toInt

/-- The natural numbers of a word of 64 bits. -/
instance : JsonForm Nat where
  encode n := .ofInt n
  decode? v := (v.intWithin? 0 (UInt64.size - 1)).map Int.toNat

instance : JsonForm UInt32 where
  encode n := .ofInt n.toNat
  decode? v := (v.intWithin? 0 (UInt32.size - 1)).map fun n => UInt32.ofNat n.toNat

instance : JsonForm Int32 where
  encode n := .ofInt n.toInt
  decode? v := (v.intWithin? Int32.minValue.toInt Int32.maxValue.toInt).map Int32.ofInt

instance : JsonForm Float where
  encode := .ofFloat
  decode? := Value.float?

instance : JsonForm String where
  encode := .ofString
  decode? := Value.string?

/-- A character is a string of one character. -/
instance : JsonForm Char where
  encode c := .ofString c.toString
  decode? v :=
    match v.string? with
    | some s => match s.toList with
      | [c] => some c
      | _ => none
    | none => none

/-- What is missing is nothing. -/
instance {α : Type} [JsonForm α] : JsonForm (Option α) where
  encode
    | some a => encode a
    | none => .null
  decode?
    | .null => some none
    | v => (decode? v).map some

instance {α : Type} [JsonForm α] : JsonForm (List α) where
  encode items := .array (items.map encode)
  decode?
    | .array items => items.mapM decode?
    | _ => none

/-! ### Structures -/

/-- The object of named values. -/
def Value.record (fields : List (String × Value)) : Value :=
  .object (fields.map fun f => (spell f.1, f.2))

/-- The value of a name.  No name may come twice. -/
def member? (members : List (String × Value)) (name : String) : Option (Option Value) :=
  match members.filter fun m => m.1 == name with
  | [] => some none
  | [m] => some (some m.2)
  | _ => none

/-- The members of an object with their names as texts. -/
def namedMembers? (members : List (List Char × Value)) : Option (List (String × Value)) :=
  members.mapM fun m => (unspell? m.1).map (·, m.2)

/-- The values of the fields of a structure, as far as they are there.  An array holds all fields
    in order. -/
def fieldsOf? (names : List String) : Value → Option (List (Option Value))
  | .object members => (namedMembers? members).bind fun ms => names.mapM (member? ms)
  | .array items => if items.length = names.length then some (items.map some) else none
  | _ => none

/-- A field that must be there. -/
def required? {α : Type} [JsonForm α] (v : Option Value) : Option α :=
  v.bind decode?

/-- A field that is nothing if it is not there. -/
def optional? {α : Type} [JsonForm α] : Option Value → Option (Option α)
  | none => some none
  | some v => decode? v

/-! ### Names -/

/-- The name that a value spells: a string, or an object that has the name alone, with nothing as
    its value. -/
def Value.name? : Value → Option String
  | .string spelling => unspell? spelling
  | .object [(spelling, .null)] => unspell? spelling
  | _ => none

end Dice.Json
