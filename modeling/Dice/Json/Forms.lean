import Dice.Calendar.Reader
import Dice.Calendar.Written
import Dice.Json.Form
import Dice.Session.Session

namespace Dice.Json

open Dice.Notation

/-!
# The JSON forms of pools, laws, records and sessions

Structures are objects whose fields come in a fixed order.  A distribution is an object whose names
are the outcomes.
-/

/-! ### Notation -/

instance : JsonForm Mode where
  encode
    | .standard => .ofString "Standard"
    | .unique => .ofString "Unique"
  decode? v :=
    match v.name? with
    | some "Standard" => some .standard
    | some "Unique" => some .unique
    | _ => none

/-- The name of what was expected. -/
def expectedName : Expected → String
  | .number => "Number"
  | .nonZero => "NonZero"
  | .smaller => "Smaller"
  | .mode => "Mode"
  | .ending => "End"

/-- What a name says was expected. -/
def expectedOf? (name : String) : Option Expected :=
  match name with
  | "Number" => some .number
  | "NonZero" => some .nonZero
  | "Smaller" => some .smaller
  | "Mode" => some .mode
  | "End" => some .ending
  | _ => none

instance : JsonForm Expected where
  encode e := .ofString (expectedName e)
  decode? v := v.name?.bind expectedOf?

instance : JsonForm Fault where
  encode f := .record
    [("position", encode f.position), ("found", encode f.found), ("expected", encode f.expected)]
  decode? v := do
    match ← fieldsOf? ["position", "found", "expected"] v with
    | [position, found, expected] =>
      some ⟨← required? position, ← optional? found, ← required? expected⟩
    | _ => none

instance : JsonForm Pool where
  encode p := .record
    [("num_dice", encode p.count), ("mode", encode p.mode), ("die", encode p.faces),
     ("offset", encode p.offset)]
  decode? v := do
    match ← fieldsOf? ["num_dice", "mode", "die", "offset"] v with
    | [count, mode, faces, offset] =>
      some ⟨← required? count, ← required? mode, ← required? faces, ← required? offset⟩
    | _ => none

instance : JsonForm Roll where
  encode r := .record
    [("total", encode r.total), ("individual_rolls", encode r.faces), ("roll_used", encode r.pool)]
  decode? v := do
    match ← fieldsOf? ["total", "individual_rolls", "roll_used"] v with
    | [total, faces, pool] => some ⟨← required? total, ← required? faces, ← required? pool⟩
    | _ => none

/-! ### Laws -/

/-- The outcome that a name spells: a whole number, and no character besides. -/
def outcomeOf? (spelling : List Char) : Option Int :=
  match readNumeral? spelling with
  | some (n, []) => decode? (.number n)
  | _ => none

/-- Names are outcomes; the last weight of an outcome counts. -/
instance : JsonForm (Distribution Float) where
  encode d := .object (d.entries.map fun e => ((Numeral.ofInt e.1).print, encode e.2))
  decode?
    | .object members =>
      (members.mapM fun m : List Char × Value => do some (← outcomeOf? m.1, ← decode? m.2)).map .ofLast
    | _ => none

instance : JsonForm (Law Float) where
  encode l := .record
    [("lower_bound", encode l.lowest), ("upper_bound", encode l.highest),
     ("distribution", encode l.distribution)]
  decode? v := do
    match ← fieldsOf? ["lower_bound", "upper_bound", "distribution"] v with
    | [lowest, highest, distribution] =>
      some ⟨← required? lowest, ← required? highest, ← required? distribution⟩
    | _ => none

/-! ### Sessions -/

instance : JsonForm Calendar.Timestamp where
  encode t := .ofString t.text
  decode? v := v.string?.bind Calendar.Timestamp.read?

instance : JsonForm Config where
  encode c := .record
    [("history_limit", encode c.historyLimit), ("initial_notation", encode c.initialText)]
  decode? v := do
    match ← fieldsOf? ["history_limit", "initial_notation"] v with
    | [historyLimit, initialText] => some ⟨← required? historyLimit, ← required? initialText⟩
    | _ => none

instance : JsonForm Selection where
  encode d := .record [("raw", encode d.raw), ("spec", encode d.pool), ("stats", encode d.law)]
  decode? v := do
    match ← fieldsOf? ["raw", "spec", "stats"] v with
    | [raw, pool, law] => some ⟨← required? raw, ← required? pool, ← required? law⟩
    | _ => none

instance : JsonForm Record where
  encode r := .record
    [("raw", encode r.raw), ("spec", encode r.pool), ("outcome", encode r.outcome),
     ("individual_rolls", encode r.faces), ("probability", encode r.probability),
     ("rolled_at", encode r.rolledAt)]
  decode? v := do
    match ← fieldsOf? ["raw", "spec", "outcome", "individual_rolls", "probability", "rolled_at"] v with
    | [raw, pool, outcome, faces, probability, rolledAt] =>
      some ⟨← required? raw, ← required? pool, ← required? outcome, ← required? faces,
        ← required? probability, ← required? rolledAt⟩
    | _ => none

instance : JsonForm History where
  encode h := .record [("limit", encode h.limit), ("rolls", encode h.records)]
  decode? v := do
    match ← fieldsOf? ["limit", "rolls"] v with
    | [limit, records] => some ⟨← required? limit, ← required? records⟩
    | _ => none

instance : JsonForm Session where
  encode s := .record
    [("raw", encode s.raw), ("error", encode s.fault), ("dice", encode s.selection),
     ("history", encode s.history)]
  decode? v := do
    match ← fieldsOf? ["raw", "error", "dice", "history"] v with
    | [raw, fault, selection, history] =>
      some ⟨← required? raw, ← optional? fault, ← optional? selection, ← required? history⟩
    | _ => none

end Dice.Json
