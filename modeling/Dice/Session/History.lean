import Dice.Calendar.Timestamp
import Dice.Law
import Dice.Roll

namespace Dice

/-!
# Past rolls

* `Record` — a roll that was made: what was typed, what came up, and how likely it was.
* `History` — the records kept, newest first.
* `History.push` — keeping one more record, and dropping the oldest beyond the limit.
-/

/-- A roll that was made. -/
structure Record where
  /-- The notation as it was typed. -/
  raw : String
  /-- The pool that was rolled. -/
  pool : Pool
  /-- The total that came up. -/
  outcome : Int
  /-- The faces that came up. -/
  faces : List UInt32
  /-- The probability of the total. -/
  probability : Float
  /-- When the pool was rolled. -/
  rolledAt : Calendar.Timestamp
deriving Inhabited

/-- Records of rolls, newest first. -/
structure History where
  /-- How many records are kept. -/
  limit : Nat
  /-- The records, newest first. -/
  records : List Record
deriving Inhabited

namespace History

/-- The history without a record. -/
def empty (limit : Nat) : History := ⟨limit, []⟩

/-- Keeps one more record.  The oldest records go where there are more than the limit allows. -/
def push (h : History) (r : Record) : History :=
  { h with records := (r :: h.records).take h.limit }

/-- A record, counted from 0 at the newest. -/
def get? (h : History) (index : Nat) : Option Record :=
  h.records[index]?

/-- The newest record. -/
def latest (h : History) : Option Record :=
  h.records.head?

/-- How many records there are. -/
def size (h : History) : Nat :=
  h.records.length

/-- Forgets all records. -/
def clear (h : History) : History :=
  { h with records := [] }

/-! ### The records after each operation -/

@[simp] theorem records_empty (limit : Nat) : (empty limit).records = [] := rfl

/-- A new record comes first, and the oldest ones beyond the limit are dropped. -/
@[simp] theorem records_push (h : History) (r : Record) :
    (h.push r).records = (r :: h.records).take h.limit := rfl

@[simp] theorem records_clear (h : History) : h.clear.records = [] := rfl

@[simp] theorem limit_empty (limit : Nat) : (empty limit).limit = limit := rfl

@[simp] theorem limit_push (h : History) (r : Record) : (h.push r).limit = h.limit := rfl

@[simp] theorem limit_clear (h : History) : h.clear.limit = h.limit := rfl

end History

end Dice
