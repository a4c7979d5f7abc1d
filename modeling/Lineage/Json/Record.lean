import Lineage.Json.Text

/-!
Shapes of JSON values. A record is read from an object, whose members come in any order, or from an
array with exactly its fields in order.
-/

namespace Lineage.Json

/-- The values of the named fields, `none` for one that an object lacks. A field given twice has no
value, and neither has a record with a key that is no text; other keys are passed over. -/
def record? (fields : List String) : Json → Option (List (Option Json))
  | .array items => if items.length = fields.length then some (items.map some) else none
  | .object members =>
    if members.any (·.1.isNone) then none
    else if fields.any fun field => 1 < members.countP (·.1 == some field) then none
    else some (fields.map fun field => members.lookup (some field))
  | _ => none

/-- A record that admits no other keys. -/
def closedRecord? (fields : List String) (value : Json) : Option (List (Option Json)) :=
  match value with
  | .object members =>
    if members.all fun (key, _) => key.any (· ∈ fields) then record? fields value else none
  | _ => record? fields value

/-- The name of an alternative: a string, or an object that maps the name to `null`. -/
def alternative? : Json → Option String
  | .string text => text
  | .object [(key, .null)] => key
  | _ => none

def text? : Json → Option String
  | .string text => text
  | _ => none

/-- A natural number below `bound`. -/
def natBelow? (bound : Nat) : Json → Option Nat
  | .number n => n.toNat?.filter (· < bound)
  | _ => none

/-- A natural number of 64 bits. -/
def size? (value : Json) : Option Nat :=
  value.natBelow? UInt64.size

def float? : Json → Option Float
  | .number n => n.toFloat?
  | _ => none

/-- An optional value: `null` for none, anything else for a value of the given shape. -/
def optional? {α : Type} (read : Json → Option α) : Json → Option (Option α)
  | .null => some none
  | value => (read value).map some

def array? {α : Type} (read : Json → Option α) : Json → Option (List α)
  | .array items => items.mapM read
  | _ => none

end Lineage.Json
