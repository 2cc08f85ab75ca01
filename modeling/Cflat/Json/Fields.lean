import Cflat.Json.Basic
import Cflat.Text.Decimal

/-!
# Records in JSON

An object key names a record field without regard to case, and a key may be
repeated.  A later value is then written over the earlier one: a scalar replaces
it, an object adds to it, a list is written over it item by item.  `null` leaves a
plain field alone and clears an optional one.

All functions here take the values that were written to one place, oldest
first.  The checks say whether a single value has the form its place wants.
-/

namespace Cflat.Json

/-- Case folding of the characters that occur in field names.  The long s and
the Kelvin sign fold to ASCII letters. -/
def foldChar (c : Char) : Char :=
  if 'A' ≤ c && c ≤ 'Z' then Char.ofNat (c.toNat + 32)
  else if c.toNat = 0x17f then 's'
  else if c.toNat = 0x212a then 'k'
  else c

/-- Whether a key names the field. -/
def names (field key : String) : Bool :=
  key.toList.map foldChar == field.toList.map foldChar

/-- The values written to a field of a record. -/
def fieldWrites (field : String) (writes : List Json) : List Json :=
  writes.flatMap fun
    | .object members => (members.filter fun m => names field m.1).map (·.2)
    | _ => []

/-- A text field: the last text written, at first the empty one. -/
def lastString (writes : List Json) : String :=
  writes.foldl (fun old w => match w with | .string s => s | _ => old) ""

/-- A truth field: the last value written, at first false. -/
def lastBool (writes : List Json) : Bool :=
  writes.foldl (fun old w => match w with | .bool b => b | _ => old) false

/-- The integer a literal denotes, if it has neither fraction nor exponent and
is in range. -/
def int? (literal : List Char) : Option Int64 :=
  Text.readInt64? literal

/-- A number field: the last integer written, at first zero. -/
def lastInt (writes : List Json) : Int64 :=
  writes.foldl (fun old w => match w with | .number l => (int? l).getD old | _ => old) 0

/-- The writes since the field was last cleared. -/
def sinceNull (writes : List Json) : List Json :=
  writes.foldl (fun kept w => match w with | .null => [] | w => kept ++ [w]) []

/-- An optional field: nothing when the last write cleared it. -/
def optional {α : Type} (read : List Json → α) (writes : List Json) : Option α :=
  match sinceNull writes with
  | [] => none
  | kept => some (read kept)

/-- The lists written since the field was last empty. -/
def listWrites (writes : List Json) : List (List Json) :=
  writes.foldl (fun rows w => match w with | .array (x :: xs) => rows ++ [x :: xs] | _ => []) []

/-- The items of a list field.  The last list written gives their number; each
item has been written once by every list that reaches it. -/
def listItems (writes : List Json) : List (List Json) :=
  let rows := listWrites writes
  match rows.getLast? with
  | none => []
  | some last => (List.range last.length).map fun i => rows.filterMap (·[i]?)

/-- Whether a text field can take the value. -/
def isStringField : Json → Bool
  | .null | .string _ => true
  | _ => false

/-- Whether a truth field can take the value. -/
def isBoolField : Json → Bool
  | .null | .bool _ => true
  | _ => false

/-- Whether a number field can take the value. -/
def isIntField : Json → Bool
  | .null => true
  | .number l => (int? l).isSome
  | _ => false

/-- A record whose members all satisfy `ok`, or nothing. -/
def isRecord (ok : String → Json → Bool) : Json → Bool
  | .null => true
  | .object members => members.all fun m => ok m.1 m.2
  | _ => false

/-- A list whose items all satisfy `ok`, or nothing. -/
def isListOf (ok : Json → Bool) : Json → Bool
  | .null => true
  | .array items => items.all ok
  | _ => false

end Cflat.Json
