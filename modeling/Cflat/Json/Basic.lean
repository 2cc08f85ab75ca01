/-!
# JSON values

A value as it is written: an object keeps its members in order, repeated keys
included, and a number keeps its literal.
-/

namespace Cflat

/-- A JSON value. -/
inductive Json
  | null
  | bool (b : Bool)
  | number (literal : List Char)
  | string (text : String)
  | array (items : List Json)
  | object (members : List (String × Json))
  deriving Repr

namespace Json

/-- How deeply arrays and objects may be nested. -/
def maxDepth : Nat := 10000

end Json

end Cflat
