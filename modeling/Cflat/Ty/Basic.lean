/-!
# Types

C-flat types as far as data layout needs them: void, the integer types, pointers
and arrays.  A type carries its own sizes, so types of two targets can stand
side by side.  A `Table` is a target: it knows the size of a pointer, which is
also the size of `long`.

Sizes are 64-bit words and wrap.
-/

namespace Cflat

/-- The integer types, up to their sign. -/
inductive Rank
  | char | short | int | long
  deriving DecidableEq, Repr

namespace Rank

/-- The name of a rank. -/
def spelling : Rank → String
  | char => "char"
  | short => "short"
  | int => "int"
  | long => "long"

end Rank

/-- A type with the sizes it has on its target. -/
inductive Ty
  | void
  | integer (signed : Bool) (rank : Rank) (bytes : Int64)
  | pointer (target : Ty) (bytes : Int64)
  | array (element : Ty) (length : Int64)
  deriving DecidableEq, Repr

namespace Ty

/-- The number of bytes of a value. -/
def size : Ty → Int64
  | void => 1
  | integer _ _ bytes => bytes
  | pointer _ bytes => bytes
  | array element length => element.size * length

/-- An array is aligned like its elements, everything else at its size. -/
def alignment : Ty → Int64
  | void => 1
  | integer _ _ bytes => bytes
  | pointer _ bytes => bytes
  | array element _ => element.alignment

/-- Whether a type is void. -/
def isVoid : Ty → Bool
  | void => true
  | _ => false

/-- Whether a type is an integer type. -/
def isInteger : Ty → Bool
  | integer .. => true
  | _ => false

/-- Whether a type is a pointer type. -/
def isPointer : Ty → Bool
  | pointer .. => true
  | _ => false

/-- Whether a type is an array type. -/
def isArray : Ty → Bool
  | array .. => true
  | _ => false

/-- Whether one data directive holds a value of the type. -/
def isScalar (t : Ty) : Bool :=
  t.isInteger || t.isPointer

end Ty

/-- The base types of a target. -/
structure Table where
  pointerSize : Int64
  deriving DecidableEq, Repr

namespace Table

/-- The number of bytes of an integer of some rank. -/
def rankSize (t : Table) : Rank → Int64
  | .char => 1
  | .short => 2
  | .int => 4
  | .long => t.pointerSize

/-- An integer type of the target. -/
def integer (t : Table) (signed : Bool) (rank : Rank) : Ty :=
  .integer signed rank (t.rankSize rank)

/-- The type of pointers to a type. -/
def pointerTo (t : Table) (target : Ty) : Ty :=
  .pointer target t.pointerSize

end Table

end Cflat
