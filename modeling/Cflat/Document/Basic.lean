/-!
# Unit documents

A unit document is what the front end hands over: the entities of one source
file after name resolution, with the spelling of their types, their initial
values and the blocks of their bodies.  Nothing in it has been checked yet.
-/

namespace Cflat.Document

/-- An initial value as written.  A well-formed one has exactly one of an
integer, a string and a symbol that is not empty. -/
structure Init where
  int : Option Int64 := none
  string : Option String := none
  symbol : String := ""
  offset : Int64 := 0
  deriving DecidableEq, Repr

/-- A variable of a block as written. -/
structure LocalVar where
  name : String := ""
  type : String := ""
  storage : String := ""
  init : Option Init := none
  deriving DecidableEq, Repr

/-- A block of a function body. -/
structure Block where
  vars : List LocalVar := []
  blocks : List Block := []
  deriving Repr

/-- An entity of the file scope as written. -/
structure Item where
  kind : String := ""
  name : String := ""
  type : String := ""
  isStatic : Bool := false
  init : Option Init := none
  body : Option Block := none
  deriving Repr

end Cflat.Document

namespace Cflat

/-- A unit document: the source file and its entities in order. -/
structure Document where
  file : String := ""
  items : List Document.Item := []
  deriving Repr

end Cflat
