import Cflat.Document.Basic
import Cflat.Scope.Tree

/-!
# Programs

A program is a unit document after all its checks: the scope tree of its
entities, the type table of the target it was checked for, and the name of the
source file.  Its entities are identified by the place they are declared at and
their name, which no two of them share.
-/

namespace Cflat

/-- Where an entity was declared, and under which name. -/
structure Site where
  place : Scope.Place
  name : String
  deriving DecidableEq, Repr

/-- A scope tree ready for generation.  The identifiers are those of the tree. -/
structure Program (ι : Type) where
  file : String
  scope : Scope.Tree ι
  types : Table

end Cflat
