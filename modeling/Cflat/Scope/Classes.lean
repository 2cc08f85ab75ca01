import Cflat.Scope.Entity

/-!
# Classes of variables

Defined variables of static duration are the top-level ones followed by the
static locals in tree order.  Those with an initial value go into the data
section, the others are left to the linker as common symbols.

Static locals of one name are numbered in tree order from zero.
-/

namespace Cflat.Scope

/-- The variables of a tree by what becomes of them. -/
structure Classes (ι : Type) where
  all : List (Entity ι)
  initialized : List (Entity ι)
  common : List (Entity ι)
  externals : List (Entity ι)
  statics : List (Entity ι)
  deriving Repr

variable {ι : Type}

/-- The classes of some top-level entities and static locals. -/
def Classes.of (entities statics : List (Entity ι)) : Classes ι :=
  let all := (entities ++ statics).filter (·.kind = .definedVariable)
  { all
    initialized := all.filter (·.init.isSome)
    common := all.filter (·.init.isNone)
    externals := entities.filter (·.kind = .externVariable)
    statics }

/-- Pair each entity with the number of earlier ones of the same name; `seen`
holds the names that come before the list. -/
def numberFrom (seen : List String) : List (Entity ι) → List (ι × Nat)
  | [] => []
  | e :: rest => (e.id, seen.count e.name) :: numberFrom (e.name :: seen) rest

/-- The classes and the numbers of some top-level entities and static locals, kept. -/
structure Classified (entities statics : List (Entity ι)) where
  classes : Classes ι
  /-- The numbers that were given to static locals. -/
  ordinals : List (ι × Nat)
  classes_eq : classes = .of entities statics
  ordinals_eq : ordinals = numberFrom [] statics

/-- Classify some entities and number the static locals among them. -/
def Classified.of (entities statics : List (Entity ι)) : Classified entities statics where
  classes := .of entities statics
  ordinals := numberFrom [] statics
  classes_eq := rfl
  ordinals_eq := rfl

instance {entities statics : List (Entity ι)} : Subsingleton (Classified entities statics) where
  allEq := by
    rintro ⟨classes, ordinals, rfl, rfl⟩ ⟨classes', ordinals', rfl, rfl⟩
    rfl

end Cflat.Scope
