import Cflat.Fault
import Cflat.Program.Basic
import Cflat.Text.Padding

/-!
# The entity dump

A table of the classified variables with their symbols, storage and layout,
followed by the functions.
-/

namespace Cflat.Program

open Scope (Entity)

variable {ι : Type} [DecidableEq ι]

/-- The line of a variable. -/
def dumpVariable (t : Scope.Tree ι) (v : Entity ι) : Except Fault String :=
  match v.type with
  | none => .error .missingType
  | some type =>
    .ok ("  " ++ Text.padRight 20 (t.symbol v) ++ " " ++ Text.padRight 8 v.storage.text ++
      s!" size={type.size} align={type.alignment}\n")

/-- A step of a dump, which works on the tree itself. -/
abbrev Dump (ι : Type) := ExceptT Fault (StateM (Scope.Tree ι))

/-- The variables of one class, under a title. -/
def dumpSection (title : String) (vars : Scope.Classes ι → List (Entity ι)) : Dump ι String := do
  let c ← modifyGet Scope.Tree.classify
  let t ← get
  let lines ← MonadExcept.ofExcept ((vars c).mapM (dumpVariable t))
  return title ++ ":\n" ++ String.join lines

/-- The dump of a tree, which classifies it. -/
def dump : Dump ι String := do
  let initialized ← dumpSection "initialized" (·.initialized)
  let common ← dumpSection "common" (·.common)
  let externals ← dumpSection "extern" (·.externals)
  let functions := (← get).functions.map fun f => "  " ++ f.text ++ "\n"
  return initialized ++ common ++ externals ++ "functions:\n" ++ String.join functions

end Cflat.Program
