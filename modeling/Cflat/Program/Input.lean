import Cflat.FileTree.Basic
import Cflat.Program.Load

/-!
# Programs from files

A program is loaded from the unit document in a file.  A document that does not
name its source file gets the path it was read from.
-/

namespace Cflat

/-- Why a file gives no program. -/
inductive InputError
  | unreadable (e : PathError)
  /-- The file holds no unit document. -/
  | malformed (path : String)
  | rejected (path : String) (e : LoadError)
  deriving DecidableEq, Repr

namespace InputError

/-- The text of an input error. -/
def message : InputError → String
  | unreadable e => e.message
  | malformed path => path ++ ": decoding unit: not a unit document"
  | rejected path e => path ++ ": " ++ e.message

end InputError

namespace FileTree

/-- The program in a file.  A directory can be opened but holds no document. -/
def loadProgram (t : FileTree) (types : Table) (path : String) : Except InputError (Program Site) :=
  match t.find path with
  | .error cause => .error (.unreadable ⟨.opening, path, cause⟩)
  | .ok .directory => .error (.malformed path)
  | .ok (.file text) =>
    match Document.decode? text with
    | none => .error (.malformed path)
    | some doc =>
      match doc.load types with
      | .error e => .error (.rejected path e)
      | .ok p => .ok { p with file := if p.file = "" then path else p.file }

end FileTree

end Cflat
