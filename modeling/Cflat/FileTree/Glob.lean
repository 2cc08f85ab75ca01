import Cflat.FileTree.Basic
import Cflat.Path.Pattern
import Cflat.Text.Blank

/-!
# Finding files by pattern

`glob` lists the paths that a pattern matches.  The parts of the pattern before the
first special one name a directory; from there each part selects names, the names
within a directory in order.  `expand` takes several patterns, drops what is not a
regular file, and lists each file once, by its absolute path.

A malformed pattern is an error only if matching it against the empty name, or
against a name in a directory, comes to what is wrong.
-/

namespace Cflat

/-- A pattern that was found malformed. -/
structure BadPattern where
  pattern : String
  deriving DecidableEq, Repr

namespace BadPattern

/-- The text of a malformed pattern. -/
def message (e : BadPattern) : String :=
  "bad pattern " ++ e.pattern ++ ": syntax error in pattern"

end BadPattern

namespace FileTree

/-- The directory that some parts of a pattern name. -/
def directoryOf (parts : List String) : String :=
  if parts = [] then "." else if parts = [""] then "/" else String.intercalate "/" parts

/-- The paths of the matching names in a directory; nothing if a name shows that
the pattern is malformed. -/
def globIn (t : FileTree) (p : Path.Pattern) (dir : String) : Option (List String) :=
  ((t.names dir).filterM p.matchesName?).map fun names =>
    names.map fun name => Path.join [dir, name]

/-- The paths that one more part of a pattern selects in some directories. -/
def globPart (t : FileTree) (dirs : List String) (part : String) : Option (List String) :=
  (dirs.mapM (t.globIn (Path.Pattern.ofString part))).map List.flatten

/-- How many parts a pattern may have from the first special one on. -/
def maxGlobDepth : Nat := 10000

/-- The paths that a pattern matches, or nothing if it is found malformed. -/
def glob? (t : FileTree) (pattern : String) : Option (List String) :=
  let parts := Path.parts pattern
  let plain := parts.takeWhile fun part => !Path.Pattern.hasSpecial part
  let special := parts.drop plain.length
  if Path.Pattern.isRefused pattern || maxGlobDepth < special.length then none
  else if special.isEmpty then some (if (t.find pattern).isOk then [pattern] else [])
  else special.foldlM t.globPart [directoryOf plain]

/-- The paths that a pattern matches. -/
def glob (t : FileTree) (pattern : String) : Except BadPattern (List String) :=
  match t.glob? pattern with
  | some paths => .ok paths
  | none => .error ⟨pattern⟩

/-- A path seen from the root. -/
def absolute (t : FileTree) (path : String) : String :=
  Path.absolute ("/" ++ String.intercalate "/" t.workDir) path

/-- The files that match any of the patterns, except the skipped ones. -/
def expand (t : FileTree) (patterns skip : List String) : Except BadPattern (List String) := do
  let found ← patterns.mapM t.glob
  let skipped := skip.map t.absolute
  return ((found.flatten.map t.absolute).filter fun path =>
    !skipped.contains path && t.isFile path).eraseDups

end FileTree

end Cflat
