/-!
# Paths

Operations on the text of a path.  None of them looks at a file: `clean` removes
dots and repeated slashes, `join` puts parts together, and `base`, `extension`
and `parent` take a path apart.
-/

namespace Cflat.Path

/-- The parts between slashes, empty ones included.  There is at least one. -/
def splitSlash : List Char → List (List Char)
  | [] => [[]]
  | c :: cs =>
    if c = '/' then [] :: splitSlash cs
    else match splitSlash cs with
      | [] => [[c]]
      | part :: parts => (c :: part) :: parts

/-- The names between slashes, empty ones included. -/
def parts (path : String) : List String :=
  (splitSlash path.toList).map String.ofList

/-- Whether a path starts at the root. -/
def isAbsolute (path : String) : Bool :=
  path.toList.head? == some '/'

/-- One step of `clean` on the names kept so far, last first.  Two dots cancel
the name before them; at the root they have no effect, and with nothing left to
cancel they stay. -/
def cleanStep (rooted : Bool) (kept : List String) (part : String) : List String :=
  if part = "" || part = "." then kept
  else if part = ".." then
    match kept with
    | [] => if rooted then [] else [".."]
    | name :: rest => if name = ".." then ".." :: name :: rest else rest
  else part :: kept

/-- The names that `clean` keeps. -/
def cleanParts (rooted : Bool) (ps : List String) : List String :=
  (ps.foldl (cleanStep rooted) []).reverse

/-- The shortest path that names the same place, as far as the text tells. -/
def clean (path : String) : String :=
  let rooted := isAbsolute path
  let text := (if rooted then "/" else "") ++
    String.intercalate "/" (cleanParts rooted (parts path))
  if text = "" then "." else text

/-- The parts as one clean path.  Empty parts do not count. -/
def join (ps : List String) : String :=
  match ps.filter (· ≠ "") with
  | [] => ""
  | kept => clean (String.intercalate "/" kept)

/-- The characters up to and including the last slash. -/
def uptoSlash (cs : List Char) : List Char :=
  (cs.reverse.dropWhile (· ≠ '/')).reverse

/-- The characters after the last slash. -/
def afterSlash (cs : List Char) : List Char :=
  (cs.reverse.takeWhile (· ≠ '/')).reverse

/-- Everything before the last slash, cleaned. -/
def parent (path : String) : String :=
  clean (String.ofList (uptoSlash path.toList))

/-- The last name of a path.  Slashes at the end do not count; the path of the
root is its own name, and the empty path is the current directory. -/
def base (path : String) : String :=
  if path = "" then "."
  else
    let cs := (path.toList.reverse.dropWhile (· = '/')).reverse
    if cs.isEmpty then "/" else String.ofList (afterSlash cs)

/-- The last dot of the last name with what follows it, or nothing. -/
def extension (path : String) : String :=
  let name := (afterSlash path.toList).reverse
  if name.contains '.' then "." ++ String.ofList (name.takeWhile (· ≠ '.')).reverse else ""

/-- Drop `ending` from the end of a text, if it is there. -/
def dropEnding (text ending : String) : String :=
  if ending.toList <:+ text.toList then
    String.ofList (text.toList.take (text.toList.length - ending.toList.length))
  else text

/-- The last name of a path without its extension. -/
def stem (path : String) : String :=
  dropEnding (base path) (extension (base path))

/-- A path seen from the directory `dir`. -/
def absolute (dir path : String) : String :=
  if isAbsolute path then clean path else join [dir, path]

end Cflat.Path
