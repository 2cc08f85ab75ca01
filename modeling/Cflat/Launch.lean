import Cflat.FileTree.Basic
import Cflat.Text.Quoted

/-!
# Starting programs

The path of a command leads to a program in two ways.  A bare name is looked up
along the search path of the host; a path with a slash in it names a file.
-/

namespace Cflat

/-- Why a program was not started. -/
inductive LaunchError
  /-- There is no name to go by. -/
  | noCommand
  /-- A bare name that the search path does not lead to. -/
  | notInSearchPath (name : String)
  /-- The root directory by itself. -/
  | rootDirectory
  | unusable (path : String) (cause : PathCause)
  /-- What the path leads to is no program. -/
  | denied (path : String)
  deriving DecidableEq, Repr

namespace LaunchError

/-- The text of a failed start. -/
def message : LaunchError → String
  | noCommand => "exec: no command"
  | notInSearchPath name =>
    "exec: " ++ Text.quoted name ++ ": executable file not found in $PATH"
  | rootDirectory => "exec: \"/\": is a directory"
  | unusable path cause => "fork/exec " ++ path ++ ": " ++ cause.message
  | denied path => "fork/exec " ++ path ++ ": permission denied"

end LaunchError

namespace FileTree

/-- Whether a command path leads to a program in the tree; `isProgram` tells the
text of a program from that of another file.  The search path leads nowhere. -/
def launch (t : FileTree) (isProgram : String → Bool) (path : String) : Except LaunchError Unit :=
  if path = "" then .error .noCommand
  else if path = "/" then .error .rootDirectory
  else if !path.toList.contains '/' then .error (.notInSearchPath path)
  else match t.find path with
    | .error cause => .error (.unusable path cause)
    | .ok .directory => .error (.denied path)
    | .ok (.file text) => if isProgram text then .ok () else .error (.denied path)

end FileTree

end Cflat
