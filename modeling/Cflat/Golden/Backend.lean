import Cflat.Build.Run
import Cflat.Golden.Suite
import Cflat.Launch

/-!
# The backend under test

The compiler of this project as the compiler of a test suite, and a compiler that
is run only if its command leads to it.
-/

namespace Cflat.Golden

/-- The paths and texts of the files that a build wrote. -/
def writtenFiles (events : List Build.Event) : List (String × String) :=
  events.filterMap fun
    | .write path text => some (path, text)
    | _ => none

/-- A compiler run on a host, in no time. -/
def backend (h : Build.Host) : Compiler := fun files c =>
  let out := Build.run h files c.args
  { reply := .exited (Int64.ofNat out.status.code) out.state.stderr
    written := writtenFiles out.state.events }

/-- A compiler that is a file of the tree, told by its text. -/
def installed (isProgram : String → Bool) (compile : Compiler) : Compiler := fun files c =>
  match files.launch isProgram c.path with
  | .ok () => compile files c
  | .error e => { reply := .notRun e.message "" }

end Cflat.Golden
