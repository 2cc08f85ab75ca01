import Cflat.Text.Blank

/-!
# The host toolchain

Command lines for the host's assembler and linker, and what became of a command.
How commands are run is left to the caller: a `Reply` is all that is known about a
finished one.
-/

namespace Cflat

/-- A program to run and its arguments. -/
structure Command where
  path : String
  args : List String
  deriving DecidableEq, Repr

/-- What running a command gave, with the text of its error stream: an exit code,
or the reason why it did not run to its end. -/
inductive Reply
  | exited (code : Int64) (stderr : String)
  | notRun (reason : String) (stderr : String)
  deriving DecidableEq, Repr

/-- Why a command did not do what it was run for. -/
inductive CommandError
  | notRun (path reason : String)
  | failed (command : Command) (code : Int64) (stderr : String)
  deriving DecidableEq, Repr

namespace CommandError

/-- The text of the error. -/
def message : CommandError → String
  | notRun path reason => "running " ++ path ++ ": " ++ reason
  | failed command code stderr =>
    let note := Text.trim stderr
    command.path ++ s!" exited with status {code}" ++ (if note = "" then "" else ":\n" ++ note)

end CommandError

namespace Command

/-- A command succeeded if it ran and exited with zero. -/
def check (c : Command) : Reply → Except CommandError Unit
  | .notRun reason _ => .error (.notRun c.path reason)
  | .exited code stderr => if code = 0 then .ok () else .error (.failed c code stderr)

end Command

/-- The host's assembler and linker. -/
structure Toolchain where
  assembler : String := "as"
  linker : String := "cc"
  /-- Ask for 32-bit objects. -/
  m32 : Bool
  deriving DecidableEq, Repr

namespace Toolchain

/-- The command that assembles a listing. -/
def assemble (t : Toolchain) (source object : String) : Command :=
  ⟨t.assembler, (if t.m32 then ["--32"] else []) ++ ["-o", object, source]⟩

/-- The command that links objects. -/
def link (t : Toolchain) (out : String) (objects extra : List String) : Command :=
  ⟨t.linker, (if t.m32 then ["-m32"] else []) ++ ["-no-pie", "-o", out] ++ objects ++ extra⟩

end Toolchain

end Cflat
