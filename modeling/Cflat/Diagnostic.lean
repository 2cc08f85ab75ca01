import Cflat.Options.Basic

/-!
# Diagnostics

The lines the compiler writes for its user, and the exit statuses that go with
them.
-/

namespace Cflat

/-- A warning with the switch it belongs to. -/
structure Diagnostic where
  warning : Warning
  text : String
  deriving DecidableEq, Repr

/-- How the compiler ends. -/
inductive ExitStatus
  | ok
  | failure
  | internal
  deriving DecidableEq, Repr

namespace ExitStatus

/-- The number that the system gets. -/
def code : ExitStatus → Nat
  | ok => 0
  | failure => 1
  | internal => 2

end ExitStatus

namespace Diagnostic

/-- The line of an error in the input or in its surroundings. -/
def errorLine (text : String) : String :=
  "cbc: \x1b[31merror:\x1b[0m " ++ text ++ "\n"

/-- The line of an error of the compiler itself. -/
def internalErrorLine (text : String) : String :=
  "cbc: \x1b[31minternal compiler error:\x1b[0m " ++ text ++ "\n"

/-- The line of a note on what the compiler does. -/
def infoLine (text : String) : String :=
  "cbc: info: " ++ text ++ "\n"

/-- The line of a warning, whether it is enabled or not. -/
def line (d : Diagnostic) : String :=
  "cbc: \x1b[33mwarning:\x1b[0m " ++ d.text ++ " [-W" ++ d.warning.name ++ "]\n"

/-- The lines of the warnings that are enabled. -/
def render (o : Options) (ds : List Diagnostic) : String :=
  String.join ((ds.filter fun d => o.warning d.warning).map line)

end Diagnostic

end Cflat
