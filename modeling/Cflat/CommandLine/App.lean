import Cflat.CommandLine.Help
import Cflat.CommandLine.Parse

/-!
# Running an application

`App.run` defines the help flag, parses the arguments and says what is to happen:
a page is shown, or the application's own work is done with the positional
arguments.
-/

namespace Cflat.CommandLine

/-- The width of a page that no terminal shows. -/
def pageWidth : Int64 := 80

/-- What a program does after reading its arguments. -/
inductive Command
  /-- The arguments do not parse; `page` goes to the error stream. -/
  | misused (e : ParseError) (page : String)
  /-- The help page was asked for. -/
  | showHelp (page : String)
  | act (args : List String)
  deriving DecidableEq, Repr

namespace App

/-- The flag that every program has. -/
def helpFlag : Flag :=
  Flag.make "help" "h" "Display this information" (.switch false) ""

/-- The application after parsing, and what to do; an error if the help flag
cannot be defined. -/
def run (a : App) (year : Nat) (arguments : List String) : App × Except DefinitionError Command :=
  match a.flags.define helpFlag with
  | (fs, .error e) => ({ a with flags := fs }, .error e)
  | (fs, .ok ()) =>
    let (fs, outcome) := fs.parse arguments
    let a := { a with flags := fs }
    match outcome with
    | .error e => (a, .ok (.misused e (a.name ++ ": " ++ e.message ++ "\n" ++ a.usage pageWidth)))
    | .ok () =>
      if fs.isOn "help" then (a, .ok (.showHelp (a.help year pageWidth)))
      else (a, .ok (.act fs.args))

end App

end Cflat.CommandLine
