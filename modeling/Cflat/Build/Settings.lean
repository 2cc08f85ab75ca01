import Cflat.CommandLine.App
import Cflat.Options.Switches
import Cflat.Path.Basic

/-!
# The command line of the compiler

The flags the compiler knows, and the settings that a parsed command line gives.
-/

namespace Cflat.Build

open CommandLine (App Flag FlagSet)

/-- What to make of the inputs. -/
structure Settings where
  output : String
  target : String
  linkerArgs : List String
  /-- Stop after the assembly listing. -/
  asmOnly : Bool
  /-- Assemble, but do not link. -/
  objectOnly : Bool
  /-- Print the classified globals instead of compiling. -/
  dumpOnly : Bool
  quiet : Bool
  printFlags : Bool
  deriving DecidableEq, Repr

namespace Settings

/-- The settings that a parsed flag set gives. -/
def ofFlags (fs : FlagSet) : Settings where
  output := fs.text "output"
  target := fs.text "target"
  linkerArgs := fs.items "linker-arg"
  asmOnly := fs.isOn "asm"
  objectOnly := fs.isOn "compile"
  dumpOnly := fs.isOn "dump-entities"
  quiet := fs.isOn "quiet"
  printFlags := fs.isOn "print-flags"

/-- The path of a result next to the user: the one asked for, or the name of the
input with another extension. -/
def outputName (output input extension : String) : String :=
  if output ≠ "" then output else Path.stem input ++ extension

end Settings

/-- The flags of the compiler that are no switches of its options. -/
def ownFlags : List Flag :=
  [Flag.make "output" "o" "Place the output into <file>." (.text "") "file",
    Flag.make "target" "t" "Host toolchain target, in QBE's naming (e.g. amd64_sysv)." (.text "")
      "target",
    Flag.make "linker-arg" "L" "Pass an argument to the linker." (.list []) "arg",
    Flag.make "asm" "S" "Stop after writing the assembly listing." (.switch false) "",
    Flag.make "compile" "c" "Assemble, but do not link." (.switch false) "",
    Flag.make "dump-entities" "d" "Print the classified globals and exit." (.switch false) "",
    Flag.make "quiet" "q" "Do not print progress." (.switch false) "",
    Flag.make "print-flags" "" "Print the effective features and warnings and exit."
      (.switch false) ""]

/-- The flags of the compiler itself, then the switches of its options. -/
def flagSet : FlagSet :=
  (({} : Options).addSwitches (({} : FlagSet).defineAll ownFlags).1).1

/-- The compiler as its pages present it. -/
def app : App where
  name := "cbc"
  synopsis := "[options] <unit.json> ..."
  description := "The C-flat backend. Reads resolved translation units, lays out their global " ++
    "and static data as i386 assembly, and hands the result to the host assembler and linker."
  authors := ["xplshn"]
  repository := "<https://github.com/xplshn/cbc>"
  flags := flagSet

end Cflat.Build
