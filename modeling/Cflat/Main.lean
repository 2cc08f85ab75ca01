import Std.Time.Zoned
import Cflat.Build.Run
import Cflat.Launch

/-!
# The compiler as a program

Reads the inputs that the command line names, runs the compiler on them, and
carries out what it decided: the files it wrote and the text it printed.  No other
program can be started from here, so the host's assembler and linker are reported
as missing.
-/

namespace Cflat.Shell

/-- Where the program runs; all paths are seen from here. -/
def workDir : Location := ["work"]

/-- The host of the program. -/
def host (year : Nat) : Build.Host where
  year
  os := "linux"
  arch := "amd64"
  defaultHost := Options.hostOfSystem
  scratch := "/scratch"
  run := fun _ c files =>
    (.notRun (LaunchError.notInSearchPath c.path).message "", files)

/-- A tree with every directory that a path passes through. -/
def reach (files : FileTree) (path : String) : FileTree :=
  let parts := Path.parts path
  (List.range parts.length).foldl
    (fun files i =>
      files.makeDirs (files.start path ++ Path.cleanParts false (parts.take i)))
    files

/-- The inputs of a command line. -/
def inputs (arguments : List String) : List String :=
  match (Build.app.run 0 arguments).2 with
  | .ok (.act paths) => paths
  | _ => []

/-- The place where the command line asks for the output. -/
def output (arguments : List String) : String :=
  (Build.Settings.ofFlags (Build.app.run 0 arguments).1.flags).output

/-- Read a file into the tree.  What exists but cannot be read is taken for a
directory. -/
def gather (files : FileTree) (path : String) : IO FileTree := do
  let loc := files.start path ++ Path.cleanParts false (Path.parts path)
  try
    let text ← IO.FS.readFile path
    return (reach files path).setNode loc (.file text)
  catch
    | .noFileOrDirectory .. => return files
    | _ => return (reach files path).makeDirs loc

/-- Write the files that a build left in its directory; false if one could not be
written. -/
def carryOut (events : List Build.Event) : IO Bool := do
  for e in events do
    match e with
    | .write path text =>
      if !(Path.isAbsolute path && (Path.parts path)[1]? = some "scratch") then
        try
          IO.FS.writeFile path text
        catch e =>
          IO.eprint (Diagnostic.errorLine ("could not write '" ++ path ++ "': " ++ toString e))
          return false
    | _ => pure ()
  return true

end Cflat.Shell

open Cflat in
/-- Run the compiler on the files of the machine. -/
def main (arguments : List String) : IO UInt32 := do
  let year := (← Std.Time.PlainDate.now).year.toInt.toNat
  let start := reachOutput (FileTree.makeDirs { workDir := Shell.workDir } Shell.workDir)
  let files ← (Shell.inputs arguments).foldlM Shell.gather start
  let out := Build.run (Shell.host year) files arguments
  IO.print out.state.stdout
  IO.eprint out.state.stderr
  let written ← Shell.carryOut out.state.events
  return if written then out.status.code.toUInt32 else 1
where
  reachOutput (files : Cflat.FileTree) : Cflat.FileTree :=
    Cflat.Shell.reach files (Cflat.Shell.output arguments)
