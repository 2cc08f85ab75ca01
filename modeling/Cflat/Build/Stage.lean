import Cflat.Diagnostic
import Cflat.FileTree.Basic
import Cflat.Program.Dump
import Cflat.Program.Generate
import Cflat.Program.Input
import Cflat.Toolchain

/-!
# Stages of a build

A stage reads and changes the state of a build: the files, the two output
streams, and a record of what was done in order.  A stage that does not come to its end
leaves the state as it is at that point.

There are two ways out of a stage.  The process can exit, and then nothing else is done.
Or a fault unwinds what was begun, and then what was deferred is done on the way.
-/

namespace Cflat.Build

/-- What a build did that others can see, other than printing. -/
inductive Event
  | load (path : String)
  | write (path text : String)
  | run (c : Command)
  deriving DecidableEq, Repr

/-- Where a build stands. -/
structure State where
  files : FileTree
  stdout : String := ""
  stderr : String := ""
  /-- What was done, the first thing first. -/
  events : List Event := []
  deriving DecidableEq, Repr

/-- The commands that were run, in order. -/
def State.commands (s : State) : List Command :=
  s.events.filterMap fun
    | .run c => some c
    | _ => none

/-- The machine a build runs on. -/
structure Host where
  year : Nat
  os : String
  arch : String
  /-- The name of a host with an operating system and an architecture. -/
  defaultHost : String → String → String
  /-- A directory for files in between, which does not exist before the build. -/
  scratch : String
  /-- Runs a command, given the commands run before it and the files. -/
  run : List Command → Command → FileTree → Reply × FileTree

/-- Why a stage does not come to its end. -/
inductive Abort
  | exit (status : ExitStatus)
  | fault (f : Fault)
  deriving DecidableEq, Repr

/-- A part of a build. -/
abbrev Stage := ExceptT Abort (StateM State)

namespace Stage

/-- Write to the standard output. -/
def print (text : String) : Stage Unit :=
  modify fun s => { s with stdout := s.stdout ++ text }

/-- Write to the standard error. -/
def report (text : String) : Stage Unit :=
  modify fun s => { s with stderr := s.stderr ++ text }

/-- Take something down as done. -/
def record (e : Event) : Stage Unit :=
  modify fun s => { s with events := s.events ++ [e] }

/-- End the process. -/
def exit {α : Type} (status : ExitStatus) : Stage α :=
  throw (.exit status)

/-- Say what is wrong and end the process. -/
def fail {α : Type} (text : String) : Stage α := do
  report (Diagnostic.errorLine text)
  exit .failure

/-- Say what is wrong with the compiler and end the process. -/
def failInternal {α : Type} (text : String) : Stage α := do
  report (Diagnostic.internalErrorLine text)
  exit .internal

/-- The value of a computation, or its fault. -/
def orFault {α : Type} : Except Fault α → Stage α
  | .ok a => return a
  | .error f => throw (.fault f)

/-- Do `cleanup` after a stage, also if a fault ends it.  If the process exits there is no
after. -/
def deferring (cleanup : Stage Unit) (stage : Stage Unit) : Stage Unit := fun s =>
  match stage s with
  | (.ok (), s) => cleanup s
  | (.error (.fault f), s) => (do cleanup; throw (.fault f) : Stage Unit) s
  | (.error (.exit status), s) => (.error (.exit status), s)

/-- Read the program in a file. -/
def load (types : Table) (path : String) : Stage (Except InputError (Program Site)) := do
  record (.load path)
  return (← get).files.loadProgram types path

/-- Print the table of the entities of a program. -/
def dump {ι : Type} [DecidableEq ι] (p : Program ι) : Stage Unit := do
  print (← orFault (Program.dump.run.run p.scope).1)

/-- Write a file. -/
def write (path text : String) : Stage (Except PathError Unit) := do
  let s ← get
  match s.files.write path text with
  | .ok files =>
    set { s with files }
    record (.write path text)
    return .ok ()
  | .error e => return .error e

/-- Run a command that has to succeed. -/
def invoke (h : Host) (c : Command) : Stage (Except CommandError Unit) := do
  let s ← get
  let (reply, files) := h.run s.commands c s.files
  set { s with files }
  record (.run c)
  return c.check reply

end Stage

end Cflat.Build
