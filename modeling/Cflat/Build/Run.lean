import Cflat.Build.Settings
import Cflat.Build.Stage
import Cflat.Options.Target

/-!
# A compiler run

`compile` takes one input through the stages that the settings ask for, `build`
does so with every input in order and links the objects, and `run` is the whole
program from its arguments to its exit status.

Files in between go to a scratch directory.  It is removed after the build; where the
process exits earlier it is removed right before.
-/

namespace Cflat.Build

open CommandLine (FlagSet)

/-- What a run is given, apart from the inputs. -/
structure Job where
  host : Host
  settings : Settings
  options : Options

namespace Job

/-- The tools for the host. -/
def toolchain (j : Job) : Toolchain := { m32 := j.options.m32 }

/-- A line on how far the build has come. -/
def progress (j : Job) (line : String) : Stage Unit :=
  if j.settings.quiet then pure () else Stage.print (line ++ "\n")

/-- Make the scratch directory. -/
def makeScratch (j : Job) : Stage Unit :=
  modify fun s => { s with files := s.files.makeDirs (FileTree.locationOf j.host.scratch) }

/-- Remove the scratch directory and all that is in it. -/
def cleanup (j : Job) : Stage Unit :=
  modify fun s => { s with files := s.files.remove (FileTree.locationOf j.host.scratch) }

/-- Remove the scratch directory, say what is wrong and end the process. -/
def fail {α : Type} (j : Job) (text : String) : Stage α := do
  j.cleanup
  Stage.fail text

/-- The value of a part of the build, which has to have one. -/
def demand {ε α : Type} (j : Job) (message : ε → String) : Except ε α → Stage α
  | .ok a => return a
  | .error e => j.fail (message e)

/-- Where a file of an input goes between two stages. -/
def scratchPath (j : Job) (input extension : String) : String :=
  Path.join [j.host.scratch, Path.stem input ++ extension]

/-- Where the listing of an input goes. -/
def listingPath (j : Job) (input : String) : String :=
  if j.settings.asmOnly then Settings.outputName j.settings.output input ".s"
  else j.scratchPath input ".s"

/-- Where the object of an input goes. -/
def objectPath (j : Job) (input : String) : String :=
  if j.settings.objectOnly then Settings.outputName j.settings.output input ".o"
  else j.scratchPath input ".o"

/-- The listing of a program.  Its warnings are reported in any case. -/
def generate {ι : Type} [DecidableEq ι] (j : Job) (p : Program ι) : Stage String := do
  let g := p.generate j.options
  Stage.report (Diagnostic.render j.options g.warnings)
  match g.result with
  | .ok l => Stage.orFault l.render
  | .error (.fault f) => throw (.fault f)
  | .error e =>
    if e.isInternal then
      j.cleanup
      Stage.failInternal e.message
    else
      j.fail e.message

/-- Take one input as far as the settings say; the path of its object if there
is one. -/
def compile (j : Job) (input : String) : Stage (Option String) := do
  j.progress ("Loading " ++ input ++ "...")
  let p ← j.demand InputError.message (← Stage.load ⟨j.options.wordSize⟩ input)
  if j.settings.dumpOnly then
    Stage.dump p
    return none
  j.progress "Generating assembly..."
  let listing ← j.generate p
  let listingPath := j.listingPath input
  j.demand (fun e => "could not write '" ++ listingPath ++ "': " ++ e.message)
    (← Stage.write listingPath listing)
  if j.settings.asmOnly then
    return none
  let objectPath := j.objectPath input
  j.progress ("Assembling " ++ objectPath ++ "...")
  j.demand (fun e => "assembler failed: " ++ e.message)
    (← Stage.invoke j.host (j.toolchain.assemble listingPath objectPath))
  return some objectPath

/-- A line between the parts of the progress. -/
def rule : String := "----------------------"

/-- The result of a link without a name of its own. -/
def programName (j : Job) : String :=
  if j.settings.output = "" then "a.out" else j.settings.output

/-- Link the objects. -/
def link (j : Job) (objects : List String) : Stage Unit := do
  j.progress ("Linking to create '" ++ j.programName ++ "'...")
  j.demand (fun e => "linker failed: " ++ e.message)
    (← Stage.invoke j.host (j.toolchain.link j.programName objects j.options.linkerArgs))
  j.progress rule

/-- Compile the inputs in order, up to the first that fails, and link. -/
def build (j : Job) (inputs : List String) : Stage Unit := do
  j.progress rule
  let objects ← inputs.mapM j.compile
  if !(j.settings.dumpOnly || j.settings.asmOnly || j.settings.objectOnly) then
    j.link (objects.filterMap id)
  j.progress "Done!"

/-- What the compiler does with a command line that parses. -/
def perform (j : Job) (inputs : List String) : Stage Unit := do
  Stage.report (Options.hostComplaint j.options.host)
  if j.settings.printFlags then
    Stage.print ("Features:\n" ++ j.options.featureTable ++ "Warnings:\n" ++ j.options.warningTable)
    return
  if inputs.isEmpty then
    Stage.fail "no input files specified."
  let single := j.settings.asmOnly || j.settings.objectOnly
  if j.settings.output ≠ "" && inputs.length > 1 && single then
    Stage.fail "cannot specify -o with -S or -c and multiple input files"
  if !j.settings.quiet then
    let m32 := if j.options.m32 then "true" else "false"
    Stage.report (Diagnostic.infoLine
      ("host target '" ++ j.options.host ++ "', emitting i386 code (m32: " ++ m32 ++ ")"))
  j.makeScratch
  Stage.deferring j.cleanup (j.build inputs)

end Job

/-- The job that a parsed command line describes. -/
def jobOf (h : Host) (fs : FlagSet) : Job :=
  let settings := Settings.ofFlags fs
  let o := ({} : Options).ofSwitches fs
  let o := (o.setTarget h.defaultHost h.os h.arch settings.target).1
  { host := h
    settings
    options := { o with linkerArgs := o.linkerArgs ++ settings.linkerArgs } }

/-- The whole program as a stage. -/
def program (h : Host) (arguments : List String) : Stage Unit :=
  match app.run h.year arguments with
  | (_, .error e) => Stage.failInternal e.message
  | (_, .ok (.misused _ page)) => do
    Stage.report page
    Stage.exit .failure
  | (_, .ok (.showHelp page)) => Stage.print page
  | (a, .ok (.act inputs)) => (jobOf h a.flags).perform inputs

/-- How a run ended. -/
structure Outcome where
  status : ExitStatus
  state : State

/-- Run the compiler on some files.  A fault that reaches the end is an internal error. -/
def run (h : Host) (files : FileTree) (arguments : List String) : Outcome :=
  match program h arguments { files } with
  | (.ok (), s) => ⟨.ok, s⟩
  | (.error (.exit status), s) => ⟨status, s⟩
  | (.error (.fault f), s) => ⟨.internal, { s with stderr := s.stderr ++ f.message ++ "\n" }⟩

end Cflat.Build
