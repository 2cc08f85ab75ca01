import Cflat.FileTree.Basic
import Cflat.Golden.Digest
import Cflat.Golden.Report
import Cflat.Toolchain

/-!
# Test suites

A test compiles one unit and compares the listing with the golden one.  With
`update` the golden listing is written instead.  With `cached` a test that passed
before is not run again if nothing it depends on has changed: its key is made
from the unit, the golden listing, the compiler and the arguments.
-/

namespace Cflat.Golden

/-- What a compiler run did. -/
structure Compilation where
  reply : Reply
  /-- The files it wrote, by path. -/
  written : List (String × String) := []
  /-- How long it ran, in nanoseconds. -/
  elapsed : Int64 := 0
  deriving DecidableEq, Repr

/-- A compiler, as what it does with some files and a command. -/
abbrev Compiler := FileTree → Command → Compilation

/-- What all tests of a run share. -/
structure Suite where
  /-- Where the golden listings are, if not beside the units. -/
  goldenDir : String := ""
  update : Bool := false
  cached : Bool := false
  digest : Digest
  compiler : String
  /-- The hash of the compiler itself. -/
  compilerHash : String
  args : List String := []
  /-- A directory for the listings under test. -/
  scratch : String
  /-- The report of an earlier run. -/
  previous : Report := []
  /-- How two listings differ; empty exactly if they do not. -/
  diff : String → String → String

/-- The path of the golden listing of a unit. -/
def goldenPath (dir unit : String) : String :=
  let name := Path.dropEnding (Path.base unit) (Path.extension unit) ++ ".s"
  Path.join [if dir = "" then Path.parent unit else dir, name]

/-- The hash of some files, one after the other. -/
def hashFiles (d : Digest) (files : FileTree) (paths : List String) :
    Except PathError String := do
  let texts ← paths.mapM files.read
  return d.hash (String.join (texts.map fun text => text ++ "\x00"))

/-- The key of a test, made from the hashes of its inputs and the arguments. -/
def cacheKey (d : Digest) (unitHash goldenHash compilerHash : String) (args : List String) :
    String :=
  d.hash (String.intercalate "\x00" (unitHash :: goldenHash :: compilerHash :: args))

/-- Write the files of a compilation.  A path that cannot be written is passed
over. -/
def applyWrites (files : FileTree) (written : List (String × String)) : FileTree :=
  written.foldl (fun files w => (files.write w.1 w.2).toOption.getD files) files

/-- How a test begins. -/
inductive Plan
  | settled (r : Result)
  /-- The golden listing to compare with, and the key of the test. -/
  | compile (want key : String)
  deriving DecidableEq, Repr

/-- What a test did. -/
structure Tested where
  result : Result
  files : FileTree
  command : Option Command

namespace Suite

/-- The path of the golden listing of a unit of the suite. -/
def goldenPath (s : Suite) (unit : String) : String :=
  Golden.goldenPath s.goldenDir unit

/-- The key of a test; nothing if the unit cannot be read. -/
def key? (s : Suite) (files : FileTree) (unit want : String) : Option String :=
  (hashFiles s.digest files [unit]).toOption.map fun unitHash =>
    cacheKey s.digest unitHash (s.digest.hash want) s.compilerHash s.args

/-- A result of the earlier run that still holds. -/
def reusable? (s : Suite) (unit key : String) : Option Result :=
  (s.previous.result? unit).filter fun r => r.status = .pass && r.key = key

/-- Decide what a test has to do before the compiler is run. -/
def plan (s : Suite) (files : FileTree) (unit : String) : Plan :=
  let golden := s.goldenPath unit
  match files.read golden, s.update with
  | .error _, false =>
    .settled { file := unit, status := .skip, message := "no golden listing at " ++ golden }
  | .error _, true => .compile "" ""
  | .ok want, true => .compile want ""
  | .ok want, false =>
    match if s.cached then s.key? files unit want else none with
    | none => .compile want ""
    | some key =>
      match s.reusable? unit key with
      | some r => .settled { r with cached := true }
      | none => .compile want key

/-- Where the listing of a unit goes. -/
def listingPath (s : Suite) (unit : String) : String :=
  Path.join [s.scratch, s.digest.hash unit ++ ".s"]

/-- The command that compiles a unit. -/
def command (s : Suite) (unit : String) : Command :=
  ⟨s.compiler, ["-S", "-q", "-o", s.listingPath unit] ++ s.args ++ [unit]⟩

/-- The listing that a compilation left behind, or what went wrong. -/
def listing (s : Suite) (files : FileTree) (unit : String) : Reply → Except String String
  | .notRun reason _ => .error reason
  | .exited code _ =>
    if code ≠ 0 then .error s!"compiler exited with status {code}"
    else match files.read (s.listingPath unit) with
      | .ok text => .ok text
      | .error e => .error ("compiler wrote no listing: " ++ e.message)

/-- The part of a result that the compiler run gives. -/
def compiled (unit key : String) (c : Compilation) : Result :=
  let (code, stderr) := match c.reply with
    | .exited code stderr => (code, stderr)
    | .notRun _ stderr => (0, stderr)
  { file := unit, status := .error, stderr, exitCode := code, duration := c.elapsed, key }

/-- Compare a listing with the golden one, or put it in its place. -/
def judge (s : Suite) (files : FileTree) (unit want got : String) (r : Result) :
    Result × FileTree :=
  let golden := s.goldenPath unit
  if s.update then
    match files.write golden got with
    | .ok files => ({ r with status := .pass, message := "golden listing updated" }, files)
    | .error e =>
      ({ r with status := .error, message := "could not write " ++ golden ++ ": " ++ e.message },
        files)
  else
    let diff := s.diff want got
    if diff = "" then ({ r with status := .pass, message := "listing matches" }, files)
    else
      ({ r with status := .fail, message := "listing differs from " ++ golden, diff }, files)

/-- Run one test. -/
def test (s : Suite) (compile : Compiler) (files : FileTree) (unit : String) : Tested :=
  match s.plan files unit with
  | .settled r => ⟨r, files, none⟩
  | .compile want key =>
    let command := s.command unit
    let c := compile files command
    let files := applyWrites files c.written
    let r := compiled unit key c
    match s.listing files unit c.reply with
    | .error message => ⟨{ r with message }, files, some command⟩
    | .ok got =>
      let (r, files) := s.judge files unit want got r
      ⟨r, files, some command⟩

/-- Run tests one after the other. -/
def testAll (s : Suite) (compile : Compiler) (files : FileTree) :
    List String → List Tested × FileTree
  | [] => ([], files)
  | unit :: units =>
    let t := s.test compile files unit
    let (ts, files) := s.testAll compile t.files units
    (t :: ts, files)

end Suite

/-- Results in the order of their files. -/
def sortResults (results : List Result) : List Result :=
  results.mergeSort fun a b => a.file ≤ b.file

end Cflat.Golden
