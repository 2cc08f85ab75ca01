import Cflat.FileTree.Glob
import Cflat.Golden.Settings
import Cflat.Golden.Suite
import Cflat.Golden.Summary

/-!
# A test run

The whole test runner: find the units, run the tests, print the summary, save the
report.  A run fails if a pattern is malformed or if a test speaks against the
compiler.
-/

namespace Cflat.Golden

/-- What a test run is given besides its arguments and the files. -/
structure Bench where
  /-- A directory for the listings under test, which does not exist before. -/
  scratch : String
  compile : Compiler
  digest : Digest
  diff : String → String → String

/-- How a test run ended. -/
structure Outcome where
  exitCode : Nat
  stdout : String := ""
  stderr : String := ""
  files : FileTree

/-- The suite that the settings describe, and what is said about it.  Without the
hash of the compiler nothing can be reused. -/
def suiteOf (b : Bench) (s : Settings) (files : FileTree) : Suite × String :=
  let (previous, log) := Report.load files (Report.pathIn s.goldenDir s.output)
  let suite : Suite :=
    { goldenDir := s.goldenDir
      update := s.update
      cached := s.cached
      digest := b.digest
      compiler := s.compiler
      compilerHash := ""
      args := Text.words s.args
      scratch := b.scratch
      previous
      diff := b.diff }
  match hashFiles b.digest files [s.compiler] with
  | .ok compilerHash => ({ suite with compilerHash }, log)
  | .error e =>
    ({ suite with cached := false },
      log ++ "\x1b[93m[WARN]\x1b[0m Could not hash compiler '" ++ s.compiler ++ "': " ++
        e.message ++ "; caching disabled\n")

/-- A text as a line of the log.  A line end that is there already is enough. -/
def logLine (text : String) : String :=
  if text.toList.getLast? = some '\n' then text else text ++ "\n"

/-- The line on a test in the log. -/
def verboseLine (t : Tested) (unit : String) : String :=
  logLine ("[" ++ t.result.status.word ++ "] " ++ unit)

/-- Test some units.  The scratch directory is kept if the run fails. -/
def runUnits (b : Bench) (s : Settings) (files : FileTree) (units : List String) : Outcome :=
  let (suite, log) := suiteOf b s files
  let (tested, files) := suite.testAll b.compile files units
  let results := sortResults (tested.map (·.result))
  let verbose := if s.verbose then String.join (List.zipWith verboseLine tested units) else ""
  let report := Report.ofResults results
  let saved := report.save files (Report.pathIn s.goldenDir s.output)
  let failed := report.anyFailure
  { exitCode := if failed then 1 else 0
    stdout := summary results ++ saved.stdout
    stderr := log ++ verbose ++ saved.log
    files := if failed then saved.files else saved.files.remove (FileTree.locationOf b.scratch) }

/-- Run the test runner on some files. -/
def run (b : Bench) (files : FileTree) (arguments : List String) : Outcome :=
  match Settings.parse {} arguments with
  | .error e => { exitCode := 2, stderr := e.message ++ "\n", files }
  | .ok s =>
    let scratch := FileTree.locationOf b.scratch
    let files := files.makeDirs scratch
    match files.expand (Text.words s.testFiles) (Text.words s.skipFiles) with
    | .error e =>
      { exitCode := 1
        stderr := "\x1b[91m[ERROR]\x1b[0m Invalid glob pattern(s): " ++ e.message ++ "\n"
        files }
    | .ok [] =>
      { exitCode := 0
        stderr := "No test files found matching the pattern(s).\n"
        files := files.remove scratch }
    | .ok units => runUnits b s files units

end Cflat.Golden
