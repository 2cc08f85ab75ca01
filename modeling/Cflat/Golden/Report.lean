import Cflat.Fault
import Cflat.FileTree.Basic
import Cflat.Golden.Result
import Cflat.Json.Printer
import Cflat.Json.Reader

/-!
# Test reports

A report holds the last result of every test file.  It is kept in a JSON file, the
test files in order, so that a later run can reuse results.  An entry may be
blank: the file has no result.
-/

namespace Cflat.Golden

/-- The entries of a report by the name of their test file. -/
abbrev Report := List (String × Option Result)

namespace Report

/-- Enter a result, in place of the one the file had. -/
def insert (r : Report) (file : String) (result : Option Result) : Report :=
  r.filter (·.1 ≠ file) ++ [(file, result)]

/-- Enter results under the name of their file; the last one of a file stays. -/
def addAll (r : Report) (results : List Result) : Report :=
  results.foldl (fun r result => r.insert result.file (some result)) r

/-- The report of one run. -/
def ofResults (results : List Result) : Report := addAll [] results

/-- The result of a file. -/
def result? (r : Report) (file : String) : Option Result :=
  (r.lookup file).join

/-- Whether any result speaks against the compiler. -/
def anyFailure (r : Report) : Bool :=
  r.any fun entry => (entry.2.map fun result => result.status.isFailure).getD false

/-- Whether any result speaks against the compiler; a blank entry cannot be asked. -/
def hasFailures (r : Report) : Except Fault Bool :=
  if r.any (·.2.isNone) then .error .missingResult else .ok r.anyFailure

/-- The entries in the order of their names. -/
def sorted (r : Report) : Report :=
  r.mergeSort fun a b => a.1 ≤ b.1

/-- A report as a JSON object. -/
def toJson (r : Report) : Json :=
  .object (r.sorted.map fun entry => (entry.1, (entry.2.map Result.toJson).getD .null))

/-- The text of a report. -/
def render (r : Report) : String := r.toJson.render

/-- The entry in a member of a report. -/
def entryOf : Json → Option Result
  | .null => none
  | v => some (.ofRecord v)

/-- The report in a value of the right form. -/
def ofJson? : Json → Option Report
  | .null => some []
  | .object members =>
    if members.all fun m => Result.isResult m.2 then
      some (members.foldl (fun r m => r.insert m.1 (entryOf m.2)) [])
    else none
  | _ => none

/-- The report that a text holds. -/
def parse? (text : String) : Option Report :=
  (Json.readWhole text).bind ofJson?

/-- The path of the report of a suite whose golden listings are in `dir`. -/
def pathIn (dir output : String) : String :=
  if dir = "" then output else Path.join [dir, output]

/-- What is said about a file that holds no report. -/
def unreadableLine (path : String) : String :=
  "\x1b[93m[WARN]\x1b[0m Ignoring unreadable report " ++ path ++ ": not a report\n"

/-- The report in a file, and what is said about it.  A file that cannot be read
is an empty report. -/
def load (files : FileTree) (path : String) : Report × String :=
  match files.read path with
  | .error _ => ([], "")
  | .ok text =>
    match parse? text with
    | some r => (r, "")
    | none => ([], unreadableLine path)

/-- What saving a report did and said. -/
structure Saved where
  files : FileTree
  stdout : String
  log : String

/-- Write a report to a file and say so. -/
def save (r : Report) (files : FileTree) (path : String) : Saved :=
  match files.write path r.render with
  | .ok files => ⟨files, "Full test report saved to " ++ path ++ "\n", ""⟩
  | .error e =>
    ⟨files, "",
      "\x1b[91m[ERROR]\x1b[0m Failed to write JSON report to " ++ path ++ ": " ++ e.message ++
        "\n"⟩

end Report

end Cflat.Golden
