import Cflat.Duration
import Cflat.Golden.Result
import Cflat.Text.Blank

/-!
# The summary of a run

The results as they are printed, one after the other, and a line with their
numbers.
-/

namespace Cflat.Golden

namespace Colour

/-- Start of red text. -/
def red : String := "\x1b[91m"

/-- Start of yellow text. -/
def yellow : String := "\x1b[93m"

/-- Start of green text. -/
def green : String := "\x1b[92m"

/-- Start of cyan text. -/
def cyan : String := "\x1b[96m"

/-- End of coloured text. -/
def reset : String := "\x1b[0m"

end Colour

/-- The lines of a text.  There is at least one. -/
def linesChars : List Char → List (List Char)
  | [] => [[]]
  | c :: cs =>
    if c = '\n' then [] :: linesChars cs
    else match linesChars cs with
      | [] => [[c]]
      | line :: rest => (c :: line) :: rest

/-- The lines of a text without line ends at its end. -/
def trimmedLines (text : String) : List String :=
  (linesChars (text.toList.reverse.dropWhile (· = '\n')).reverse).map String.ofList

/-- A line that was taken away is red, one that was added is green. -/
def diffLine (line : String) : String :=
  let shown := "    " ++ line
  match (Text.trim line).toList.head? with
  | some '-' => Colour.red ++ shown ++ Colour.reset ++ "\n"
  | some '+' => Colour.green ++ shown ++ Colour.reset ++ "\n"
  | _ => shown ++ "\n"

/-- A difference under its heading; nothing for none. -/
def formatDiff (diff : String) : String :=
  if diff = "" then ""
  else "    --- Diff ---\n" ++ String.join ((trimmedLines diff).map diffLine)

/-- The line between results. -/
def rule : String :=
  "----------------------------------------------------------------------\n"

/-- The line that says how a test ended. -/
def verdict (colour : String) (status : Status) (message : String) : String :=
  "  [" ++ colour ++ status.word ++ Colour.reset ++ "] " ++ message ++ "\n"

/-- The error stream of the compiler, indented. -/
def formatStderr (stderr : String) : String :=
  let text := Text.trim stderr
  if text = "" then ""
  else
    "    " ++ String.intercalate "\n    " ((linesChars text.toList).map String.ofList) ++ "\n"

namespace Result

/-- What is printed about a result under the name of its file. -/
def body (r : Result) : String :=
  match r.status with
  | .pass => verdict Colour.green .pass (r.message ++ (if r.cached then " (cached)" else ""))
  | .fail => verdict Colour.red .fail r.message ++ formatDiff r.diff
  | .skip => verdict Colour.yellow .skip r.message
  | .error => verdict Colour.red .error r.message ++ formatStderr r.stderr
  | .other _ => ""

/-- A result as it is printed. -/
def format (r : Result) : String :=
  rule ++ "Testing " ++ Colour.cyan ++ r.file ++ Colour.reset ++ "...\n" ++ r.body

end Result

/-- How many results have a status. -/
def count (status : Status) (results : List Result) : Nat :=
  results.countP (·.status = status)

/-- The time all compiler runs took together. -/
def totalDuration (results : List Result) : Int64 :=
  results.foldl (fun total r => total + r.duration) 0

/-- The line with the numbers. -/
def totals (results : List Result) : String :=
  let passed := count .pass results
  let failed := count .fail results
  let errored := count .error results
  let skipped := count .skip results
  s!"{passed} passed, {failed} failed, {errored} errored, {skipped} skipped (compiler time " ++
    Duration.render (totalDuration results) ++ ")\n"

/-- All results and their numbers. -/
def summary (results : List Result) : String :=
  String.join (results.map Result.format) ++ rule ++ totals results

end Cflat.Golden
