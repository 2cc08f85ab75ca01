import Cflat.Json.Fields

/-!
# Test results

The result of one test, and its form as a JSON record.  Fields that are empty are
left out of the record, except for the file, the status, the exit code and the
duration.
-/

namespace Cflat.Golden

/-- How a test ended. -/
inductive Status
  | pass
  | fail
  | skip
  | error
  /-- A word that is no status, from a report that was edited. -/
  | other (word : String)
  deriving DecidableEq, Repr

namespace Status

/-- The word for a status. -/
def word : Status → String
  | pass => "PASS"
  | fail => "FAIL"
  | skip => "SKIP"
  | error => "ERROR"
  | other word => word

/-- The status that a word stands for. -/
def ofWord (word : String) : Status :=
  if word = "PASS" then pass
  else if word = "FAIL" then fail
  else if word = "SKIP" then skip
  else if word = "ERROR" then error
  else other word

/-- Whether a test with this status speaks against the compiler. -/
def isFailure : Status → Bool
  | fail | error => true
  | _ => false

end Status

/-- What is known of one test after a run. -/
structure Result where
  file : String
  status : Status
  message : String := ""
  /-- How the listing differs from the golden one. -/
  diff : String := ""
  stderr : String := ""
  exitCode : Int64 := 0
  /-- How long the compiler ran, in nanoseconds. -/
  duration : Int64 := 0
  /-- What identifies the inputs of the test, if results are reused. -/
  key : String := ""
  /-- Taken over from an earlier run. -/
  cached : Bool := false
  deriving DecidableEq, Repr

namespace Result

/-- The member of a text, left out if the text is empty. -/
def textMember (name text : String) : List (String × Json) :=
  if text = "" then [] else [(name, .string text)]

/-- The member of a number. -/
def intMember (name : String) (n : Int64) : List (String × Json) :=
  [(name, .number (toString n).toList)]

/-- A result as a JSON record. -/
def toJson (r : Result) : Json :=
  .object ([("file", .string r.file), ("status", .string r.status.word)] ++
    textMember "message" r.message ++ textMember "diff" r.diff ++ textMember "stderr" r.stderr ++
    intMember "exitCode" r.exitCode ++ intMember "duration" r.duration ++
    textMember "key" r.key ++ (if r.cached then [("cached", .bool true)] else []))

/-- Whether a value has the form of a result.  Other members may be there. -/
def isResult : Json → Bool :=
  Json.isRecord fun key v =>
    if ["file", "status", "message", "diff", "stderr", "key"].any (Json.names · key) then
      Json.isStringField v
    else if ["exitCode", "duration"].any (Json.names · key) then Json.isIntField v
    else if Json.names "cached" key then Json.isBoolField v
    else true

/-- The result in a record of the right form. -/
def ofRecord (v : Json) : Result :=
  let text (name : String) : String := Json.lastString (Json.fieldWrites name [v])
  { file := text "file"
    status := .ofWord (text "status")
    message := text "message"
    diff := text "diff"
    stderr := text "stderr"
    exitCode := Json.lastInt (Json.fieldWrites "exitCode" [v])
    duration := Json.lastInt (Json.fieldWrites "duration" [v])
    key := text "key"
    cached := Json.lastBool (Json.fieldWrites "cached" [v]) }

end Result

end Cflat.Golden
