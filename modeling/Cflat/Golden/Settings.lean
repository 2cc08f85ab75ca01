import Cflat.CommandLine.Flag
import Cflat.Text.IntLiteral

/-!
# The command line of the test runner

A flag begins with one or two dashes, and its value follows after an equals sign
or as the next argument.  A switch takes a value only after an equals sign.  The
first argument that is no flag ends the flags, and so do two dashes.
-/

namespace Cflat.Golden

/-- What the flags of the test runner say. -/
structure Settings where
  compiler : String := "./cbc"
  args : String := ""
  testFiles : String := "tests/*.json"
  skipFiles : String := ""
  goldenDir : String := ""
  update : Bool := false
  output : String := ".test_results.json"
  /-- How long a compiler run may take, as written. -/
  timeout : String := "5s"
  jobs : Int64 := 4
  cached : Bool := false
  verbose : Bool := false
  deriving DecidableEq, Repr

/-- Why an argument of the test runner is refused. -/
inductive SettingsError
  | badFlag (argument : String)
  | unknownFlag (name : String)
  | missingValue (name : String)
  | badValue (name value : String)
  deriving DecidableEq, Repr

namespace SettingsError

/-- The text of a refused argument. -/
def message : SettingsError → String
  | badFlag argument => "bad flag syntax: " ++ argument
  | unknownFlag name => "flag provided but not defined: -" ++ name
  | missingValue name => "flag needs an argument: -" ++ name
  | badValue name value => "invalid value " ++ Text.quoted value ++ " for flag -" ++ name

end SettingsError

namespace Settings

/-- Whether a flag is a switch. -/
def isSwitch (name : String) : Bool :=
  name ∈ ["update", "cached", "v"]

/-- Turn a switch on or off. -/
def setSwitch (s : Settings) (name : String) (on : Bool) : Settings :=
  if name = "update" then { s with update := on }
  else if name = "cached" then { s with cached := on }
  else { s with verbose := on }

/-- Give a flag that is no switch its value. -/
def setValue (s : Settings) (name value : String) : Except SettingsError Settings :=
  match name with
  | "compiler" => .ok { s with compiler := value }
  | "args" => .ok { s with args := value }
  | "test-files" => .ok { s with testFiles := value }
  | "skip-files" => .ok { s with skipFiles := value }
  | "dir" => .ok { s with goldenDir := value }
  | "output" => .ok { s with output := value }
  | "timeout" => .ok { s with timeout := value }
  | "j" =>
    match Text.readIntLiteral? value.toList with
    | some jobs => .ok { s with jobs }
    | none => .error (.badValue name value)
  | _ => .error (.unknownFlag name)

/-- A flag and the value that is written with it. -/
def splitValue (flag : List Char) : String × Option String :=
  let name := flag.takeWhile (· ≠ '=')
  (String.ofList name, (flag.drop name.length).tail?.map String.ofList)

/-- The flag in an argument, without its dashes; nothing if the argument is no
flag. -/
def flagOf? (argument : String) : Option (List Char) :=
  match argument.toList with
  | '-' :: '-' :: [] => none
  | '-' :: '-' :: rest => some rest
  | '-' :: c :: rest => some (c :: rest)
  | _ => none

/-- Read the arguments one by one, up to the first that is no flag. -/
def parse (s : Settings) : List String → Except SettingsError Settings
  | [] => .ok s
  | argument :: rest =>
    match flagOf? argument with
    | none => .ok s
    | some flag =>
      if flag.head? = some '-' || flag.head? = some '=' then .error (.badFlag argument)
      else match splitValue flag with
        | (name, some value) =>
          if isSwitch name then
            match CommandLine.readSwitch? value with
            | some on => (s.setSwitch name on).parse rest
            | none => .error (.badValue name value)
          else match s.setValue name value with
            | .ok s => s.parse rest
            | .error e => .error e
        | (name, none) =>
          if isSwitch name then (s.setSwitch name true).parse rest
          else match rest with
            | [] => .error (.missingValue name)
            | value :: rest =>
              match s.setValue name value with
              | .ok s => s.parse rest
              | .error e => .error e

end Settings

end Cflat.Golden
