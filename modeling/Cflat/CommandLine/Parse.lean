import Cflat.CommandLine.Flag

/-!
# Parsing arguments

Arguments are read one at a time.  `--name`, `-name` and both with `=value` set a
flag by its long name; a single dash may also lead to a shorthand, whose value
follows at once or in the next argument.  A double dash alone makes the rest
positional, and so is everything else.

The state between two arguments is a flag set and a `Mode`: a flag that takes a
value may still be waiting for it.
-/

namespace Cflat.CommandLine

/-- Why an argument is refused. -/
inductive ParseError
  | unknownLong (name : String)
  | unknown (arg : String)
  /-- `shown` is the flag as it was written. -/
  | needsArgument (shown : String)
  | value (e : ValueError)
  deriving DecidableEq, Repr

namespace ParseError

/-- The text of a refused argument. -/
def message : ParseError → String
  | unknownLong name => "unknown flag: --" ++ name
  | unknown arg => "unknown flag: " ++ arg
  | needsArgument shown => "flag needs an argument: " ++ shown
  | value e => e.message

end ParseError

/-- What one argument asks for, given the flags that exist. -/
inductive Reading
  | terminator
  | positional
  | set (name value : String)
  /-- The value is the next argument. -/
  | setNext (name shown : String)
  | refused (e : ParseError)
  deriving DecidableEq, Repr

/-- The part of an argument before its first `=`, and the part after it. -/
def cutAtEquals (cs : List Char) : String × Option String :=
  match cs.span (· != '=') with
  | (name, []) => (String.ofList name, none)
  | (name, _ :: value) => (String.ofList name, some (String.ofList value))

namespace FlagSet

/-- An argument of one dash that names no long flag.  Its first letter is a
shorthand, the rest is the value; a switch takes no value from the argument. -/
def readShort (fs : FlagSet) (arg : String) (first : Char) (rest : List Char) : Reading :=
  let shorthand := String.singleton first
  match if first.toNat < 0x80 then fs.ofShorthand? shorthand else none with
  | none => .refused (.unknown arg)
  | some f =>
    if f.value.isSwitch then .set f.name ""
    else if rest.isEmpty then .setNext f.name ("-" ++ shorthand)
    else .set f.name (String.ofList rest)

/-- An argument that gives the long name of a flag. -/
def readLong (f : Flag) (arg : String) : Option String → Reading
  | some value => .set f.name value
  | none => if f.value.isSwitch then .set f.name "" else .setNext f.name arg

/-- What an argument asks for.  The long name is tried first, also after a single
dash. -/
def read (fs : FlagSet) (arg : String) : Reading :=
  match arg.toList with
  | ['-', '-'] => .terminator
  | '-' :: '-' :: body =>
    let (name, value) := cutAtEquals body
    match fs.find? name with
    | some f => readLong f arg value
    | none => .refused (.unknownLong name)
  | '-' :: first :: rest =>
    let (name, value) := cutAtEquals (first :: rest)
    match fs.find? name with
    | some f => readLong f arg value
    | none => fs.readShort arg first rest
  | _ => .positional

end FlagSet

/-- What the parser does with the next argument. -/
inductive Mode
  | flags
  | value (name shown : String)
  | rest
  | failed (e : ParseError)
  deriving DecidableEq, Repr

/-- The parser between two arguments. -/
structure ParseState where
  set : FlagSet
  mode : Mode := .flags
  deriving DecidableEq, Repr

namespace ParseState

/-- Give a flag a word as its value. -/
def assign (s : ParseState) (name word : String) : ParseState :=
  match s.set.find? name with
  | none => { s with mode := .flags }
  | some f =>
    match f.value.set word with
    | .ok v => { set := s.set.setValue name v, mode := .flags }
    | .error e => { s with mode := .failed (.value e) }

/-- Keep a positional argument. -/
def addArg (s : ParseState) (arg : String) : ParseState :=
  { s with set := { s.set with args := s.set.args ++ [arg] } }

/-- Take one argument. -/
def step (s : ParseState) (arg : String) : ParseState :=
  match s.mode with
  | .failed _ => s
  | .rest => s.addArg arg
  | .value name _ => s.assign name arg
  | .flags =>
    match s.set.read arg with
    | .terminator => { s with mode := .rest }
    | .positional => s.addArg arg
    | .set name word => s.assign name word
    | .setNext name shown => { s with mode := .value name shown }
    | .refused e => { s with mode := .failed e }

/-- The outcome at the end of the arguments. -/
def result (s : ParseState) : Except ParseError Unit :=
  match s.mode with
  | .failed e => .error e
  | .value _ shown => .error (.needsArgument shown)
  | _ => .ok ()

end ParseState

namespace FlagSet

/-- Parse arguments.  Values set before an error stay set. -/
def parse (fs : FlagSet) (arguments : List String) : FlagSet × Except ParseError Unit :=
  let s := arguments.foldl ParseState.step { set := { fs with args := [] } }
  (s.set, s.result)

end FlagSet

end Cflat.CommandLine
